import OdbcDriver.Transaction.DiscardSteps

/-!
# Runs over the marked objects

`CC_discard_marked_objects` sends one command for each marked object exactly where no command of the
run has a hook that starts it again: a nested call begins with the command that is being answered, and
sends at least as many commands as there are entries left. When the entries it has freed are met
again, or the count falls below zero, there has been such a call. The count is a 16-bit integer: the
32768th mark makes it negative.

* `marked_of_marks`: what the marks leave;
* `loop_calm`, `loop_nested`: a run without a nested call, and one with it;
* `calm_iff`: the commands that may fail;
* `discards_iff`: when each object is discarded once.
-/

namespace OdbcDriver.Discards

open Lib (bind_eq_ok)

/-! ### Marks -/

/-- The objects `objects` have been marked, and nothing has been sent yet. -/
structure AllMarked (objects : List Marked) (s₀ s : DiscardConn) : Prop where
  conn_eq : s.conn = s₀.conn
  committing_eq : s.on_commit_in_progress = s₀.on_commit_in_progress
  sent_eq : s.sent = s₀.sent
  counts_eq : s.counts = s₀.counts
  entry : ∀ i < objects.length, s.discardp[i]?.join = objects[i]?
  count : s.num_discardp = CInt.wrap 16 objects.length
  length_le : objects.length ≤ 32768

/-- The marks, one after the other. -/
def marks (objects : List Marked) (s : DiscardConn) : Option DiscardConn :=
  objects.foldlM (fun s pname => CC_mark_a_object_to_discard pname s) s

theorem wrap_count {n : ℕ} (h : n < 32768) : CInt.wrap 16 n = n :=
  CInt.wrap_of_fits (by decide) (by simp only [CInt.Fits]; omega)

theorem allMarked_of_marks {objects : List Marked} {s₀ s : DiscardConn} (hnum : s₀.num_discardp = 0)
    (h : marks objects s₀ = some s) : AllMarked objects s₀ s := by
  induction objects using List.reverseRecOn generalizing s with
  | nil =>
    obtain rfl := Option.some.inj h
    exact ⟨rfl, rfl, rfl, rfl, fun i hi => absurd hi (Nat.not_lt_zero i), hnum.trans (by decide),
      Nat.zero_le _⟩
  | append_singleton objects pname ih =>
    rw [marks, List.foldlM_append] at h
    obtain ⟨r, hr, hmark⟩ := Option.bind_eq_some_iff.mp h
    have hprev := ih hr
    rw [List.foldlM_cons] at hmark
    obtain ⟨u, hu, hs⟩ := Option.bind_eq_some_iff.mp hmark
    obtain rfl := Option.some.inj hs
    rw [CC_mark_a_object_to_discard] at hu
    split at hu
    · exact absurd hu (by simp)
    · rename_i hpos
      obtain rfl := Option.some.inj hu
      have hlt : objects.length < 32768 := by
        by_contra hge
        have heq : objects.length = 32768 := le_antisymm hprev.length_le (not_lt.mp hge)
        rw [hprev.count, heq] at hpos
        exact hpos (by decide)
      have hcount : r.num_discardp = objects.length := hprev.count.trans (wrap_count hlt)
      refine ⟨hprev.conn_eq, hprev.committing_eq, hprev.sent_eq, hprev.counts_eq, ?_, ?_, ?_⟩
      · intro i hi
        rw [List.length_append, List.length_singleton] at hi
        simp only [hcount]
        rcases Nat.lt_succ_iff_lt_or_eq.mp hi with hlow | rfl
        · have hentry := hprev.entry i hlow
          have hsize : i < r.discardp.length := by
            by_contra hout
            rw [List.getElem?_eq_none (not_lt.mp hout)] at hentry
            exact absurd hentry.symm (by simp [hlow])
          rw [List.getElem?_append_left hlow, ← hentry, List.getElem?_set_ne (by omega)]
          rw [HeapArray.realloc, List.getElem?_append_left (by simp; omega), List.getElem?_take]
          rw [if_pos (by omega)]
        · rw [List.getElem?_append_right le_rfl, Nat.sub_self]
          simp
      · rw [hcount]
        simp
      · rw [List.length_append, List.length_singleton]
        omega

/-! ### The loop -/

section Loop

variable {o : SavepointOptions} {answers : ℕ → Bool} {fuel : ℕ} {objects : List Marked}
  {s : DiscardConn}

/-- No command of the next `i` has a hook that starts again, from the `k`-th command on. -/
def calm (o : SavepointOptions) (committing : Bool) (answers : ℕ → Bool) : Mode → ℕ → ℕ → Prop
  | _, _, 0 => True
  | m, k, i + 1 =>
    match m.next o committing (answers k) with
    | none => False
    | some m' => calm o committing answers m' (k + 1) i

/-- The first `i` objects have not been discarded. -/
structure Left (objects : List Marked) (i : ℕ) (s : DiscardConn) : Prop where
  entry : ∀ j < i, s.discardp[j]?.join = objects[j]?
  count : s.num_discardp = i
  le_length : i ≤ objects.length

/-- How a discard command is sent at one level of the calls. -/
def sendAt (o : SavepointOptions) (answers : ℕ → Bool) (fuel : ℕ) (pname : Marked) (s : DiscardConn) :
    Except Fault DiscardConn :=
  sendDiscard (CC_discard_marked_objects o answers fuel) o (answers s.sent.length)
    (discardCommand pname) s

theorem discardLoop_succ {i : ℕ} {pname : Marked} (hleft : Left objects (i + 1) s)
    (hobject : objects[i]? = some pname) :
    discardLoop (sendAt o answers fuel) (i + 1) s =
      sendAt o answers fuel pname s >>= fun s => discardLoop (sendAt o answers fuel) i (s.free i) := by
  rw [discardLoop, hleft.entry i (Nat.lt_succ_self i), hobject]

theorem Left.step {i : ℕ} (hleft : Left objects (i + 1) s) (cmd : List Byte) (c : Conn) :
    Left objects i ((s.queried cmd c).free i) := by
  refine ⟨fun j hj => ?_, ?_, Nat.le_of_succ_le hleft.le_length⟩
  · have hentry := hleft.entry j (Nat.lt_succ_of_lt hj)
    have hset : ((s.queried cmd c).free i).discardp = s.discardp.set i none := rfl
    rw [hset, List.getElem?_set_ne (by omega), hentry]
  · have hcount : ((s.queried cmd c).free i).num_discardp = s.num_discardp - 1 := rfl
    rw [hcount, hleft.count]
    omega

theorem Left.object {i : ℕ} (hleft : Left objects (i + 1) s) : ∃ pname, objects[i]? = some pname :=
  ⟨objects.get ⟨i, hleft.le_length⟩, List.getElem?_eq_getElem hleft.le_length⟩

/-- A run without a nested call discards each object once. -/
theorem loop_calm {m : Mode} {i : ℕ} (hm : m.Of s) (hleft : Left objects i s)
    (hcalm : calm o s.on_commit_in_progress answers m s.sent.length i) :
    ∃ t, discardLoop (sendAt o answers fuel) i s = .ok t ∧
      t.sent = (objects.take i).map discardCommand ++ s.sent ∧ t.num_discardp = 0 ∧
      ∀ c ∈ t.counts, c ∈ s.counts ∨ 0 ≤ c := by
  induction i generalizing s m with
  | zero => exact ⟨s, rfl, rfl, hleft.count, fun c hc => Or.inl hc⟩
  | succ i ih =>
    obtain ⟨pname, hobject⟩ := hleft.object
    rw [discardLoop_succ hleft hobject]
    rw [calm] at hcalm
    cases hnext : m.next o s.on_commit_in_progress (answers s.sent.length) with
    | none =>
      rw [hnext] at hcalm
      exact hcalm.elim
    | some m' =>
      rw [hnext] at hcalm
      obtain ⟨c, hsend, hm'⟩ := @sendDiscard_calm (CC_discard_marked_objects o answers fuel) s o _
        (discardCommand pname) m m' hm hnext
      have hfree : m'.Of ((s.queried (discardCommand pname) c).free i) := by
        cases m' <;> exact hm'
      obtain ⟨t, ht, hsent, hcount, hcounts⟩ := ih hfree (hleft.step _ c) hcalm
      refine ⟨t, ?_, ?_, hcount, ?_⟩
      · rw [sendAt, hsend]
        exact ht
      · rw [hsent, List.take_add_one, hobject, List.map_append, List.append_assoc]
        rfl
      · intro x hx
        rcases hcounts x hx with hx | hx
        · rcases List.mem_cons.mp hx with rfl | hx
          · refine Or.inr ?_
            have hpos : s.num_discardp = (i + 1 : ℕ) := hleft.count
            show (0 : ℤ) ≤ s.num_discardp - 1
            omega
          · exact Or.inl hx
        · exact Or.inr hx

/-- A nested call sends more commands than there are objects. -/
theorem loop_nested {m : Mode} {i : ℕ} (hm : m.Of s) (hleft : Left objects i s)
    (hnested : ¬calm o s.on_commit_in_progress answers m s.sent.length i) {t : DiscardConn}
    (hok : discardLoop (sendAt o answers fuel) i s = .ok t) :
    s.sent.length + i < t.sent.length := by
  have hsends := length_le_of_discard o answers fuel
  induction i generalizing s m with
  | zero => exact absurd trivial hnested
  | succ i ih =>
    obtain ⟨pname, hobject⟩ := hleft.object
    rw [discardLoop_succ hleft hobject] at hok
    obtain ⟨u, hu, ht⟩ := bind_eq_ok.mp hok
    rw [calm] at hnested
    cases hnext : m.next o s.on_commit_in_progress (answers s.sent.length) with
    | none =>
      have hmore := sendDiscard_nested hsends hm hnext hu
      have hcount : s.num_discardp = (i + 1 : ℕ) := hleft.count
      have hrest := length_le_of_loop
        (fun _ _ _ hsend => length_le_of_sendDiscard hsends hsend) i ht
      have hfree : (u.free i).sent = u.sent := rfl
      rw [hfree] at hrest
      omega
    | some m' =>
      rw [hnext] at hnested
      obtain ⟨c, hsend, hm'⟩ := @sendDiscard_calm (CC_discard_marked_objects o answers fuel) s o _
        (discardCommand pname) m m' hm hnext
      obtain rfl : s.queried (discardCommand pname) c = u := Except.ok.inj (hsend.symm.trans hu)
      have hfree : m'.Of ((s.queried (discardCommand pname) c).free i) := by
        cases m' <;> exact hm'
      have hrest := ih hfree (hleft.step _ c) hnested ht
      have hsent : ((s.queried (discardCommand pname) c).free i).sent.length = s.sent.length + 1 := rfl
      omega

end Loop

/-! ### The commands that may fail -/

/-- Which of `n` commands may fail: in a transaction none, unless it stays in error, as it does
without savepoints, or is in error already; outside one none either, but while the hook for the end of
a transaction is running one, and without savepoints any. -/
def Harmless (o : SavepointOptions) (committing : Bool) (answers : ℕ → Bool) (n : ℕ) : Mode → Prop
  | .failed => True
  | .inside => (o.version_ge_8_0 = true ∧ o.for_extension_connector = true) ∨
      ∀ j < n, answers j = true
  | .outside =>
    if committing then
      if o.version_ge_8_0 then
        o.for_extension_connector = true ∨ ∀ j, j + 1 < n → answers j = true
      else ∀ j l, j < l → l < n → answers j = false → answers l = true
    else ∀ j < n, answers j = true
  | .stale =>
    if o.version_ge_8_0 then o.for_extension_connector = true ∨ n = 0
    else ∀ j < n, answers j = true

section Answers

variable {o : SavepointOptions} {committing : Bool} {answers : ℕ → Bool}

theorem one_fails_of_failed (h : answers 0 = false) (n : ℕ) :
    (∀ j l, j < l → l < n + 1 → answers j = false → answers l = true) ↔
      ∀ j < n, answers (j + 1) = true := by
  constructor
  · exact fun hone j hj => hone 0 (j + 1) (Nat.succ_pos j) (Nat.succ_lt_succ hj) h
  · intro hrest j l hjl hl _
    obtain ⟨l, rfl⟩ := Nat.exists_eq_add_one_of_ne_zero (Nat.ne_zero_of_lt hjl)
    exact hrest l (Nat.lt_of_succ_lt_succ hl)

theorem one_fails_of_ok (h : answers 0 = true) (n : ℕ) :
    (∀ j l, j < l → l < n + 1 → answers j = false → answers l = true) ↔
      ∀ j l, j < l → l < n → answers (j + 1) = false → answers (l + 1) = true := by
  constructor
  · exact fun hone j l hjl hl => hone (j + 1) (l + 1) (Nat.succ_lt_succ hjl) (Nat.succ_lt_succ hl)
  · intro hone j l hjl hl hfail
    obtain ⟨l, rfl⟩ := Nat.exists_eq_add_one_of_ne_zero (Nat.ne_zero_of_lt hjl)
    cases j with
    | zero => exact absurd hfail (by simp [h])
    | succ j => exact hone j l (Nat.lt_of_succ_lt_succ hjl) (Nat.lt_of_succ_lt_succ hl) hfail

theorem last_fails_of_failed (h : answers 0 = false) (n : ℕ) :
    (∀ j < n, answers j = true) ↔ n = 0 := by
  constructor
  · intro hall
    by_contra hne
    exact absurd (hall 0 (Nat.pos_of_ne_zero hne)) (by simp [h])
  · rintro rfl j hj
    exact absurd hj (Nat.not_lt_zero j)

theorem last_fails_of_ok (h : answers 0 = true) (n : ℕ) :
    (∀ j < n, answers j = true) ↔ ∀ j, j + 1 < n → answers (j + 1) = true := by
  constructor
  · exact fun hall j hj => hall (j + 1) hj
  · intro hall j hj
    cases j with
    | zero => exact h
    | succ j => exact hall j hj

/-- The first command, and the others. -/
theorem harmless_succ (m : Mode) (n : ℕ) :
    Harmless o committing answers (n + 1) m ↔
      ∃ m', m.next o committing (answers 0) = some m' ∧
        Harmless o committing (fun j => answers (j + 1)) n m' := by
  obtain ⟨ext, rt, ver⟩ := o
  have hall : (∀ j < n + 1, answers j = true) ↔
      answers 0 = true ∧ ∀ j < n, answers (j + 1) = true := Nat.forall_lt_succ_left
  cases m with
  | failed => cases h : answers 0 <;> simp [Harmless, Mode.next]
  | inside =>
    simp only [Harmless, hall]
    cases ver <;> cases ext <;> cases h : answers 0 <;> simp [Mode.next]
  | stale =>
    simp only [Harmless, hall]
    cases ver <;> cases ext <;> cases h : answers 0 <;> simp [Mode.next]
  | outside =>
    cases committing with
    | false =>
      simp only [Harmless, hall]
      cases h : answers 0 <;> simp [Mode.next]
    | true =>
      cases h : answers 0
      · cases ver
        · simpa [Harmless, Mode.next] using one_fails_of_failed h n
        · cases ext
          · simpa [Harmless, Mode.next] using last_fails_of_failed h n
          · simp [Harmless, Mode.next]
      · cases ver
        · simpa [Harmless, Mode.next] using one_fails_of_ok h n
        · cases ext
          · simpa [Harmless, Mode.next] using last_fails_of_ok h n
          · simp [Harmless, Mode.next]

theorem calm_iff (m : Mode) (k n : ℕ) :
    calm o committing answers m k n ↔ Harmless o committing (fun j => answers (k + j)) n m := by
  induction n generalizing m k with
  | zero =>
    rw [calm, true_iff]
    cases m with
    | failed => trivial
    | inside => exact Or.inr fun j hj => absurd hj (Nat.not_lt_zero j)
    | stale => simp [Harmless]
    | outside => simp [Harmless]
  | succ n ih =>
    have hshift : (fun j => answers (k + (j + 1))) = fun j => answers (k + 1 + j) :=
      funext fun j => congrArg answers (by omega)
    rw [harmless_succ, calm, hshift]
    cases hnext : m.next o committing (answers k) with
    | none => simp
    | some m' => simp [ih]

end Answers

/-! ### Each object once -/

/-- `CC_discard_marked_objects` ends, has sent one command for each object, and has left the count,
which was never negative, at zero. -/
def Discarded (o : SavepointOptions) (answers : ℕ → Bool) (objects : List Marked) (s : DiscardConn) :
    Prop :=
  ∃ fuel t, CC_discard_marked_objects o answers fuel s = .ok t ∧
    t.sent = objects.map discardCommand ++ s.sent ∧ t.num_discardp = 0 ∧
    ∀ c ∈ t.counts, c ∈ s.counts ∨ 0 ≤ c

theorem discarded_of_calm {o : SavepointOptions} {answers : ℕ → Bool} {objects : List Marked}
    {s₀ s : DiscardConn} {m : Mode} (hm : m.Of s) (hmarked : AllMarked objects s₀ s)
    (hlength : objects.length < 32768)
    (hcalm : calm o s.on_commit_in_progress answers m s.sent.length objects.length) :
    Discarded o answers objects s := by
  have hcount : s.num_discardp = objects.length := hmarked.count.trans (wrap_count hlength)
  have hleft : Left objects objects.length s := ⟨hmarked.entry, hcount, le_rfl⟩
  obtain ⟨t, ht, hsent, hzero, hcounts⟩ := @loop_calm o answers 0 _ _ _ _ hm hleft hcalm
  refine ⟨1, t, ?_, by rw [hsent, List.take_length], hzero, hcounts⟩
  rw [CC_discard_marked_objects, hcount]
  split
  · rename_i hnone
    have hnil : objects.length = 0 := by omega
    rw [hnil] at ht
    exact ht
  · exact ht

theorem not_discarded_of_nested {o : SavepointOptions} {answers : ℕ → Bool} {objects : List Marked}
    {s₀ s : DiscardConn} {m : Mode} (hm : m.Of s) (hmarked : AllMarked objects s₀ s)
    (hlength : objects.length < 32768)
    (hnested : ¬calm o s.on_commit_in_progress answers m s.sent.length objects.length) :
    ¬Discarded o answers objects s := by
  rintro ⟨fuel, t, ht, hsent, -, -⟩
  have hcount : s.num_discardp = objects.length := hmarked.count.trans (wrap_count hlength)
  have hleft : Left objects objects.length s := ⟨hmarked.entry, hcount, le_rfl⟩
  cases fuel with
  | zero => exact absurd ht (by simp [CC_discard_marked_objects])
  | succ fuel =>
    rw [CC_discard_marked_objects, hcount] at ht
    split at ht
    · rename_i hnone
      have hnil : objects.length = 0 := by omega
      rw [hnil] at hnested
      exact hnested trivial
    · have hmore := loop_nested hm hleft hnested ht
      rw [hsent, List.length_append, List.length_map] at hmore
      omega

/-- With 32768 marks the count is negative, and nothing is sent. -/
theorem not_discarded_of_full {o : SavepointOptions} {answers : ℕ → Bool} {objects : List Marked}
    {s₀ s : DiscardConn} (hmarked : AllMarked objects s₀ s) (hlength : ¬objects.length < 32768) :
    ¬Discarded o answers objects s := by
  rintro ⟨fuel, t, ht, -, hzero, -⟩
  have heq : objects.length = 32768 := le_antisymm hmarked.length_le (not_lt.mp hlength)
  have hcount : s.num_discardp = -32768 := by
    rw [hmarked.count, heq]
    decide
  cases fuel with
  | zero => exact absurd ht (by simp [CC_discard_marked_objects])
  | succ fuel =>
    rw [CC_discard_marked_objects, if_pos (by omega)] at ht
    obtain rfl := Except.ok.inj ht
    omega

/-- **Each marked object is discarded once**, whatever has been marked, exactly where the count holds
the marks and no command fails that may not. -/
theorem discards_iff (o : SavepointOptions) (answers : ℕ → Bool) {conn : Conn} {committing : Bool}
    {old : List (Option Marked)} {m : Mode} (hm : m.Of ⟨conn, committing, old, 0, [], []⟩)
    {objects : List Marked} {s : DiscardConn}
    (hmarks : marks objects ⟨conn, committing, old, 0, [], []⟩ = some s) :
    Discarded o answers objects s ↔
      objects.length < 32768 ∧ Harmless o committing answers objects.length m := by
  have hmarked := allMarked_of_marks rfl hmarks
  have hmode : m.Of s := by
    have hconn : s.conn = conn := hmarked.conn_eq
    have hcommitting : s.on_commit_in_progress = committing := hmarked.committing_eq
    cases m <;> simpa only [Mode.Of, hconn, hcommitting] using hm
  have hcalm : calm o s.on_commit_in_progress answers m s.sent.length objects.length ↔
      Harmless o committing answers objects.length m := by
    rw [calm_iff, hmarked.committing_eq, hmarked.sent_eq]
    simp
  by_cases hlength : objects.length < 32768
  · simp only [hlength, true_and]
    by_cases hrun : calm o s.on_commit_in_progress answers m s.sent.length objects.length
    · exact iff_of_true (discarded_of_calm hmode hmarked hlength hrun) (hcalm.mp hrun)
    · exact iff_of_false (not_discarded_of_nested hmode hmarked hlength hrun) (mt hcalm.mpr hrun)
  · exact iff_of_false (not_discarded_of_full hmarked hlength) fun h => hlength h.1

/-! ### A command that fails in a transaction -/

/-- A transaction has been opened. -/
def opened : Conn where
  server := ⟨some ⟨[], false⟩, 0, 0⟩
  in_trans := true
  in_error_trans := false
  in_manual_trans := true
  in_autocommit := false
  internal_svp := false
  internal_op := .none
  accessed_db := false
  started_rbpoint := false
  opt_in_progress := true
  opt_previous := true
  exchanges := []
  strays := []
  on_commits := 0
  on_aborts := 0

theorem inside_opened : Mode.inside.Of ⟨opened, false, [], 0, [], []⟩ :=
  ⟨[], ⟨rfl, rfl, rfl, by decide⟩, rfl⟩

/-- A prepared statement. -/
def onePlan : Marked := ⟨0x73, ascii "_PLAN1"⟩

/-- The connection with the plan marked. -/
def onePlanMarked : DiscardConn := ⟨opened, false, [some onePlan], 1, [], []⟩

theorem marks_onePlan : marks [onePlan] ⟨opened, false, [], 0, [], []⟩ = some onePlanMarked := rfl

/-- The plan is discarded when the server carries its command out. -/
theorem onePlan_discarded : Discarded ⟨false, false, true⟩ (fun _ => true) [onePlan] onePlanMarked :=
  (discards_iff ⟨false, false, true⟩ (fun _ => true) inside_opened marks_onePlan).mpr
    ⟨by decide, Or.inr fun _ _ => rfl⟩

/-- In the transaction its `DEALLOCATE` fails, and is sent again while it is being answered. -/
theorem onePlan_not_discarded :
    ¬Discarded ⟨false, false, true⟩ (fun _ => false) [onePlan] onePlanMarked := by
  have hm : Mode.inside.Of onePlanMarked := inside_opened
  exact not_discarded_of_nested hm (allMarked_of_marks rfl marks_onePlan) (by decide) id

end OdbcDriver.Discards
