import Mathlib.Data.List.Chain

/-!
# Erasing while stepping over

A loop that takes the entries with a property out of an array in place, and steps on after each
removal, steps over the entry that moved into the place. `skipErase` is what such a loop leaves of a
list; it may also give up, at an entry with the property that it is told to stop at.

`eraseLoop` is the loop itself, over whatever state the list is kept in: `eraseLoop_holds` says that it
leaves `skipErase` of the list, given what a test and a removal mean for the list.

Without a place to stop, the loop does what it is for exactly when no two neighbours have the property
(`skipErase_eq_filter_iff`). `dropNewer` takes out those entries with the property that come after the
last one to stop at. A loop that stops goes through the list from the wrong end for that: what it
leaves is `dropNewer` exactly when there is nothing to stop at and no two neighbours have the
property, or when nothing is to be taken out and the first entry with the property is one to stop at
(`skipErase_eq_dropNewer_iff`).
-/

namespace OdbcDriver.SkipErase

universe u

variable {α : Type u} (hit stop : α → Bool)

/-- What a loop leaves that takes out the entries with the property `hit`, up to the first of them
with the property `stop`, and steps over the entry behind each that it takes out. -/
def skipErase : List α → List α
  | [] => []
  | [a] => if hit a && !stop a then [] else [a]
  | a :: b :: l =>
    if hit a then if stop a then a :: b :: l else b :: skipErase l
    else a :: skipErase (b :: l)

/-- The loop: it goes one place on in every round, and takes out what it finds with the property. -/
def eraseLoop {σ : Type u} (count : σ → Nat) (hit stop : σ → Nat → Bool) (remove : σ → Nat → σ) :
    Nat → Nat → σ → σ
  | 0, _, s => s
  | fuel + 1, i, s =>
    if i < count s then
      if hit s i then
        if stop s i then s else eraseLoop count hit stop remove fuel (i + 1) (remove s i)
      else eraseLoop count hit stop remove fuel (i + 1) s
    else s

/-- No two neighbours have the property. -/
def Apart (l : List α) : Prop := l.IsChain fun a b => ¬ (hit a ∧ hit b)

/-- Without the entries with the property `hit` that come after the last of them with the property
`stop`. -/
def dropNewer : List α → List α
  | [] => []
  | a :: l =>
    if hit a && !(stop a || l.any fun b => hit b && stop b) then dropNewer l else a :: dropNewer l

variable {hit stop}

theorem dropNewer_cons (a : α) (l : List α) : dropNewer hit stop (a :: l) =
    if hit a && !(stop a || l.any fun b => hit b && stop b) then dropNewer hit stop l
    else a :: dropNewer hit stop l :=
  rfl

theorem skipErase_cons_cons (a b : α) (l : List α) : skipErase hit stop (a :: b :: l) =
    if hit a then if stop a then a :: b :: l else b :: skipErase hit stop l
    else a :: skipErase hit stop (b :: l) :=
  rfl

theorem eraseLoop_succ {σ : Type u} {count : σ → Nat} {hits stops : σ → Nat → Bool}
    {remove : σ → Nat → σ} (fuel i : Nat) (s : σ) :
    eraseLoop count hits stops remove (fuel + 1) i s =
      if i < count s then
        if hits s i then
          if stops s i then s else eraseLoop count hits stops remove fuel (i + 1) (remove s i)
        else eraseLoop count hits stops remove fuel (i + 1) s
      else s :=
  rfl

theorem skipErase_miss {a : α} (ha : hit a = false) (l : List α) :
    skipErase hit stop (a :: l) = a :: skipErase hit stop l := by
  match l with
  | [] => simp [skipErase, ha]
  | b :: l => simp [skipErase, ha]

theorem skipErase_stop {a : α} (ha : hit a = true) (hs : stop a = true) (l : List α) :
    skipErase hit stop (a :: l) = a :: l := by
  match l with
  | [] => simp [skipErase, hs]
  | b :: l => simp [skipErase, ha, hs]

/-- What is left is left in order. -/
theorem skipErase_sublist (l : List α) : (skipErase hit stop l).Sublist l := by
  fun_induction skipErase hit stop l with
  | case1 => exact .slnil
  | case2 a ha => exact List.nil_sublist _
  | case3 a ha => exact .refl _
  | case4 a b l ha hs => exact .refl _
  | case5 a b l ha hs ih => exact (ih.cons_cons b).cons a
  | case6 a b l ha ih => exact ih.cons_cons a

/-- Where nothing is to stop at, the loop goes through. -/
theorem skipErase_of_no_stop {l : List α} (h : ∀ a ∈ l, hit a = true → stop a = false) :
    skipErase hit stop l = skipErase hit (fun _ => false) l := by
  fun_induction skipErase hit stop l with
  | case1 => rfl
  | case2 a ha => grind [skipErase]
  | case3 a ha => grind [skipErase]
  | case4 a b l ha hs => exact absurd (h a (by simp) ha) (by simp [hs])
  | case5 a b l ha hs ih =>
    rw [ih fun c hc => h c (by simp [hc])]
    simp [skipErase, ha]
  | case6 a b l ha ih =>
    rw [ih fun c hc => h c (by simp [List.mem_cons.mp hc])]
    simp [skipErase, ha]

/-- The entries with the property are all taken out exactly when no two of them are neighbours: the
second of the first two that are is left. -/
theorem skipErase_eq_filter_iff {l : List α} :
    skipErase hit (fun _ => false) l = l.filter (!hit ·) ↔ Apart hit l := by
  fun_induction skipErase hit (fun _ => false) l with
  | case1 => simp [Apart]
  | case2 a ha => grind [Apart]
  | case3 a ha => grind [Apart]
  | case4 a b l ha hs => exact absurd hs (by simp)
  | case5 a b l ha hs ih =>
    simp only [Apart, List.isChain_cons_cons, ha, true_and]
    by_cases hb : hit b = true
    · -- the neighbour is left, though it has the property
      simp only [hb, not_true, false_and, iff_false]
      intro heq
      have hmem : b ∈ (a :: b :: l).filter (!hit ·) := heq ▸ List.mem_cons_self
      simp [hb] at hmem
    · simp only [Bool.not_eq_true] at hb
      have hrest : (b :: l).IsChain (fun a b => ¬ (hit a ∧ hit b)) ↔ Apart hit l := by
        cases l with
        | nil => simp [Apart]
        | cons c l => simp [Apart, hb]
      simp only [hb, hrest, ← ih]
      simp [ha, hb]
  | case6 a b l ha ih =>
    simp only [Bool.not_eq_true] at ha
    simp only [Apart, List.isChain_cons_cons, ha] at ih ⊢
    simp [ha, ih]

/-! ### The loop -/

section Loop

variable {σ : Type u} {count : σ → Nat} {hits stops : σ → Nat → Bool} {remove : σ → Nat → σ}

/-- Behind the last entry the loop ends. -/
theorem eraseLoop_end {fuel i : Nat} {s : σ} (h : count s ≤ i) :
    eraseLoop count hits stops remove fuel i s = s := by
  cases fuel with
  | zero => rfl
  | succ fuel => rw [eraseLoop_succ, if_neg (by omega)]

/-- What a removal keeps, the loop keeps. -/
theorem eraseLoop_invariant {P : σ → Prop} (hremove : ∀ s i, P s → P (remove s i)) {fuel i : Nat}
    {s : σ} (h : P s) : P (eraseLoop count hits stops remove fuel i s) := by
  induction fuel generalizing i s with
  | zero => exact h
  | succ fuel ih =>
    rw [eraseLoop_succ]
    split
    · split
      · split
        · exact h
        · exact ih (hremove s i h)
      · exact ih h
    · exact h

/-- The loop leaves of the entries from its place on what `skipErase` leaves. -/
theorem eraseLoop_holds {Holds : σ → List α → Prop}
    (hcount : ∀ {s l}, Holds s l → count s = l.length)
    (hhit : ∀ {s l i a}, Holds s l → l[i]? = some a → hits s i = hit a)
    (hstop : ∀ {s l i a}, Holds s l → l[i]? = some a → stops s i = stop a)
    (hremove : ∀ {s l i}, Holds s l → i < l.length → Holds (remove s i) (l.eraseIdx i)) {fuel : Nat} :
    ∀ {s : σ} (done : List α) {l : List α}, Holds s (done ++ l) → l.length ≤ fuel →
      Holds (eraseLoop count hits stops remove fuel done.length s)
        (done ++ skipErase hit stop l) := by
  induction fuel with
  | zero =>
    intro s done l h hlen
    obtain rfl : l = [] := List.length_eq_zero_iff.mp (by omega)
    exact h
  | succ fuel ih =>
    intro s done l h hlen
    rcases l with _ | ⟨a, l⟩
    · rw [eraseLoop_end (by rw [hcount h, List.append_nil])]
      exact h
    have hlen' : l.length ≤ fuel := Nat.le_of_succ_le_succ hlen
    have hlt : done.length < count s := by rw [hcount h]; simp
    have ha : (done ++ a :: l)[done.length]? = some a := by simp
    rw [eraseLoop_succ, if_pos hlt, hhit h ha, hstop h ha]
    by_cases hrow : hit a = true
    · rw [if_pos hrow]
      by_cases hs : stop a = true
      · rw [if_pos hs, skipErase_stop hrow hs]
        exact h
      · have hrest : Holds (remove s done.length) (done ++ l) := by
          have herase := hremove h (show done.length < (done ++ a :: l).length by simp)
          rwa [List.eraseIdx_append_of_length_le (le_refl _), Nat.sub_self,
            List.eraseIdx_cons_zero] at herase
        rw [if_neg hs]
        rcases l with _ | ⟨b, l⟩
        · have hend : count (remove s done.length) ≤ done.length + 1 := by
            rw [hcount hrest, List.append_nil]
            omega
          rw [eraseLoop_end hend]
          simpa [skipErase, hrow, hs] using hrest
        · -- the entry that moved up is stepped over
          have hstep := ih (done ++ [b]) (by simpa using hrest) (Nat.le_of_succ_le hlen')
          rw [skipErase_cons_cons, if_pos hrow, if_neg hs]
          simpa using hstep
    · have hstep := ih (done ++ [a]) (by simpa using h) hlen'
      rw [if_neg hrow, skipErase_miss (by simpa using hrow)]
      simpa using hstep

end Loop

/-! ### With a place to stop -/

/-- Nothing is newer than what comes last. -/
theorem dropNewer_of_last {l : List α} (h : ∀ a, (l.filter hit).getLast? = some a → stop a = true) :
    dropNewer hit stop l = l := by
  induction l with
  | nil => rfl
  | cons a l ih =>
    have hl : ∀ b, (l.filter hit).getLast? = some b → stop b = true := by
      intro b hb
      refine h b ?_
      rw [List.filter_cons]
      split
      · rw [List.getLast?_cons, hb]; rfl
      · exact hb
    rw [dropNewer_cons, ih hl, if_neg]
    simp only [Bool.and_eq_true, Bool.not_eq_true', Bool.or_eq_false_iff, not_and, Bool.not_eq_false]
    intro ha hs
    -- a later entry has the property, and the last of them is one to stop at
    rcases hlast : (l.filter hit).getLast? with _ | b
    · have hnil := List.getLast?_eq_none_iff.mp hlast
      have := h a (by rw [List.filter_cons_of_pos ha, hnil]; rfl)
      simp [this] at hs
    · have hb := List.mem_filter.mp (List.mem_of_getLast? hlast)
      exact List.any_eq_true.mpr ⟨b, hb.1, by simp [hb.2, hl b hlast]⟩

/-- Where nothing is to stop at, all are newer. -/
theorem dropNewer_of_no_stop {l : List α} (h : ∀ a ∈ l, hit a = true → stop a = false) :
    dropNewer hit stop l = l.filter (!hit ·) := by
  induction l with
  | nil => rfl
  | cons a l ih =>
    have hl : ∀ b ∈ l, hit b = true → stop b = false := fun b hb => h b (by simp [hb])
    have hany : (l.any fun b => hit b && stop b) = false := by
      simp only [List.any_eq_false, Bool.and_eq_true, not_and, Bool.not_eq_true]
      exact hl
    rw [dropNewer_cons, ih hl, hany]
    by_cases ha : hit a = true
    · simp [ha, h a (by simp) ha]
    · simp [ha]

/-- What is left ends, of the entries with the property, with one to stop at. -/
theorem dropNewer_last {l : List α} (h : ∃ a ∈ l, hit a = true ∧ stop a = true) :
    ∃ a, ((dropNewer hit stop l).filter hit).getLast? = some a ∧ stop a = true := by
  induction l with
  | nil => simp at h
  | cons a l ih =>
    rw [dropNewer_cons]
    by_cases hl : ∃ b ∈ l, hit b = true ∧ stop b = true
    · obtain ⟨b, hb, hs⟩ := ih hl
      have hany : (l.any fun b => hit b && stop b) = true := by simpa using hl
      refine ⟨b, ?_, hs⟩
      rw [hany, Bool.or_true, Bool.not_true, Bool.and_false, if_neg Bool.false_ne_true,
        List.filter_cons]
      split
      · rw [List.getLast?_cons, hb]; rfl
      · exact hb
    · obtain ⟨b, hb, hhit, hstop⟩ := h
      rcases List.mem_cons.mp hb with rfl | hb
      · have hno : ∀ c ∈ l, hit c = true → stop c = false := fun c hc hh => by
          by_contra hs
          exact hl ⟨c, hc, hh, by simpa using hs⟩
        refine ⟨b, ?_, hstop⟩
        simp [hstop, hhit, dropNewer_of_no_stop hno]
      · exact absurd ⟨b, hb, hhit, hstop⟩ hl

/-- No entry to stop at is taken out as newer. -/
theorem any_dropNewer (l : List α) :
    ((dropNewer hit stop l).any fun b => hit b && stop b) = l.any fun b => hit b && stop b := by
  induction l with
  | nil => rfl
  | cons a l ih =>
    rw [dropNewer_cons]
    split
    · next h =>
      simp only [Bool.and_eq_true, Bool.not_eq_true', Bool.or_eq_false_iff] at h
      simp [ih, h.2.1, h.2.2]
    · simp [ih]

/-- What is newer is taken out at once. -/
theorem dropNewer_dropNewer (l : List α) :
    dropNewer hit stop (dropNewer hit stop l) = dropNewer hit stop l := by
  induction l with
  | nil => rfl
  | cons a l ih =>
    rw [dropNewer_cons]
    split
    · exact ih
    · next h => rw [dropNewer_cons, any_dropNewer, if_neg h, ih]

/-- The loop takes out no entry to stop at: it stops there, or steps over it. -/
theorem any_skipErase (l : List α) :
    ((skipErase hit stop l).any fun b => hit b && stop b) = l.any fun b => hit b && stop b := by
  fun_induction skipErase hit stop l <;> grind

/-- The loop leaves no more up to the last entry to stop at than there was. -/
theorem dropNewer_skipErase_length (l : List α) :
    (dropNewer hit stop (skipErase hit stop l)).length ≤ (dropNewer hit stop l).length := by
  fun_induction skipErase hit stop l with
  | case1 => exact le_refl _
  | case2 a ha => simp [dropNewer]
  | case3 a ha => exact le_refl _
  | case4 a b l ha hs => exact le_refl _
  | case5 a b l ha hs ih =>
    have hb : (dropNewer hit stop (b :: skipErase hit stop l)).length ≤
        (dropNewer hit stop (b :: l)).length := by
      rw [dropNewer_cons, dropNewer_cons, any_skipErase]
      split
      · exact ih
      · exact Nat.succ_le_succ ih
    rw [dropNewer_cons (l := b :: l)]
    split
    · exact hb
    · exact hb.trans (Nat.le_succ _)
  | case6 a b l ha ih =>
    rw [dropNewer_cons, dropNewer_cons, any_skipErase]
    split
    · exact ih
    · exact Nat.succ_le_succ ih

/-- Where the loop does not start with an entry to stop at, it takes out an entry that is not newer
than the last one. -/
theorem dropNewer_skipErase_length_lt {l : List α} {a : α} (ha : (l.filter hit).head? = some a)
    (hs : stop a = false) (h : (l.any fun b => hit b && stop b) = true) :
    (dropNewer hit stop (skipErase hit stop l)).length < (dropNewer hit stop l).length := by
  induction l with
  | nil => simp at ha
  | cons b l ih =>
    by_cases hb : hit b = true
    · obtain rfl : b = a := by simpa [hb] using ha
      have hl : (l.any fun b => hit b && stop b) = true := by simpa [hs] using h
      rw [dropNewer_cons, hl, Bool.or_true, Bool.not_true, Bool.and_false, if_neg Bool.false_ne_true,
        List.length_cons, Nat.lt_succ_iff]
      cases l with
      | nil => simp at hl
      | cons c l =>
        rw [skipErase_cons_cons, if_pos hb, if_neg (by simp [hs]), dropNewer_cons, dropNewer_cons, any_skipErase]
        split
        · exact dropNewer_skipErase_length l
        · exact Nat.succ_le_succ (dropNewer_skipErase_length l)
    · simp only [Bool.not_eq_true] at hb
      rw [skipErase_miss hb, dropNewer_cons, dropNewer_cons]
      simp only [hb, Bool.false_and, Bool.false_eq_true, if_false, List.length_cons,
        Nat.succ_lt_succ_iff]
      exact ih (by simpa [hb] using ha) (by simpa [hb] using h)

/-- A loop that starts with an entry to stop at leaves everything. -/
theorem skipErase_of_first {l : List α}
    (h : ∀ a, (l.filter hit).head? = some a → stop a = true) : skipErase hit stop l = l := by
  induction l with
  | nil => rfl
  | cons a l ih =>
    by_cases ha : hit a = true
    · exact skipErase_stop ha (h a (by simp [ha])) l
    · simp only [Bool.not_eq_true] at ha
      rw [skipErase_miss ha, ih fun b hb => h b (by simpa [ha] using hb)]

variable (hit stop)

/-- All entries with the property may go, and no two of them are neighbours; or none may go, and the
loop starts with one to stop at. -/
def NothingSkipped (l : List α) : Prop :=
  ((l.any fun a => hit a && stop a) = false ∧ Apart hit l) ∨
    (∃ a, (l.filter hit).head? = some a ∧ stop a = true) ∧
      ∃ a, (l.filter hit).getLast? = some a ∧ stop a = true

variable {hit stop}

/-- When the loop leaves exactly the entries that are not newer than the last one to stop at. -/
theorem skipErase_eq_dropNewer_iff {l : List α} :
    skipErase hit stop l = dropNewer hit stop l ↔ NothingSkipped hit stop l := by
  by_cases hany : (l.any fun a => hit a && stop a) = true
  · have hex : ∃ a ∈ l, hit a = true ∧ stop a = true := by simpa using hany
    have hfirst : ∃ a, (l.filter hit).head? = some a := by
      obtain ⟨a, hmem, ha, -⟩ := hex
      rcases hnil : (l.filter hit).head? with _ | b
      · rw [List.head?_eq_none_iff, List.filter_eq_nil_iff] at hnil
        exact absurd ha (hnil a hmem)
      · exact ⟨b, rfl⟩
    obtain ⟨a, ha⟩ := hfirst
    constructor
    · intro heq
      have hs : stop a = true := by
        by_contra hs
        have hlt := dropNewer_skipErase_length_lt ha (by simpa using hs) hany
        rw [heq, dropNewer_dropNewer] at hlt
        exact lt_irrefl _ hlt
      have hself : skipErase hit stop l = l := skipErase_of_first fun b hb => by
        rw [ha, Option.some.injEq] at hb
        exact hb ▸ hs
      obtain ⟨b, hb, hsb⟩ := dropNewer_last hex
      rw [← heq, hself] at hb
      exact Or.inr ⟨⟨a, ha, hs⟩, b, hb, hsb⟩
    · rintro (⟨hno, -⟩ | ⟨⟨b, hb, hsb⟩, c, hc, hsc⟩)
      · exact absurd hany (by simp [hno])
      · rw [skipErase_of_first, dropNewer_of_last]
        · intro d hd
          rw [hc, Option.some.injEq] at hd
          exact hd ▸ hsc
        · intro d hd
          rw [hb, Option.some.injEq] at hd
          exact hd ▸ hsb
  · have hno : ∀ a ∈ l, hit a = true → stop a = false := by simpa using hany
    rw [skipErase_of_no_stop hno, dropNewer_of_no_stop hno, skipErase_eq_filter_iff]
    constructor
    · intro h
      exact Or.inl ⟨by simpa using hany, h⟩
    · rintro (⟨-, h⟩ | ⟨⟨a, ha, hs⟩, -⟩)
      · exact h
      · have hmem := List.mem_filter.mp (List.mem_of_head? ha)
        exact absurd hs (by simp [hno a hmem.1 hmem.2])

end OdbcDriver.SkipErase
