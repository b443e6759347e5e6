import OdbcDriver.Connect.CommentAttributeRules

/-!
# The value that is extracted

The loop follows the reading of the text: wherever it stands, what it takes from there on are the
values that stand there. The induction is on the length of the text, with one case for each kind of
byte at each place.
-/

namespace OdbcDriver.CommentAttribute

variable {attr text rest : List Byte} {s : Scan} {c : Byte}

/-- From here on the loop ends within the text, and takes the values that stand there. -/
def Follows (attr : List Byte) (place : Place) (text : List Byte) (s : Scan) : Prop :=
  Stands place s → Clean (pending s ++ events attr place text) →
    ∃ s', scan attr s text = some s' ∧ Took s.sptr s.len (valuesOf (events attr place text)) s'

theorem pending_nil (h : s.step = 0) : pending s = [] := if_neg (by rw [h]; exact Nat.zero_ne_one)

/-- What follows in a comment, where nothing is pending. -/
theorem Follows.comment {fresh : Bool} {s' : Scan} (h : Follows attr (.comment fresh) text s')
    (hstands : Stands (.comment fresh) s') (hclean : Clean (events attr (.comment fresh) text)) :
    ∃ r, scan attr s' text = some r ∧
      Took s'.sptr s'.len (valuesOf (events attr (.comment fresh) text)) r :=
  h hstands (by rw [pending_nil hstands.2.2]; exact hclean)

theorem follows_nil (place : Place) (s : Scan) : Follows attr place [] s := by
  intro _ _
  refine ⟨s, by rw [scan], ?_⟩
  rw [events]
  exact Took.none s

/-- Behind the beginning of a comment. -/
theorem follows_opened (ih : ∀ place (t : List Byte) (s : Scan), t.length ≤ text.length →
    Follows attr place t s) (hstands : Stands .plain s)
    (hclean : Clean (pending s ++ (beginning text ++ events attr (.comment true) text))) :
    ∃ s', scan attr { s with in_comment := true, allowed_cmd := true } text = some s' ∧
      Took s.sptr s.len (valuesOf (events attr (.comment true) text)) s' := by
  obtain ⟨hquote, -, hstep | hstep⟩ := hstands
  · exact (ih (.comment true) text _ (le_refl _)).comment ⟨⟨hquote, rfl⟩, rfl, hstep⟩
      hclean.right.right
  -- the attribute is still pending
  have hcomment : InComment { s with in_comment := true, allowed_cmd := true } := ⟨hquote, rfl⟩
  have hclosed : ∀ cptr, Scan.close { s with in_comment := true, allowed_cmd := true } cptr =
      { s with in_comment := true, allowed_cmd := true } :=
    close_eq (by simp only [hstep]; decide)
  have hpending : pending s = [.dangling] := if_pos hstep
  cases text with
  | nil =>
    refine ⟨_, by rw [scan], ?_⟩
    rw [events]
    exact Took.none { s with in_comment := true, allowed_cmd := true }
  | cons c rest =>
    by_cases hcloses : closes (c :: rest) = true
    · have hlen := length_of_closes hcloses
      have hevents : events attr (.comment true) (c :: rest) =
          events attr .plain (rest.drop 1) := by
        rw [events, if_pos hcloses]
      have hbegin : beginning (c :: rest) = [] := by rw [beginning, if_pos hcloses]
      rw [scan_move (turn_closes hcomment hcloses) (by simp only [List.length_cons] at hlen; omega),
        hclosed, hevents]
      rw [hevents, hbegin, List.nil_append] at hclean
      exact ih .plain (rest.drop 1) { s with in_comment := false, allowed_cmd := false }
        (by simp only [List.length_drop, List.length_cons]; omega) ⟨hquote, rfl, .inr hstep⟩
        hclean
    · have hopen := Bool.eq_false_iff.mpr hcloses
      by_cases hsep : separates c = true
      · have hevents : events attr (.comment true) (c :: rest) =
            events attr (.comment true) rest := by
          rw [events, if_neg hcloses, if_pos hsep]
        rw [scan_next (turn_separates hcomment hopen hsep), hclosed, hevents]
        rw [hevents] at hclean
        exact (ih (.comment true) rest _ (by simp only [List.length_cons]; omega)).comment
          ⟨⟨hquote, rfl⟩, rfl, rfl⟩ hclean.right.right
      · have hbegin : beginning (c :: rest) = [.begins true] := by
          rw [beginning, if_neg hcloses, Bool.eq_false_iff.mpr hsep]
          rfl
        have hchain := hclean.dangling
        rw [hpending, hbegin] at hchain
        exact absurd ⟨rfl, rfl⟩ (List.isChain_cons_cons.mp hchain).1

/-- Outside of the comments. -/
theorem follows_plain (ih : ∀ place (t : List Byte) (s : Scan), t.length ≤ rest.length →
    Follows attr place t s) : Follows attr .plain (c :: rest) s := by
  intro hstands hclean
  obtain ⟨hquote, hcomment, hstep⟩ := hstands
  have hnot : s.step ≠ 2 := by omega
  by_cases hopens : opens (c :: rest) = true
  · have hlen := length_of_opens hopens
    have hevents : events attr .plain (c :: rest) =
        beginning (rest.drop 1) ++ events attr (.comment true) (rest.drop 1) := by
      rw [events, if_pos hopens]
    have hturn : turn attr s c rest = ({ s with in_comment := true, allowed_cmd := true }, 1) := by
      simp only [turn, hquote, hcomment, Bool.false_eq_true, if_false, if_pos hopens]
    rw [hevents] at hclean
    rw [hevents, valuesOf_append, valuesOf_beginning, List.nil_append,
      scan_move hturn (by simp only [List.length_cons] at hlen; omega)]
    refine follows_opened (fun place t s ht => ih place t s (ht.trans ?_)) ⟨hquote, hcomment, hstep⟩
      hclean
    simp only [List.length_drop]
    omega
  · by_cases hc : c = literalQuote
    · have hevents : events attr .plain (c :: rest) =
          events attr .plain ((fromQuote rest).drop 1) := by
        rw [events, if_neg hopens, if_pos hc]
      have hturn : turn attr s c rest = ({ s with in_quote := true }, 0) := by
        simp only [turn, hquote, hcomment, Bool.false_eq_true, if_false, if_neg hopens, if_pos hc]
      rw [hevents] at hclean
      rw [hevents, scan_next hturn, scan_quoted rfl]
      split
      next hnil =>
        refine ⟨_, rfl, ?_⟩
        rw [hnil, List.drop_nil, events]
        exact Took.none { s with in_quote := true }
      next =>
        have hsame : { Scan.close { s with in_quote := true } (fromQuote rest) with
            in_quote := false } = s := by
          rw [close_eq (s := { s with in_quote := true }) hnot]
          simp only [← hquote]
        have hle := fromQuote_length_le rest
        rw [hsame]
        exact ih .plain _ s (by rw [List.length_drop]; omega) ⟨hquote, hcomment, hstep⟩ hclean
    · have hevents : events attr .plain (c :: rest) = events attr .plain rest := by
        rw [events, if_neg hopens, if_neg hc]
      have hturn : turn attr s c rest = (s, 0) := by
        simp only [turn, hquote, hcomment, Bool.false_eq_true, if_false, if_neg hopens, if_neg hc]
      rw [hevents] at hclean
      rw [hevents, scan_next hturn]
      exact ih .plain rest s (le_refl _) ⟨hquote, hcomment, hstep⟩ hclean

/-- Behind the equals sign. -/
theorem follows_value (ih : ∀ place (t : List Byte) (s : Scan), t.length ≤ text.length →
    Follows attr place t s) (h : InValue s)
    (hclean : Clean ((valueAt text).1 ++ events attr (.comment true) (valueAt text).2)) :
    ∃ s', scan attr s text = some s' ∧ Took s.sptr s.len
      (valuesOf ((valueAt text).1 ++ events attr (.comment true) (valueAt text).2)) s' := by
  have hclosed := close_eq (s := s) (by rw [h.step]; decide)
  cases text with
  | nil =>
    refine ⟨s, by rw [scan], ?_⟩
    rw [valueAt, events]
    exact Took.none s
  | cons q behind =>
    by_cases hcloses : closes (q :: behind) = true
    · -- the attribute stays pending
      have hlen := length_of_closes hcloses
      have hvalue : valueAt (q :: behind) = ([.dangling], q :: behind) := by
        rw [valueAt, if_pos hcloses]
      have hevents : events attr (.comment true) (q :: behind) =
          events attr .plain (behind.drop 1) := by
        rw [events, if_pos hcloses]
      rw [hvalue, hevents] at hclean
      rw [hvalue, hevents, valuesOf_append,
        scan_move (turn_closes h.toInComment hcloses)
          (by simp only [List.length_cons] at hlen; omega), hclosed]
      refine ih .plain (behind.drop 1) { s with in_comment := false, allowed_cmd := false }
        (by simp only [List.length_drop, List.length_cons]; omega) ⟨h.quote, rfl, .inr h.step⟩ ?_
      rw [show pending { s with in_comment := false, allowed_cmd := false } = [.dangling] from
        if_pos h.step]
      exact hclean
    have hopen := Bool.eq_false_iff.mpr hcloses
    by_cases hsep : separates q = true
    · have hvalue : valueAt (q :: behind) = ([], q :: behind) := by
        rw [valueAt, if_neg hcloses, if_pos hsep]
      have hevents : events attr (.comment true) (q :: behind) =
          events attr (.comment true) behind := by
        rw [events, if_neg hcloses, if_pos hsep]
      rw [hvalue, hevents] at hclean
      rw [hvalue, hevents, List.nil_append,
        scan_next (turn_separates h.toInComment hopen hsep), hclosed]
      exact (ih (.comment true) behind _ (by simp only [List.length_cons]; omega)).comment
        ⟨⟨h.quote, h.comment⟩, rfl, rfl⟩ hclean
    by_cases hquote : q = literalQuote
    · subst hquote
      have hvalue : valueAt (literalQuote :: behind) =
          ([.value ⟨quoted behind, true, fromQuote behind ≠ []⟩], (fromQuote behind).drop 1) := by
        rw [valueAt, if_neg hcloses, if_neg hsep, if_pos rfl]
      have hne : quoted behind ≠ [] :=
        hclean.quoted ⟨quoted behind, true, fromQuote behind ≠ []⟩
          (by rw [hvalue]; exact List.mem_append_left _ (List.mem_singleton_self _)) rfl
      have hle := fromQuote_length_le behind
      rw [hvalue] at hclean
      rw [hvalue, valuesOf_append, scan_quotedValue h hne]
      split
      next hnil =>
        have hwhole : quoted behind = behind := by
          have hsum := quoted_append_fromQuote behind
          rwa [hnil, List.append_nil] at hsum
        refine ⟨_, rfl, ?_⟩
        rw [List.drop_eq_nil_of_le (by rw [hnil]; exact Nat.zero_le _), events]
        exact Took.unended (decide_eq_false (not_not.mpr hnil)) rfl (congrArg some hwhole.symm)
      next hend =>
        obtain ⟨s', hscan, htook⟩ := (ih (.comment true) ((fromQuote behind).drop 1)
          { s with sptr := some behind, len := (quoted behind).length, step := 0 }
          (by simp only [List.length_drop, List.length_cons]; omega)).comment
          ⟨⟨h.quote, h.comment⟩, h.allowed, rfl⟩ hclean.right
        exact ⟨s', hscan, Took.cons (decide_eq_true hend) (List.takeWhile_prefix _) htook⟩
    · have hvalue : valueAt (q :: behind) =
          ([.value ⟨word (q :: behind), false,
            (q :: behind).drop (word (q :: behind)).length ≠ []⟩],
            (q :: behind).drop (word (q :: behind)).length) := by
        rw [valueAt, if_neg hcloses, if_neg hsep, if_neg hquote]
      rw [hvalue] at hclean
      rw [hvalue, valuesOf_append,
        scan_wordValue h hopen (Bool.eq_false_iff.mpr hsep) hquote]
      split
      next hnil =>
        have hwhole : word (q :: behind) = q :: behind :=
          (prefix_word _).eq_of_length_le (List.drop_eq_nil_iff.mp hnil)
        refine ⟨_, rfl, ?_⟩
        rw [show events attr (.comment true) ((q :: behind).drop (word (q :: behind)).length) = []
          by rw [hnil, events]]
        exact Took.unended (decide_eq_false (not_not.mpr hnil)) rfl (congrArg some hwhole.symm)
      next hend =>
        obtain ⟨s', hscan, htook⟩ := (ih (.comment true)
          ((q :: behind).drop (word (q :: behind)).length)
          { s with sptr := some (q :: behind), len := (word (q :: behind)).length, step := 0 }
          (by simp only [List.length_drop, List.length_cons]; omega)).comment
          ⟨⟨h.quote, h.comment⟩, h.allowed, rfl⟩ hclean.right
        exact ⟨s', hscan, Took.cons (decide_eq_true hend) (prefix_word _) htook⟩

/-- In a comment. -/
theorem follows_comment {fresh : Bool} (ih : ∀ place (t : List Byte) (s : Scan),
    t.length ≤ rest.length → Follows attr place t s) :
    Follows attr (.comment fresh) (c :: rest) s := by
  intro hstands hclean
  obtain ⟨hcomment, hallowed, hstep⟩ := hstands
  have hclosed := close_eq (s := s) (by rw [hstep]; decide) (c :: rest)
  rw [pending_nil hstep, List.nil_append] at hclean
  by_cases hcloses : closes (c :: rest) = true
  · have hlen := length_of_closes hcloses
    have hevents : events attr (.comment fresh) (c :: rest) =
        events attr .plain (rest.drop 1) := by
      rw [events, if_pos hcloses]
    rw [hevents] at hclean
    rw [hevents, scan_move (turn_closes hcomment hcloses)
      (by simp only [List.length_cons] at hlen; omega), hclosed]
    refine ih .plain (rest.drop 1) { s with in_comment := false, allowed_cmd := false }
      (by rw [List.length_drop]; omega) ⟨hcomment.quote, rfl, .inl hstep⟩ ?_
    rw [show pending { s with in_comment := false, allowed_cmd := false } = [] from
      pending_nil hstep]
    exact hclean
  have hopen := Bool.eq_false_iff.mpr hcloses
  by_cases hsep : separates c = true
  · have hevents : events attr (.comment fresh) (c :: rest) = events attr (.comment true) rest := by
      rw [events, if_neg hcloses, if_pos hsep]
    rw [hevents] at hclean
    rw [hevents, scan_next (turn_separates hcomment hopen hsep), hclosed]
    exact (ih (.comment true) rest _ (le_refl _)).comment
      ⟨⟨hcomment.quote, hcomment.comment⟩, rfl, rfl⟩ hclean
  by_cases hnames : (fresh && names attr (c :: rest)) = true
  · obtain ⟨hfresh, hname⟩ := Bool.and_eq_true_iff.mp hnames
    have hlen := length_of_names hname
    have hevents : events attr (.comment fresh) (c :: rest) =
        (valueAt (rest.drop attr.length)).1 ++
          events attr (.comment true) (valueAt (rest.drop attr.length)).2 := by
      rw [events, if_neg hcloses, if_neg hsep, if_pos hnames]
    have hturn : turn attr s c rest = ({ s with step := 1 }, attr.length) := by
      simp only [turn, hcomment.quote, hcomment.comment, hopen, Bool.eq_false_iff.mpr hsep,
        hallowed, hfresh, hstep, hname, Bool.false_eq_true, Bool.not_true, if_false, if_true]
    rw [hevents] at hclean
    rw [hevents, scan_move hturn (Nat.lt_succ_iff.mp hlen)]
    refine follows_value (fun place t s ht => ih place t s (ht.trans ?_))
      ⟨⟨hcomment.quote, hcomment.comment⟩, hallowed.trans hfresh, rfl⟩ hclean
    rw [List.length_drop]
    omega
  · have hevents : events attr (.comment fresh) (c :: rest) =
        events attr (.comment false) rest := by
      rw [events, if_neg hcloses, if_neg hsep, if_neg hnames]
    have hturn : turn attr s c rest = ({ s with allowed_cmd := false }, 0) := by
      cases fresh with
      | false =>
        have hsame : { s with allowed_cmd := false } = s := by rw [← hallowed]
        rw [hsame]
        simp only [turn, hcomment.quote, hcomment.comment, hopen, Bool.eq_false_iff.mpr hsep,
          hallowed, Bool.false_eq_true, Bool.not_false, if_false, if_true]
      | true =>
        rw [Bool.true_and] at hnames
        simp only [turn, hcomment.quote, hcomment.comment, hopen, Bool.eq_false_iff.mpr hsep,
          hallowed, hstep, hnames, Bool.false_eq_true, Bool.not_true, if_false, if_true]
    rw [hevents] at hclean
    rw [hevents, scan_next hturn]
    exact (ih (.comment false) rest _ (le_refl _)).comment
      ⟨⟨hcomment.quote, hcomment.comment⟩, rfl, hstep⟩ hclean

/-- **Every place.** -/
theorem follows (attr : List Byte) {n : Nat} : ∀ (place : Place) (text : List Byte) (s : Scan),
    text.length ≤ n → Follows attr place text s := by
  induction n with
  | zero =>
    intro place text s hn
    obtain rfl := List.length_eq_zero_iff.mp (Nat.le_zero.mp hn)
    exact follows_nil place s
  | succ n ih =>
    intro place text s hn
    cases text with
    | nil => exact follows_nil place s
    | cons c rest =>
      have hrest : rest.length ≤ n := Nat.succ_le_succ_iff.mp hn
      have hstep : ∀ place (t : List Byte) (s : Scan), t.length ≤ rest.length →
          Follows attr place t s := fun place t s ht => ih place t s (ht.trans hrest)
      cases place with
      | plain => exact follows_plain hstep
      | comment fresh => exact follows_comment hstep

/-! ### The result -/

/-- The length that is kept from values of which the last has ended. -/
theorem kept_of_last {vs : List Value} {v : Value} (hlast : vs.getLast? = some v)
    (hended : v.ended = true) (len : Nat) : kept len vs = v.bytes.length := by
  induction vs generalizing len with
  | nil => exact nomatch hlast
  | cons u us ih =>
    cases us with
    | nil =>
      obtain rfl : u = v := Option.some.inj hlast
      rw [kept, if_pos hended]
      rfl
    | cons w ws => exact ih hlast _

end OdbcDriver.CommentAttribute
