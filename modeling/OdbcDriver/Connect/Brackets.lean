import Mathlib.Tactic.Ring
import OdbcDriver.Connect.Attributes

/-!
# Settings written in braces are read back

A list of settings that `makeBracketConnectString` has written is read back by
`dconn_get_attributes`: the setter is called for every one of them, in order, with the value in its
braces, and `decode_or_remove_braces` takes them off. Nothing is read past the end of the string.
The one exception is a value that is empty, which is not written.

The search for the closing brace is followed through the value from one pair of braces to the
next. As long as no semicolon of the value has been passed, the buffer is cut at the next one
(`closing_cut`); from then on it is whole (`closing_whole`).
-/

namespace OdbcDriver.Connect

open CString

variable {termp fuel valuen k d : Nat} {buf u v w W T : List Byte} {closep delp : Option Nat}

/-! ### Doubled braces -/

theorem doubleBrackets_byte (b : Byte) (s : List Byte) : doubleBrackets (b :: s) =
    if b = CLOSING_BRACKET then b :: b :: doubleBrackets s else b :: doubleBrackets s :=
  rfl

theorem doubleBrackets_append (u v : List Byte) :
    doubleBrackets (u ++ v) = doubleBrackets u ++ doubleBrackets v := by
  induction u with
  | nil => rfl
  | cons b u ih =>
    rw [List.cons_append, doubleBrackets_byte, doubleBrackets_byte, ih]
    split <;> rfl

theorem doubleBrackets_of_not_mem (h : CLOSING_BRACKET ∉ w) : doubleBrackets w = w := by
  induction w with
  | nil => rfl
  | cons b w ih =>
    rw [List.mem_cons, not_or] at h
    rw [doubleBrackets_byte, if_neg (Ne.symm h.1), ih h.2]

theorem doubleBrackets_cons (w : List Byte) :
    doubleBrackets (CLOSING_BRACKET :: w) =
      CLOSING_BRACKET :: CLOSING_BRACKET :: doubleBrackets w := by
  rw [doubleBrackets_byte, if_pos rfl]

theorem mem_doubleBrackets {b : Byte} : b ∈ doubleBrackets w ↔ b ∈ w := by
  induction w with
  | nil => rfl
  | cons a w ih =>
    rw [doubleBrackets_byte]
    split <;> simp [ih]

theorem length_le_doubleBrackets (w : List Byte) : w.length ≤ (doubleBrackets w).length := by
  induction w with
  | nil => exact Nat.le_refl _
  | cons b w ih =>
    rw [doubleBrackets_byte]
    split
    · simp only [List.length_cons]
      omega
    · simpa using ih

/-- A value up to its first closing brace. -/
theorem doubleBrackets_cases (w : List Byte) :
    (CLOSING_BRACKET ∉ w ∧ doubleBrackets w = w) ∨
      ∃ u w', w = u ++ CLOSING_BRACKET :: w' ∧ CLOSING_BRACKET ∉ u ∧
        doubleBrackets w = u ++ CLOSING_BRACKET :: CLOSING_BRACKET :: doubleBrackets w' := by
  by_cases h : CLOSING_BRACKET ∈ w
  · obtain ⟨u, w', rfl, hu⟩ := List.eq_append_cons_of_mem h
    refine .inr ⟨u, w', rfl, hu, ?_⟩
    rw [doubleBrackets_append, doubleBrackets_of_not_mem hu, doubleBrackets_cons]
  · exact .inl ⟨h, doubleBrackets_of_not_mem h⟩

theorem removeBraces_doubleBrackets (w : List Byte) :
    removeBraces (doubleBrackets w ++ [CLOSING_BRACKET]) = w := by
  induction w with
  | nil => rfl
  | cons b w ih =>
    rw [doubleBrackets_byte]
    split
    next hb =>
      rw [List.cons_append, List.cons_append, removeBraces, if_pos ⟨hb, hb⟩, ih]
    next hb =>
      obtain ⟨c, s, hs⟩ : ∃ c s, doubleBrackets w ++ [CLOSING_BRACKET] = c :: s :=
        List.exists_cons_of_ne_nil (by simp)
      rw [List.cons_append, hs, removeBraces, if_neg (fun h => hb h.1), ← hs, ih]

/-- **Braces off.** -/
theorem decode_or_remove_braces_bracket (value : List Byte) :
    decode_or_remove_braces (bracket value) = value := by
  have hlast : (bracket value).getLast? = some CLOSING_BRACKET := by
    rw [bracket]
    exact List.getLast?_concat
  have hhead : (bracket value).head? = some OPENING_BRACKET := rfl
  rw [decode_or_remove_braces, if_pos ⟨hhead, hlast⟩]
  exact removeBraces_doubleBrackets value

/-! ### One step of the search -/

/-- The search from `valuen`. -/
def searchClosing (termp fuel : Nat) (buf : List Byte) (valuen : Nat) (delp : Option Nat) :
    Except Fault Closing := do
  let closep ← strchr buf valuen CLOSING_BRACKET
  closingBracket termp fuel buf valuen closep delp

/-- The search ends at a closing brace that a semicolon or a terminator follows. -/
theorem closingBracket_end {b : Byte} (hvaluen : valuen < termp) (hread : read buf (k + 1) = .ok b)
    (hb : b = ATTRIBUTE_DELIMITER ∨ b = 0) :
    closingBracket termp (fuel + 1) buf valuen (some k) delp =
      .ok ⟨buf.set (k + 1) 0, some (k + 2), decide (termp ≤ k + 3), true⟩ := by
  have hne : b ≠ CLOSING_BRACKET := by
    rcases hb with rfl | rfl <;> decide
  have hb' : b = ATTRIBUTE_DELIMITER ∨ b = 0 ∨ delp = some (k + 1) := hb.imp_right .inl
  simp only [closingBracket, if_neg (Nat.not_le.mpr hvaluen), hread, if_neg hne, if_pos hb', bind,
    Except.bind, pure, Except.pure]

/-- The search goes on behind a pair of braces. -/
theorem closingBracket_pair (hvaluen : valuen < termp)
    (hread : read buf (k + 1) = .ok CLOSING_BRACKET) (hk : k + 2 < termp) :
    closingBracket termp (fuel + 1) buf valuen (some k) delp =
      if delp = some (k + 2) then
        searchClosing termp fuel (buf.set (k + 2) ATTRIBUTE_DELIMITER) (k + 2) none
      else searchClosing termp fuel buf (k + 2) delp := by
  by_cases hdelp : delp = some (k + 2)
  · simp only [closingBracket, searchClosing, if_neg (Nat.not_le.mpr hvaluen), hread, if_true,
      if_neg (Nat.not_le.mpr hk), if_pos hdelp, bind, Except.bind, pure, Except.pure]
  · simp only [closingBracket, searchClosing, if_neg (Nat.not_le.mpr hvaluen), hread, if_true,
      if_neg (Nat.not_le.mpr hk), if_neg hdelp, bind, Except.bind, pure, Except.pure]

/-- There is no closing brace before the terminator: the semicolon is put back. -/
theorem closingBracket_restore (hvaluen : valuen < termp)
    (hfind : strchr buf (d + 1) CLOSING_BRACKET = .ok (some k)) :
    closingBracket termp (fuel + 1) buf valuen none (some d) =
      closingBracket termp (fuel + 1) (buf.set d ATTRIBUTE_DELIMITER) valuen (some k) none := by
  simp only [closingBracket, if_neg (Nat.not_le.mpr hvaluen), hfind, bind, Except.bind, pure,
    Except.pure]

/-! ### The search -/

/-- The search has found the brace that closes the value: the rest of it is `w`, and what follows
is to be read next. -/
def found (termp : Nat) (W w T : List Byte) : Closing where
  buf := W ++ doubleBrackets w ++ CLOSING_BRACKET :: 0 :: T
  strtok_arg := some (W.length + (doubleBrackets w).length + 2)
  eoftok := decide (termp ≤ W.length + (doubleBrackets w).length + 3)
  ret := true

theorem found_pair (termp : Nat) (W u w T : List Byte) (hu : CLOSING_BRACKET ∉ u) :
    found termp (W ++ u ++ [CLOSING_BRACKET, CLOSING_BRACKET]) w T =
      found termp W (u ++ CLOSING_BRACKET :: w) T := by
  have hlen : (W ++ u ++ [CLOSING_BRACKET, CLOSING_BRACKET]).length + (doubleBrackets w).length =
      W.length + (doubleBrackets (u ++ CLOSING_BRACKET :: w)).length := by
    rw [doubleBrackets_append, doubleBrackets_of_not_mem hu, doubleBrackets_cons]
    simp only [List.length_append, List.length_cons, List.length_nil]
    omega
  have hbuf : W ++ u ++ [CLOSING_BRACKET, CLOSING_BRACKET] ++ doubleBrackets w =
      W ++ doubleBrackets (u ++ CLOSING_BRACKET :: w) := by
    rw [doubleBrackets_append, doubleBrackets_of_not_mem hu, doubleBrackets_cons]
    simp
  rw [found, found, hlen, hbuf]

/-- Once the brace that closes the value is known the search is over. -/
theorem closing_found {b : Byte} (hb : b = ATTRIBUTE_DELIMITER ∨ b = 0) (hvaluen : valuen < termp)
    (hbuf : buf = W ++ doubleBrackets w ++ CLOSING_BRACKET :: b :: T) :
    closingBracket termp (fuel + 1) buf valuen (some (W.length + (doubleBrackets w).length))
      delp = .ok (found termp W w T) := by
  have hread : read buf (W.length + (doubleBrackets w).length + 1) = .ok b :=
    read_eq (f := W ++ doubleBrackets w ++ [CLOSING_BRACKET]) (z := T)
      (by rw [hbuf]; simp) (by simp; omega)
  have hset : buf.set (W.length + (doubleBrackets w).length + 1) 0 =
      W ++ doubleBrackets w ++ CLOSING_BRACKET :: 0 :: T := by
    rw [set_eq (f := W ++ doubleBrackets w ++ [CLOSING_BRACKET]) (x := b) (z := T)
      (by rw [hbuf]; simp) (by simp; omega)]
    simp
  rw [closingBracket_end hvaluen hread hb, hset, found]

/-- **A whole buffer.** From there the search finds the brace that closes the value. -/
theorem closing_whole (hw : ∀ b ∈ w, b ≠ 0) (hfuel : w.length < fuel)
    (htermp : termp = W.length + (doubleBrackets w).length + 1 + T.length) :
    searchClosing termp fuel
        (W ++ doubleBrackets w ++ CLOSING_BRACKET :: ATTRIBUTE_DELIMITER :: T) W.length none =
      .ok (found termp W w T) := by
  induction fuel generalizing w W with
  | zero => exact absurd hfuel (Nat.not_lt_zero _)
  | succ fuel ih =>
    rcases doubleBrackets_cases w with ⟨hnone, hsame⟩ | ⟨u, w', rfl, hu, hdouble⟩
    · have hfind : strchr (W ++ doubleBrackets w ++ CLOSING_BRACKET :: ATTRIBUTE_DELIMITER :: T)
          W.length CLOSING_BRACKET = .ok (some (W.length + (doubleBrackets w).length)) := by
        refine strchr_found (f := W) (a := doubleBrackets w)
          (z := ATTRIBUTE_DELIMITER :: T) (by simp) rfl fun b hb => ?_
        rw [mem_doubleBrackets] at hb
        exact ⟨fun h => hnone (h ▸ hb), hw b hb⟩
      rw [searchClosing, hfind]
      exact closing_found (.inl rfl) (by omega) rfl
    · have hfind : strchr (W ++ doubleBrackets (u ++ CLOSING_BRACKET :: w') ++
          CLOSING_BRACKET :: ATTRIBUTE_DELIMITER :: T) W.length CLOSING_BRACKET =
            .ok (some (W.length + u.length)) := by
        refine strchr_found (f := W) (a := u) (z := CLOSING_BRACKET :: doubleBrackets w' ++
          CLOSING_BRACKET :: ATTRIBUTE_DELIMITER :: T) (by rw [hdouble]; simp) rfl fun b hb => ?_
        exact ⟨fun h => hu (h ▸ hb), hw b (List.mem_append_left _ hb)⟩
      rw [hdouble, List.length_append, List.length_cons, List.length_cons] at htermp
      have hread : read (W ++ doubleBrackets (u ++ CLOSING_BRACKET :: w') ++
          CLOSING_BRACKET :: ATTRIBUTE_DELIMITER :: T) (W.length + u.length + 1) =
            .ok CLOSING_BRACKET :=
        read_eq (f := W ++ u ++ [CLOSING_BRACKET])
          (z := doubleBrackets w' ++ CLOSING_BRACKET :: ATTRIBUTE_DELIMITER :: T)
          (by rw [hdouble]; simp) (by simp; omega)
      have hrest := ih (w := w') (W := W ++ u ++ [CLOSING_BRACKET, CLOSING_BRACKET])
        (fun b hb => hw b (by simp [hb])) (by simp at hfuel; omega) (by simp; omega)
      rw [searchClosing, hfind]
      refine (closingBracket_pair (by omega) hread (by omega)).trans ?_
      rw [if_neg (by simp), ← found_pair termp W u w' T hu, ← hrest, hdouble]
      congr 1
      · simp
      · simp; omega

/-- The first semicolon of a text lies behind a part that has none. -/
theorem exists_of_append_eq {a z x y : List Byte} (ha : ATTRIBUTE_DELIMITER ∉ a)
    (h : a ++ z = x ++ ATTRIBUTE_DELIMITER :: y) :
    ∃ x', x = a ++ x' ∧ z = x' ++ ATTRIBUTE_DELIMITER :: y := by
  rcases List.append_eq_append_iff.mp h with ⟨x', hx, hz⟩ | ⟨c, hac, hc⟩
  · exact ⟨x', hx, hz⟩
  · cases c with
    | nil => exact ⟨[], by simpa using hac.symm, by simpa using hc.symm⟩
    | cons b c =>
      obtain ⟨rfl, -⟩ := List.cons.inj hc
      exact absurd (by rw [hac]; simp) ha

theorem eq_of_append_eq {a z x y : List Byte} (ha : ATTRIBUTE_DELIMITER ∉ a)
    (hx : ATTRIBUTE_DELIMITER ∉ x)
    (h : a ++ ATTRIBUTE_DELIMITER :: z = x ++ ATTRIBUTE_DELIMITER :: y) : x = a ∧ z = y := by
  obtain ⟨x', rfl, hz⟩ := exists_of_append_eq ha h
  cases x' with
  | nil => exact ⟨List.append_nil _, (List.cons.inj hz).2⟩
  | cons b x' =>
    obtain ⟨rfl, -⟩ := List.cons.inj hz
    exact absurd (by simp) hx

/-- **A buffer that is cut at the next semicolon.** From there too. -/
theorem closing_cut {x y : List Byte} (hw : ∀ b ∈ w, b ≠ 0) (hfuel : w.length < fuel)
    (htermp : termp = W.length + (doubleBrackets w).length + 1 + T.length)
    (hcut : doubleBrackets w ++ CLOSING_BRACKET :: ATTRIBUTE_DELIMITER :: T =
      x ++ ATTRIBUTE_DELIMITER :: y) (hx : ATTRIBUTE_DELIMITER ∉ x) :
    searchClosing termp fuel (W ++ x ++ 0 :: y) W.length (some (W.length + x.length)) =
      .ok (found termp W w T) := by
  induction fuel generalizing w W x with
  | zero => exact absurd hfuel (Nat.not_lt_zero _)
  | succ fuel ih =>
    have hnul : (0 : Byte) ≠ CLOSING_BRACKET := by decide
    rcases doubleBrackets_cases w with ⟨hnone, hsame⟩ | ⟨u, w', rfl, hu, hdouble⟩
    · have hplain : ∀ b ∈ w, b ≠ CLOSING_BRACKET ∧ b ≠ 0 :=
        fun b hb => ⟨fun h => hnone (h ▸ hb), hw b hb⟩
      by_cases hmem : ATTRIBUTE_DELIMITER ∈ w
      · -- the brace lies behind the semicolon, which is put back
        obtain ⟨w₁, w₂, rfl, hw₁⟩ := List.eq_append_cons_of_mem hmem
        rw [hsame, List.append_assoc, List.cons_append] at hcut
        obtain ⟨rfl, rfl⟩ := eq_of_append_eq hw₁ hx hcut
        have hmissing : strchr (W ++ x ++ 0 :: (w₂ ++ CLOSING_BRACKET :: ATTRIBUTE_DELIMITER :: T))
            W.length CLOSING_BRACKET = .ok none :=
          strchr_missing (f := W) (a := x) (List.append_assoc _ _ _) rfl
            (fun b hb => hplain b (List.mem_append_left _ hb)) hnul
        have hfind : strchr (W ++ x ++ 0 :: (w₂ ++ CLOSING_BRACKET :: ATTRIBUTE_DELIMITER :: T))
            (W.length + x.length + 1) CLOSING_BRACKET =
              .ok (some (W.length + x.length + 1 + w₂.length)) :=
          strchr_found (f := W ++ x ++ [0]) (a := w₂) (z := ATTRIBUTE_DELIMITER :: T)
            (by simp) (by simp; omega) fun b hb => hplain b (by simp [hb])
        have hset := set_eq (f := W ++ x) (x := (0 : Byte)) (i := W.length + x.length)
          (z := w₂ ++ CLOSING_BRACKET :: ATTRIBUTE_DELIMITER :: T) rfl (by simp)
          ATTRIBUTE_DELIMITER
        have hk : W.length + x.length + 1 + w₂.length =
            W.length + (doubleBrackets (x ++ ATTRIBUTE_DELIMITER :: w₂)).length := by
          rw [hsame]
          simp
          omega
        rw [searchClosing, hmissing]
        refine (closingBracket_restore (by omega) hfind).trans ?_
        rw [hset, hk]
        exact closing_found (.inl rfl) (by omega) (by rw [hsame]; simp)
      · rw [hsame, List.append_cons] at hcut
        have hno : ATTRIBUTE_DELIMITER ∉ w ++ [CLOSING_BRACKET] := by
          simp only [List.mem_append, List.mem_singleton, not_or]
          exact ⟨hmem, by decide⟩
        obtain ⟨rfl, rfl⟩ := eq_of_append_eq hno hx hcut
        have hfind : strchr (W ++ (w ++ [CLOSING_BRACKET]) ++ 0 :: T) W.length CLOSING_BRACKET =
            .ok (some (W.length + w.length)) :=
          strchr_found (f := W) (a := w) (z := 0 :: T) (by simp) rfl hplain
        rw [searchClosing, hfind]
        have hk : W.length + w.length = W.length + (doubleBrackets w).length := by rw [hsame]
        rw [hk]
        exact closing_found (.inr rfl) (by omega) (by rw [hsame]; simp)
    · have hplain : ∀ b ∈ u, b ≠ CLOSING_BRACKET ∧ b ≠ 0 :=
        fun b hb => ⟨fun h => hu (h ▸ hb), hw b (List.mem_append_left _ hb)⟩
      have hlen : (doubleBrackets (u ++ CLOSING_BRACKET :: w')).length =
          u.length + (doubleBrackets w').length + 2 := by
        rw [hdouble]
        simp
        omega
      rw [hdouble, List.append_assoc, List.cons_append, List.cons_append] at hcut
      have hw' : ∀ b ∈ w', b ≠ 0 := fun b hb => hw b (by simp [hb])
      have hfuel' : w'.length < fuel := by
        rw [List.length_append, List.length_cons] at hfuel
        omega
      let W' := W ++ u ++ [CLOSING_BRACKET, CLOSING_BRACKET]
      have hW' : W'.length = W.length + u.length + 2 := by simp [W']; omega
      rw [← found_pair termp W u w' T hu]
      by_cases hmem : ATTRIBUTE_DELIMITER ∈ u
      · -- so does the next pair of braces
        obtain ⟨u₁, u₂, rfl, hu₁⟩ := List.eq_append_cons_of_mem hmem
        rw [List.append_assoc, List.cons_append] at hcut
        obtain ⟨rfl, rfl⟩ := eq_of_append_eq hu₁ hx hcut
        let y := u₂ ++ CLOSING_BRACKET :: CLOSING_BRACKET ::
          (doubleBrackets w' ++ CLOSING_BRACKET :: ATTRIBUTE_DELIMITER :: T)
        have hmissing : strchr (W ++ x ++ 0 :: y) W.length CLOSING_BRACKET = .ok none :=
          strchr_missing (f := W) (a := x) (List.append_assoc _ _ _) rfl
            (fun b hb => hplain b (List.mem_append_left _ hb)) hnul
        have hfind : strchr (W ++ x ++ 0 :: y) (W.length + x.length + 1) CLOSING_BRACKET =
            .ok (some (W.length + x.length + 1 + u₂.length)) :=
          strchr_found (f := W ++ x ++ [0]) (a := u₂)
            (z := CLOSING_BRACKET ::
              (doubleBrackets w' ++ CLOSING_BRACKET :: ATTRIBUTE_DELIMITER :: T))
            (by simp [y]) (by simp; omega) fun b hb => hplain b (by simp [hb])
        have hset : (W ++ x ++ 0 :: y).set (W.length + x.length) ATTRIBUTE_DELIMITER =
            W' ++ doubleBrackets w' ++ CLOSING_BRACKET :: ATTRIBUTE_DELIMITER :: T := by
          rw [set_eq (f := W ++ x) (x := (0 : Byte)) (z := y) rfl (by simp)]
          simp [W', y]
        have hread : read (W' ++ doubleBrackets w' ++ CLOSING_BRACKET :: ATTRIBUTE_DELIMITER :: T)
            (W.length + x.length + 1 + u₂.length + 1) = .ok CLOSING_BRACKET :=
          read_eq (f := W ++ (x ++ ATTRIBUTE_DELIMITER :: u₂) ++ [CLOSING_BRACKET])
            (z := doubleBrackets w' ++ CLOSING_BRACKET :: ATTRIBUTE_DELIMITER :: T)
            (by simp [W']) (by simp; omega)
        simp only [List.length_append, List.length_cons] at hW' hlen
        have hk : W.length + x.length + 1 + u₂.length + 2 = W'.length := by omega
        rw [searchClosing, hmissing]
        refine (closingBracket_restore (by omega) hfind).trans ?_
        rw [hset]
        refine (closingBracket_pair (by omega) hread (by omega)).trans ?_
        rw [if_neg (by simp), hk]
        exact closing_whole hw' hfuel' (by omega)
      · obtain ⟨x', rfl, hrest⟩ := exists_of_append_eq (a := u ++ [CLOSING_BRACKET, CLOSING_BRACKET])
          (by simp only [List.mem_append, List.mem_cons, List.not_mem_nil, or_false, or_self, not_or]
              exact ⟨hmem, by decide⟩) (by simpa using hcut)
        have hfind : strchr (W ++ (u ++ [CLOSING_BRACKET, CLOSING_BRACKET] ++ x') ++ 0 :: y) W.length
            CLOSING_BRACKET = .ok (some (W.length + u.length)) :=
          strchr_found (f := W) (a := u) (z := CLOSING_BRACKET :: (x' ++ 0 :: y)) (by simp)
            rfl hplain
        have hread : read (W ++ (u ++ [CLOSING_BRACKET, CLOSING_BRACKET] ++ x') ++ 0 :: y)
            (W.length + u.length + 1) = .ok CLOSING_BRACKET :=
          read_eq (f := W ++ u ++ [CLOSING_BRACKET]) (z := x' ++ 0 :: y) (by simp)
            (by simp; omega)
        rw [searchClosing, hfind]
        refine (closingBracket_pair (by omega) hread (by omega)).trans ?_
        rw [← hW']
        cases x' with
        | nil =>
          have hset : (W ++ (u ++ [CLOSING_BRACKET, CLOSING_BRACKET] ++ []) ++ 0 :: y).set W'.length
              ATTRIBUTE_DELIMITER =
                W' ++ doubleBrackets w' ++ CLOSING_BRACKET :: ATTRIBUTE_DELIMITER :: T := by
            rw [set_eq (f := W') (x := (0 : Byte)) (z := y) (by simp [W']) rfl,
              List.append_assoc W' (doubleBrackets w'), hrest]
            rfl
          rw [if_pos (by simp [hW']; omega), hset]
          exact closing_whole hw' hfuel' (by omega)
        | cons b x' =>
          have hbuf : W ++ (u ++ [CLOSING_BRACKET, CLOSING_BRACKET] ++ b :: x') ++ 0 :: y =
              W' ++ (b :: x') ++ 0 :: y := by simp [W']
          have hdelp : W.length + (u ++ [CLOSING_BRACKET, CLOSING_BRACKET] ++ b :: x').length =
              W'.length + (b :: x').length := by simp [W']; omega
          have hx' : ATTRIBUTE_DELIMITER ∉ b :: x' := fun h => hx (by simp at h ⊢; tauto)
          rw [hbuf, hdelp, if_neg (by simp)]
          exact ih hw' hfuel' (by omega) hrest hx'

/-! ### One setting -/

/-- The first closing brace of a buffer that is cut at the next semicolon: where a terminator
follows it, it is the one that closes the value, and the whole value lies before the cut. -/
theorem first_closing {x y : List Byte} (hw : ∀ b ∈ w, b ≠ 0)
    (hcut : doubleBrackets w ++ CLOSING_BRACKET :: ATTRIBUTE_DELIMITER :: T =
      x ++ ATTRIBUTE_DELIMITER :: y) (hx : ATTRIBUTE_DELIMITER ∉ x) :
    ∃ (closep : Option Nat) (next : Option Byte),
      strchr (W ++ x ++ 0 :: y) W.length CLOSING_BRACKET = .ok closep ∧
        (closep.mapM fun k => read (W ++ x ++ 0 :: y) (k + 1)) = .ok next ∧
          (next = some 0 → x = doubleBrackets w ++ [CLOSING_BRACKET] ∧ y = T) := by
  have hnul : (0 : Byte) ≠ CLOSING_BRACKET := by decide
  have hmissing : (∀ b ∈ x, b ≠ CLOSING_BRACKET ∧ b ≠ 0) →
      strchr (W ++ x ++ 0 :: y) W.length CLOSING_BRACKET = .ok none := fun h =>
    strchr_missing (f := W) (a := x) (List.append_assoc _ _ _) rfl h hnul
  rcases doubleBrackets_cases w with ⟨hnone, hsame⟩ | ⟨u, w', rfl, hu, hdouble⟩
  · have hplain : ∀ b ∈ w, b ≠ CLOSING_BRACKET ∧ b ≠ 0 :=
      fun b hb => ⟨fun h => hnone (h ▸ hb), hw b hb⟩
    by_cases hmem : ATTRIBUTE_DELIMITER ∈ w
    · obtain ⟨w₁, w₂, rfl, hw₁⟩ := List.eq_append_cons_of_mem hmem
      rw [hsame, List.append_assoc, List.cons_append] at hcut
      obtain ⟨rfl, rfl⟩ := eq_of_append_eq hw₁ hx hcut
      exact ⟨none, none, hmissing fun b hb => hplain b (List.mem_append_left _ hb), rfl,
        fun h => nomatch h⟩
    · rw [hsame, List.append_cons] at hcut
      have hno : ATTRIBUTE_DELIMITER ∉ w ++ [CLOSING_BRACKET] := by
        simp only [List.mem_append, List.mem_singleton, not_or]
        exact ⟨hmem, by decide⟩
      obtain ⟨rfl, rfl⟩ := eq_of_append_eq hno hx hcut
      have hfind : strchr (W ++ (w ++ [CLOSING_BRACKET]) ++ 0 :: T) W.length CLOSING_BRACKET =
          .ok (some (W.length + w.length)) :=
        strchr_found (f := W) (a := w) (z := 0 :: T) (by simp) rfl hplain
      have hread : read (W ++ (w ++ [CLOSING_BRACKET]) ++ 0 :: T) (W.length + w.length + 1) =
          .ok 0 :=
        read_eq (f := W ++ w ++ [CLOSING_BRACKET]) (z := T) (by simp) (by simp; omega)
      refine ⟨_, some 0, hfind, ?_, fun _ => ⟨by rw [hsame], rfl⟩⟩
      simp only [Option.mapM_some, hread]
      rfl
  · have hplain : ∀ b ∈ u, b ≠ CLOSING_BRACKET ∧ b ≠ 0 :=
      fun b hb => ⟨fun h => hu (h ▸ hb), hw b (List.mem_append_left _ hb)⟩
    rw [hdouble, List.append_assoc, List.cons_append, List.cons_append] at hcut
    by_cases hmem : ATTRIBUTE_DELIMITER ∈ u
    · obtain ⟨u₁, u₂, rfl, hu₁⟩ := List.eq_append_cons_of_mem hmem
      rw [List.append_assoc, List.cons_append] at hcut
      obtain ⟨rfl, rfl⟩ := eq_of_append_eq hu₁ hx hcut
      exact ⟨none, none, hmissing fun b hb => hplain b (List.mem_append_left _ hb), rfl,
        fun h => nomatch h⟩
    · obtain ⟨x', rfl, -⟩ := exists_of_append_eq (a := u ++ [CLOSING_BRACKET, CLOSING_BRACKET])
        (by simp only [List.mem_append, List.mem_cons, List.not_mem_nil, or_false, or_self, not_or]
            exact ⟨hmem, by decide⟩) (by simpa using hcut)
      have hfind : strchr (W ++ (u ++ [CLOSING_BRACKET, CLOSING_BRACKET] ++ x') ++ 0 :: y) W.length
          CLOSING_BRACKET = .ok (some (W.length + u.length)) :=
        strchr_found (f := W) (a := u) (z := CLOSING_BRACKET :: (x' ++ 0 :: y)) (by simp)
          rfl hplain
      have hread : read (W ++ (u ++ [CLOSING_BRACKET, CLOSING_BRACKET] ++ x') ++ 0 :: y)
          (W.length + u.length + 1) = .ok CLOSING_BRACKET :=
        read_eq (f := W ++ u ++ [CLOSING_BRACKET]) (z := x' ++ 0 :: y) (by simp)
          (by simp; omega)
      refine ⟨_, some CLOSING_BRACKET, hfind, ?_, fun h => absurd (Option.some.inj h) (by decide)⟩
      simp only [Option.mapM_some, hread]
      rfl

/-- A setting that can be read: the attribute names no other, and neither has a terminator. -/
structure Setting where
  attr : List Byte
  value : List Byte
  attr_plain : ∀ b ∈ attr, b ≠ ATTRIBUTE_DELIMITER ∧ b ≠ EQUALS ∧ b ≠ 0
  value_plain : ∀ b ∈ value, b ≠ 0

variable {σ : Type} {func : σ → List Byte → List Byte → σ} {ci : σ}
  {strtok_arg : Option Nat} {last : Nat} {D R seps : List Byte}

/-- How the loop goes on behind a setting: it stops, with nothing left that could be a setting, or
starts again where the rest of the string begins. -/
inductive GoesOn (func : σ → List Byte → List Byte → σ) (termp fuel : Nat) (R : List Byte) (ci : σ) :
    Except Fault (Bool × σ) → Prop
  | stop (hR : R.length ≤ 1) : GoesOn func termp fuel R ci (.ok (true, ci))
  | again (D : List Byte) (strtok_arg : Option Nat) (last : Nat)
      (hstart : strtok_arg.getD last = D.length) (htermp : termp = D.length + R.length) :
      GoesOn func termp fuel R ci
        (getAttributes func termp fuel (D ++ (R ++ [0])) strtok_arg last ci)

/-- **A setting in braces.** -/
theorem getAttributes_bracket (s : Setting) (hseps : ∀ b ∈ seps, b = ATTRIBUTE_DELIMITER)
    (hstart : strtok_arg.getD last = D.length)
    (htermp : termp = D.length + seps.length + s.attr.length + (bracket s.value).length + 2 +
      R.length) :
    GoesOn func termp fuel R (func ci s.attr (bracket s.value))
      (getAttributes func termp (fuel + 1)
        (D ++ (seps ++ (s.attr ++ EQUALS :: bracket s.value ++ ATTRIBUTE_DELIMITER :: (R ++ [0]))))
        strtok_arg last ci) := by
  have hw : ∀ b ∈ OPENING_BRACKET :: s.value, b ≠ 0 := by
    rw [List.forall_mem_cons]
    exact ⟨by decide, s.value_plain⟩
  have hbracket : bracket s.value =
      doubleBrackets (OPENING_BRACKET :: s.value) ++ [CLOSING_BRACKET] := by
    rw [doubleBrackets, if_neg (by decide), bracket]
  have hopen : doubleBrackets (OPENING_BRACKET :: s.value) =
      OPENING_BRACKET :: doubleBrackets s.value := by
    rw [doubleBrackets, if_neg (by decide)]
  let dw := doubleBrackets (OPENING_BRACKET :: s.value)
  -- the string is cut at `x`
  obtain ⟨x, y, hcut, hx⟩ := List.eq_append_cons_of_mem
    (show ATTRIBUTE_DELIMITER ∈ dw ++ CLOSING_BRACKET :: ATTRIBUTE_DELIMITER :: (R ++ [0]) by simp)
  obtain ⟨x₀, rfl⟩ : ∃ x₀, x = OPENING_BRACKET :: x₀ := by
    rw [show dw = _ from hopen, List.cons_append] at hcut
    cases x with
    | nil => exact absurd (List.cons.inj hcut).1 (by decide)
    | cons b x => exact ⟨x, by rw [(List.cons.inj hcut).1]⟩
  obtain ⟨rest, hfront, -⟩ := exists_of_append_eq (a := OPENING_BRACKET :: x₀)
    (x := dw ++ [CLOSING_BRACKET]) (y := R ++ [0]) hx (hcut.symm.trans (by simp))
  have hxnul : ∀ b ∈ OPENING_BRACKET :: x₀, b ≠ 0 := by
    intro b hb
    have hmem : b ∈ dw ++ [CLOSING_BRACKET] := by
      rw [hfront]
      exact List.mem_append_left _ hb
    rcases List.mem_append.mp hmem with hmem | hmem
    · exact hw b (mem_doubleBrackets.mp hmem)
    · rw [List.mem_singleton.mp hmem]
      decide
  have hlen := congrArg List.length hcut
  have hdw : (bracket s.value).length = dw.length + 1 := by rw [hbracket]; simp [dw]
  simp only [List.length_append, List.length_cons, List.length_nil] at hlen
  let W := D ++ seps ++ s.attr ++ [0]
  have hW : W.length = D.length + seps.length + s.attr.length + 1 := by simp [W]; omega
  have hany : ¬strtok_arg.any (termp ≤ ·) = true := by
    cases strtok_arg with
    | none => simp
    | some p =>
      rw [Option.getD_some] at hstart
      simp [hstart]
      omega
  have htoken := strtok_r_token (d := ATTRIBUTE_DELIMITER) (x := ATTRIBUTE_DELIMITER)
    (m := D ++ (seps ++ (s.attr ++ EQUALS :: bracket s.value ++
      ATTRIBUTE_DELIMITER :: (R ++ [0])))) (f := D) (q := seps)
    (k := s.attr ++ EQUALS :: OPENING_BRACKET :: x₀) (z := y) (i := strtok_arg.getD last)
    (by rw [hbracket]; simp [dw] at hcut; simp [hcut]) hstart hseps
    (by
      intro b hb
      rcases List.mem_append.mp hb with hb | hb
      · exact ⟨(s.attr_plain b hb).1, (s.attr_plain b hb).2.2⟩
      · rcases List.mem_cons.mp hb with rfl | hb
        · decide
        · exact ⟨fun h => hx (h ▸ hb), hxnul b hb⟩)
    (by simp) (.inl rfl)
  rw [if_neg (by decide)] at htoken
  have hequals := strchr_found (c := EQUALS)
    (m := D ++ (seps ++ (s.attr ++ EQUALS :: OPENING_BRACKET :: x₀ ++ 0 :: y)))
    (f := D ++ seps) (a := s.attr) (z := OPENING_BRACKET :: x₀ ++ 0 :: y)
    (i := strtok_arg.getD last + seps.length) (by simp) (by simp [hstart])
    (fun b hb => ⟨(s.attr_plain b hb).2.1, (s.attr_plain b hb).2.2⟩)
  have hset : (D ++ (seps ++ (s.attr ++ EQUALS :: OPENING_BRACKET :: x₀ ++ 0 :: y))).set
      (strtok_arg.getD last + seps.length + s.attr.length) 0 =
        W ++ (OPENING_BRACKET :: x₀) ++ 0 :: y := by
    rw [set_eq (f := D ++ seps ++ s.attr) (x := EQUALS) (z := OPENING_BRACKET :: x₀ ++ 0 :: y)
      (by simp) (by simp [hstart]; omega)]
    simp [W]
  have hvalue : strtok_arg.getD last + seps.length + s.attr.length + 1 = W.length := by
    rw [hstart, hW]
  have hread : read (W ++ (OPENING_BRACKET :: x₀) ++ 0 :: y) W.length = .ok OPENING_BRACKET :=
    read_eq (f := W) (z := x₀ ++ 0 :: y) (by simp) rfl
  have hdelp : strchr (W ++ (OPENING_BRACKET :: x₀) ++ 0 :: y) W.length 0 =
      .ok (some (W.length + (OPENING_BRACKET :: x₀).length)) :=
    strchr_found (f := W) (a := OPENING_BRACKET :: x₀) (z := y) (List.append_assoc _ _ _)
      rfl fun b hb => ⟨hxnul b hb, hxnul b hb⟩
  have hnotend : ¬termp ≤ W.length + (OPENING_BRACKET :: x₀).length := by
    have := congrArg List.length hfront
    simp at this ⊢
    omega
  obtain ⟨closep, next, hclosep, hnext, hquick⟩ := first_closing (W := W) hw hcut hx
  have hclosing : closingBracket termp (termp + 1) (W ++ (OPENING_BRACKET :: x₀) ++ 0 :: y) W.length
      closep (some (W.length + (OPENING_BRACKET :: x₀).length)) =
        .ok (found termp W (OPENING_BRACKET :: s.value) (R ++ [0])) := by
    have hle := length_le_doubleBrackets s.value
    have hmain : searchClosing termp (termp + 1) (W ++ (OPENING_BRACKET :: x₀) ++ 0 :: y) W.length
        (some (W.length + (OPENING_BRACKET :: x₀).length)) =
          .ok (found termp W (OPENING_BRACKET :: s.value) (R ++ [0])) :=
      closing_cut hw (by simp [dw, hopen] at hdw ⊢; omega) (by simp [dw] at hdw ⊢; omega) hcut hx
    rwa [searchClosing, hclosep] at hmain
  -- the strings the setter is called with
  have htexts : ∀ T', text (W ++ dw ++ CLOSING_BRACKET :: 0 :: T') (strtok_arg.getD last + seps.length)
      = s.attr ∧ text (W ++ dw ++ CLOSING_BRACKET :: 0 :: T') W.length = bracket s.value := by
    intro T'
    refine ⟨text_eq (f := D ++ seps) (a := s.attr)
      (z := dw ++ CLOSING_BRACKET :: 0 :: T') (by simp [W]) (by simp [hstart])
        fun b hb => (s.attr_plain b hb).2.2, ?_⟩
    rw [hbracket]
    refine text_eq (f := W) (a := dw ++ [CLOSING_BRACKET]) (z := T') (by simp) rfl ?_
    intro b hb
    rcases List.mem_append.mp hb with hmem | hmem
    · exact hw b (mem_doubleBrackets.mp hmem)
    · rw [List.mem_singleton.mp hmem]
      decide
  rw [getAttributes, if_neg hany]
  simp only [htoken, hequals, hset, hvalue, hread, hdelp, hclosep, hnext, hclosing, if_neg hnotend,
    if_true, bind, Except.bind, pure, Except.pure]
  let D' := W ++ dw ++ [CLOSING_BRACKET, 0]
  have hD' : D'.length = W.length + dw.length + 2 := by simp [D']; omega
  have hbuf : W ++ dw ++ CLOSING_BRACKET :: 0 :: (R ++ [0]) = D' ++ (R ++ [0]) := by simp [D']
  obtain ⟨hattr, hval⟩ := htexts (R ++ [0])
  split
  next hzero =>
    obtain ⟨hx', rfl⟩ := hquick hzero
    have hcutbuf : W ++ OPENING_BRACKET :: x₀ ++ 0 :: (R ++ [0]) =
        W ++ dw ++ CLOSING_BRACKET :: 0 :: (R ++ [0]) := by
      rw [hx']
      simp [dw]
    have hxlen : (OPENING_BRACKET :: x₀).length = dw.length + 1 := by
      rw [hx', List.length_append, List.length_singleton]
    rw [hcutbuf, hattr, hval, hbuf]
    refine .again D' _ _ ?_ (by omega)
    rw [Option.getD_none, List.length_append, List.length_cons, hxlen, hD']
    omega
  next =>
    have hfound : (found termp W (OPENING_BRACKET :: s.value) (R ++ [0])).buf =
        W ++ dw ++ CLOSING_BRACKET :: 0 :: (R ++ [0]) := rfl
    have hret : (!(found termp W (OPENING_BRACKET :: s.value) (R ++ [0])).ret) = false := rfl
    rw [hfound, hret, hattr, hval, if_neg Bool.false_ne_true, hbuf]
    split
    next heof =>
      have hend : termp ≤ W.length + dw.length + 3 := of_decide_eq_true heof
      exact .stop (by omega)
    next =>
      refine .again D' _ _ ?_ (by omega)
      exact hD'.symm

/-! ### A list of settings -/

/-- The setting is written. -/
def Setting.written (s : Setting) : Bool := !s.value.isEmpty

/-- Settings written one after the other, each after any number of semicolons. -/
def joined : List (Nat × Setting) → List Byte
  | [] => []
  | (k, s) :: rest =>
    List.replicate k ATTRIBUTE_DELIMITER ++ makeBracketConnectString s.value s.attr ++ joined rest

/-- The calls of the setter. -/
def setAll (func : σ → List Byte → List Byte → σ) (ci : σ) (settings : List (Nat × Setting)) : σ :=
  ((settings.map (·.2)).filter (·.written)).foldl (fun ci s => func ci s.attr (bracket s.value)) ci

theorem setAll_cons (k : Nat) (s : Setting) (rest : List (Nat × Setting)) (ci : σ) :
    setAll func ci ((k, s) :: rest) =
      setAll func (if s.written then func ci s.attr (bracket s.value) else ci) rest := by
  rw [setAll, List.map_cons, List.filter_cons]
  split <;> rfl

theorem makeBracketConnectString_written {s : Setting} (h : s.written = true) :
    makeBracketConnectString s.value s.attr =
      s.attr ++ EQUALS :: bracket s.value ++ [ATTRIBUTE_DELIMITER] := by
  rw [Setting.written, Bool.not_eq_true'] at h
  rw [makeBracketConnectString, if_neg (by rw [h]; decide)]

theorem makeBracketConnectString_not_written {s : Setting} (h : s.written = false) :
    makeBracketConnectString s.value s.attr = [] := by
  rw [Setting.written, Bool.not_eq_false'] at h
  rw [makeBracketConnectString, if_pos h]

theorem length_bracket (value : List Byte) : 2 ≤ (bracket value).length := by
  rw [bracket, List.length_append, List.length_cons, List.length_singleton]
  omega

/-- Where no more than a byte is left, no setting is. -/
theorem setAll_of_length_le {settings : List (Nat × Setting)} (h : (joined settings).length ≤ 1)
    (ci : σ) : setAll func ci settings = ci := by
  induction settings with
  | nil => rfl
  | cons ks rest ih =>
    obtain ⟨k, s⟩ := ks
    rw [joined, List.length_append, List.length_append] at h
    have hs : s.written = false := by
      refine Bool.eq_false_iff.mpr fun hw => ?_
      rw [makeBracketConnectString_written hw] at h
      have := length_bracket s.value
      simp at h
      omega
    rw [setAll_cons, hs, if_neg Bool.false_ne_true]
    exact ih (by omega)

/-- **The loop over a list of settings.** -/
theorem getAttributes_joined (settings : List (Nat × Setting)) (m : Nat)
    (hfuel : (joined settings).length < fuel) (hseps : ∀ b ∈ seps, b = ATTRIBUTE_DELIMITER)
    (hstart : strtok_arg.getD last = D.length)
    (htermp : termp = D.length + seps.length + (joined settings).length + m) :
    getAttributes func termp fuel
        (D ++ (seps ++ (joined settings ++ List.replicate m ATTRIBUTE_DELIMITER ++ [0])))
        strtok_arg last ci = .ok (true, setAll func ci settings) := by
  induction settings generalizing fuel seps D strtok_arg last ci with
  | nil =>
    obtain ⟨fuel, rfl⟩ : ∃ f, fuel = f + 1 := ⟨fuel - 1, by simp [joined] at hfuel; omega⟩
    have hnone := strtok_r_none (d := ATTRIBUTE_DELIMITER) (z := [])
      (q := seps ++ List.replicate m ATTRIBUTE_DELIMITER)
      (m := D ++ (seps ++ (joined [] ++ List.replicate m ATTRIBUTE_DELIMITER ++ [0])))
      (f := D) (by simp [joined]) hstart (fun b hb => by
        rcases List.mem_append.mp hb with hb | hb
        · exact hseps b hb
        · exact List.eq_of_mem_replicate hb) (by decide)
    rw [getAttributes]
    split
    · rfl
    · simp only [hnone, bind, Except.bind, pure, Except.pure]
      rfl
  | cons ks rest ih =>
    obtain ⟨k, s⟩ := ks
    have hseps' : ∀ b ∈ seps ++ List.replicate k ATTRIBUTE_DELIMITER, b = ATTRIBUTE_DELIMITER := by
      intro b hb
      rcases List.mem_append.mp hb with hb | hb
      · exact hseps b hb
      · exact List.eq_of_mem_replicate hb
    rw [setAll_cons]
    rw [joined, List.length_append, List.length_append, List.length_replicate] at hfuel htermp
    cases hs : s.written with
    | false =>
      rw [makeBracketConnectString_not_written hs] at hfuel htermp
      have hrest : getAttributes func termp fuel
          (D ++ (seps ++ List.replicate k ATTRIBUTE_DELIMITER ++
            (joined rest ++ List.replicate m ATTRIBUTE_DELIMITER ++ [0]))) strtok_arg last ci =
          .ok (true, setAll func ci rest) :=
        ih (by omega) hseps' hstart (by simp at htermp ⊢; omega)
      rw [if_neg Bool.false_ne_true, ← hrest, joined, makeBracketConnectString_not_written hs]
      simp
    | true =>
      obtain ⟨fuel, rfl⟩ : ∃ f, fuel = f + 1 := ⟨fuel - 1, by omega⟩
      rw [makeBracketConnectString_written hs] at hfuel htermp
      have hbuf : D ++ (seps ++ (joined ((k, s) :: rest) ++
          List.replicate m ATTRIBUTE_DELIMITER ++ [0])) =
          D ++ ((seps ++ List.replicate k ATTRIBUTE_DELIMITER) ++
            (s.attr ++ EQUALS :: bracket s.value ++ ATTRIBUTE_DELIMITER ::
              ((joined rest ++ List.replicate m ATTRIBUTE_DELIMITER) ++ [0]))) := by
        rw [joined, makeBracketConnectString_written hs]
        simp
      rw [hbuf, if_pos rfl]
      have hgo : GoesOn func termp fuel (joined rest ++ List.replicate m ATTRIBUTE_DELIMITER)
          (func ci s.attr (bracket s.value)) (getAttributes func termp (fuel + 1) _ strtok_arg last ci) :=
        getAttributes_bracket s hseps' hstart (by simp at htermp ⊢; omega)
      generalize getAttributes func termp (fuel + 1) _ _ _ _ = r at hgo
      cases hgo with
      | stop hR =>
        rw [setAll_of_length_le]
        simp at hR
        omega
      | again D' arg' last' hstart' htermp' =>
        have hrest : getAttributes func termp fuel
            (D' ++ ([] ++ (joined rest ++ List.replicate m ATTRIBUTE_DELIMITER ++ [0]))) arg' last'
            (func ci s.attr (bracket s.value)) =
            .ok (true, setAll func (func ci s.attr (bracket s.value)) rest) :=
          ih (by simp at hfuel; omega) (fun b hb => nomatch hb) hstart' (by simp at htermp' ⊢; omega)
        rw [← hrest]
        rfl

/-- **Settings in braces are read back.** The setter is called for each setting that is not empty,
in order, with its value in braces, and the braces come off again. -/
theorem brackets_read_back (func : σ → List Byte → List Byte → σ) (ci : σ)
    (settings : List (Nat × Setting)) (m : Nat) :
    dconn_get_attributes func (joined settings ++ List.replicate m ATTRIBUTE_DELIMITER) ci =
        .ok (true, ((settings.map (·.2)).filter (·.written)).foldl
          (fun ci s => func ci s.attr (bracket s.value)) ci) ∧
      ∀ s ∈ settings.map (·.2), decode_or_remove_braces (bracket s.value) = s.value := by
  refine ⟨?_, fun s _ => decode_or_remove_braces_bracket s.value⟩
  have hmain : getAttributes func (joined settings ++ List.replicate m ATTRIBUTE_DELIMITER).length
      ((joined settings ++ List.replicate m ATTRIBUTE_DELIMITER).length + 1)
      ([] ++ ([] ++ (joined settings ++ List.replicate m ATTRIBUTE_DELIMITER ++ [0]))) (some 0) 0 ci =
      .ok (true, setAll func ci settings) :=
    getAttributes_joined settings m (by rw [List.length_append]; omega) (fun b hb => nomatch hb) rfl
      (by simp)
  exact hmain

/-- A setting of `pqopt`. -/
def pqoptSetting (value : List Byte) (h : value.all (· ≠ 0) = true) : Setting where
  attr := ascii "pqopt"
  value := value
  attr_plain := by
    have hall : (ascii "pqopt").all
        (fun b => decide (b ≠ ATTRIBUTE_DELIMITER ∧ b ≠ EQUALS ∧ b ≠ 0)) = true := by decide
    exact fun b hb => of_decide_eq_true (List.all_eq_true.mp hall b hb)
  value_plain b hb := of_decide_eq_true (List.all_eq_true.mp h b hb)

/-- An empty value is not written, and the setter is not called for it. -/
theorem empty_value_not_written :
    dconn_get_attributes (fun calls attr value => calls ++ [(attr, decode_or_remove_braces value)])
        (joined [(0, pqoptSetting [] rfl)]) [] ≠
      .ok (true, [((pqoptSetting [] rfl).attr, (pqoptSetting [] rfl).value)]) := by
  decide

example : dconn_get_attributes
      (fun calls attr value => calls ++ [(attr, decode_or_remove_braces value)])
      (joined [(0, pqoptSetting (ascii "a\x7d;b\x7d") (by decide)), (1, pqoptSetting (ascii ";") (by decide))])
      [] = .ok (true, [(ascii "pqopt", ascii "a\x7d;b\x7d"), (ascii "pqopt", ascii ";")]) := by
  decide

end OdbcDriver.Connect
