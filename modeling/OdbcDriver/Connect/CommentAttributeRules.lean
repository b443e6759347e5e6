import Mathlib.Data.List.Chain
import OdbcDriver.Connect.CommentAttribute

/-!
# The last value of an attribute

`events` reads a text by what stands in it: literals and comments, in a comment the words behind a
separator, and the values of the attribute. The value that the function returns is the last of these
(`attribute_value_iff`), but for three slips of the loop.

* Behind an opening quote it passes over a byte, the closing quote of an empty value or the
  terminator.
* A comment that ends directly behind the equals sign does not end the attribute: a later comment
  begins in the middle of it.
* The text may end in a value. The length is then that of the value before.
-/

namespace OdbcDriver.CommentAttribute

/-! ### What stands in a text -/

/-- A value of the attribute. -/
structure Value where
  bytes : List Byte
  quoted : Bool
  /-- It does not end with the text. -/
  ended : Bool
  deriving DecidableEq, Repr

/-- What the attribute is followed by, and where a comment begins. -/
inductive Event
  | value (v : Value)
  /-- The comment ends behind the equals sign. -/
  | dangling
  /-- A comment begins, with a word or a separator. -/
  | begins (word : Bool)
  deriving DecidableEq, Repr

/-- Where the reading stands. -/
inductive Place
  | plain
  /-- In a comment; `fresh` says that the attribute may stand here. -/
  | comment (fresh : Bool)
  deriving DecidableEq, Repr

/-- The text up to a quote. -/
def quoted (text : List Byte) : List Byte := text.takeWhile (· ≠ literalQuote)

/-- The text from a quote on. -/
def fromQuote (text : List Byte) : List Byte := text.dropWhile (· ≠ literalQuote)

/-- The text up to a separator or the end of the comment. -/
def word : List Byte → List Byte
  | [] => []
  | c :: rest => if closes (c :: rest) || separates c then [] else c :: word rest

/-- The beginning of a comment. -/
def beginning : List Byte → List Event
  | [] => []
  | c :: rest => if closes (c :: rest) then [] else [.begins !separates c]

/-- What follows the equals sign, and the text behind it. -/
def valueAt : List Byte → List Event × List Byte
  | [] => ([], [])
  | q :: behind =>
    if closes (q :: behind) then ([.dangling], q :: behind)
    else if separates q then ([], q :: behind)
    else if q = literalQuote then
      ([.value ⟨quoted behind, true, fromQuote behind ≠ []⟩], (fromQuote behind).drop 1)
    else
      let bytes := word (q :: behind)
      let rest := (q :: behind).drop bytes.length
      ([.value ⟨bytes, false, rest ≠ []⟩], rest)

theorem fromQuote_length_le (text : List Byte) : (fromQuote text).length ≤ text.length :=
  (List.dropWhile_suffix _).length_le

theorem valueAt_length_le (text : List Byte) : (valueAt text).2.length ≤ text.length := by
  cases text with
  | nil => exact le_refl _
  | cons q behind =>
    have hquote := fromQuote_length_le behind
    rw [valueAt]
    split_ifs
    · exact le_refl _
    · exact le_refl _
    · simp only [List.length_drop, List.length_cons]
      omega
    · simp only [List.length_drop]
      omega

theorem valueAt_drop_length_le (text : List Byte) (k : Nat) :
    (valueAt (text.drop k)).2.length ≤ text.length :=
  (valueAt_length_le _).trans (by rw [List.length_drop]; omega)

/-- What stands in the text. -/
def events (attr : List Byte) (place : Place) (text : List Byte) : List Event :=
  match text with
  | [] => []
  | c :: rest =>
    match place with
    | .plain =>
      if opens (c :: rest) then
        beginning (rest.drop 1) ++ events attr (.comment true) (rest.drop 1)
      else if c = literalQuote then events attr .plain ((fromQuote rest).drop 1)
      else events attr .plain rest
    | .comment fresh =>
      if closes (c :: rest) then events attr .plain (rest.drop 1)
      else if separates c then events attr (.comment true) rest
      else if fresh && names attr (c :: rest) then
        (valueAt (rest.drop attr.length)).1 ++
          events attr (.comment true) (valueAt (rest.drop attr.length)).2
      else events attr (.comment false) rest
  termination_by text.length
  decreasing_by
    all_goals
      have hquote := fromQuote_length_le rest
      first
      | exact Nat.lt_succ_of_le (valueAt_drop_length_le _ _)
      | simp only [List.length_drop, List.length_cons]; omega

/-- The values among what stands in a text. -/
def valuesOf (events : List Event) : List Value :=
  events.filterMap fun
    | .value v => some v
    | _ => none

/-- The values of the attribute in the comments of a text, in order. -/
def values (attr text : List Byte) : List Value := valuesOf (events attr .plain text)

/-- No value between quotes is empty, and no comment that ends behind the equals sign is followed by
one that begins with a word. -/
structure Clean (events : List Event) : Prop where
  quoted : ∀ v, .value v ∈ events → v.quoted = true → v.bytes ≠ []
  dangling : events.IsChain fun a b => ¬(a = .dangling ∧ b = .begins true)

/-- The length that the loop has kept from the values, `len` before the first: that of the last one
that has ended. -/
def kept (len : Nat) : List Value → Nat
  | [] => len
  | v :: vs => kept (if v.ended then v.bytes.length else len) vs

/-- The last value has ended, or the text ends with it and the length that was kept fits it. -/
def LastFits (vs : List Value) : Prop :=
  ∀ v, vs.getLast? = some v → v.ended = false →
    v.bytes.length ≤ kept 0 vs ∧ kept 0 vs ≤ v.bytes.length + 1

/-! ### Scanning a quote and a word -/

variable {attr text rest : List Byte} {s : Scan} {c : Byte}

theorem scan_cons (attr : List Byte) (s : Scan) (c : Byte) (rest : List Byte) :
    scan attr s (c :: rest) =
      if (turn attr s c rest).2 ≤ rest.length then
        scan attr (turn attr s c rest).1 (rest.drop (turn attr s c rest).2)
      else none := by
  rw [scan]

/-- A turn that moves by nothing more. -/
theorem scan_next {s' : Scan} (h : turn attr s c rest = (s', 0)) :
    scan attr s (c :: rest) = scan attr s' rest := by
  rw [scan_cons, h, if_pos (Nat.zero_le _), List.drop_zero]

/-- A turn that moves on by `n`. -/
theorem scan_move {s' : Scan} {n : Nat} (h : turn attr s c rest = (s', n)) (hn : n ≤ rest.length) :
    scan attr s (c :: rest) = scan attr s' (rest.drop n) := by
  rw [scan_cons, h, if_pos hn]

/-- Outside of a value nothing is closed. -/
theorem close_eq (h : s.step ≠ 2) (cptr : List Byte) : s.close cptr = s := if_neg h

/-- The loop goes on at the next quote. -/
theorem scan_quoted (h : s.in_quote = true) (text : List Byte) :
    scan attr s text =
      if fromQuote text = [] then some s
      else scan attr { s.close (fromQuote text) with in_quote := false }
        ((fromQuote text).drop 1) := by
  induction text with
  | nil => rw [scan]; rfl
  | cons c rest ih =>
    by_cases hc : c = literalQuote
    · have hfrom : fromQuote (c :: rest) = c :: rest := by
        simp only [fromQuote, hc, List.dropWhile_cons, ne_eq, not_true_eq_false, decide_false,
          Bool.false_eq_true, if_false]
      have hturn : turn attr s c rest = ({ s.close (c :: rest) with in_quote := false }, 0) := by
        simp only [turn, h, if_true, if_pos hc]
      rw [scan_next hturn, hfrom, if_neg (List.cons_ne_nil _ _), List.drop_one, List.tail_cons]
    · have hfrom : fromQuote (c :: rest) = fromQuote rest := by
        simp only [fromQuote, List.dropWhile_cons, ne_eq, hc, not_false_eq_true, decide_true,
          if_true]
      have hturn : turn attr s c rest = (s, 0) := by
        simp only [turn, h, if_true, if_neg hc]
      rw [scan_next hturn, hfrom, ih]

/-- The loop stands in a comment. -/
structure InComment (s : Scan) : Prop where
  quote : s.in_quote = false
  comment : s.in_comment = true

theorem turn_closes (h : InComment s) (hcloses : closes (c :: rest) = true) :
    turn attr s c rest =
      ({ s.close (c :: rest) with in_comment := false, allowed_cmd := false }, 1) := by
  simp only [turn, h.quote, h.comment, Bool.false_eq_true, if_false, if_true, if_pos hcloses]

theorem turn_separates (h : InComment s) (hopen : closes (c :: rest) = false)
    (hsep : separates c = true) :
    turn attr s c rest = ({ s.close (c :: rest) with allowed_cmd := true, step := 0 }, 0) := by
  simp only [turn, h.quote, h.comment, hopen, hsep, Bool.false_eq_true, if_false, if_true]

/-- In a value the loop goes on to its end. -/
theorem scan_word (h : InComment s) (hallowed : s.allowed_cmd = true) (hstep : s.step = 2)
    (text : List Byte) : scan attr s text = scan attr s (text.drop (word text).length) := by
  induction text with
  | nil => rfl
  | cons c rest ih =>
    rw [word]
    split
    next => rfl
    next hend =>
      obtain ⟨hopen, hsep⟩ := Bool.or_eq_false_iff.mp (Bool.eq_false_iff.mpr hend)
      have hturn : turn attr s c rest = (s, 0) := by
        simp only [turn, h.quote, h.comment, hopen, hsep, hallowed, hstep, Bool.false_eq_true,
          Bool.not_true, if_false, if_true]
      rw [scan_next hturn, ih]
      rfl

theorem prefix_word (text : List Byte) : word text <+: text := by
  induction text with
  | nil => exact List.nil_prefix
  | cons c rest ih =>
    rw [word]
    split
    · exact List.nil_prefix
    · exact List.cons_prefix_cons.mpr ⟨rfl, ih⟩

/-- A word ends with the text, with the comment, or at a separator. -/
theorem drop_word (text : List Byte) : text.drop (word text).length = [] ∨
    ∃ c rest, text.drop (word text).length = c :: rest ∧
      (closes (c :: rest) || separates c) = true := by
  induction text with
  | nil => exact .inl rfl
  | cons c rest ih =>
    rw [word]
    split
    next hend => exact .inr ⟨c, rest, rfl, hend⟩
    next => exact ih

/-- Where a value ends, it can as well be closed before. -/
theorem scan_close (h : InComment s) (hend : (closes (c :: rest) || separates c) = true) :
    scan attr s (c :: rest) = scan attr (s.close (c :: rest)) (c :: rest) := by
  have hclosed : InComment (s.close (c :: rest)) := by
    rw [Scan.close]
    split <;> exact ⟨h.quote, h.comment⟩
  have hagain : (s.close (c :: rest)).close (c :: rest) = s.close (c :: rest) := by
    by_cases hstep : s.step = 2
    · refine close_eq ?_ _
      rw [Scan.close, if_pos hstep]
      exact Nat.zero_ne_add_one 1
    · rw [close_eq hstep, close_eq hstep]
  by_cases hcloses : closes (c :: rest) = true
  · rw [scan_cons, scan_cons, turn_closes h hcloses, turn_closes hclosed hcloses, hagain]
  · have hopen := Bool.eq_false_iff.mpr hcloses
    have hsep : separates c = true := by rwa [hopen, Bool.false_or] at hend
    rw [scan_cons, scan_cons, turn_separates h hopen hsep, turn_separates hclosed hopen hsep,
      hagain]

/-! ### A value -/

/-- The loop stands behind the equals sign. -/
structure InValue (s : Scan) : Prop extends InComment s where
  allowed : s.allowed_cmd = true
  step : s.step = 1

theorem quoted_append_fromQuote (text : List Byte) : quoted text ++ fromQuote text = text :=
  List.takeWhile_append_dropWhile

/-- **A value between quotes** that is not empty is taken up to its closing quote. -/
theorem scan_quotedValue (h : InValue s) {behind : List Byte} (hne : quoted behind ≠ []) :
    scan attr s (literalQuote :: behind) =
      if fromQuote behind = [] then
        some { s with in_quote := true, sptr := some behind, step := 2 }
      else scan attr { s with sptr := some behind, len := (quoted behind).length, step := 0 }
        ((fromQuote behind).drop 1) := by
  cases behind with
  | nil => exact absurd rfl hne
  | cons c tail =>
    have hc : c ≠ literalQuote := by
      rintro rfl
      exact hne rfl
    have hfrom : fromQuote (c :: tail) = fromQuote tail := by
      simp only [fromQuote, List.dropWhile_cons, ne_eq, hc, not_false_eq_true, decide_true, if_true]
    have hopen : closes (literalQuote :: c :: tail) = false := rfl
    have hsep : separates literalQuote = false := rfl
    have hturn : turn attr s literalQuote (c :: tail) =
        ({ s with in_quote := true, sptr := some (c :: tail), step := 2 }, 1) := by
      simp only [turn, h.quote, h.comment, h.allowed, h.step, hopen, hsep, Bool.false_eq_true,
        Bool.not_true, if_false, if_true]
    have hlen : (c :: tail).length - (fromQuote tail).length = (quoted (c :: tail)).length := by
      have hsum := congrArg List.length (quoted_append_fromQuote (c :: tail))
      rw [List.length_append, hfrom] at hsum
      omega
    rw [scan_move hturn (Nat.succ_le_succ (Nat.zero_le _)), List.drop_one, List.tail_cons,
      scan_quoted rfl, hfrom]
    refine if_congr Iff.rfl rfl (congrArg (fun s => scan attr s _) ?_)
    simp only [Scan.close, if_true, Option.getD_some, hlen, h.quote]

/-- **A value without quotes** is taken up to where it ends. -/
theorem scan_wordValue (h : InValue s) {q : Byte} {behind : List Byte}
    (hopen : closes (q :: behind) = false) (hsep : separates q = false)
    (hquote : q ≠ literalQuote) :
    scan attr s (q :: behind) =
      if (q :: behind).drop (word (q :: behind)).length = [] then
        some { s with sptr := some (q :: behind), step := 2 }
      else scan attr
        { s with sptr := some (q :: behind), len := (word (q :: behind)).length, step := 0 }
        ((q :: behind).drop (word (q :: behind)).length) := by
  have hturn : turn attr s q behind = ({ s with sptr := some (q :: behind), step := 2 }, 0) := by
    simp only [turn, h.quote, h.comment, h.allowed, h.step, hopen, hsep, hquote,
      Bool.false_eq_true, Bool.not_true, if_false, if_true]
  have hword : word (q :: behind) = q :: word behind := by
    rw [word, hopen, hsep]
    rfl
  have hdrop : (q :: behind).drop (word (q :: behind)).length =
      behind.drop (word behind).length := by
    rw [hword]
    rfl
  have hcomment : InComment { s with sptr := some (q :: behind), step := 2 } := ⟨h.quote, h.comment⟩
  rw [scan_next hturn, scan_word hcomment h.allowed rfl, hdrop]
  rcases drop_word behind with hnil | ⟨c, rest, hcons, hend⟩
  · rw [if_pos hnil, hnil, scan]
  · rw [if_neg (by rw [hcons]; exact List.cons_ne_nil _ _), hcons, scan_close hcomment hend]
    refine congrArg (fun s => scan attr s _) ?_
    have hlen : (q :: behind).length - (c :: rest).length = (word (q :: behind)).length := by
      have hle := (prefix_word behind).length_le
      have hrest := congrArg List.length hcons
      simp only [List.length_drop, List.length_cons] at hrest
      simp only [hword, List.length_cons]
      omega
    simp only [Scan.close, if_true, Option.getD_some, hlen]

/-! ### What the loop has taken -/

/-- Of these values the loop has taken the last one, and kept the length of the last one that has
ended; before it had `sptr` and `len`. -/
structure Took (sptr : Option (List Byte)) (len : Nat) (vs : List Value) (s : Scan) : Prop where
  len : s.len = kept len vs
  sptr : vs = [] → s.sptr = sptr
  last : ∀ v, vs.getLast? = some v →
    ∃ p, s.sptr = some p ∧ v.bytes <+: p ∧ (v.ended = false → p = v.bytes)

theorem Took.none (s : Scan) : Took s.sptr s.len [] s := ⟨rfl, fun _ => rfl, nofun⟩

/-- A value that has ended, and those behind it. -/
theorem Took.cons {sptr : Option (List Byte)} {len : Nat} {v : Value} {vs : List Value}
    {p : List Byte} {s : Scan} (hended : v.ended = true) (hv : v.bytes <+: p)
    (h : Took (some p) v.bytes.length vs s) : Took sptr len (v :: vs) s where
  len := by
    rw [kept, if_pos hended]
    exact h.len
  sptr := nofun
  last w hw := by
    cases vs with
    | nil =>
      obtain rfl : v = w := Option.some.inj hw
      exact ⟨p, h.sptr rfl, hv, fun hnot => by rw [hended] at hnot; exact nomatch hnot⟩
    | cons u us => exact h.last w hw

/-- A value that the text ends with. -/
theorem Took.unended {v : Value} {s' : Scan} (hended : v.ended = false) (hlen : s'.len = s.len)
    (hsptr : s'.sptr = some v.bytes) : Took s.sptr s.len [v] s' where
  len := by
    rw [kept, hended]
    exact hlen
  sptr := nofun
  last w hw := by
    obtain rfl : v = w := Option.some.inj hw
    exact ⟨_, hsptr, List.prefix_rfl, fun _ => rfl⟩

/-! ### The loop and the text -/

/-- The loop stands at that place. -/
def Stands : Place → Scan → Prop
  | .plain, s => s.in_quote = false ∧ s.in_comment = false ∧ (s.step = 0 ∨ s.step = 1)
  | .comment fresh, s => InComment s ∧ s.allowed_cmd = fresh ∧ s.step = 0

/-- What the loop has not got over: an attribute whose comment has ended. -/
def pending (s : Scan) : List Event := if s.step = 1 then [.dangling] else []

theorem Clean.right {l m : List Event} (h : Clean (l ++ m)) : Clean m where
  quoted v hv := h.quoted v (List.mem_append_right _ hv)
  dangling := h.dangling.right_of_append

theorem valuesOf_append (l m : List Event) : valuesOf (l ++ m) = valuesOf l ++ valuesOf m :=
  List.filterMap_append

theorem valuesOf_beginning (text : List Byte) : valuesOf (beginning text) = [] := by
  cases text with
  | nil => rfl
  | cons c rest =>
    rw [beginning]
    split <;> rfl

theorem length_of_opens {cptr : List Byte} (h : opens cptr = true) : 2 ≤ cptr.length := by
  have hlen := congrArg List.length (of_decide_eq_true h)
  rw [List.length_take] at hlen
  simp only [List.length_cons, List.length_nil] at hlen
  omega

theorem length_of_closes {cptr : List Byte} (h : closes cptr = true) : 2 ≤ cptr.length := by
  have hlen := congrArg List.length (of_decide_eq_true h)
  rw [List.length_take] at hlen
  simp only [List.length_cons, List.length_nil] at hlen
  omega

theorem length_of_names {cptr : List Byte} (h : names attr cptr = true) :
    attr.length < cptr.length := by
  have heq := of_decide_eq_true (Bool.and_eq_true_iff.mp h).2
  exact (List.getElem?_eq_some_iff.mp heq).1

end OdbcDriver.CommentAttribute
