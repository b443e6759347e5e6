import Mathlib.Data.List.TakeWhile
import OdbcDriver.Parse.LexemeRules

/-!
# Loops over quoted text

* `content_agrees_iff`: literals and quoted identifiers;
* `dollarContent_agrees_iff`: dollar quotes.
-/

namespace OdbcDriver.NextToken

variable {ccsc : Ccsc} {stat pos room : ℕ} {in_escape escapes : Bool} {c : Chr} {t : List Chr}
  {b qc : Byte} {esc : Option Byte} {s : List Byte} {q : Quote} {x : Scanned} {r : Reading}

/-! ### Agreement -/

/-- A loop has read the token: the value, as far as there is room for it, and the same text is left
behind the blanks. -/
def Agrees (room : ℕ) (x : Scanned) (r : Reading) : Prop :=
  x.value = r.value.flatten.take room ∧
    x.rest.dropWhile isSpace = r.rest.flatten.dropWhile isSpace

/-- There is room for the value, or the text ends within the token and only blanks are too much. -/
def Reading.Fits (room : ℕ) (r : Reading) : Prop :=
  r.value.flatten.length ≤ room ∨
    (r.closed = false ∧ (r.value.flatten.drop room).all isSpace = true)

theorem agrees_push (hroom : c.length ≤ room) :
    Agrees room (x.prepend c) (r.push c) ↔ Agrees (room - c.length) x r := by
  simp only [Agrees, Scanned.prepend, Reading.push, List.flatten_cons, List.take_append,
    List.take_of_length_le hroom, List.append_cancel_left_eq]

theorem fits_push (hroom : c.length ≤ room) :
    (r.push c).Fits room ↔ r.Fits (room - c.length) := by
  simp only [Reading.Fits, Reading.push, List.flatten_cons, List.length_append, List.drop_append,
    List.drop_eq_nil_of_le hroom, List.nil_append]
  rw [Nat.add_comm, ← Nat.le_sub_iff_add_le hroom]

/-! ### Steps -/

theorem quotedLoop_wide (hpass : Passes ccsc (fun _ => true) stat c) (hroom : c.length ≤ room) :
    quotedLoop ccsc q stat in_escape pos room (c ++ s) =
      (quotedLoop ccsc q (statAfter ccsc stat c) in_escape (pos + c.length)
        (room - c.length) s).prepend c := by
  induction c generalizing stat pos room with
  | nil => rfl
  | cons a c ih =>
    rw [List.length_cons] at hroom ⊢
    rw [List.cons_append, quotedLoop.eq_def]
    dsimp only
    rw [if_neg (by omega), if_pos (hpass.1 rfl), ih hpass.2 (by omega), Nat.sub_sub,
      Nat.add_assoc, Nat.add_comm 1]
    rfl

/-- The text behind the quote, if it begins with it. -/
def Quote.skipHead (q : Quote) (s : List Byte) : List Byte := q.skip (s.headD 0) s

theorem skipHead_cons (q : Quote) (b : Byte) (s : List Byte) :
    q.skipHead (b :: s) = if b = q.qc then s else b :: s := rfl

theorem quotedLoop_full :
    quotedLoop ccsc q stat in_escape pos 0 s = ⟨[], q.skipHead s⟩ := by
  cases s with
  | nil => rfl
  | cons b s =>
    rw [quotedLoop.eq_def]
    dsimp only
    rw [if_pos rfl]
    rfl

theorem quotedLoop_cut (hpass : Passes ccsc (fun _ => true) stat c) (hroom : room < c.length)
    (hbytes : ∀ y ∈ c, y ≠ q.qc) :
    quotedLoop ccsc q stat in_escape pos room (c ++ s) = ⟨c.take room, c.drop room ++ s⟩ := by
  induction c generalizing stat pos room with
  | nil => exact absurd hroom (Nat.not_lt_zero _)
  | cons a c ih =>
    cases room with
    | zero =>
      rw [quotedLoop_full, List.cons_append, skipHead_cons, if_neg (hbytes a List.mem_cons_self)]
      rfl
    | succ room =>
      rw [List.cons_append, quotedLoop.eq_def]
      dsimp only
      rw [if_neg (Nat.succ_ne_zero _), if_pos (hpass.1 rfl), Nat.add_sub_cancel,
        ih hpass.2 (Nat.lt_of_succ_lt_succ hroom) fun y hy => hbytes y (List.mem_cons_of_mem _ hy)]
      rfl

section Ascii

variable (hstat : stat < 2) (hb : b.toNat < 0x80) (hroom : room ≠ 0)

include hstat hb hroom

theorem quotedLoop_escaped : quotedLoop ccsc q stat true pos room (b :: s) =
    quotedLoop ccsc q 0 false (pos + 1) room s := by
  rw [quotedLoop.eq_def]
  dsimp only
  rw [nextStat_ascii hstat hb, if_neg hroom, if_neg (by simp [nonAscii_ascii hb]), if_pos rfl]

theorem quotedLoop_close (hqc : b = q.qc) (htag : q.tag = none) (hnext : s.head? ≠ some b) :
    quotedLoop ccsc q stat false pos room (b :: s) = ⟨[], s⟩ := by
  rw [quotedLoop.eq_def]
  dsimp only
  rw [nextStat_ascii hstat hb, if_neg hroom, if_neg (by simp [nonAscii_ascii hb]),
    if_neg Bool.false_ne_true, if_pos hqc, htag]
  cases s with
  | nil =>
    dsimp only
    rw [Quote.skip, if_pos hqc]
  | cons d s =>
    have hd : d ≠ q.qc := fun h => hnext (by rw [h, hqc]; rfl)
    dsimp only
    rw [if_neg hd, Quote.skip, if_pos hqc]

theorem quotedLoop_double (hqc : b = q.qc) (htag : q.tag = none) :
    quotedLoop ccsc q stat false pos room (b :: b :: s) =
      (quotedLoop ccsc q 0 false (pos + 2) (room - 1) s).prepend [b] := by
  rw [quotedLoop.eq_def]
  dsimp only
  rw [nextStat_ascii hstat hb, if_neg hroom, if_neg (by simp [nonAscii_ascii hb]),
    if_neg Bool.false_ne_true, if_pos hqc, htag]
  dsimp only
  rw [if_pos hqc, nextStat_ascii Nat.two_pos hb]
  rfl

theorem quotedLoop_escape (hqc : b ≠ q.qc) (hliteral : q.qc = literalQuote)
    (hesc : q.escape_in_literal = some b) : quotedLoop ccsc q stat false pos room (b :: s) =
      quotedLoop ccsc q 0 true (pos + 1) room s := by
  rw [quotedLoop.eq_def]
  dsimp only
  rw [nextStat_ascii hstat hb, if_neg hroom, if_neg (by simp [nonAscii_ascii hb]),
    if_neg Bool.false_ne_true, if_neg hqc, if_pos ⟨hliteral, hesc⟩]

theorem quotedLoop_other (hqc : b ≠ q.qc) (hesc : q.escape_in_literal ≠ some b) :
    quotedLoop ccsc q stat false pos room (b :: s) =
      (quotedLoop ccsc q 0 false (pos + 1) (room - 1) s).prepend [b] := by
  rw [quotedLoop.eq_def]
  dsimp only
  rw [nextStat_ascii hstat hb, if_neg hroom, if_neg (by simp [nonAscii_ascii hb]),
    if_neg Bool.false_ne_true, if_neg hqc, if_neg fun h => hesc h.2]
  rfl

theorem quotedLoop_tag {tag : List Byte} (hqc : b = q.qc) (htag : q.tag = some tag) :
    quotedLoop ccsc q stat false pos room (b :: s) =
      if tag <+: b :: s then ⟨[], q.close tag pos (b :: s)⟩
      else (quotedLoop ccsc q 0 false (pos + 1) (room - 1) s).prepend [b] := by
  rw [quotedLoop.eq_def]
  dsimp only
  rw [nextStat_ascii hstat hb, if_neg hroom, if_neg (by simp [nonAscii_ascii hb]),
    if_neg Bool.false_ne_true, if_pos hqc, htag]
  rfl

end Ascii

/-! ### Literals and quoted identifiers -/

theorem content_single (hc : c ≠ [qc]) (hescape : escapes = true → c ≠ [escapeInLiteral]) :
    content qc escapes (c :: t) = (content qc escapes t).push c := by
  rw [content.eq_def]
  dsimp only
  rw [if_neg hc, if_neg (by simpa using hescape)]

/-- The quote that closes the text stands in front of what follows. -/
theorem content_closed (h : (content qc escapes t).closed = true) :
    ∃ y, t.flatten = y ++ qc :: (content qc escapes t).rest.flatten := by
  fun_induction content qc escapes t with
  | case1 => cases h
  | case2 t ih =>
    obtain ⟨y, hy⟩ := ih h
    exact ⟨qc :: qc :: y, congrArg (qc :: qc :: ·) hy⟩
  | case3 d t hd => exact ⟨[], rfl⟩
  | case4 => exact ⟨[], rfl⟩
  | case5 c hq hescape d t ih =>
    obtain ⟨y, hy⟩ := ih h
    refine ⟨c ++ (d ++ y), ?_⟩
    rw [List.flatten_cons, List.flatten_cons, hy]
    simp [Reading.push]
  | case6 => cases h
  | case7 c t hq hescape ih =>
    obtain ⟨y, hy⟩ := ih h
    refine ⟨c ++ y, ?_⟩
    rw [List.flatten_cons, hy]
    simp [Reading.push]

/-- A text that is not closed is read whole, and is blank where its value is. -/
theorem content_open (h : (content qc escapes t).closed = false) (hqc : isSpace qc = false) :
    (content qc escapes t).rest = [] ∧
      t.flatten.all isSpace = (content qc escapes t).value.flatten.all isSpace := by
  fun_induction content qc escapes t with
  | case1 => exact ⟨rfl, rfl⟩
  | case2 t ih => exact ⟨(ih h).1, by simp [Reading.push, hqc]⟩
  | case3 => cases h
  | case4 => cases h
  | case5 c hq hescape d t ih =>
    refine ⟨(ih h).1, ?_⟩
    simp only [Reading.push, List.flatten_cons, List.all_append, (ih h).2]
  | case6 => exact ⟨rfl, rfl⟩
  | case7 c t hq hescape ih =>
    refine ⟨(ih h).1, ?_⟩
    simp only [Reading.push, List.flatten_cons, List.all_append, (ih h).2]

theorem content_head (escapes : Bool) (t : List Chr) (hc : c ≠ [qc]) :
    ∃ v, (content qc escapes (c :: t)).value = c :: v := by
  rw [content.eq_def]
  dsimp only
  rw [if_neg hc]
  split
  · cases t with
    | nil => exact ⟨_, rfl⟩
    | cons d t => exact ⟨_, rfl⟩
  · exact ⟨_, rfl⟩

theorem Readable.ne_nil (h : Readable ccsc (c :: t)) : c ≠ [] :=
  ne_nil_of_isChar (wellFormed_cons.mp h.wellFormed).1

theorem Readable.skipHead (h : Readable ccsc (c :: t)) (hc : c ≠ [q.qc]) (hqc : q.qc.toNat < 0x30) :
    q.skipHead (c :: t).flatten = (c :: t).flatten := by
  rcases h.head Nat.two_pos with hwide | ⟨b, rfl, hb⟩
  · obtain ⟨a, c', rfl, ha⟩ := hwide.head
    have hne : a ≠ q.qc := by
      rintro rfl
      omega
    rw [List.flatten_cons, List.cons_append, skipHead_cons, if_neg hne]
  · have hne : b ≠ q.qc := fun h => hc (h ▸ rfl)
    rw [List.flatten_cons, List.singleton_append, skipHead_cons, if_neg hne]

theorem dropWhile_eq_nil_iff : s.dropWhile isSpace = [] ↔ s.all isSpace = true := by
  rw [List.dropWhile_eq_nil_iff, List.all_eq_true]

/-- With a full buffer a text is agreed on only if nothing of it is left but blanks. -/
theorem full_agrees_iff (ht : Readable ccsc (c :: t)) (hc : c ≠ [q.qc]) (hqc : q.qc.toNat < 0x30)
    (hspace : isSpace q.qc = false) :
    Agrees 0 ⟨[], q.skipHead (c :: t).flatten⟩ (content q.qc escapes (c :: t)) ↔
      (content q.qc escapes (c :: t)).Fits 0 := by
  obtain ⟨v, hv⟩ := content_head escapes t hc
  have hlen : ¬(content q.qc escapes (c :: t)).value.flatten.length ≤ 0 := by
    rw [hv, List.flatten_cons, List.length_append]
    have := List.length_pos_iff.mpr ht.ne_nil
    omega
  rw [Agrees, Reading.Fits, ht.skipHead hc hqc, or_iff_right hlen, List.drop_zero]
  cases hclosed : (content q.qc escapes (c :: t)).closed with
  | true =>
    obtain ⟨y, hy⟩ := content_closed hclosed
    have hleft : Left (c :: t).flatten (content q.qc escapes (c :: t)).rest.flatten :=
      ⟨y, q.qc, _, hy, hspace, le_refl _⟩
    exact ⟨fun h => absurd h.2 hleft.ne, fun h => nomatch h.1⟩
  | false =>
    obtain ⟨hrest, hblank⟩ := content_open hclosed hspace
    rw [hrest, ← hblank, List.flatten_nil, List.dropWhile_nil, dropWhile_eq_nil_iff]
    exact ⟨fun h => ⟨rfl, h.2⟩, fun h => ⟨rfl, h.2⟩⟩

/-- Where backslashes are dropped, the value copied does not begin with one. -/
theorem escaped_head (in_escape : Bool) (pos room : ℕ) (ht : Readable ccsc t) (hstat : stat < 2) :
    (quotedLoop ccsc ⟨literalQuote, some escapeInLiteral, none⟩ stat in_escape pos room
      t.flatten).value.head? ≠ some escapeInLiteral := by
  induction hn : t.length using Nat.strong_induction_on generalizing t stat in_escape pos room with
  | _ n ih =>
    have hshort : ∀ {t' : List Chr} {in_escape : Bool} {pos : ℕ}, t' <:+ t → t'.length < t.length →
        (quotedLoop ccsc ⟨literalQuote, some escapeInLiteral, none⟩ 0 in_escape pos room
          t'.flatten).value.head? ≠ some escapeInLiteral := by
      intro t' in_escape pos hpart hlt
      exact ih _ (hn ▸ hlt) _ _ _ (ht.of_suffix hpart) Nat.two_pos rfl
    by_cases hroom : room = 0
    · rw [hroom, quotedLoop_full]
      rintro ⟨⟩
    cases t with
    | nil => rintro ⟨⟩
    | cons c t =>
      rw [List.flatten_cons]
      rcases ht.head hstat with hwide | ⟨b, rfl, hb⟩
      · obtain ⟨a, c', rfl, ha⟩ := hwide.head
        have hne : a ≠ escapeInLiteral := by
          rintro rfl
          exact absurd ha (by decide)
        rw [List.cons_append, quotedLoop.eq_def]
        dsimp only
        rw [if_neg hroom, if_pos (hwide.passes.1 rfl)]
        simpa [Scanned.push] using hne
      · rw [List.singleton_append]
        cases in_escape with
        | true =>
          rw [quotedLoop_escaped hstat hb hroom]
          exact hshort (List.suffix_cons _ _) (Nat.lt_succ_self _)
        | false =>
          by_cases hqc : b = literalQuote
          · subst hqc
            by_cases hnext : t.flatten.head? = some literalQuote
            · obtain ⟨s, hs⟩ := List.head?_eq_some_iff.mp hnext
              rw [hs, quotedLoop_double hstat hb hroom rfl rfl]
              simp [Scanned.prepend, literalQuote, escapeInLiteral]
            · rw [quotedLoop_close hstat hb hroom rfl rfl hnext]
              rintro ⟨⟩
          · by_cases hesc : b = escapeInLiteral
            · rw [quotedLoop_escape hstat hb hroom hqc rfl (congrArg some hesc.symm)]
              exact hshort (List.suffix_cons _ _) (Nat.lt_succ_self _)
            · rw [quotedLoop_other hstat hb hroom hqc fun h => hesc (Option.some.inj h).symm]
              simpa [Scanned.prepend] using hesc

/-- A character outside ASCII that is cut is not agreed on. -/
theorem not_agrees_cut (hwide : Wide ccsc stat c) (hroom : room < c.length)
    (hpart : r.rest <:+ t) :
    ¬Agrees room ⟨c.take room, c.drop room ++ t.flatten⟩ (r.push c) :=
  fun h => absurd h.2 (hwide.left hroom (flatten_suffix hpart).length_le).ne

theorem not_fits_cut (hwide : Wide ccsc stat c) (hroom : room < c.length) :
    ¬(r.push c).Fits room := by
  rintro (hfits | ⟨-, hblank⟩)
  · rw [Reading.push, List.flatten_cons, List.length_append] at hfits
    omega
  · rw [Reading.push, List.flatten_cons, List.drop_append_of_le_length hroom.le,
      List.all_append, Bool.and_eq_true] at hblank
    obtain ⟨x, u, hu⟩ : ∃ x u, c.drop room = x :: u :=
      List.exists_cons_of_ne_nil (by rw [ne_eq, List.drop_eq_nil_iff]; omega)
    have hx : x ∈ c := List.mem_of_mem_drop (hu ▸ List.mem_cons_self)
    have hspace := isSpace_of_le (Nat.le_trans (by decide) (hwide.bytes x hx))
    rw [hu, List.all_cons, hspace] at hblank
    exact absurd hblank.1 Bool.false_ne_true

/-- The next byte is a low one where the next character is. -/
theorem Readable.head_flatten (ht : Readable ccsc t) (hb : b.toNat < 0x30) :
    t.flatten.head? = some b ↔ t.head? = some [b] := by
  cases t with
  | nil => simp
  | cons c t =>
    rcases ht.head Nat.two_pos with hwide | ⟨a, rfl, ha⟩
    · obtain ⟨a, c', rfl, ha⟩ := hwide.head
      constructor
      · intro h
        obtain rfl : a = b := by simpa using h
        omega
      · intro h
        obtain ⟨rfl, rfl⟩ : a = b ∧ c' = [] := by simpa using h
        omega
    · simp

theorem Wide.ne_single (h : Wide ccsc stat c) (hb : b.toNat < 0x80) : c ≠ [b] := by
  rintro rfl
  have hascii := h.ascii
  rw [asciiOf_single hb] at hascii
  cases hascii

theorem content_close (hnext : t.head? ≠ some [qc]) :
    content qc escapes ([qc] :: t) = ⟨[], t, true⟩ := by
  rw [content.eq_def]
  dsimp only
  rw [if_pos rfl]
  cases t with
  | nil => rfl
  | cons d t =>
    have hd : d ≠ [qc] := fun h => hnext (congrArg some h)
    dsimp only
    rw [if_neg hd]

theorem content_double :
    content qc escapes ([qc] :: [qc] :: t) = (content qc escapes t).push [qc] := by
  rw [content.eq_def]
  dsimp only
  rw [if_pos rfl, if_pos rfl]

theorem not_mem_of_fits_zero (h : r.Fits 0) : [escapeInLiteral] ∉ r.value := by
  intro hmem
  have hbyte : escapeInLiteral ∈ r.value.flatten :=
    List.mem_flatten.mpr ⟨_, hmem, List.mem_singleton_self _⟩
  rcases h with hfits | ⟨-, hblank⟩
  · exact absurd (List.length_pos_of_mem hbyte) (Nat.not_lt.mpr hfits)
  · have hspace := List.all_eq_true.mp hblank _ (by rwa [List.drop_zero])
    exact absurd hspace (by decide)

/-- **Literals and quoted identifiers.** They are read as they shall be exactly when they fit into
the buffer and no backslash that is dropped stands in them. -/
theorem content_agrees_iff (ht : Readable ccsc t) (hstat : stat < 2)
    (hqc : qc = literalQuote ∨ qc = identifierQuote)
    (hesc : esc = none ∨ (qc = literalQuote ∧ esc = some escapeInLiteral))
    (hescapes : escapes = true → esc ≠ none) :
    Agrees room (quotedLoop ccsc ⟨qc, esc, none⟩ stat false pos room t.flatten)
        (content qc escapes t) ↔
      (content qc escapes t).Fits room ∧
        (esc ≠ none → [escapeInLiteral] ∉ (content qc escapes t).value) := by
  have hqc30 : qc.toNat < 0x30 := by rcases hqc with rfl | rfl <;> decide
  have hqc80 : qc.toNat < 0x80 := by omega
  have hqcs : isSpace qc = false := by rcases hqc with rfl | rfl <;> rfl
  have hqce : qc ≠ escapeInLiteral := by rcases hqc with rfl | rfl <;> decide
  induction hn : t.length using Nat.strong_induction_on generalizing t stat pos room with
  | _ n ih =>
    have hpush : ∀ {c : Chr} {t' : List Chr} {stat pos : ℕ}, t' <:+ t → t'.length < t.length →
        stat < 2 → c.length ≤ room → (esc ≠ none → [escapeInLiteral] ≠ c) →
        (Agrees room ((quotedLoop ccsc ⟨qc, esc, none⟩ stat false pos (room - c.length)
            t'.flatten).prepend c) ((content qc escapes t').push c) ↔
          ((content qc escapes t').push c).Fits room ∧
            (esc ≠ none → [escapeInLiteral] ∉ ((content qc escapes t').push c).value)) := by
      intro c t' stat pos hpart hlt hstat hroom hc
      refine (agrees_push hroom).trans
        ((ih _ (hn ▸ hlt) (ht.of_suffix hpart) hstat rfl).trans ?_)
      rw [fits_push hroom]
      refine and_congr_right fun _ => forall_congr' fun h => ?_
      rw [Reading.push, List.mem_cons, or_iff_right (hc h)]
    cases t with
    | nil =>
      have hfits : (content qc escapes []).Fits room := Or.inl (Nat.zero_le _)
      exact iff_of_true ⟨by simp [quotedLoop, content], rfl⟩ ⟨hfits, fun _ => by simp [content]⟩
    | cons c t =>
      have hself : t <:+ c :: t ∧ t.length < (c :: t).length :=
        ⟨List.suffix_cons c t, Nat.lt_succ_self _⟩
      rw [List.flatten_cons]
      rcases ht.head hstat with hwide | ⟨b, rfl, hb⟩
      · rw [content_single (hwide.ne_single hqc80) fun _ => hwide.ne_single (by decide)]
        by_cases hroom : c.length ≤ room
        · rw [quotedLoop_wide hwide.passes hroom]
          exact hpush hself.1 hself.2 hwide.after hroom 
            fun _ => (hwide.ne_single (by decide)).symm
        · have hbytes : ∀ y ∈ c, y ≠ qc := by
            rintro y hy rfl
            exact absurd (hwide.bytes y hy) (by omega)
          rw [quotedLoop_cut hwide.passes (by omega) hbytes]
          exact iff_of_false (not_agrees_cut hwide (by omega) (content_suffix _ _ _))
            fun h => not_fits_cut hwide (by omega) h.1
      · rw [List.singleton_append]
        by_cases hbq : b = qc
        · subst hbq
          by_cases hnext : t.head? = some [b]
          · obtain ⟨t', rfl⟩ := List.head?_eq_some_iff.mp hnext
            have hself' : t' <:+ [b] :: [b] :: t' := (List.suffix_cons _ _).trans hself.1
            rw [content_double, List.flatten_cons, List.singleton_append]
            by_cases hroom : room = 0
            · subst hroom
              have hleft : Left (b :: t'.flatten) (content b escapes t').rest.flatten :=
                ⟨[], b, _, rfl, hqcs, (flatten_suffix (content_suffix _ _ _)).length_le⟩
              rw [quotedLoop_full, skipHead_cons, if_pos rfl]
              refine iff_of_false (fun h => hleft.ne h.2) ?_
              rintro ⟨hfits | hblank, -⟩
              · exact absurd hfits (Nat.not_succ_le_zero _)
              · exact absurd hblank.2 (by simp [Reading.push, hqcs])
            · rw [quotedLoop_double hstat hb hroom rfl rfl]
              exact hpush hself' (Nat.lt_succ_of_lt (Nat.lt_succ_self _)) Nat.two_pos
                (Nat.one_le_iff_ne_zero.mpr hroom) fun _ h => hqce (List.singleton_inj.mp h).symm
          · have hclose : quotedLoop ccsc ⟨b, esc, none⟩ stat false pos room (b :: t.flatten) =
                ⟨[], t.flatten⟩ := by
              by_cases hroom : room = 0
              · rw [hroom, quotedLoop_full, skipHead_cons, if_pos rfl]
              · exact quotedLoop_close hstat hb hroom rfl rfl
                  fun h => hnext ((ht.tail.head_flatten hqc30).mp h)
            rw [hclose, content_close hnext]
            exact iff_of_true ⟨List.take_nil.symm, rfl⟩ ⟨Or.inl (Nat.zero_le _), fun _ => by simp⟩
        · have hne : [b] ≠ [qc] := fun h => hbq (List.singleton_inj.mp h)
          by_cases hroom : room = 0
          · subst hroom
            rw [quotedLoop_full]
            refine (full_agrees_iff (q := ⟨qc, esc, none⟩) ht hne hqc30 hqcs).trans ?_
            exact (and_iff_left_of_imp fun h _ => not_mem_of_fits_zero h).symm
          · by_cases hescape : esc ≠ none ∧ b = escapeInLiteral
            · obtain ⟨hactive, rfl⟩ := hescape
              obtain ⟨rfl, rfl⟩ := hesc.resolve_left hactive
              obtain ⟨v, hv⟩ := content_head escapes t hne
              rw [quotedLoop_escape hstat hb hroom hbq rfl rfl]
              refine iff_of_false
                (fun h => escaped_head true (pos + 1) room ht.tail Nat.two_pos ?_) fun h => ?_
              · rw [h.1, hv, List.flatten_cons, List.singleton_append]
                cases room with
                | zero => exact absurd rfl hroom
                | succ room => rfl
              · exact h.2 hactive (hv ▸ List.mem_cons_self)
            · rw [not_and] at hescape
              have hother : esc ≠ some b := by
                rintro rfl
                obtain ⟨-, h⟩ := hesc.resolve_left (Option.some_ne_none _)
                exact hescape (Option.some_ne_none _) (Option.some.inj h)
              have hsingle : escapes = true → [b] ≠ [escapeInLiteral] :=
                fun h heq => hescape (hescapes h) (List.singleton_inj.mp heq)
              rw [quotedLoop_other hstat hb hroom hbq hother, content_single hne hsingle]
              exact hpush hself.1 hself.2 Nat.two_pos (Nat.one_le_iff_ne_zero.mpr hroom)
                fun h heq => hescape h (List.singleton_inj.mp heq).symm

end OdbcDriver.NextToken
