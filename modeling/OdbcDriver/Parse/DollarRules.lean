import OdbcDriver.Parse.QuotedRules

/-!
# What begins with a dollar sign

`getNextToken` reads from a dollar sign to the next one as a tag. For a dollar quote that is right,
but the closing tag is taken off whole only if the position of its last byte, cut to a byte, happens
to be the code of the dollar sign (`dollar_agrees_iff`). A parameter it never reads as one
(`parameter_differs`).
-/

namespace OdbcDriver.NextToken

variable {ccsc : Ccsc} {stat pos room : ℕ} {c : Chr} {t name tag : List Chr} {b : Byte}
  {s : List Byte} {q : Quote}

/-! ### Tags -/

/-- Characters begin a text exactly when their bytes do. -/
theorem prefix_flatten_iff (htag : WellFormed ccsc tag) (ht : WellFormed ccsc t) :
    tag.flatten <+: t.flatten ↔ tag <+: t := by
  constructor
  · rintro ⟨s, hs⟩
    induction tag generalizing t with
    | nil => exact List.nil_prefix
    | cons c tag ih =>
      obtain ⟨hc, htag⟩ := wellFormed_cons.mp htag
      rw [List.flatten_cons, List.append_assoc] at hs
      have hdecode := decode_append hc (tag.flatten ++ s)
      rw [hs, decode_flatten ht] at hdecode
      obtain ⟨t', ht', rfl⟩ := Option.map_eq_some_iff.mp hdecode.symm
      obtain ⟨u, hu⟩ := ih htag (wellFormed_cons.mp ht).2 (flatten_of_decode ht').symm
      exact ⟨u, by rw [List.cons_append, hu]⟩
  · rintro ⟨u, rfl⟩
    exact ⟨u.flatten, List.flatten_append.symm⟩

theorem tagOf_flatten : (tagOf name).flatten = dollarQuote :: name.flatten ++ [dollarQuote] := by
  simp [tagOf]

theorem dollarQuote_low : dollarQuote.toNat < 0x30 := by decide

theorem wellFormed_tagOf (hname : WellFormed ccsc name) : WellFormed ccsc (tagOf name) := by
  have hdollar : isChar ccsc [dollarQuote] = true := isChar_ascii ccsc (by decide) (by decide)
  intro c hc
  simp only [tagOf, List.cons_append, List.mem_cons, List.mem_append, List.not_mem_nil,
    or_false] at hc
  rcases hc with rfl | hc | rfl
  · exact hdollar
  · exact hname c hc
  · exact hdollar

theorem not_prefix_tagOf (hc : c ≠ [dollarQuote]) : ¬tagOf name <+: c :: t := by
  rintro ⟨u, hu⟩
  exact hc (List.cons.inj hu).1.symm

/-! ### Dollar quotes -/

theorem dollarContent_push (h : ¬tag <+: c :: t) :
    dollarContent tag (c :: t) = (dollarContent tag t).push c := by
  rw [dollarContent, if_neg h]

theorem dollarContent_closed (h : (dollarContent tag t).closed = true) :
    t = (dollarContent tag t).value ++ (tag ++ (dollarContent tag t).rest) := by
  induction t with
  | nil => cases h
  | cons c t ih =>
    by_cases htag : tag <+: c :: t
    · rw [dollarContent, if_pos htag]
      exact List.prefix_append_drop htag
    · rw [dollarContent_push htag] at h ⊢
      exact congrArg (c :: ·) (ih h)

theorem dollarContent_open (h : (dollarContent tag t).closed = false) :
    (dollarContent tag t).value = t ∧ (dollarContent tag t).rest = [] := by
  induction t with
  | nil => exact ⟨rfl, rfl⟩
  | cons c t ih =>
    by_cases htag : tag <+: c :: t
    · rw [dollarContent, if_pos htag] at h
      cases h
    · rw [dollarContent_push htag] at h ⊢
      exact ⟨congrArg (c :: ·) (ih h).1, (ih h).2⟩

/-- The quote that `getNextToken` reads behind a tag. -/
def quoteOf (name : List Chr) : Quote := ⟨dollarQuote, none, some (tagOf name).flatten⟩

/-- An ASCII character goes into the content, unless the closing tag begins with it. -/
theorem quotedLoop_dollar (hname : WellFormed ccsc name) (ht : Readable ccsc ([b] :: t))
    (hstat : stat < 2) (hb : b.toNat < 0x80) (hroom : room ≠ 0)
    (htag : ¬tagOf name <+: [b] :: t) :
    quotedLoop ccsc (quoteOf name) stat false pos room (b :: t.flatten) =
      (quotedLoop ccsc (quoteOf name) 0 false (pos + 1) (room - 1) t.flatten).prepend [b] := by
  by_cases hdollar : b = dollarQuote
  · have hbytes : ¬(tagOf name).flatten <+: b :: t.flatten :=
      fun h => htag ((prefix_flatten_iff (wellFormed_tagOf hname) ht.wellFormed).mp h)
    rw [quotedLoop_tag hstat hb hroom hdollar rfl, if_neg hbytes]
  · exact quotedLoop_other hstat hb hroom hdollar (Option.some_ne_none b).symm

theorem Readable.skipHead_wide (hwide : Wide ccsc stat c) (hroom : room < c.length)
    (hqc : q.qc.toNat < 0x30) : q.skipHead (c.drop room ++ s) = c.drop room ++ s := by
  obtain ⟨x, u, hu⟩ : ∃ x u, c.drop room = x :: u :=
    List.exists_cons_of_ne_nil (by rw [ne_eq, List.drop_eq_nil_iff]; omega)
  have hx : x ∈ c := List.mem_of_mem_drop (hu ▸ List.mem_cons_self)
  have hne : x ≠ q.qc := by
    rintro rfl
    exact absurd (hwide.bytes _ hx) (by omega)
  rw [hu, List.cons_append, skipHead_cons, if_neg hne]

/-- A content for which there is not more than enough room fills the buffer. -/
theorem dollar_fills (hname : WellFormed ccsc name) (ht : Readable ccsc t) (hstat : stat < 2)
    (hroom : room ≤ (dollarContent (tagOf name) t).value.flatten.length) :
    quotedLoop ccsc (quoteOf name) stat false pos room t.flatten =
      ⟨t.flatten.take room, (quoteOf name).skipHead (t.flatten.drop room)⟩ := by
  induction t generalizing stat pos room with
  | nil =>
    obtain rfl : room = 0 := Nat.le_zero.mp hroom
    rfl
  | cons c t ih =>
    by_cases hzero : room = 0
    · subst hzero
      exact quotedLoop_full
    by_cases htag : tagOf name <+: c :: t
    · rw [dollarContent, if_pos htag] at hroom
      exact absurd (Nat.le_zero.mp hroom) hzero
    · rw [dollarContent_push htag, Reading.push, List.flatten_cons, List.length_append] at hroom
      rw [List.flatten_cons]
      rcases ht.head hstat with hwide | ⟨b, rfl, hb⟩
      · by_cases hfits : c.length ≤ room
        · rw [quotedLoop_wide hwide.passes hfits, ih ht.tail hwide.after (by omega),
            List.take_append, List.drop_append, List.take_of_length_le hfits,
            List.drop_eq_nil_of_le hfits]
          rfl
        · rw [quotedLoop_cut hwide.passes (by omega), List.take_append_of_le_length (by omega),
            List.drop_append_of_le_length (by omega),
            Readable.skipHead_wide hwide (by omega) dollarQuote_low]
          rintro y hy rfl
          exact absurd (hwide.bytes _ hy) (Nat.not_le.mpr dollarQuote_low)
      · rw [List.length_singleton] at hroom
        obtain ⟨room, rfl⟩ := Nat.exists_eq_succ_of_ne_zero hzero
        rw [List.singleton_append, quotedLoop_dollar hname ht hstat hb hzero htag,
          ih ht.tail Nat.two_pos (by omega)]
        rfl

/-- A content for which there is more than enough room is read to the closing tag or to the end. -/
theorem dollar_reads (hname : WellFormed ccsc name) (ht : Readable ccsc t) (hstat : stat < 2)
    (hroom : (dollarContent (tagOf name) t).value.flatten.length < room) :
    quotedLoop ccsc (quoteOf name) stat false pos room t.flatten =
      ⟨(dollarContent (tagOf name) t).value.flatten,
        if (dollarContent (tagOf name) t).closed then
          (quoteOf name).close (tagOf name).flatten
            (pos + (dollarContent (tagOf name) t).value.flatten.length)
            ((tagOf name).flatten ++ (dollarContent (tagOf name) t).rest.flatten)
        else []⟩ := by
  induction t generalizing stat pos room with
  | nil => rfl
  | cons c t ih =>
    have hzero : room ≠ 0 := by omega
    by_cases htag : tagOf name <+: c :: t
    · obtain ⟨u, hu⟩ := htag
      obtain ⟨rfl, hrest⟩ := List.cons.inj hu
      have hbytes : dollarQuote :: t.flatten = (tagOf name).flatten ++ u.flatten := by
        rw [← List.flatten_append, hu]
        rfl
      have hdrop : ([dollarQuote] :: t).drop (tagOf name).length = u := by
        rw [← hu, List.drop_left]
      rw [List.flatten_cons, List.singleton_append,
        quotedLoop_tag hstat (Nat.lt_trans dollarQuote_low (by decide)) hzero
          (show dollarQuote = (quoteOf name).qc from rfl) rfl, hbytes,
        if_pos (List.prefix_append _ _), dollarContent, if_pos ⟨u, hu⟩, hdrop, if_pos rfl]
      rfl
    · rw [dollarContent_push htag] at hroom ⊢
      rw [Reading.push, List.flatten_cons, List.length_append] at hroom
      rw [List.flatten_cons]
      rcases ht.head hstat with hwide | ⟨b, rfl, hb⟩
      · rw [quotedLoop_wide hwide.passes (by omega), ih ht.tail hwide.after (by omega)]
        simp only [Scanned.prepend, Reading.push, List.flatten_cons, List.length_append,
          Nat.add_assoc]
      · rw [List.length_singleton] at hroom
        rw [List.singleton_append, quotedLoop_dollar hname ht hstat hb hzero htag,
          ih ht.tail Nat.two_pos (by omega)]
        simp only [Scanned.prepend, Reading.push, List.flatten_cons, List.length_append,
          Nat.add_assoc, List.length_singleton]

/-! ### When they are read right -/

/-- What is too much for the buffer, less the dollar sign skipped when the buffer is full. -/
def beyond (room : ℕ) (v : List Byte) : List Byte :=
  match v.drop room with
  | [] => []
  | c :: s => if c = dollarQuote then s else c :: s

/-- A closed dollar quote has room to spare, and the position of its last byte, cut to a byte, is
the code of the dollar sign. In one that is not closed only blanks are too much. -/
def Reading.DollarFits (room tagLength : ℕ) (r : Reading) : Prop :=
  if r.closed then
    r.value.flatten.length < room ∧ (r.value.flatten.length + 2 * tagLength) % 256 = 37
  else (beyond room r.value.flatten).all isSpace = true

theorem skipHead_append {u : List Byte} (hu : u ≠ []) :
    q.skipHead (u ++ s) = q.skipHead u ++ s := by
  cases u with
  | nil => exact absurd rfl hu
  | cons b u =>
    rw [List.cons_append, skipHead_cons, skipHead_cons]
    split <;> rfl

theorem beyond_eq (room : ℕ) (v : List Byte) :
    (quoteOf name).skipHead (v.drop room) = beyond room v := by
  rw [beyond]
  cases v.drop room <;> rfl

theorem toUInt8_eq_dollarQuote (n : ℕ) : n.toUInt8 = dollarQuote ↔ n % 256 = 36 := by
  rw [← UInt8.toNat_inj]
  exact Iff.rfl

/-- The closing tag is taken off whole, or its last byte is left. -/
theorem close_eq (pos : ℕ) (rest : List Byte) :
    (quoteOf name).close (tagOf name).flatten pos ((tagOf name).flatten ++ rest) =
      if (pos + ((tagOf name).flatten.length - 1)) % 256 = 36 then rest
      else dollarQuote :: rest := by
  have hdrop : ((tagOf name).flatten ++ rest).drop ((tagOf name).flatten.length - 1) =
      dollarQuote :: rest := by
    rw [tagOf_flatten, List.append_assoc, List.length_append, List.length_singleton,
      Nat.add_sub_cancel, List.drop_left, List.singleton_append]
  rw [Quote.close, hdrop, Quote.skip]
  simp only [quoteOf, toUInt8_eq_dollarQuote]

/-- **Dollar quotes.** -/
theorem dollar_agrees_iff (hname : WellFormed ccsc name) (ht : Readable ccsc t)
    (hstat : stat < 2) :
    Agrees room (quotedLoop ccsc (quoteOf name) stat false (tagOf name).flatten.length room
        t.flatten) (dollarContent (tagOf name) t) ↔
      (dollarContent (tagOf name) t).DollarFits room (tagOf name).flatten.length := by
  have hspace : isSpace dollarQuote = false := rfl
  rw [Reading.DollarFits]
  cases hclosed : (dollarContent (tagOf name) t).closed with
  | true =>
    have hbytes : t.flatten = (dollarContent (tagOf name) t).value.flatten ++
        ((tagOf name).flatten ++ (dollarContent (tagOf name) t).rest.flatten) := by
      rw [← List.flatten_append, ← List.flatten_append]
      exact congrArg List.flatten (dollarContent_closed hclosed)
    rw [if_pos rfl]
    by_cases hroom : (dollarContent (tagOf name) t).value.flatten.length < room
    · rw [dollar_reads hname ht hstat hroom, hclosed, if_pos rfl, close_eq, and_iff_right hroom]
      have hpos : 0 < (tagOf name).flatten.length := by simp [tagOf_flatten]
      split
      · rename_i h
        exact iff_of_true ⟨(List.take_of_length_le hroom.le).symm, rfl⟩ (by omega)
      · rename_i h
        have hleft : Left (dollarQuote :: (dollarContent (tagOf name) t).rest.flatten)
            (dollarContent (tagOf name) t).rest.flatten := ⟨[], _, _, rfl, hspace, le_refl _⟩
        exact iff_of_false (fun hagrees => hleft.ne hagrees.2) (by omega)
    · refine iff_of_false (fun hagrees => ?_) fun h => hroom h.1
      rw [dollar_fills hname ht hstat (Nat.not_lt.mp hroom)] at hagrees
      have hdrop : t.flatten.drop room =
          ((dollarContent (tagOf name) t).value.flatten.drop room ++
            dollarQuote :: name.flatten) ++
              dollarQuote :: (dollarContent (tagOf name) t).rest.flatten := by
        rw [hbytes, List.drop_append_of_le_length (Nat.not_lt.mp hroom), tagOf_flatten]
        simp
      have hleft : Left ((quoteOf name).skipHead (t.flatten.drop room))
          (dollarContent (tagOf name) t).rest.flatten := by
        rw [hdrop, skipHead_append (by simp)]
        exact ⟨_, dollarQuote, _, rfl, hspace, le_refl _⟩
      exact hleft.ne hagrees.2
  | false =>
    obtain ⟨hvalue, hrest⟩ := dollarContent_open hclosed
    rw [if_neg Bool.false_ne_true]
    by_cases hroom : (dollarContent (tagOf name) t).value.flatten.length < room
    · rw [dollar_reads hname ht hstat hroom, hclosed, if_neg Bool.false_ne_true]
      refine iff_of_true ⟨(List.take_of_length_le hroom.le).symm, by rw [hrest]; rfl⟩ ?_
      rw [beyond, List.drop_eq_nil_of_le hroom.le]
      rfl
    · rw [dollar_fills hname ht hstat (Nat.not_lt.mp hroom), Agrees, hrest, hvalue, beyond_eq,
        List.flatten_nil, List.dropWhile_nil, dropWhile_eq_nil_iff]
      exact and_iff_right rfl

theorem tagName_some (ht : Readable ccsc t) (h : tagName t = some name) :
    ∃ t', t = name ++ [dollarQuote] :: t' ∧ dollarQuote ∉ name.flatten := by
  rw [tagName] at h
  split at h
  · cases h
  split at h
  · rename_i hnext
    obtain rfl := Option.some.inj h
    obtain ⟨t', ht'⟩ := List.head?_eq_some_iff.mp hnext
    refine ⟨t', by rw [← ht', List.takeWhile_append_dropWhile], fun hmem => ?_⟩
    obtain ⟨c, hc, hbyte⟩ := List.mem_flatten.mp hmem
    have htag := List.mem_takeWhile_imp hc
    obtain ⟨u, v, huv⟩ := List.append_of_mem ((List.takeWhile_sublist _).subset hc)
    rcases (ht.of_suffix (huv ▸ List.suffix_append u (c :: v))).head Nat.two_pos with
      hwide | ⟨b, rfl, hb⟩
    · exact absurd (hwide.bytes _ hbyte) (Nat.not_le.mpr dollarQuote_low)
    · rw [← List.mem_singleton.mp hbyte] at htag
      exact absurd htag (by decide)
  · cases h

/-! ### Parameters -/

/-- The bytes copied are bytes of the text, in their order. -/
theorem quotedLoop_sublist (ccsc : Ccsc) (q : Quote) (stat : ℕ) (in_escape : Bool)
    (pos room : ℕ) (s : List Byte) :
    (quotedLoop ccsc q stat in_escape pos room s).value.Sublist s := by
  fun_induction quotedLoop ccsc q stat in_escape pos room s with
  | case1 => exact List.nil_sublist _
  | case2 => exact List.nil_sublist _
  | case3 stat in_escape pos room c s stat' hroom hwide ih => exact ih.cons_cons c
  | case4 stat pos room c s stat' hroom hwide ih => exact ih.cons c
  | case5 stat in_escape pos room hroom hin htag s stat' hwide ih =>
    exact (ih.cons_cons q.qc).cons q.qc
  | case6 => exact List.nil_sublist _
  | case7 => exact List.nil_sublist _
  | case8 => exact List.nil_sublist _
  | case9 stat in_escape pos room s hroom hin tag htag stat' hwide hmatch ih =>
    exact ih.cons_cons q.qc
  | case10 stat in_escape pos room c s stat' hroom hwide hin hquote hescape ih => exact ih.cons c
  | case11 stat in_escape pos room c s stat' hroom hwide hin hquote hescape ih =>
    exact ih.cons_cons c

theorem dollarTag_eq {w z : List Byte} (hw : dollarQuote ∉ w) :
    dollarTag b (w ++ dollarQuote :: z) = b :: w ++ [dollarQuote] := by
  have hall : ∀ x ∈ w, decide (x ≠ dollarQuote) = true :=
    fun x hx => decide_eq_true fun h => hw (h ▸ hx)
  rw [dollarTag, if_pos (by simp), List.takeWhile_append_of_pos hall,
    List.takeWhile_cons_of_neg (by simp), List.append_nil]

/-- The next dollar sign lies behind the digits. -/
theorem dollar_behind_digits {w z : List Byte} (ht : t.flatten = w ++ dollarQuote :: z) :
    ∃ y, (t.dropWhile (isAscii isDigit)).flatten = y ++ dollarQuote :: z := by
  have hdigits : dollarQuote ∉ (t.takeWhile (isAscii isDigit)).flatten := by
    intro hmem
    obtain ⟨c, hc, hbyte⟩ := List.mem_flatten.mp hmem
    have hdigit := List.mem_takeWhile_imp hc
    match c, hbyte, hdigit with
    | [b], hbyte, hdigit =>
      rw [← List.mem_singleton.mp hbyte] at hdigit
      exact absurd hdigit (by decide)
    | _ :: _ :: _, _, hdigit => exact absurd hdigit Bool.false_ne_true
  rw [← List.takeWhile_append_dropWhile (p := isAscii isDigit) (l := t), List.flatten_append] at ht
  rcases List.append_eq_append_iff.mp ht with ⟨y, -, hy⟩ | ⟨y, hy, hz⟩
  · exact ⟨y, hy⟩
  · cases y with
    | nil => exact ⟨[], hz.symm⟩
    | cons a y =>
      obtain ⟨rfl, -⟩ := List.cons.inj hz
      exact absurd (hy ▸ List.mem_append_right _ List.mem_cons_self) hdigits

/-- **Parameters** are never read as they shall be. -/
theorem parameter_differs (t : List Chr) (hroom : room ≠ 0) :
    ¬Agrees room
      (quotedLoop ccsc ⟨dollarQuote, none, some (dollarTag dollarQuote t.flatten)⟩ stat false
        (dollarTag dollarQuote t.flatten).length room
        (t.flatten.drop ((dollarTag dollarQuote t.flatten).length - 1)))
      ⟨[dollarQuote] :: t.takeWhile (isAscii isDigit), t.dropWhile (isAscii isDigit), true⟩ := by
  rintro ⟨hvalue, hrest⟩
  obtain ⟨room, rfl⟩ := Nat.exists_eq_succ_of_ne_zero hroom
  by_cases hmem : dollarQuote ∈ t.flatten
  · -- the next dollar sign is taken for the end of the tag, and lies behind the digits
    obtain ⟨w, z, ht', hw⟩ := List.eq_append_cons_of_mem hmem
    obtain ⟨y, hy⟩ := dollar_behind_digits ht'
    have hdrop : t.flatten.drop ((dollarTag dollarQuote t.flatten).length - 1) = z := by
      rw [ht', dollarTag_eq hw]
      simp
    rw [hdrop] at hrest
    have hpart := (quotedLoop_within ccsc
      ⟨dollarQuote, none, some (dollarTag dollarQuote t.flatten)⟩ stat false
      (dollarTag dollarQuote t.flatten).length (room + 1) z).part
    have hleft : Left (t.dropWhile (isAscii isDigit)).flatten (quotedLoop ccsc
        ⟨dollarQuote, none, some (dollarTag dollarQuote t.flatten)⟩ stat false
        (dollarTag dollarQuote t.flatten).length (room + 1) z).rest :=
      ⟨y, dollarQuote, z, hy, rfl, hpart.length_le⟩
    exact hleft.ne hrest.symm
  · -- no dollar sign is copied, but the parameter begins with one
    have hsublist := quotedLoop_sublist ccsc
      ⟨dollarQuote, none, some (dollarTag dollarQuote t.flatten)⟩ stat false
      (dollarTag dollarQuote t.flatten).length (room + 1)
      (t.flatten.drop ((dollarTag dollarQuote t.flatten).length - 1))
    rw [hvalue] at hsublist
    exact hmem (List.drop_subset _ _ (hsublist.subset List.mem_cons_self))

end OdbcDriver.NextToken
