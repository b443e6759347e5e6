import OdbcDriver.Encoding.Characters
import OdbcDriver.Lib.CString
import OdbcDriver.Lib.Except

/-!
# Walking a text byte by byte

`encoded_nextchar` moves an `encoded_str` to the next byte, and `MBCS_NON_ASCII` says of the byte
it stands on whether it may be taken for an ASCII character. On a well-formed text it may be just
where it is one. Behind a character of several bytes the state is 1, from which the next character
is read as it is from 0.
-/

namespace OdbcDriver

open CString (Fault)
open Lib (ok_bind pure_eq_ok)

/-! ### The walk -/

/-- `encoded_str`, over a string with its terminator. -/
structure EncodedStr where
  ccsc : Ccsc
  encstr : List Byte
  pos : Int
  ccst : Nat
  deriving DecidableEq, Repr

/-- `encoded_str_constr`. -/
def encoded_str_constr (ccsc : Ccsc) (str : List Byte) : EncodedStr := ⟨ccsc, str, -1, 0⟩

/-- `encstr[pos]`. -/
def EncodedStr.current (encstr : EncodedStr) : Except Fault Byte :=
  if 0 ≤ encstr.pos then CString.read encstr.encstr encstr.pos.toNat else .error .beyond

/-- `pos >= 0 && !encstr[pos]`. -/
def EncodedStr.atEnd (encstr : EncodedStr) : Except Fault Bool := do
  if 0 ≤ encstr.pos then return (← encstr.current) = 0 else return false

/-- `encoded_nextchar`. At the end of the string it stays where it is. -/
def encoded_nextchar (encstr : EncodedStr) : Except Fault (Byte × EncodedStr) := do
  if ← encstr.atEnd then return (0, encstr)
  else
    let encstr := { encstr with pos := encstr.pos + 1 }
    let chr ← encstr.current
    return (chr, { encstr with ccst := pg_CS_stat encstr.ccst chr.toNat encstr.ccsc })

/-- `MBCS_NON_ASCII`. -/
def MBCS_NON_ASCII (enc : EncodedStr) : Except Fault Bool := do
  return nonAscii enc.ccst (← enc.current)

/-- So many calls of `encoded_nextchar`. -/
def nextchars : Nat → EncodedStr → Except Fault EncodedStr
  | 0, encstr => .ok encstr
  | n + 1, encstr => do
    let (_, encstr) ← encoded_nextchar encstr
    nextchars n encstr

/-! ### What it shall report -/

/-- At the byte behind `p` in the character `c`, which stands behind `before`, the walk reports
`ascii`, and leaves the state `ccst`. -/
def ReportsAt (ccsc : Ccsc) (text before : List Chr) (p : List Byte) (b : Byte)
    (ascii : Prop) (ccst : Nat → Prop) : Prop :=
  ∃ enc, nextchars (before.flatten ++ p ++ [b]).length
      (encoded_str_constr ccsc (text.flatten ++ [0])) = .ok enc ∧
    enc.current = .ok b ∧ (MBCS_NON_ASCII enc = .ok false ↔ ascii) ∧ ccst enc.ccst

/-- A byte is reported as ASCII exactly when it is a character of its own, and the state is back to 0
behind each character. -/
def ExactlySingles (ccsc : Ccsc) (text : List Chr) : Prop :=
  ∀ before p b q after, text = before ++ (p ++ b :: q) :: after →
    ReportsAt ccsc text before p b (p ++ b :: q = [b]) fun ccst => q = [] → ccst = 0

/-- The state behind the last byte of a character. -/
def boundaryStat (c : Chr) : Nat := if c.length = 1 then 0 else 1

/-- A byte is reported as ASCII exactly when it is an ASCII character, and the state behind each
character says whether it has several bytes. -/
def ExactlyAscii (ccsc : Ccsc) (text : List Chr) : Prop :=
  ∀ before p b q after, text = before ++ (p ++ b :: q) :: after →
    ReportsAt ccsc text before p b (p ++ b :: q = [b] ∧ b.toNat < 0x80) fun ccst =>
      q = [] → ccst = boundaryStat (p ++ b :: q)

/-- Under JOHAB, no lead byte lies at `0xa0` or below. -/
def HighLeads (ccsc : Ccsc) (text : List Chr) : Prop :=
  ccsc = .johab → ∀ a b : Byte, [a, b] ∈ text → 0xa0 < a.toNat

/-! ### Calls -/

section Calls

variable {ccsc : Ccsc} {buf f p z : List Byte} {x : Byte}

theorem current_eq (hbuf : buf = f ++ x :: z) (stat : Nat) :
    (EncodedStr.mk ccsc buf f.length stat).current = .ok x := by
  rw [EncodedStr.current, if_pos (Int.natCast_nonneg _)]
  exact CString.read_eq hbuf rfl

/-- Behind bytes that are not NUL the string goes on. -/
theorem not_atEnd (hbuf : buf = f ++ z) (hf : ∀ x ∈ f, x ≠ 0) (stat : Nat) :
    (EncodedStr.mk ccsc buf (f.length - 1 : Int) stat).atEnd = .ok false := by
  rcases List.eq_nil_or_concat f with rfl | ⟨f', y, rfl⟩
  · rfl
  · have hy : y ≠ 0 := hf y (by simp)
    have hpos : ((f'.concat y).length - 1 : Int) = f'.length := by simp
    have hcur : (EncodedStr.mk ccsc buf f'.length stat).current = .ok y :=
      current_eq (z := z) (by simpa using hbuf) stat
    rw [hpos, EncodedStr.atEnd, hcur, if_pos (Int.natCast_nonneg _), ok_bind, decide_eq_false hy]
    rfl

theorem encoded_nextchar_eq (hbuf : buf = f ++ x :: z) (hf : ∀ x ∈ f, x ≠ 0) (stat : Nat) :
    encoded_nextchar ⟨ccsc, buf, f.length - 1, stat⟩ =
      .ok (x, ⟨ccsc, buf, (f ++ [x]).length - 1, nextStat ccsc stat x⟩) := by
  have hnext : (f.length - 1 + 1 : Int) = f.length := by omega
  have hpos : ((f ++ [x]).length - 1 : Int) = f.length := by simp
  rw [encoded_nextchar, not_atEnd hbuf hf, ok_bind]
  simp only [Bool.false_eq_true, if_false, hnext, current_eq hbuf, ok_bind, hpos]
  rfl

/-- The calls that pass over `p`, which stands behind `f`. -/
theorem nextchars_over (ccsc : Ccsc) (hbuf : buf = f ++ (p ++ z)) (hf : ∀ x ∈ f, x ≠ 0) (hp : ∀ x ∈ p, x ≠ 0)
    (stat : Nat) : nextchars p.length ⟨ccsc, buf, f.length - 1, stat⟩ =
      .ok ⟨ccsc, buf, (f ++ p).length - 1, statAfter ccsc stat p⟩ := by
  induction p generalizing f stat with
  | nil =>
    rw [List.append_nil]
    rfl
  | cons x p ih =>
    have hx : ∀ y ∈ f ++ [x], y ≠ 0 := by
      simpa [or_imp, forall_and] using And.intro hf (hp x List.mem_cons_self)
    have hmore : buf = f ++ [x] ++ (p ++ z) := by
      rw [hbuf]
      simp
    rw [List.length_cons, nextchars, encoded_nextchar_eq hbuf hf, ok_bind]
    refine (ih hmore hx (fun y hy => hp y (List.mem_cons_of_mem _ hy)) _).trans ?_
    rw [List.append_assoc]
    rfl

end Calls

/-! ### Characters -/

section Boundaries

variable {ccsc : Ccsc} {stat : Nat}

/-- A character of one byte leaves the state 0. -/
theorem single_stat {a : Nat} (hstat : stat < 2) (h : isSingle ccsc a = true) :
    pg_CS_stat stat a ccsc = 0 := by
  cases ccsc <;> simp [isSingle, within] at h <;>
    simp only [pg_CS_stat, utf8Stat, twoByteStat, eucJpStat, eucTwStat, gb18030Stat] <;> grind

/-- Under JOHAB a lead byte above `0xa0` opens a character of two bytes. -/
theorem johab_pair_tracked {a b : Nat} (hlead : 0xa0 < a) (hstat : stat < 2)
    (h : isPair .johab a b = true) :
    pg_CS_stat stat a .johab ≠ 0 ∧ pg_CS_stat (pg_CS_stat stat a .johab) b .johab = 1 := by
  simp [isPair, within] at h
  simp only [pg_CS_stat, twoByteStat]
  grind

/-- Within a longer character no byte is taken for ASCII, and the state behind it is 1. -/
theorem long_tracked {a b : Byte} {c : Chr} (hlead : HighLeads ccsc [a :: b :: c])
    (hstat : stat < 2) (h : isChar ccsc (a :: b :: c) = true) :
    Passes ccsc (fun _ => true) stat (a :: b :: c) ∧ statAfter ccsc stat (a :: b :: c) = 1 := by
  by_cases hjohab : ccsc = .johab
  · subst hjohab
    rcases c with _ | ⟨_, _ | ⟨_, _ | ⟨_, _⟩⟩⟩
    · obtain ⟨ha, hb⟩ := johab_pair_tracked (hlead rfl a b List.mem_cons_self) hstat h
      exact ⟨by simp [Passes, nonAscii, nextStat, ha, hb], hb⟩
    · simp [isChar, isTriple] at h
    · simp [isChar, isQuad] at h
    · simp [isChar] at h
  · refine ⟨passes_char hjohab _ hstat h, ?_⟩
    rcases c with _ | ⟨_, _ | ⟨_, _ | ⟨_, _⟩⟩⟩
    · exact (pair_tracked hjohab hstat h).2
    · exact (triple_tracked hstat h).2.2
    · exact (quad_tracked hstat h).2.2.2
    · simp [isChar] at h

theorem HighLeads.of_mem {text : List Chr} (h : HighLeads ccsc text) {c : Chr} (hc : c ∈ text) :
    HighLeads ccsc [c] := by
  intro hjohab a b hab
  rw [List.mem_singleton] at hab
  exact h hjohab a b (hab ▸ hc)

/-- The state behind a character. -/
theorem statAfter_boundary {c : Chr} (hlead : HighLeads ccsc [c]) (hstat : stat < 2)
    (h : isChar ccsc c = true) : statAfter ccsc stat c = boundaryStat c := by
  match c, h with
  | [a], h => exact single_stat hstat h
  | a :: b :: c, h => exact (long_tracked hlead hstat h).2

/-- The bytes of a longer character are no controls, blanks or low punctuation marks. -/
theorem bytes_of_isChar {a b : Byte} {p : List Byte} (h : isChar ccsc (a :: b :: p) = true) :
    ∀ x ∈ a :: b :: p, 0x30 ≤ x.toNat := by
  match p, h with
  | [], h =>
    have : 0x30 ≤ a.toNat ∧ 0x30 ≤ b.toNat := by
      cases ccsc <;> simp [isChar, isPair, within] at h <;> omega
    simpa using this
  | [c], h =>
    have : 0x30 ≤ a.toNat ∧ 0x30 ≤ b.toNat ∧ 0x30 ≤ c.toNat := by
      cases ccsc <;> simp [isChar, isTriple, within] at h <;> omega
    simpa using this
  | [c, d], h =>
    have : 0x30 ≤ a.toNat ∧ 0x30 ≤ b.toNat ∧ 0x30 ≤ c.toNat ∧ 0x30 ≤ d.toNat := by
      cases ccsc <;> simp [isChar, isQuad, within] at h <;> omega
    simpa using this

theorem boundaryStat_lt (c : Chr) : boundaryStat c < 2 := by
  rw [boundaryStat]
  split <;> decide

/-- Between the characters of a text the driver is in none. -/
theorem statAfter_text {text : List Chr} (h : WellFormed ccsc text) (hlead : HighLeads ccsc text)
    (hstat : stat < 2) : statAfter ccsc stat text.flatten < 2 := by
  induction text generalizing stat with
  | nil => exact hstat
  | cons c text ih =>
    obtain ⟨hc, htext⟩ := wellFormed_cons.mp h
    rw [List.flatten_cons, statAfter_append,
      statAfter_boundary (hlead.of_mem List.mem_cons_self) hstat hc]
    exact ih htext (fun hjohab a b hab => hlead hjohab a b (List.mem_cons_of_mem _ hab))
      (boundaryStat_lt c)

theorem Passes.nonAscii_mem {p q : List Byte} {b : Byte}
    (h : Passes ccsc (fun _ => true) stat (p ++ b :: q)) :
    nonAscii (statAfter ccsc stat (p ++ [b])) b = true := by
  induction p generalizing stat with
  | nil => exact h.1 rfl
  | cons x p ih => exact ih h.2

/-- In a character, a byte is taken for ASCII exactly when it is an ASCII character. -/
theorem nonAscii_iff {p q : List Byte} {b : Byte} (hlead : HighLeads ccsc [p ++ b :: q])
    (hstat : stat < 2) (h : isChar ccsc (p ++ b :: q) = true) :
    nonAscii (statAfter ccsc stat (p ++ [b])) b = false ↔
      p ++ b :: q = [b] ∧ b.toNat < 0x80 := by
  generalize hc : p ++ b :: q = c at h hlead
  match c, h with
  | [a], h =>
    obtain ⟨rfl, hbq⟩ : p = [] ∧ b :: q = [a] := by
      cases p with
      | nil => exact ⟨rfl, hc⟩
      | cons x p => simp at hc
    obtain ⟨rfl, rfl⟩ := List.cons.inj hbq
    have hzero : statAfter ccsc stat [b] = 0 := single_stat hstat h
    simp [nonAscii, hzero]
  | a :: a' :: c, h =>
    have hpass := (long_tracked hlead hstat h).1
    rw [← hc] at hpass
    rw [hpass.nonAscii_mem]
    simp

end Boundaries

/-- **Walking.** Over a well-formed text `encoded_nextchar` reports just the ASCII characters as
ASCII. -/
theorem exactlyAscii {ccsc : Ccsc} {text : List Chr} (h : WellFormed ccsc text)
    (hlead : HighLeads ccsc text) : ExactlyAscii ccsc text := by
  intro before p b q after htext
  have hmem : p ++ b :: q ∈ text := by
    rw [htext]
    simp
  have hsub : ∀ c ∈ before, c ∈ text := by
    intro c hc
    rw [htext]
    exact List.mem_append_left _ hc
  have hchar : isChar ccsc (p ++ b :: q) = true := h _ hmem
  have hbefore : statAfter ccsc 0 before.flatten < 2 :=
    statAfter_text (fun c hc => h c (hsub c hc))
      (fun hjohab x y hxy => hlead hjohab x y (hsub _ hxy)) Nat.two_pos
  have hzero : ∀ x ∈ before.flatten ++ (p ++ [b]), x ≠ 0 := by
    intro x hx
    rcases List.mem_append.mp hx with hx | hx
    · obtain ⟨c, hc, hxc⟩ := List.mem_flatten.mp hx
      exact ne_zero_of_isChar (h c (hsub c hc)) x hxc
    · exact ne_zero_of_isChar hchar x (List.append_cons p b q ▸ List.mem_append_left _ hx)
  have hbuf : text.flatten ++ [0] =
      [] ++ (before.flatten ++ (p ++ [b]) ++ (q ++ after.flatten ++ [0])) := by
    rw [htext]
    simp
  have hcur : ∀ stat, (EncodedStr.mk ccsc (text.flatten ++ [0])
      (([] ++ (before.flatten ++ (p ++ [b]))).length - 1 : Int) stat).current = .ok b := by
    intro stat
    have hpos : (([] ++ (before.flatten ++ (p ++ [b]))).length - 1 : Int) =
        (before.flatten ++ p).length := by simp; omega
    rw [hpos]
    exact current_eq (z := q ++ after.flatten ++ [0]) (by rw [hbuf]; simp) stat
  have hrun := nextchars_over ccsc hbuf (List.forall_mem_nil _) hzero 0
  rw [statAfter_append] at hrun
  rw [ReportsAt, List.append_assoc]
  refine ⟨_, hrun, hcur _, ?_, ?_⟩
  · rw [← nonAscii_iff (hlead.of_mem hmem) hbefore hchar, MBCS_NON_ASCII, hcur, ok_bind,
      pure_eq_ok, Except.ok.injEq]
  · rintro rfl
    exact statAfter_boundary (hlead.of_mem hmem) hbefore hchar

/-- A quote, a JOHAB character that ends in a backslash, and a brace. -/
theorem backslash_behind_lead : ExactlyAscii .johab [[0x22], [0xb0, 0x5c], [0x7b]] := by
  refine exactlyAscii (by simp [WellFormed, isChar, isSingle, isPair, within]) ?_
  rintro - a b hab
  obtain ⟨rfl, rfl⟩ : a = 0xb0 ∧ b = 0x5c := by simpa using hab
  decide

/-- Behind `é` the state is 1, and the katakana `ｱ` of SJIS is a byte of its own, but not ASCII. -/
theorem singles_inexact :
    ¬ ExactlySingles .utf8 [[0xc3, 0xa9]] ∧ ¬ ExactlySingles .sjis [[0xb1]] := by
  constructor
  · intro h
    obtain ⟨enc, hrun, -, -, hzero⟩ := h [] [0xc3] 0xa9 [] [] rfl
    cases hrun
    exact absurd (hzero rfl) (by decide)
  · intro h
    obtain ⟨enc, hrun, -, hascii, -⟩ := h [] [] 0xb1 [] [] rfl
    cases hrun
    exact absurd (hascii.mpr rfl) (by decide)

end OdbcDriver
