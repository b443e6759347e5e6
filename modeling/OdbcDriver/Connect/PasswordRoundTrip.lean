import OdbcDriver.Connect.PasswordText
import Mathlib.Data.List.TakeWhile

/-!
# Reading a password back

What `decode` makes of the text that `encode` writes, and when either goes past the end of what it
was given:

* `decode_whole`, `decode_cut`: a string is read to its end unless it ends with a percent sign
  that is not one of the two bytes behind an earlier one;
* `encode_fits`, `decodeBytes_encoded`: an encoding that fits is read byte by byte;
* `password_text_iff`: which passwords come back, which buffers `encode` stays in and which
  strings `decode` stays in.
-/

namespace OdbcDriver.Password

open CInt CString Lib
open Connect (conv_from_hex decodeBytes)
open Server (byte_all)

/-! ### The bytes that are read -/

/-- Bytes, and percent signs with two bytes behind each. -/
inductive Whole : List Byte → Prop
  | nil : Whole []
  | byte {b : Byte} {s : List Byte} : b ≠ 0x25 → Whole s → Whole (b :: s)
  | percent {a b : Byte} {s : List Byte} : Whole s → Whole (0x25 :: a :: b :: s)

/-- The string ends with a percent sign that has nothing behind it. -/
def Cut (s : List Byte) : Prop := ∃ pre, Whole pre ∧ s = pre ++ [0x25]

variable {a b c : Byte} {s f z outs buf : List Byte} {fuel ilen i : ℕ}

theorem Whole.append {t : List Byte} (hs : Whole s) (ht : Whole t) : Whole (s ++ t) := by
  induction hs with
  | nil => exact ht
  | byte hb _ ih => exact .byte hb ih
  | percent _ ih => exact .percent ih

theorem not_cut_nil : ¬ Cut [] := by
  rintro ⟨pre, -, h⟩
  cases pre <;> cases h

theorem cut_byte (hb : b ≠ 0x25) : Cut (b :: s) ↔ Cut s := by
  constructor
  · rintro ⟨_ | ⟨c, pre⟩, hpre, h⟩
    · exact absurd (List.cons.inj h).1 hb
    · obtain ⟨rfl, rfl⟩ := List.cons.inj h
      cases hpre with
      | byte _ hpre => exact ⟨pre, hpre, rfl⟩
      | percent _ => exact absurd rfl hb
  · rintro ⟨pre, hpre, rfl⟩
    exact ⟨b :: pre, .byte hb hpre, rfl⟩

theorem not_cut_short : ¬ Cut [0x25, a] := by
  rintro ⟨pre, hpre, h⟩
  have hlen : pre.length = 1 := by simpa using (congrArg List.length h).symm
  cases hpre with
  | nil => simp at hlen
  | byte hb _ => exact hb (List.cons.inj h).1.symm
  | percent _ => simp at hlen

theorem cut_percent : Cut (0x25 :: a :: b :: s) ↔ Cut s := by
  constructor
  · rintro ⟨pre, hpre, h⟩
    cases hpre with
    | nil => simp at h
    | byte hb _ => exact absurd (List.cons.inj h).1.symm hb
    | percent hpre =>
      obtain ⟨-, -, h⟩ : a = _ ∧ b = _ ∧ s = _ := by simpa using h
      exact ⟨_, hpre, h⟩
  · rintro ⟨pre, hpre, rfl⟩
    exact ⟨0x25 :: a :: b :: pre, .percent hpre, rfl⟩

theorem decodeBytes_byte (hb : b ≠ 0x25) :
    decodeBytes (b :: s) = (if b = 0x2b then 0x20 else b) :: decodeBytes s := by
  rw [decodeBytes] <;> (intros; contradiction)

theorem decodeBytes_percent :
    decodeBytes (0x25 :: a :: b :: s) = conv_from_hex a b :: decodeBytes s :=
  rfl

/-! ### The loop -/

theorem decodeLoop_end (h : ¬ i < ilen) : decodeLoop buf ilen (fuel + 1) i outs = .ok outs :=
  if_neg h

theorem decodeLoop_byte (hbuf : buf = f ++ b :: z) (hi : i = f.length) (hlt : i < ilen)
    (hb : b ≠ 0x25) :
    decodeLoop buf ilen (fuel + 1) i outs =
      decodeLoop buf ilen fuel (i + 1) (outs ++ [if b = 0x2b then 0x20 else b]) := by
  refine (if_pos hlt).trans ?_
  rw [read_eq hbuf hi, ok_bind]
  by_cases hplus : b = 0x2b
  · rw [if_pos hplus, if_pos hplus]
  · rw [if_neg hplus, if_neg hb, if_neg hplus]

theorem decodeLoop_percent (hbuf : buf = f ++ 0x25 :: a :: b :: z) (hi : i = f.length)
    (hlt : i < ilen) :
    decodeLoop buf ilen (fuel + 1) i outs =
      decodeLoop buf ilen fuel (i + 3) (outs ++ [conv_from_hex a b]) := by
  have ha : read buf (i + 1) = .ok a :=
    read_eq (f := f ++ [0x25]) (by rw [hbuf, List.append_assoc]; rfl) (by simp [hi])
  have hb : read buf (i + 2) = .ok b :=
    read_eq (f := f ++ [0x25, a]) (by rw [hbuf, List.append_assoc]; rfl) (by simp [hi])
  refine (if_pos hlt).trans ?_
  rw [read_eq hbuf hi, ok_bind, if_neg (by decide), if_pos rfl, ha, ok_bind, hb, ok_bind]

/-- A string with whole percent signs is read to its end, whatever lies behind it. One that ends
with two bytes of a percent sign has the terminator read as a digit. -/
theorem decodeLoop_read (hcut : ¬ Cut s) (hbuf : buf = f ++ (s ++ 0 :: z)) (hi : i = f.length)
    (hend : ilen = i + s.length) (hfuel : s.length < fuel) :
    decodeLoop buf ilen fuel i outs = .ok (outs ++ decodeBytes s) := by
  induction hn : s.length using Nat.strong_induction_on generalizing s f i fuel outs with
  | _ n ih =>
    obtain ⟨fuel, rfl⟩ : ∃ k, fuel = k + 1 := ⟨fuel - 1, by omega⟩
    match s, hcut with
    | [], _ =>
      rw [decodeLoop_end (by simp at hend; omega)]
      simp [decodeBytes]
    | b :: s, hcut =>
      rw [List.length_cons] at hend hfuel hn
      by_cases hb : b = 0x25
      · subst hb
        match s, hcut with
        | [], hcut => exact absurd ⟨[], .nil, rfl⟩ hcut
        | [a], _ =>
          rw [decodeLoop_percent (b := 0) hbuf hi (by omega)]
          obtain ⟨fuel, rfl⟩ : ∃ k, fuel = k + 1 := ⟨fuel - 1, by simp at hfuel; omega⟩
          rw [decodeLoop_end (by simp at hend; omega)]
          rfl
        | a :: b :: s, hcut =>
          simp only [List.length_cons] at hend hfuel hn
          rw [decodeLoop_percent hbuf hi (by omega), decodeBytes_percent,
            ih s.length (by omega) (fun h => hcut (cut_percent.mpr h)) (f := f ++ [0x25, a, b])
              (by simp [hbuf]) (by simp [hi]) (by omega) (by omega) rfl, List.append_assoc]
          rfl
      · rw [decodeLoop_byte hbuf hi (by omega) hb, decodeBytes_byte hb,
          ih s.length (by omega) (fun h => hcut ((cut_byte hb).mpr h)) (f := f ++ [b])
            (by simp [hbuf]) (by simp [hi]) (by omega) (by omega) rfl, List.append_assoc]
        rfl

/-- A percent sign at the end of the string: the byte behind the terminator is asked for. -/
theorem decodeLoop_cut (hcut : Cut s) (hbuf : buf = f ++ (s ++ [0])) (hi : i = f.length)
    (hend : ilen = i + s.length) (hfuel : s.length < fuel) :
    decodeLoop buf ilen fuel i outs = .error .beyond := by
  obtain ⟨pre, hpre, rfl⟩ := hcut
  induction hpre generalizing f i fuel outs with
  | nil =>
    obtain ⟨fuel, rfl⟩ : ∃ k, fuel = k + 1 := ⟨fuel - 1, by omega⟩
    have hnext : read buf (i + 1) = .ok 0 :=
      read_eq (f := f ++ [0x25]) (z := []) (by simp [hbuf]) (by simp [hi])
    have hbeyond : CString.read buf (i + 2) = .error .beyond := by
      rw [CString.read, List.getElem?_eq_none (by simp [hbuf, hi])]
    refine (if_pos (by simp at hend; omega)).trans ?_
    rw [read_eq hbuf hi, ok_bind, if_neg (by decide), if_pos rfl, hnext, ok_bind, hbeyond,
      error_bind]
  | @byte b s hb _ ih =>
    obtain ⟨fuel, rfl⟩ : ∃ k, fuel = k + 1 := ⟨fuel - 1, by omega⟩
    simp only [List.cons_append, List.length_cons] at hend hfuel
    rw [decodeLoop_byte hbuf hi (by omega) hb]
    exact ih (f := f ++ [b]) (by simp [hi]) (by simp [hbuf]) (by omega) (by omega)
  | @percent a b s _ ih =>
    obtain ⟨fuel, rfl⟩ : ∃ k, fuel = k + 1 := ⟨fuel - 1, by omega⟩
    simp only [List.cons_append, List.length_cons] at hend hfuel
    rw [decodeLoop_percent hbuf hi (by omega)]
    exact ih (f := f ++ [0x25, a, b]) (by simp [hi]) (by simp [hbuf]) (by omega) (by omega)

/-! ### Whole strings -/

/-- A string that is read to its end gives what its bytes stand for. -/
theorem decode_whole (hnul : 0 ∉ s) (hcut : ¬ Cut s) (hbuf : buf = s ++ 0 :: z) :
    ∃ back, decode buf = .ok back ∧ SAFE_NAME back = (decodeBytes s).takeWhile (· ≠ 0) := by
  have htext : text buf 0 = s := text_eq (f := []) hbuf rfl (fun b hb h => hnul (h ▸ hb))
  have hloop : decodeLoop buf s.length (s.length + 1) 0 [] = .ok (decodeBytes s) :=
    decodeLoop_read (f := []) hcut hbuf rfl (by simp) (Nat.lt_succ_self _)
  rw [decode, htext]
  by_cases hs : s = []
  · exact ⟨none, by rw [if_pos (by simp [hs])], by simp [hs, SAFE_NAME, decodeBytes]⟩
  · refine ⟨some _, ?_, rfl⟩
    rw [if_neg (by simpa using hs), hloop, ok_bind]
    rfl

theorem decode_cut (hnul : 0 ∉ s) (hcut : Cut s) : decode (s ++ [0]) = .error .beyond := by
  have htext : text (s ++ [0]) 0 = s :=
    text_eq (f := []) (z := []) rfl rfl (fun b hb h => hnul (h ▸ hb))
  have hloop : decodeLoop (s ++ [0]) s.length (s.length + 1) 0 [] = .error .beyond :=
    decodeLoop_cut (f := []) hcut rfl rfl (by simp) (Nat.lt_succ_self _)
  have hs : s ≠ [] := fun hs => not_cut_nil (hs ▸ hcut)
  rw [decode, htext, if_neg (by simpa using hs), hloop, error_bind]

/-! ### The encoding read back -/

/-- What comes back of a byte. -/
def readBack (c : Byte) : Byte :=
  if isSpace c then 0x20 else if c < 0x80 then c else 0xff

/-- How a byte is written, and what comes back of it. -/
theorem encodedByte_form (c : Byte) :
    if escaped c = true then
      encodedByte c = [0x25, (encodedByte c).getD 1 0, (encodedByte c).getD 2 0] ∧
        conv_from_hex ((encodedByte c).getD 1 0) ((encodedByte c).getD 2 0) = readBack c ∧
        (encodedByte c).getD 1 0 ≠ 0 ∧ (encodedByte c).getD 2 0 ≠ 0
    else
      (if isSpace c then 0x2b else c) ≠ (0x25 : Byte) ∧
        (if (if isSpace c then 0x2b else c) = (0x2b : Byte) then 0x20
          else if isSpace c then 0x2b else c) = readBack c ∧
        (c ≠ 0 → (if isSpace c then 0x2b else c) ≠ 0) := by
  revert c
  exact byte_all (by decide +kernel)

theorem encodedByte_escaped (hc : escaped c = true) :
    ∃ a b, encodedByte c = [0x25, a, b] ∧ conv_from_hex a b = readBack c ∧ a ≠ 0 ∧ b ≠ 0 := by
  have hform := encodedByte_form c
  rw [if_pos hc] at hform
  exact ⟨_, _, hform⟩

theorem encodedByte_plain (hc : ¬ escaped c = true) :
    ∃ b, encodedByte c = [b] ∧ b ≠ 0x25 ∧ (if b = 0x2b then 0x20 else b) = readBack c ∧
      (c ≠ 0 → b ≠ 0) := by
  have hform := encodedByte_form c
  rw [if_neg hc] at hform
  exact ⟨_, encodedByte_of_plain (by simpa using hc), hform⟩

theorem decodeBytes_encodedByte (c : Byte) :
    decodeBytes (encodedByte c ++ s) = readBack c :: decodeBytes s := by
  by_cases hc : escaped c = true
  · obtain ⟨a, b, hform, hvalue, -⟩ := encodedByte_escaped hc
    rw [hform, ← hvalue]
    rfl
  · obtain ⟨b, hform, hpercent, hvalue, -⟩ := encodedByte_plain hc
    rw [hform, List.singleton_append, decodeBytes_byte hpercent, hvalue]

theorem decodeBytes_encoded (s : List Byte) : decodeBytes (encoded s) = s.map readBack := by
  induction s with
  | nil => rfl
  | cons c s ih => rw [encoded_cons, decodeBytes_encodedByte, ih, List.map_cons]

theorem whole_encoded (s : List Byte) : Whole (encoded s) := by
  induction s with
  | nil => exact .nil
  | cons c s ih =>
    rw [encoded_cons]
    refine Whole.append ?_ ih
    by_cases hc : escaped c = true
    · obtain ⟨a, b, hform, -⟩ := encodedByte_escaped hc
      rw [hform]
      exact .percent .nil
    · obtain ⟨b, hform, hpercent, -⟩ := encodedByte_plain hc
      rw [hform]
      exact .byte hpercent .nil

theorem not_cut_of_whole (h : Whole s) : ¬ Cut s := by
  induction h with
  | nil => exact not_cut_nil
  | byte hb _ ih => rwa [cut_byte hb]
  | percent _ ih => rwa [cut_percent]

theorem nul_not_mem_encoded (hnul : 0 ∉ s) : 0 ∉ encoded s := by
  intro h
  obtain ⟨c, hc, hmem⟩ := List.mem_flatMap.mp h
  have hne : c ≠ 0 := fun h0 => hnul (h0 ▸ hc)
  by_cases hesc : escaped c = true
  · obtain ⟨a, b, hform, -, ha, hb⟩ := encodedByte_escaped hesc
    rw [hform] at hmem
    simp [ha.symm, hb.symm] at hmem
  · obtain ⟨b, hform, -, -, hb⟩ := encodedByte_plain hesc
    rw [hform] at hmem
    exact hb hne (List.mem_singleton.mp hmem).symm

theorem readBack_ne_nul {c : Byte} (hc : c ≠ 0) : readBack c ≠ 0 := by
  rw [readBack]
  split
  · decide
  · split
    · exact hc
    · decide

theorem readBack_eq_iff (c : Byte) :
    readBack c = c ↔ (isSpace c = true → c = 0x20) ∧ (0x80 ≤ c → c = 0xff) := by
  rw [readBack]
  by_cases hspace : isSpace c = true
  · rw [if_pos hspace]
    constructor
    · rintro rfl
      exact ⟨fun _ => rfl, fun h => absurd h (by decide)⟩
    · exact fun h => (h.1 hspace).symm
  · rw [if_neg hspace]
    by_cases hlow : c < 0x80
    · simp [hlow, hspace, UInt8.not_le.mpr hlow]
    · simp [hlow, hspace, UInt8.not_lt.mp hlow, eq_comm]

/-! ### The whole of `encode` -/

section

variable {name : PgName} {ins out : List Byte} {outlen : ℤ}

theorem encode_fits (hint : Fits 32 outlen) (hout : out.length = outlen.toNat)
    (hfit : ((encoded (SAFE_NAME name)).length : ℤ) < outlen) :
    ∃ z, encode name out outlen = .ok (encoded (SAFE_NAME name) ++ 0 :: z) := by
  obtain ⟨n, rfl⟩ : ∃ n : ℕ, outlen = n := ⟨outlen.toNat, by omega⟩
  rw [Int.toNat_natCast] at hout
  obtain ⟨-, hint⟩ := hint
  cases name with
  | none =>
    obtain ⟨y, z, rfl⟩ := List.exists_cons_of_length_pos (l := out) (by
      simp [SAFE_NAME, encoded] at hfit
      omega)
    exact ⟨z, write_eq (f := []) rfl rfl 0⟩
  | some ins =>
    change ((encoded ins).length : ℤ) < n at hfit
    obtain ⟨z, hloop, hlen⟩ := @encodeLoop_fits n ins _ [] out 0
      (by norm_num at hint; omega) rfl hout rfl (by omega)
    obtain ⟨y, z, rfl⟩ := List.exists_cons_of_length_pos (l := z) (by
      simp only [List.nil_append, List.length_append] at hlen
      omega)
    refine ⟨z, ?_⟩
    have hrun : encodeLoop n ins out 0 = .ok (encoded ins ++ y :: z, (encoded ins).length) := by
      simpa using hloop
    rw [encode, hrun, ok_bind]
    exact write_eq (f := encoded ins) rfl rfl 0

theorem length_of_write {buf buf' : List Byte} {i : ℕ} {b : Byte} (h : write buf i b = .ok buf') :
    buf'.length = buf.length := by
  unfold write at h
  split at h
  · rw [← Except.ok.inj h, List.length_set]
  · cases h

theorem length_of_writeAll {text buf buf' : List Byte} {i : ℕ}
    (h : writeAll buf i text = .ok buf') : buf'.length = buf.length := by
  induction text generalizing buf i with
  | nil => rw [← Except.ok.inj h]
  | cons b text ih =>
    obtain ⟨mid, hmid, hrest⟩ := bind_eq_ok.mp h
    rw [ih hrest, length_of_write hmid]

theorem length_of_snprintfAt {text buf buf' : List Byte} {i size : ℕ}
    (h : snprintfAt buf i size text = .ok buf') : buf'.length = buf.length := by
  unfold snprintfAt at h
  split at h
  · rw [← Except.ok.inj h]
  · exact length_of_writeAll h

/-- Whatever length it is told, the loop gives back the buffer it was given. -/
theorem encodeLoop_length {out' : List Byte} {o o' : ℕ}
    (h : encodeLoop outlen ins out o = .ok (out', o')) : out'.length = out.length := by
  induction ins generalizing out o with
  | nil => rw [encodeLoop] at h; cases h; rfl
  | cons c ins ih =>
    rw [encodeLoop] at h
    split at h
    · split at h
      · split at h
        · cases h; rfl
        · obtain ⟨mid, hmid, hrest⟩ := bind_eq_ok.mp h
          rw [ih hrest, length_of_snprintfAt hmid]
      · split at h
        · obtain ⟨mid, hmid, hrest⟩ := bind_eq_ok.mp h
          rw [ih hrest, length_of_write hmid]
        · split at h
          · split at h
            · cases h; rfl
            · obtain ⟨mid, hmid, hrest⟩ := bind_eq_ok.mp h
              rw [ih hrest, length_of_snprintfAt hmid]
          · obtain ⟨mid, hmid, hrest⟩ := bind_eq_ok.mp h
            rw [ih hrest, length_of_write hmid]
    · cases h; rfl

theorem write_isOk {buf : List Byte} {i : ℕ} {b : Byte} :
    (∃ buf', write buf i b = .ok buf') ↔ i < buf.length := by
  rw [write]
  split <;> simp [*]

/-- `encode` stays in its buffer unless a byte that is written with a percent sign begins three
bytes before the end. -/
theorem encode_within_iff (hint : Fits 32 outlen) (hout : out.length = outlen.toNat) :
    (∃ out', encode name out outlen = .ok out') ↔
      1 ≤ outlen ∧ ∀ ins, name = some ins → ¬ Overruns outlen.toNat 0 ins := by
  cases name with
  | none =>
    rw [encode, write_isOk, hout]
    constructor
    · intro h
      exact ⟨by omega, nofun⟩
    · rintro ⟨h, -⟩
      omega
  | some ins =>
    simp only [encode, Option.some.injEq, forall_eq']
    by_cases hpos : 1 ≤ outlen
    · have hn : outlen = (outlen.toNat : ℤ) := by omega
      obtain ⟨-, hint⟩ := hint
      obtain ⟨out', o', hloop, hlen, hle, hiff⟩ := @encodeLoop_extent _ ins _ 0
        (by norm_num at hint; omega) hout (by omega)
      rw [hn, hloop, ok_bind, write_isOk, hlen, Int.toNat_natCast, ← hiff]
      constructor
      · intro h
        exact ⟨by omega, by omega⟩
      · rintro ⟨-, h⟩
        omega
    · refine iff_of_false ?_ (fun h => hpos h.1)
      rintro ⟨out', h⟩
      obtain ⟨⟨mid, o⟩, hloop, hlast⟩ := bind_eq_ok.mp h
      have hroom := write_isOk.mp ⟨out', hlast⟩
      rw [encodeLoop_length hloop, hout] at hroom
      omega

end

/-! ### What comes back -/

/-- A password `name` whose encoding fits comes back exactly when it has no white space but the
space and no byte above `0x7f` but `0xff`. A buffer `out` of `outlen` bytes is kept to exactly when
it has a byte and no byte written with a percent sign begins three bytes before its end. A string
`s` is kept to exactly when it does not end with a percent sign of its own. -/
theorem password_text_iff (name : PgName) (out : List Byte) (outlen : ℤ) (s : List Byte)
    (hint : Fits 32 outlen) (hout : out.length = outlen.toNat) (hname : 0 ∉ SAFE_NAME name)
    (hs : 0 ∉ s) :
    (((encoded (SAFE_NAME name)).length : ℤ) < outlen →
      ((∃ out' back, encode name out outlen = .ok out' ∧ decode out' = .ok back ∧
        SAFE_NAME back = SAFE_NAME name) ↔
        ∀ c ∈ SAFE_NAME name, (isSpace c = true → c = 0x20) ∧ (0x80 ≤ c → c = 0xff))) ∧
    ((∃ out', encode name out outlen = .ok out') ↔
      1 ≤ outlen ∧ ∀ ins, name = some ins → ¬ Overruns outlen.toNat 0 ins) ∧
    ((∃ back, decode (s ++ [0]) = .ok back) ↔ ¬ ∃ pre, Whole pre ∧ s = pre ++ [0x25]) := by
  refine ⟨fun hfit => ?_, encode_within_iff hint hout, ?_⟩
  · obtain ⟨z, hencode⟩ := encode_fits hint hout hfit
    obtain ⟨back, hdecode, hback⟩ := decode_whole (nul_not_mem_encoded hname)
      (not_cut_of_whole (whole_encoded (SAFE_NAME name))) (z := z) rfl
    rw [decodeBytes_encoded, List.takeWhile_eq_self_iff.mpr] at hback
    · have hall : (SAFE_NAME name).map readBack = SAFE_NAME name ↔
          ∀ c ∈ SAFE_NAME name, readBack c = c := by
        simpa using List.map_inj_left (l := SAFE_NAME name) (f := readBack) (g := id)
      simp only [← readBack_eq_iff, ← hall, ← hback]
      constructor
      · rintro ⟨out', back', hout', hback', heq⟩
        rw [hencode] at hout'
        obtain rfl := Except.ok.inj hout'
        rw [hdecode] at hback'
        rw [Except.ok.inj hback', heq]
      · intro h
        exact ⟨_, back, hencode, hdecode, h⟩
    · intro c hc
      obtain ⟨a, ha, rfl⟩ := List.mem_map.mp hc
      exact decide_eq_true (readBack_ne_nul fun h => hname (h ▸ ha))
  · constructor
    · rintro ⟨back, hback⟩ hcut
      rw [decode_cut hs hcut] at hback
      cases hback
    · intro hcut
      obtain ⟨back, hback, -⟩ := decode_whole (z := []) hs hcut rfl
      exact ⟨back, hback⟩

/-- The letters `a-b` in a buffer of ten bytes. -/
theorem password_text_letters :
    (∃ out' back, encode (some [0x61, 0x2d, 0x62]) (List.replicate 10 0) 10 = .ok out' ∧
      decode out' = .ok back ∧ SAFE_NAME back = [0x61, 0x2d, 0x62]) ∧
    (∃ out', encode (some [0x61, 0x2d, 0x62]) (List.replicate 10 0) 10 = .ok out') ∧
    ∃ back, decode ([0x25, 0x34, 0x31] ++ [0]) = .ok back := by
  obtain ⟨hback, hwithin, hread⟩ := password_text_iff (some [0x61, 0x2d, 0x62])
    (List.replicate 10 0) 10 [0x25, 0x34, 0x31] (by decide) (by decide) (by decide) (by decide)
  refine ⟨(hback (by decide)).mpr (by simp [SAFE_NAME, isSpace]), ?_, hread.mpr ?_⟩
  · exact Exists.imp (fun _ h => h.choose_spec.1) ((hback (by decide)).mpr
      (by simp [SAFE_NAME, isSpace]))
  · rw [← Cut, cut_percent]
    exact not_cut_nil

/-- The byte `0xe9` comes back as `0xff`; two minus signs overrun a buffer of six bytes; a single
percent sign is looked behind. -/
theorem password_text_lost :
    (encode (some [0xe9]) (List.replicate 10 0) 10 >>= decode) = .ok (some [0xff]) ∧
    encode (some [0x2d, 0x2d]) (List.replicate 6 0) 6 = .error .beyond ∧
    decode ([0x25] ++ [0]) = .error .beyond := by
  decide +kernel

end OdbcDriver.Password
