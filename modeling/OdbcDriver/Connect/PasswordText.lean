import OdbcDriver.Connect.Attributes
import OdbcDriver.Lib.CInt
import OdbcDriver.Lib.Except
import OdbcDriver.Lib.Scanf
import OdbcDriver.Server.Bytea

/-!
# The text of a password

A password is kept in a data source as a text: `encode` leaves letters and digits as they are,
writes a plus sign for white space and a percent sign with two hexadecimal digits for anything
else, and `decode` reads it back.

`encode` writes into a buffer of `outlen` bytes and `decode` reads a string with its terminator.
Going past the end of either is a fault. A byte is printed as a signed `char`, so that one above
`0x7f` has eight digits, of which the first two stay in front of what is written next.
-/

namespace OdbcDriver.Password

open CInt CString Lib
open Server (byte_all)

/-- A name, which may be `NULL`. -/
abbrev PgName := Option (List Byte)

/-- `SAFE_NAME` -/
def SAFE_NAME (name : PgName) : List Byte := name.getD []

/-! ### Writing a password -/

/-- `%%%02x` of a signed `char`. -/
def percentText (inc : Byte) : List Byte :=
  0x25 :: (if inc < 0x80 then [] else List.replicate 6 0x66) ++
    [Server.hexDigit 0x61 (inc / 16), Server.hexDigit 0x61 (inc % 16)]

/-- Bytes written from a pointer on. -/
def writeAll (buf : List Byte) (i : ℕ) : List Byte → Except CString.Fault (List Byte)
  | [] => .ok buf
  | b :: s => do writeAll (← write buf i b) (i + 1) s

/-- `snprintf` at a pointer: nothing is written where there is no room for a terminator. -/
def snprintfAt (buf : List Byte) (i size : ℕ) (text : List Byte) :
    Except CString.Fault (List Byte) :=
  if size = 0 then .ok buf else writeAll buf i ((Scanf.snprintf size text).1 ++ [0])

/-- The loop of `encode`: `o` and what it is compared with are a `size_t`. -/
def encodeLoop (outlen : ℤ) :
    List Byte → List Byte → ℕ → Except CString.Fault (List Byte × ℕ)
  | [], out, o => .ok (out, o)
  | inc :: ins, out, o =>
    if (o : ℤ) < uwrap 64 (outlen - 1) then
      if inc = 0x2b then
        if uwrap 64 outlen ≤ (o + 2 : ℕ) then .ok (out, o)
        else do
          let out ← snprintfAt out o (uwrap 64 (outlen - o)).toNat [0x25, 0x32, 0x42]
          encodeLoop outlen ins out (o + 3)
      else if isSpace inc then do
        let out ← write out o 0x2b
        encodeLoop outlen ins out (o + 1)
      else if !isAlnum inc then
        if uwrap 64 outlen ≤ (o + 2 : ℕ) then .ok (out, o)
        else do
          let out ← snprintfAt out o (uwrap 64 (outlen - o)).toNat (percentText inc)
          encodeLoop outlen ins out (o + 3)
      else do
        let out ← write out o inc
        encodeLoop outlen ins out (o + 1)
    else .ok (out, o)

/-- `encode`: what the buffer holds afterwards. -/
def encode (name : PgName) (out : List Byte) (outlen : ℤ) : Except CString.Fault (List Byte) :=
  match name with
  | none => write out 0 0
  | some ins => do
    let (out, o) ← encodeLoop outlen ins out 0
    write out o 0

/-! ### Reading it back -/

/-- The loop of `decode`. Both bytes behind a percent sign are read, whatever they are. The bytes
put out are never more than the bytes passed, for which there is room. -/
def decodeLoop (buf : List Byte) (ilen : ℕ) :
    ℕ → ℕ → List Byte → Except CString.Fault (List Byte)
  | 0, _, _ => .error .fuel
  | fuel + 1, i, outs =>
    if i < ilen then do
      let inc ← read buf i
      if inc = 0x2b then decodeLoop buf ilen fuel (i + 1) (outs ++ [0x20])
      else if inc = 0x25 then
        let a ← read buf (i + 1)
        let b ← read buf (i + 2)
        decodeLoop buf ilen fuel (i + 3) (outs ++ [Connect.conv_from_hex a b])
      else decodeLoop buf ilen fuel (i + 1) (outs ++ [inc])
    else .ok outs

/-- `decode` of the string a buffer begins with. The name ends where a terminator has been put
out. -/
def decode (buf : List Byte) : Except CString.Fault PgName :=
  let ilen := (text buf 0).length
  if ilen = 0 then .ok none
  else do
    let outs ← decodeLoop buf ilen (ilen + 1) 0 []
    return some (outs.takeWhile (· ≠ 0))

/-! ### What the buffer holds -/

/-- The bytes that are written with a percent sign. -/
def escaped (c : Byte) : Bool := !isSpace c && !isAlnum c

/-- What is left in the buffer of one byte. -/
def encodedByte (c : Byte) : List Byte :=
  if c = 0x2b then [0x25, 0x32, 0x42]
  else if isSpace c then [0x2b]
  else if isAlnum c then [c]
  else (percentText c).take 3

/-- The encoding of a password. -/
def encoded (s : List Byte) : List Byte := s.flatMap encodedByte

theorem length_encodedByte (c : Byte) :
    (encodedByte c).length = if escaped c then 3 else 1 := by
  refine byte_all (P := fun c => (encodedByte c).length = if escaped c then 3 else 1) ?_ c
  decide +kernel

theorem writeAll_eq {f z b : List Byte} (hroom : b.length ≤ z.length) :
    writeAll (f ++ z) f.length b = .ok (f ++ b ++ z.drop b.length) := by
  induction b generalizing f z with
  | nil => simp [writeAll]
  | cons x b ih =>
    obtain ⟨y, z, rfl⟩ := List.exists_cons_of_length_pos (l := z) (by simp at hroom; omega)
    have hrest := ih (f := f ++ [x]) (z := z) (by simpa using hroom)
    rw [writeAll, write_eq (f := f) (x := y) (z := z) rfl rfl, ok_bind]
    simpa using hrest

/-- What `snprintf` leaves where there is room for three bytes at least: the first three bytes of
the text, or the first two and a terminator. -/
theorem snprintfAt_eq {f z text : List Byte} (hroom : 3 ≤ z.length) (htext : 3 ≤ text.length) :
    ∃ z', snprintfAt (f ++ z) f.length z.length text = .ok (f ++ z') ∧ z'.length = z.length ∧
      (3 < z.length → z'.take 3 = text.take 3) := by
  have hlen : ((Scanf.snprintf z.length text).1 ++ [0]).length ≤ z.length := by
    simp [Scanf.snprintf]
    omega
  refine ⟨(Scanf.snprintf z.length text).1 ++ [0] ++
    z.drop ((Scanf.snprintf z.length text).1 ++ [0]).length, ?_, ?_, fun hmore => ?_⟩
  · rw [snprintfAt, if_neg (by omega), writeAll_eq hlen, List.append_assoc]
  · rw [List.length_append, List.length_drop]
    omega
  · have htake : 3 ≤ (Scanf.snprintf z.length text).1.length := by
      simp [Scanf.snprintf]
      omega
    rw [List.append_assoc, List.take_append_of_le_length htake]
    simp [Scanf.snprintf, List.take_take]
    omega

/-- What is printed for a byte that is written with a percent sign. -/
def escapeText (inc : Byte) : List Byte :=
  if inc = 0x2b then [0x25, 0x32, 0x42] else percentText inc

theorem length_escapeText (c : Byte) : 3 ≤ (escapeText c).length := by
  unfold escapeText percentText
  split <;> simp

theorem encodedByte_of_escaped {c : Byte} (h : escaped c = true) :
    encodedByte c = (escapeText c).take 3 := by
  obtain ⟨hspace, halnum⟩ : isSpace c = false ∧ isAlnum c = false := by simpa [escaped] using h
  by_cases hplus : c = 0x2b
  · simp [encodedByte, escapeText, hplus]
  · simp [encodedByte, escapeText, hplus, hspace, halnum]

theorem encodedByte_of_plain {c : Byte} (h : escaped c = false) :
    encodedByte c = [if isSpace c then 0x2b else c] := by
  have hplus : c ≠ 0x2b := fun hc => by subst hc; exact absurd h (by decide)
  by_cases hspace : isSpace c = true
  · simp [encodedByte, hplus, hspace]
  · have halnum : isAlnum c = true := by simpa [escaped, hspace] using h
    simp [encodedByte, hplus, hspace, halnum]

section

variable {n : ℕ} {ins out done z : List Byte} {c : Byte} {o : ℕ}

/-- The loop where the length of the buffer is an `int` above zero. -/
theorem encodeLoop_cons (hpos : 1 ≤ n) (hint : n < 2 ^ 31) (ho : o ≤ n) :
    encodeLoop n (c :: ins) out o =
      if n ≤ o + 1 then .ok (out, o)
      else if escaped c then
        if n ≤ o + 2 then .ok (out, o)
        else snprintfAt out o (n - o) (escapeText c) >>= fun out => encodeLoop n ins out (o + 3)
      else write out o (if isSpace c then 0x2b else c) >>= fun out =>
        encodeLoop n ins out (o + 1) := by
  have hlast : uwrap 64 ((n : ℤ) - 1) = (n - 1 : ℕ) := by
    rw [uwrap, Int.emod_eq_of_lt (by omega) (by omega)]
    omega
  have hlen : uwrap 64 (n : ℤ) = n := Int.emod_eq_of_lt (by omega) (by omega)
  have hsize : (uwrap 64 ((n : ℤ) - o)).toNat = n - o := by
    rw [uwrap, Int.emod_eq_of_lt (by omega) (by omega)]
    omega
  rw [encodeLoop, hlast, hlen, hsize]
  by_cases hend : n ≤ o + 1
  · rw [if_pos hend, if_neg (by omega)]
  · rw [if_neg hend, if_pos (by omega)]
    by_cases hplus : c = 0x2b
    · subst hplus
      simp only [if_true, Nat.cast_le]
      rfl
    · rw [if_neg hplus]
      by_cases hspace : isSpace c = true
      · simp [hspace, escaped]
      · by_cases halnum : isAlnum c = true
        · simp [hspace, halnum, escaped]
        · simp only [hspace, halnum, escaped, escapeText, if_neg hplus, Nat.cast_le]
          rfl

theorem encodeLoop_end (hpos : 1 ≤ n) (hint : n < 2 ^ 31) (ho : o ≤ n) (hend : n ≤ o + 1) :
    encodeLoop n ins out o = .ok (out, o) := by
  cases ins with
  | nil => rfl
  | cons c ins => rw [encodeLoop_cons hpos hint ho, if_pos hend]

/-- A byte that is written with a percent sign, where there is room for three. -/
theorem encodeLoop_escaped (hint : n < 2 ^ 31) (hout : out = done ++ z) (hlen : out.length = n)
    (ho : o = done.length) (hc : escaped c = true) (hroom : o + 3 ≤ n) :
    ∃ z', encodeLoop n (c :: ins) out o = encodeLoop n ins (done ++ z') (o + 3) ∧
      z'.length = z.length ∧ (o + 3 < n → z'.take 3 = encodedByte c) := by
  have hz : z.length = n - o := by
    rw [hout, List.length_append] at hlen
    omega
  obtain ⟨z', hwrite, hlen', htake⟩ := @snprintfAt_eq done z (escapeText c)
    (by omega) (length_escapeText c)
  refine ⟨z', ?_, hlen', fun hmore => ?_⟩
  · rw [encodeLoop_cons (by omega) hint (by omega), if_neg (by omega), if_pos hc,
      if_neg (by omega), hout, ← hz, ho, hwrite, ok_bind]
  · rw [htake (by omega), encodedByte_of_escaped hc]

/-- A byte that is written as one byte. -/
theorem encodeLoop_plain (hint : n < 2 ^ 31) (hout : out = done ++ z) (hlen : out.length = n)
    (ho : o = done.length) (hc : escaped c = false) (hroom : o + 1 < n) :
    encodeLoop n (c :: ins) out o =
      encodeLoop n ins (done ++ (encodedByte c ++ z.drop 1)) (o + 1) := by
  obtain ⟨y, z, rfl⟩ := List.exists_cons_of_length_pos (l := z) (by
    rw [hout, List.length_append] at hlen
    omega)
  rw [encodeLoop_cons (by omega) hint (by omega), if_neg (by omega), hc, if_neg Bool.false_ne_true,
    write_eq hout ho, ok_bind, encodedByte_of_plain hc]
  rfl

/-! ### The end of the buffer -/

/-- A byte written with a percent sign begins three bytes before the end of the buffer, where the
writing begins at `o`. -/
def Overruns (n o : ℕ) (s : List Byte) : Prop :=
  ∃ pre c post, s = pre ++ c :: post ∧ escaped c = true ∧ o + (encoded pre).length + 3 = n

theorem encoded_cons (c : Byte) (s : List Byte) : encoded (c :: s) = encodedByte c ++ encoded s :=
  List.flatMap_cons

theorem overruns_cons :
    Overruns n o (c :: ins) ↔
      (escaped c = true ∧ o + 3 = n) ∨ Overruns n (o + (encodedByte c).length) ins := by
  constructor
  · rintro ⟨_ | ⟨a, pre⟩, d, post, hs, hd, hn⟩
    · obtain ⟨rfl, rfl⟩ := List.cons.inj hs
      exact .inl ⟨hd, hn⟩
    · obtain ⟨rfl, rfl⟩ := List.cons.inj hs
      refine .inr ⟨pre, d, post, rfl, hd, ?_⟩
      rw [encoded_cons, List.length_append] at hn
      omega
  · rintro (⟨hc, hn⟩ | ⟨pre, d, post, rfl, hd, hn⟩)
    · exact ⟨[], c, ins, rfl, hc, hn⟩
    · refine ⟨c :: pre, d, post, rfl, hd, ?_⟩
      rw [encoded_cons, List.length_append]
      omega

theorem not_overruns (h : n < o + 3) : ¬ Overruns n o ins := by
  rintro ⟨pre, c, post, -, -, hn⟩
  omega

/-- The loop never leaves the buffer, and where it stops is the end of the buffer exactly when a
byte written with a percent sign begins three bytes before it. -/
theorem encodeLoop_extent (hint : n < 2 ^ 31) (hlen : out.length = n) (ho : o < n) :
    ∃ out' o', encodeLoop n ins out o = .ok (out', o') ∧ out'.length = n ∧ o' ≤ n ∧
      (o' = n ↔ Overruns n o ins) := by
  induction ins generalizing out o with
  | nil =>
    refine ⟨out, o, rfl, hlen, by omega, ?_⟩
    constructor
    · intro h
      omega
    · rintro ⟨pre, c, post, hs, -⟩
      cases pre <;> cases hs
  | cons c ins ih =>
    have hstop : n < o + 3 → encodeLoop n (c :: ins) out o = .ok (out, o) →
        ∃ out' o', encodeLoop n (c :: ins) out o = .ok (out', o') ∧ out'.length = n ∧ o' ≤ n ∧
          (o' = n ↔ Overruns n o (c :: ins)) := fun hn hloop =>
      ⟨out, o, hloop, hlen, by omega,
        ⟨fun h => by omega, fun h => absurd h (not_overruns hn)⟩⟩
    have hdone : out = out.take o ++ out.drop o := (List.take_append_drop o out).symm
    have hodone : o = (out.take o).length := by
      rw [List.length_take]
      omega
    by_cases hend : n ≤ o + 1
    · exact hstop (by omega) (encodeLoop_end (by omega) hint (by omega) hend)
    · by_cases hc : escaped c = true
      · have hthree : (encodedByte c).length = 3 := by rw [length_encodedByte, if_pos hc]
        by_cases hroom : n ≤ o + 2
        · refine hstop (by omega) ?_
          rw [encodeLoop_cons (by omega) hint (by omega), if_neg hend, if_pos hc, if_pos hroom]
        · obtain ⟨z, hloop, hz, -⟩ :=
            @encodeLoop_escaped _ ins _ _ _ _ _ hint hdone hlen hodone hc (by omega)
          have hout : (out.take o ++ z).length = n := by
            rw [List.length_append, hz, List.length_take, List.length_drop]
            omega
          rw [hloop, overruns_cons, hthree]
          by_cases hlast : o + 3 = n
          · refine ⟨_, _, encodeLoop_end (by omega) hint (by omega) (by omega), hout, by omega, ?_⟩
            simp [hc, hlast]
          · obtain ⟨out', o', hrun, hlen', hle, hiff⟩ := ih (o := o + 3) hout (by omega)
            refine ⟨out', o', hrun, hlen', hle, hiff.trans ?_⟩
            simp [hlast]
      · have hc : escaped c = false := by simpa using hc
        have hone : (encodedByte c).length = 1 := by rw [length_encodedByte, hc]; rfl
        rw [encodeLoop_plain hint hdone hlen hodone hc (by omega), overruns_cons, hone]
        obtain ⟨out', o', hrun, hlen', hle, hiff⟩ := @ih
          (out.take o ++ (encodedByte c ++ (out.drop o).drop 1)) (o + 1) (by
            simp only [List.length_append, hone, List.length_take, List.length_drop]
            omega) (by omega)
        refine ⟨out', o', hrun, hlen', hle, hiff.trans ?_⟩
        simp [hc]

/-- What the buffer begins with where the encoding fits. -/
theorem encodeLoop_fits (hint : n < 2 ^ 31) (hout : out = done ++ z) (hlen : out.length = n)
    (ho : o = done.length) (hfit : o + (encoded ins).length < n) :
    ∃ z', encodeLoop n ins out o =
        .ok (done ++ encoded ins ++ z', o + (encoded ins).length) ∧
      (done ++ encoded ins ++ z').length = n := by
  induction ins generalizing out done z o with
  | nil => exact ⟨z, by simp [encodeLoop, encoded, hout], by simpa [encoded, hout] using hlen⟩
  | cons c ins ih =>
    rw [encoded_cons, List.length_append] at hfit
    have hz : z.length = n - o := by
      rw [hout, List.length_append] at hlen
      omega
    -- The loop goes on behind what is left of the byte.
    have hstep : ∃ z', encodeLoop n (c :: ins) out o =
        encodeLoop n ins (done ++ encodedByte c ++ z') (o + (encodedByte c).length) ∧
        (done ++ encodedByte c ++ z').length = n := by
      by_cases hc : escaped c = true
      · have hthree : (encodedByte c).length = 3 := by rw [length_encodedByte, if_pos hc]
        obtain ⟨z', hloop, hz', htake⟩ :=
          @encodeLoop_escaped _ ins _ _ _ _ _ hint hout hlen ho hc (by omega)
        refine ⟨z'.drop 3, ?_, ?_⟩
        · rw [hloop, hthree, List.append_assoc, ← htake (by omega), List.take_append_drop]
        · simp only [List.length_append, hthree, List.length_drop]
          omega
      · have hc : escaped c = false := by simpa using hc
        have hone : (encodedByte c).length = 1 := by rw [length_encodedByte, hc]; rfl
        refine ⟨z.drop 1, ?_, ?_⟩
        · rw [encodeLoop_plain hint hout hlen ho hc (by omega), hone, List.append_assoc]
        · simp only [List.length_append, hone, List.length_drop]
          omega
    obtain ⟨z', hloop, hlen'⟩ := hstep
    obtain ⟨z'', hrun, hlen''⟩ := ih (o := o + (encodedByte c).length) rfl hlen'
      (by rw [List.length_append, ho]) (by omega)
    refine ⟨z'', ?_, ?_⟩
    · rw [hloop, hrun, encoded_cons, List.append_assoc done, List.length_append, Nat.add_assoc]
    · rw [encoded_cons, ← List.append_assoc]
      exact hlen''

end

end OdbcDriver.Password
