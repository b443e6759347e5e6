import OdbcDriver.GetData.Conversion
import OdbcDriver.Lib.CString
import OdbcDriver.Lib.Except
import OdbcDriver.Server.Bytea

/-!
# Reading a binary value

`convert_from_pgbinary` at the level of its pointers: it reads the text up to its NUL, and writes the
bytes, where there is a buffer for them. The texts in which the server sends a value are read as
that value, and counted without a buffer as with one; nothing behind the NUL is read.
-/

namespace OdbcDriver.Bytea

open Lib (ok_bind)
open Server (escapeOut hexOut rawOut hexDigits byte_all)

/-! ### The conversion -/

/-- The loop of `pg_hex2bin`, with `length` characters left: where it ends, and what it has
written. -/
def hex2binLoop (src : List Byte) (src_wk dst_wk : Nat) (HByte : Bool) :
    Nat → List Byte → Except CString.Fault (Nat × List Byte)
  | 0, dst => .ok (dst_wk, dst)
  | length + 1, dst => do
    let chr ← CString.read src src_wk
    if chr = 0 then .ok (dst_wk, dst)
    else
      let val := hexVal chr
      if HByte then
        hex2binLoop src (src_wk + 1) dst_wk false length (← CString.write dst dst_wk (val <<< 4))
      else
        let half ← CString.read dst dst_wk
        hex2binLoop src (src_wk + 1) (dst_wk + 1) true length (← CString.write dst dst_wk (half + val))

/-- `pg_hex2bin`, of the characters at `src_wk`, to `dst_wk`. -/
def pg_hex2bin (src : List Byte) (src_wk : Nat) (dst : List Byte) (dst_wk length : Nat) :
    Except CString.Fault (List Byte) := do
  let (dst_wk, dst) ← hex2binLoop src src_wk dst_wk true length dst
  CString.write dst dst_wk 0

/-- `conv_from_octal`, of the escape at `i`. -/
def conv_from_octal (value : List Byte) (i : Nat) : Except CString.Fault Byte := do
  let s₁ ← CString.read value (i + 1)
  let s₂ ← CString.read value (i + 2)
  let s₃ ← CString.read value (i + 3)
  return ((s₁ - 0x30) <<< 6) + ((s₂ - 0x30) <<< 3) + (s₃ - 0x30)

/-- `if (rgbValue)`. -/
def ifBuffer (rgbValue : Option (List Byte)) (write : List Byte → Except CString.Fault (List Byte)) :
    Except CString.Fault (Option (List Byte)) :=
  match rgbValue with
  | none => .ok none
  | some dst => some <$> write dst

/-- The loop of `convert_from_pgbinary`: the length, and what has been written. -/
def fromLoop (value : List Byte) (binary_rawout : Bool) (ilen i o : Nat)
    (rgbValue : Option (List Byte)) : Except CString.Fault (Nat × Option (List Byte)) :=
  if i < ilen then do
    let c ← CString.read value i
    if c = BACKSLASH then
      let d ← CString.read value (i + 1)
      if d = BACKSLASH then
        fromLoop value binary_rawout ilen (i + 2) (o + 1)
          (← ifBuffer rgbValue fun dst => CString.write dst o c)
      else if d = 0x78 then
        let i := i + 2
        if i < ilen then
          let ilen := ilen - i
          return (o + ilen / 2, ← ifBuffer rgbValue fun dst => pg_hex2bin value i dst o ilen)
        else return (o, rgbValue)
      else
        fromLoop value binary_rawout ilen (i + 4) (o + 1)
          (← ifBuffer rgbValue fun dst => do CString.write dst o (← conv_from_octal value i))
    else if binary_rawout then
      let ilen := ilen - i
      return (o + ilen / 2, ← ifBuffer rgbValue fun dst => pg_hex2bin value i dst o ilen)
    else
      fromLoop value binary_rawout ilen (i + 1) (o + 1)
        (← ifBuffer rgbValue fun dst => CString.write dst o c)
  else .ok (o, rgbValue)
termination_by ilen - i

/-- `convert_from_pgbinary`, of a text that ends in a NUL: the length of the value, and the
buffer. -/
def convert_from_pgbinary (value : List Byte) (binary_rawout : Bool)
    (rgbValue : Option (List Byte)) : Except CString.Fault (Nat × Option (List Byte)) := do
  let ilen ← CString.find (fun c => decide (c = 0)) value 0
  let (o, rgbValue) ← fromLoop value binary_rawout ilen 0 0 rgbValue
  return (o, ← ifBuffer rgbValue fun dst => CString.write dst o 0)

/-! ### What has been written -/

/-- The buffer `dst`, filled with `out` from its beginning. -/
def filled (dst out : List Byte) : List Byte := out ++ dst.drop out.length

theorem filled_nil (dst : List Byte) : filled dst [] = dst := rfl

section Buffer

variable {dst out : List Byte} {x y : Byte}

theorem store_next (h : out.length < dst.length) :
    CString.write (filled dst out) out.length x = .ok (filled dst (out ++ [x])) := by
  have hroom : out.length < (filled dst out).length := by
    rw [filled, List.length_append, List.length_drop]
    omega
  rw [CString.write, if_pos hroom, filled, List.set_append_right _ _ le_rfl, Nat.sub_self,
    List.drop_eq_getElem_cons h, filled, List.length_append, List.append_assoc]
  rfl

/-- Half of a byte is written before the other. -/
theorem store_again :
    CString.write (filled dst (out ++ [x])) out.length y = .ok (filled dst (out ++ [y])) := by
  have hroom : out.length < (filled dst (out ++ [x])).length := by
    simp only [filled, List.length_append, List.length_cons, List.length_nil]
    omega
  rw [CString.write, if_pos hroom, filled, List.append_assoc, List.set_append_right _ _ le_rfl,
    Nat.sub_self, filled, List.append_assoc, List.length_append, List.length_append]
  rfl

theorem read_last : CString.read (filled dst (out ++ [x])) out.length = .ok x :=
  CString.read_eq (f := out) (z := dst.drop (out ++ [x]).length)
    (by rw [filled, List.append_assoc]; rfl) rfl

/-- A write that fills the buffer further, where there is one. -/
theorem ifBuffer_filled {rgbValue : Option (List Byte)} {out' : List Byte}
    {write : List Byte → Except CString.Fault (List Byte)}
    (h : ∀ dst ∈ rgbValue, write (filled dst out) = .ok (filled dst out')) :
    ifBuffer (rgbValue.map (filled · out)) write = .ok (rgbValue.map (filled · out')) := by
  cases rgbValue with
  | none => rfl
  | some dst =>
    change some <$> write (filled dst out) = _
    rw [h dst rfl]
    rfl

end Buffer

/-! ### Hexadecimal digits -/

/-- The digits of the server, in capitals or not. -/
theorem hexVal_digits {ten : Byte} (hten : ten = 0x41 ∨ ten = 0x61) (x : Byte) :
    Server.hexDigit ten (x / 16) ≠ 0 ∧ Server.hexDigit ten (x % 16) ≠ 0 ∧
      (hexVal (Server.hexDigit ten (x / 16)) <<< 4) + hexVal (Server.hexDigit ten (x % 16)) = x := by
  have hdigit : ∀ n < 16, Server.hexDigit ten (UInt8.ofNat n) ≠ 0 ∧
      hexVal (Server.hexDigit ten (UInt8.ofNat n)) = UInt8.ofNat n := by
    rcases hten with rfl | rfl
    · decide
    · decide
  obtain ⟨hhi, hlo⟩ := Server.nibble_all (P := fun v => Server.hexDigit ten v ≠ 0 ∧
    hexVal (Server.hexDigit ten v) = v) hdigit x
  have hshift : (x / 16) <<< 4 = 16 * (x / 16) := by
    refine UInt8.toNat_inj.mp ?_
    rw [UInt8.toNat_shiftLeft, UInt8.toNat_mul, Nat.shiftLeft_eq, Nat.mul_comm]
    rfl
  rw [hhi.2, hlo.2, hshift]
  exact ⟨hhi.1, hlo.1, Server.add_halves x⟩

section Hex

variable {ten : Byte} {src f z : List Byte}

theorem hex2binLoop_digits (hten : ten = 0x41 ∨ ten = 0x61) {b : List Byte}
    (hsrc : src = f ++ (hexDigits ten b ++ z)) (dst out : List Byte)
    (hroom : out.length + b.length < dst.length) :
    hex2binLoop src f.length out.length true (hexDigits ten b).length (filled dst out) =
      .ok ((out ++ b).length, filled dst (out ++ b)) := by
  induction b generalizing f out with
  | nil =>
    rw [List.append_nil]
    rfl
  | cons x b ih =>
    obtain ⟨hhi, hlo, hx⟩ := hexVal_digits hten x
    have hlen : (hexDigits ten (x :: b)).length = (hexDigits ten b).length + 1 + 1 := rfl
    have hread : CString.read src f.length = .ok (Server.hexDigit ten (x / 16)) :=
      CString.read_eq hsrc rfl
    have hread' : CString.read src (f.length + 1) = .ok (Server.hexDigit ten (x % 16)) :=
      CString.read_eq (f := f ++ [Server.hexDigit ten (x / 16)]) (z := hexDigits ten b ++ z)
        (by rw [hsrc]; simp [hexDigits]) (by simp)
    rw [List.length_cons] at hroom
    have hfits : out.length < dst.length := by omega
    rw [hlen, hex2binLoop, hread, ok_bind, if_neg hhi, if_pos rfl, store_next hfits, ok_bind,
      hex2binLoop, hread', ok_bind, if_neg hlo, if_neg Bool.false_ne_true, read_last, ok_bind, hx,
      store_again, ok_bind]
    have hmore := ih (f := f ++ [Server.hexDigit ten (x / 16), Server.hexDigit ten (x % 16)])
      (by rw [hsrc]; simp [hexDigits]) (out ++ [x]) (by simp; omega)
    simpa using hmore

theorem pg_hex2bin_digits (hten : ten = 0x41 ∨ ten = 0x61) {b : List Byte}
    (hsrc : src = f ++ (hexDigits ten b ++ z)) (dst out : List Byte)
    (hroom : out.length + b.length < dst.length) :
    pg_hex2bin src f.length (filled dst out) out.length (hexDigits ten b).length =
      .ok (filled dst (out ++ b ++ [0])) := by
  rw [pg_hex2bin, hex2binLoop_digits hten hsrc dst out hroom, ok_bind]
  exact store_next (by simpa using hroom)

theorem length_hexDigits (ten : Byte) (b : List Byte) :
    (hexDigits ten b).length = 2 * b.length := by
  induction b with
  | nil => rfl
  | cons x b ih =>
    rw [List.length_cons, Nat.mul_add, ← ih]
    rfl

end Hex

/-! ### Escapes -/

section Escapes

variable {value f z : List Byte} {x : Byte} {ilen : Nat}

theorem conv_from_octal_escape (hvalue : value = f ++ (Server.octalEscape x ++ z)) :
    conv_from_octal value f.length = .ok x := by
  have hx : ∀ x : Byte, ((Server.octalDigit (x / 64) - 0x30) <<< 6) +
      ((Server.octalDigit (x / 8) - 0x30) <<< 3) + (Server.octalDigit x - 0x30) = x :=
    byte_all (by decide +kernel)
  have h₁ : CString.read value (f.length + 1) = .ok (Server.octalDigit (x / 64)) :=
    CString.read_eq (f := f ++ [0x5c]) (z := Server.octalDigit (x / 8) :: Server.octalDigit x :: z)
      (by rw [hvalue]; simp [Server.octalEscape]) (by simp)
  have h₂ : CString.read value (f.length + 2) = .ok (Server.octalDigit (x / 8)) :=
    CString.read_eq (f := f ++ [0x5c, Server.octalDigit (x / 64)]) (z := Server.octalDigit x :: z)
      (by rw [hvalue]; simp [Server.octalEscape]) (by simp)
  have h₃ : CString.read value (f.length + 3) = .ok (Server.octalDigit x) :=
    CString.read_eq (f := f ++ [0x5c, Server.octalDigit (x / 64), Server.octalDigit (x / 8)])
      (z := z) (by rw [hvalue]; simp [Server.octalEscape]) (by simp)
  rw [conv_from_octal, h₁, ok_bind, h₂, ok_bind, h₃, ok_bind, hx]
  rfl

/-- One byte of the `escape` format. -/
theorem fromLoop_escapeByte (hvalue : value = f ++ (Server.escapeByte x ++ z))
    (hilen : f.length + (Server.escapeByte x).length ≤ ilen) {rgbValue : Option (List Byte)}
    {out : List Byte} (hroom : ∀ dst ∈ rgbValue, out.length < dst.length) :
    fromLoop value false ilen f.length out.length (rgbValue.map (filled · out)) =
      fromLoop value false ilen (f ++ Server.escapeByte x).length (out ++ [x]).length
        (rgbValue.map (filled · (out ++ [x]))) := by
  have hlen : (out ++ [x]).length = out.length + 1 := List.length_append
  have hstore : ifBuffer (rgbValue.map (filled · out)) (fun dst => CString.write dst out.length x) =
      .ok (rgbValue.map (filled · (out ++ [x]))) :=
    ifBuffer_filled fun dst hdst => store_next (hroom dst hdst)
  rw [fromLoop.eq_def]
  rw [Server.escapeByte] at hvalue hilen ⊢
  split at hvalue
  · next hx =>
    subst hx
    have hc : CString.read value f.length = .ok BACKSLASH := CString.read_eq hvalue rfl
    have hd : CString.read value (f.length + 1) = .ok BACKSLASH :=
      CString.read_eq (f := f ++ [0x5c]) (z := z) (by rw [hvalue]; simp; rfl) (by simp)
    have hlt : f.length < ilen := by simp at hilen; omega
    rw [if_pos hlt, hc, ok_bind, if_pos rfl, hd, ok_bind, if_pos rfl]
    change ifBuffer _ _ >>= _ = _
    rw [show (BACKSLASH : Byte) = 0x5c from rfl, hstore, ok_bind, hlen]
    simp
  · next hx =>
    split at hvalue
    · next hctl =>
      have hc : CString.read value f.length = .ok BACKSLASH := CString.read_eq hvalue rfl
      have hd : CString.read value (f.length + 1) = .ok (Server.octalDigit (x / 64)) :=
        CString.read_eq (f := f ++ [0x5c])
          (z := Server.octalDigit (x / 8) :: Server.octalDigit x :: z)
          (by rw [hvalue]; simp [Server.octalEscape]) (by simp)
      have hdigit : ∀ x : Byte, Server.octalDigit x ≠ BACKSLASH ∧ Server.octalDigit x ≠ 0x78 :=
        Server.octalDigit_all (p := fun d => d ≠ BACKSLASH ∧ d ≠ 0x78) (by decide)
      rw [if_neg hx, if_pos hctl] at hilen ⊢
      have hlt : f.length < ilen := by simp [Server.octalEscape] at hilen; omega
      have hwrite : ifBuffer (rgbValue.map (filled · out)) (fun dst => do
          CString.write dst out.length (← conv_from_octal value f.length)) =
            .ok (rgbValue.map (filled · (out ++ [x]))) :=
        ifBuffer_filled fun dst hdst => by
          rw [conv_from_octal_escape hvalue, ok_bind]
          exact store_next (hroom dst hdst)
      rw [if_pos hlt, hc, ok_bind, if_pos rfl, hd, ok_bind, if_neg (hdigit _).1,
        if_neg (hdigit _).2, hwrite, ok_bind, hlen]
      simp [Server.octalEscape]
    · next hctl =>
      have hc : CString.read value f.length = .ok x := CString.read_eq hvalue rfl
      rw [if_neg hx, if_neg hctl] at hilen ⊢
      have hlt : f.length < ilen := by simp at hilen; omega
      have hne : x ≠ BACKSLASH := hx
      rw [if_pos hlt, hc, ok_bind, if_neg hne, if_neg Bool.false_ne_true, hstore, ok_bind, hlen]
      simp

theorem fromLoop_escapes {b : List Byte} (hvalue : value = f ++ (escapeOut b ++ z))
    (hilen : ilen = f.length + (escapeOut b).length) {rgbValue : Option (List Byte)}
    (out : List Byte) (hroom : ∀ dst ∈ rgbValue, out.length + b.length < dst.length) :
    fromLoop value false ilen f.length out.length (rgbValue.map (filled · out)) =
      .ok ((out ++ b).length, rgbValue.map (filled · (out ++ b))) := by
  induction b generalizing f out with
  | nil =>
    rw [fromLoop.eq_def, if_neg (by simp [hilen, escapeOut]), List.append_nil]
  | cons x b ih =>
    have hcons : escapeOut (x :: b) = Server.escapeByte x ++ escapeOut b := rfl
    rw [hcons, List.append_assoc] at hvalue
    rw [hcons, List.length_append] at hilen
    have hfits : ∀ dst ∈ rgbValue, out.length < dst.length := fun dst hdst => by
      have := hroom dst hdst
      omega
    rw [fromLoop_escapeByte hvalue (by omega) hfits,
      ih (f := f ++ Server.escapeByte x) (by rw [hvalue, List.append_assoc])
        (by rw [List.length_append]; omega) (out ++ [x]) (fun dst hdst => by
          have := hroom dst hdst
          simp only [List.length_append, List.length_cons, List.length_nil] at this ⊢
          omega),
      List.append_assoc, List.singleton_append]

end Escapes

/-! ### Values -/

/-- The texts in which the server sends `b`. A `raw` value is read with `binary_rawout`, one in the
`escape` format without, and one behind `\x` either way. -/
inductive ServerText (b : List Byte) : Bool → List Byte → Prop
  | escape : ServerText b false (escapeOut b)
  | hex (binary_rawout : Bool) : ServerText b binary_rawout (hexOut b)
  | raw : ServerText b true (rawOut b)

/-- The text of a value has no NUL in it. -/
theorem ServerText.ne_zero {b text : List Byte} {binary_rawout : Bool}
    (h : ServerText b binary_rawout text) : ∀ c ∈ text, c ≠ 0 := by
  have hdigits : ∀ ten : Byte, ten = 0x41 ∨ ten = 0x61 → ∀ c ∈ hexDigits ten b, c ≠ 0 := by
    intro ten hten c hc
    obtain ⟨x, -, hcx⟩ := List.mem_flatMap.mp hc
    obtain ⟨hhi, hlo, -⟩ := hexVal_digits hten x
    rcases List.mem_pair.mp hcx with rfl | rfl
    · exact hhi
    · exact hlo
  cases h with
  | escape =>
    intro c hc
    obtain ⟨x, -, hcx⟩ := List.mem_flatMap.mp hc
    have hbyte : ∀ x : Byte, ∀ c ∈ Server.escapeByte x, c ≠ 0 :=
      Server.bytes_all (by decide +kernel)
    exact hbyte x c hcx
  | hex =>
    intro c hc
    rcases List.mem_cons.mp hc with rfl | hc
    · decide
    · rcases List.mem_cons.mp hc with rfl | hc
      · decide
      · exact hdigits 0x61 (.inr rfl) c hc
  | raw => exact hdigits 0x41 (.inl rfl)

/-- A buffer is filled by `pg_hex2bin` with the bytes and a NUL. -/
theorem ifBuffer_digits {ten : Byte} (hten : ten = 0x41 ∨ ten = 0x61) {b f : List Byte}
    {rgbValue : Option (List Byte)} (hroom : ∀ dst ∈ rgbValue, b.length < dst.length) :
    ifBuffer rgbValue (fun dst => pg_hex2bin (f ++ (hexDigits ten b ++ [0])) f.length dst 0
      (hexDigits ten b).length) = .ok (rgbValue.map (filled · (b ++ [0]))) := by
  have h : ifBuffer (rgbValue.map (filled · [])) (fun dst =>
      pg_hex2bin (f ++ (hexDigits ten b ++ [0])) f.length dst 0 (hexDigits ten b).length) = _ :=
    ifBuffer_filled fun dst hdst => pg_hex2bin_digits (z := [0]) hten rfl dst [] (by simpa using hroom dst hdst)
  simpa only [filled_nil, Option.map_id', List.nil_append] using h

/-- The loop over the text of a value: it counts the bytes, and writes them. -/
theorem ServerText.fromLoop_eq {b text : List Byte} {binary_rawout : Bool}
    (h : ServerText b binary_rawout text) {rgbValue : Option (List Byte)}
    (hroom : ∀ dst ∈ rgbValue, b.length < dst.length) :
    ∃ out, (out = b ∨ out = b ++ [0]) ∧
      fromLoop (text ++ [0]) binary_rawout text.length 0 0 rgbValue =
        .ok (b.length, rgbValue.map (filled · out)) := by
  have hempty : rgbValue.map (filled · []) = rgbValue := by
    simp only [filled_nil, Option.map_id']
  have hhalf : ∀ ten : Byte, 0 + (hexDigits ten b).length / 2 = b.length := by
    intro ten
    rw [length_hexDigits]
    omega
  cases h with
  | escape =>
    have hloop : fromLoop (escapeOut b ++ [0]) false (escapeOut b).length 0 0
        (rgbValue.map (filled · [])) = _ :=
      fromLoop_escapes (f := []) (z := [0]) rfl (Nat.zero_add _).symm [] (by simpa using hroom)
    rw [hempty] at hloop
    exact ⟨b, .inl rfl, hloop⟩
  | hex =>
    have hlen : (hexOut b).length = (hexDigits 0x61 b).length + 2 := rfl
    have hc : CString.read (hexOut b ++ [0]) 0 = .ok BACKSLASH := rfl
    have hd : CString.read (hexOut b ++ [0]) (0 + 1) = .ok 0x78 := rfl
    rw [fromLoop.eq_def, if_pos (by omega), hc, ok_bind, if_pos rfl, hd, ok_bind,
      if_neg (by decide), if_pos rfl]
    by_cases hb : b = []
    · subst hb
      exact ⟨[], .inl rfl, by rw [hempty]; rfl⟩
    · have hpos : 0 + 2 < (hexOut b).length := by
        have hb := List.length_pos_iff.mpr hb
        rw [hlen, length_hexDigits]
        omega
      have hwrite := ifBuffer_digits (f := [0x5c, 0x78]) (.inr rfl : (0x61 : Byte) = 0x41 ∨ _) hroom
      refine ⟨b ++ [0], .inr rfl, ?_⟩
      simp only [if_pos hpos]
      rw [show (hexOut b).length - (0 + 2) = (hexDigits 0x61 b).length by omega]
      refine (congrArg (· >>= _) hwrite).trans ?_
      rw [ok_bind, hhalf]
      rfl
  | raw =>
    by_cases hb : b = []
    · subst hb
      refine ⟨[], .inl rfl, ?_⟩
      rw [fromLoop.eq_def, hempty]
      rfl
    · obtain ⟨x, b', rfl⟩ := List.exists_cons_of_ne_nil hb
      have hne : ∀ x : Byte, Server.hexDigit 0x41 (x / 16) ≠ BACKSLASH :=
        fun x => (Server.nibble_all (P := fun v => Server.hexDigit 0x41 v ≠ BACKSLASH)
          (by decide) x).1
      have hc : CString.read (rawOut (x :: b') ++ [0]) 0 =
          .ok (Server.hexDigit 0x41 (x / 16)) := rfl
      have hwrite := ifBuffer_digits (f := []) (.inl rfl : (0x41 : Byte) = 0x41 ∨ _) hroom
      refine ⟨x :: b' ++ [0], .inr rfl, ?_⟩
      have hpos : 0 < (rawOut (x :: b')).length := Nat.zero_lt_succ _
      rw [fromLoop.eq_def, if_pos hpos, hc, ok_bind, if_neg (hne x), if_pos rfl]
      simp only [Nat.sub_zero]
      refine (congrArg (· >>= _) hwrite).trans ?_
      rw [ok_bind, ← hhalf 0x41]
      rfl

/-- **Binary values.** Every text in which the server sends a value is read as the value, whether
there is a buffer or not, and nothing behind its NUL is read. -/
theorem convert_from_pgbinary_eq {b text : List Byte} {binary_rawout : Bool}
    (h : ServerText b binary_rawout text) {rgbValue : Option (List Byte)}
    (hroom : ∀ dst ∈ rgbValue, b.length < dst.length) :
    convert_from_pgbinary (text ++ [0]) binary_rawout rgbValue =
      .ok (b.length, rgbValue.map (filled · (b ++ [0]))) := by
  have hfind : CString.find (fun c => decide (c = 0)) (text ++ [0]) 0 = .ok (0 + text.length) :=
    CString.find_eq (f := []) (z := []) rfl rfl (fun c hc => decide_eq_false (h.ne_zero c hc))
      (decide_eq_true rfl)
  obtain ⟨out, hout, hloop⟩ := h.fromLoop_eq hroom
  have hend : ifBuffer (rgbValue.map (filled · out)) (fun dst => CString.write dst b.length 0) =
      .ok (rgbValue.map (filled · (b ++ [0]))) := by
    refine ifBuffer_filled fun dst hdst => ?_
    rcases hout with rfl | rfl
    · exact store_next (hroom dst hdst)
    · exact store_again
  rw [convert_from_pgbinary, hfind, ok_bind, Nat.zero_add, hloop, ok_bind]
  change (ifBuffer _ _ >>= _) = _
  rw [hend]
  rfl

/-- `\\`, a NUL and `a` in the `escape` format, with room for them and the NUL behind them. -/
theorem escapes_read : convert_from_pgbinary (escapeOut [0x5c, 0x00, 0x61] ++ [0]) false
    (some [1, 2, 3, 4, 5]) = .ok (3, some [0x5c, 0x00, 0x61, 0, 5]) :=
  convert_from_pgbinary_eq .escape (by decide)

/-! ### The value as a whole -/

theorem hexBytes_digits {ten : Byte} (hten : ten = 0x41 ∨ ten = 0x61) (b : List Byte) :
    hexBytes (hexDigits ten b) = b := by
  induction b with
  | nil => rfl
  | cons x b ih =>
    change ((hexVal _ <<< 4) + hexVal _) :: hexBytes (hexDigits ten b) = _
    rw [ih, (hexVal_digits hten x).2.2]

theorem decoded_escapeByte (x : Byte) (text : List Byte) :
    OdbcDriver.convert_from_pgbinary false (Server.escapeByte x ++ text) =
      x :: OdbcDriver.convert_from_pgbinary false text := by
  rw [Server.escapeByte]
  split
  · next hx =>
    rw [OdbcDriver.convert_from_pgbinary.eq_def, hx]
    rfl
  · next hx =>
    split
    · have hdigit : ∀ x : Byte, Server.octalDigit x ≠ BACKSLASH ∧ Server.octalDigit x ≠ 0x78 :=
        Server.octalDigit_all (p := fun d => d ≠ BACKSLASH ∧ d ≠ 0x78) (by decide)
      have hvalue : ∀ x : Byte, OdbcDriver.conv_from_octal (Server.octalEscape x).tail = x :=
        byte_all (by decide +kernel)
      have hoctal : Server.octalEscape x ++ text = BACKSLASH :: Server.octalDigit (x / 64) ::
        Server.octalDigit (x / 8) :: Server.octalDigit x :: text := rfl
      rw [hoctal, OdbcDriver.convert_from_pgbinary.eq_def]
      simp only [if_true, List.headD_cons, (hdigit (x / 64)).1, (hdigit (x / 64)).2, if_false]
      exact congrArg (· :: _) (hvalue x)
    · rw [OdbcDriver.convert_from_pgbinary.eq_def]
      exact if_neg hx

/-- What the conversions of `SQLGetData` take for the value is what is written here. -/
theorem ServerText.decoded {b text : List Byte} {binary_rawout : Bool}
    (h : ServerText b binary_rawout text) :
    OdbcDriver.convert_from_pgbinary binary_rawout text = b := by
  cases h with
  | escape =>
    induction b with
    | nil =>
      rw [OdbcDriver.convert_from_pgbinary.eq_def]
      rfl
    | cons x b ih => exact (decoded_escapeByte x _).trans (congrArg (x :: ·) ih)
  | hex =>
    rw [OdbcDriver.convert_from_pgbinary.eq_def]
    exact hexBytes_digits (.inr rfl) b
  | raw =>
    cases b with
    | nil =>
      rw [OdbcDriver.convert_from_pgbinary.eq_def]
      rfl
    | cons x b =>
      have hne : ∀ x : Byte, Server.hexDigit 0x41 (x / 16) ≠ BACKSLASH :=
        fun x => (Server.nibble_all (P := fun v => Server.hexDigit 0x41 v ≠ BACKSLASH)
          (by decide) x).1
      have hdigits : rawOut (x :: b) = Server.hexDigit 0x41 (x / 16) ::
        (Server.hexDigit 0x41 (x % 16) :: rawOut b) := rfl
      rw [hdigits, OdbcDriver.convert_from_pgbinary.eq_def]
      simp only [if_neg (hne x), if_true]
      exact hexBytes_digits (.inl rfl) (x :: b)

end OdbcDriver.Bytea
