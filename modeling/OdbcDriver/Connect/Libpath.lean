import OdbcDriver.Encoding.Ascii
import OdbcDriver.Lib.CString
import OdbcDriver.Lib.Except

/-!
# The driver's path in the connection information

`CC_getLibpath` copies the path that the loader reports into a buffer, with an escape character in
front of each quote and backslash. `LIBPQ_connect` puts the copy between the quotes of a JSON
string.

The loop asks for room for one byte and may write two. The terminator then falls behind the buffer
exactly when a character that is escaped begins at the last byte but one (`libpath_iff`).
-/

namespace OdbcDriver.Libpath

open CString (Fault write)
open Lib (ok_bind bind_eq_ok)

/-! ### The function -/

/-- The character written in front of `c`, if there is one. -/
def escapeOf (c : Byte) : Option Byte :=
  if c = 0x27 then some 0x27 else if c = 0x22 ∨ c = 0x5c then some 0x5c else none

/-- The copy loop over `fname`, from the index `libpathIndex` on. -/
def copyLoop (libpathLen : ℕ) : List Byte → ℕ → List Byte → Except Fault (ℕ × List Byte)
  | [], libpathIndex, libpath => .ok (libpathIndex, libpath)
  | c :: fname, libpathIndex, libpath =>
    if libpathIndex < libpathLen - 1 then
      match escapeOf c with
      | some e => do
        let libpath ← write libpath libpathIndex e
        let libpath ← write libpath (libpathIndex + 1) c
        copyLoop libpathLen fname (libpathIndex + 2) libpath
      | none => do
        let libpath ← write libpath libpathIndex c
        copyLoop libpathLen fname (libpathIndex + 1) libpath
    else .ok (libpathIndex, libpath)

/-- `CC_getLibpath`, for the path that the loader reports. The buffer has `libpathLen` bytes. -/
def CC_getLibpath (fname : Option (List Byte)) (libpath : List Byte) :
    Except Fault (List Byte) :=
  if libpath.length ≤ 0 then .ok libpath
  else do
    let (libpathIndex, libpath) ← copyLoop libpath.length (fname.getD []) 0 libpath
    write libpath libpathIndex 0

/-- `local_conninfo` of `LIBPQ_connect`, up to the opening quote of `driver_path`. -/
def beforePath (odbcVersionString : List Byte) : List Byte :=
  ascii "\x7b\"driver_name\":\"ODBC\", \"driver_version\":\"" ++ odbcVersionString ++
    ascii "\", \"driver_path\":\""

/-- `local_conninfo` behind the closing quote of `driver_path`. -/
def behindPath (username : List Byte) : List Byte :=
  ascii ", \"os_user\":\"" ++ username ++ ascii "\"\x7d"

/-- `local_conninfo`. -/
def local_conninfo (odbcVersionString libpath username : List Byte) : List Byte :=
  beforePath odbcVersionString ++ libpath ++ 0x22 :: behindPath username

/-! ### What it shall give -/

/-- The rest of a JSON string: up to the first quote that no backslash escapes, and behind it. -/
def readString : List Byte → Option (List Byte × List Byte)
  | [] => none
  | [c] => if c = 0x22 then some ([], []) else none
  | c :: d :: s =>
    if c = 0x22 then some ([], d :: s)
    else if c = 0x5c then (readString s).map fun r => (c :: d :: r.1, r.2)
    else (readString (d :: s)).map fun r => (c :: r.1, r.2)

/-- A character of a path, with its escape character. -/
def piece (c : Byte) : List Byte := (escapeOf c).toList ++ [c]

/-- A path, with its escape characters. -/
def escaped (path : List Byte) : List Byte := path.flatMap piece

/-- The bytes written are those of the buffer. In the string that it holds then, the characters of a
part of the path stand with their escape characters, and the JSON string ends behind them. -/
def Right (path libpath : List Byte) : Prop :=
  ∃ out text, CC_getLibpath (some path) libpath = .ok out ∧ out.length = libpath.length ∧
    CString.text out 0 = text ∧ text.length < out.length ∧ (∃ n, text = escaped (path.take n)) ∧
    ∀ odbcVersionString username,
      readString ((local_conninfo odbcVersionString text username).drop
        (beforePath odbcVersionString).length) = some (text, behindPath username)

/-- A character that is escaped begins where there is room for just two bytes. -/
def Splits (room : ℕ) (path : List Byte) : Prop :=
  ∃ before c after, path = before ++ c :: after ∧ escapeOf c ≠ none ∧
    (escaped before).length + 2 = room

/-! ### The JSON string -/

section Json

variable {c : Byte} {s path : List Byte}

theorem readString_plain (hquote : c ≠ 0x22) (hbackslash : c ≠ 0x5c) :
    readString (c :: s) = (readString s).map fun r => (c :: r.1, r.2) := by
  cases s with
  | nil => simp only [readString, if_neg hquote, Option.map_none]
  | cons d s => rw [readString, if_neg hquote, if_neg hbackslash]

theorem readString_escape : readString (0x5c :: c :: s) =
    (readString s).map fun r => (0x5c :: c :: r.1, r.2) := by
  rw [readString, if_neg (by decide), if_pos rfl]

theorem readString_quote : readString (0x22 :: s) = some ([], s) := by
  cases s with
  | nil => rfl
  | cons d s => rw [readString, if_pos rfl]

theorem escaped_cons (c : Byte) (path : List Byte) :
    escaped (c :: path) = piece c ++ escaped path := rfl

/-- No quote of an escaped path ends the string. -/
theorem readString_escaped (path z : List Byte) :
    readString (escaped path ++ 0x22 :: z) = some (escaped path, z) := by
  induction path with
  | nil => exact readString_quote
  | cons c path ih =>
    rw [escaped_cons, piece, List.append_assoc, List.append_assoc, List.singleton_append]
    by_cases hquote : c = 0x27
    · subst hquote
      rw [escapeOf, if_pos rfl, Option.toList_some, List.singleton_append,
        readString_plain (by decide) (by decide), readString_plain (by decide) (by decide), ih]
      rfl
    · by_cases hspecial : c = 0x22 ∨ c = 0x5c
      · rw [escapeOf, if_neg hquote, if_pos hspecial, Option.toList_some, List.singleton_append,
          readString_escape, ih]
        rfl
      · rw [escapeOf, if_neg hquote, if_neg hspecial, Option.toList_none, List.nil_append,
          readString_plain (fun h => hspecial (Or.inl h)) (fun h => hspecial (Or.inr h)), ih]
        rfl

theorem ne_zero_of_escapeOf {e : Byte} (h : escapeOf c = some e) : e ≠ 0 := by
  rw [escapeOf] at h
  split at h
  · obtain rfl := Option.some.inj h
    decide
  split at h
  · obtain rfl := Option.some.inj h
    decide
  · cases h

theorem escaped_ne_zero (hpath : 0 ∉ path) : ∀ b ∈ escaped path, b ≠ 0 := by
  rintro b hb rfl
  obtain ⟨c, hc, hb⟩ := List.mem_flatMap.mp hb
  rcases List.mem_append.mp hb with hb | hb
  · exact ne_zero_of_escapeOf (Option.mem_toList.mp hb) rfl
  · exact hpath (List.mem_singleton.mp hb ▸ hc)

end Json

/-! ### The loop -/

theorem splits_cons {room : ℕ} {c : Byte} {fname : List Byte} :
    Splits room (c :: fname) ↔ (escapeOf c ≠ none ∧ room = 2) ∨
      ∃ room', room = (piece c).length + room' ∧ Splits room' fname := by
  constructor
  · rintro ⟨before, d, after, hpath, hd, hroom⟩
    cases before with
    | nil =>
      obtain ⟨rfl, -⟩ := List.cons.inj hpath
      exact Or.inl ⟨hd, hroom.symm⟩
    | cons b before =>
      obtain ⟨rfl, rfl⟩ := List.cons.inj hpath
      rw [escaped_cons, List.length_append, Nat.add_assoc] at hroom
      exact Or.inr ⟨_, hroom.symm, before, d, after, rfl, hd, rfl⟩
  · rintro (⟨hc, rfl⟩ | ⟨room', rfl, before, d, after, rfl, hd, rfl⟩)
    · exact ⟨[], c, fname, rfl, hc, rfl⟩
    · refine ⟨c :: before, d, after, rfl, hd, ?_⟩
      rw [escaped_cons, List.length_append, Nat.add_assoc]

theorem length_piece_of_escape {c : Byte} (h : escapeOf c ≠ none) : (piece c).length = 2 := by
  obtain ⟨e, he⟩ := Option.ne_none_iff_exists'.mp h
  rw [piece, he]
  rfl

theorem length_piece_of_none {c : Byte} (h : escapeOf c = none) : (piece c).length = 1 := by
  rw [piece, h]
  rfl

/-- A round of the loop, with room for a byte and the terminator, writes a character with its escape
character. -/
theorem copyLoop_round (c : Byte) (fname w : List Byte) {tail : List Byte}
    (hroom : 1 < tail.length) : ∃ tail', tail.length = (piece c).length + tail'.length ∧
      copyLoop (w ++ tail).length (c :: fname) w.length (w ++ tail) =
        copyLoop (w ++ tail).length fname (w ++ piece c).length (w ++ piece c ++ tail') := by
  obtain ⟨a, b, tail, rfl⟩ : ∃ a b tail', tail = a :: b :: tail' := by
    match tail, hroom with
    | a :: b :: tail, _ => exact ⟨a, b, tail, rfl⟩
  have hindex : w.length < (w ++ a :: b :: tail).length - 1 := by simp
  rw [copyLoop, if_pos hindex]
  cases hescape : escapeOf c with
  | none =>
    have hpiece : piece c = [c] := by rw [piece, hescape, Option.toList_none, List.nil_append]
    have hlen : (w ++ [c]).length = w.length + 1 := by simp
    refine ⟨b :: tail, by rw [hpiece]; simp [Nat.add_comm], ?_⟩
    dsimp only
    rw [CString.write_eq rfl rfl c, ok_bind, hpiece, List.append_assoc, hlen]
    rfl
  | some e =>
    have hpiece : piece c = [e, c] := by rw [piece, hescape, Option.toList_some]; rfl
    have hpart : w ++ e :: b :: tail = (w ++ [e]) ++ b :: tail := by simp
    have hlen : w.length + 1 = (w ++ [e]).length := by simp
    have hlen' : (w ++ [e, c]).length = w.length + 2 := by simp
    refine ⟨tail, by rw [hpiece]; simp; omega, ?_⟩
    dsimp only
    rw [CString.write_eq rfl rfl e, ok_bind, CString.write_eq hpart hlen c, ok_bind, hpiece,
      List.append_assoc, List.append_assoc, hlen']
    rfl

/-- From the end of what is written, in front of `tail`, the loop stays within the buffer, and goes
up to its end just if it splits a pair from its terminator. -/
theorem copyLoop_spec (fname : List Byte) {w tail : List Byte} (htail : tail ≠ []) :
    ∃ i buf, copyLoop (w ++ tail).length fname w.length (w ++ tail) = .ok (i, buf) ∧
      buf.length = (w ++ tail).length ∧ (Splits tail.length fname → i = buf.length) ∧
      (¬Splits tail.length fname → ∃ n z, z ≠ [] ∧ buf = w ++ escaped (fname.take n) ++ z ∧
        i = (w ++ escaped (fname.take n)).length) := by
  induction fname generalizing w tail with
  | nil =>
    refine ⟨w.length, w ++ tail, rfl, rfl, ?_, ?_⟩
    · rintro ⟨before, c, after, hpath, -⟩
      simp at hpath
    · exact fun _ => ⟨0, tail, htail, by simp [escaped], by simp [escaped]⟩
  | cons c fname ih =>
    by_cases hroom : 1 < tail.length
    · obtain ⟨tail', hlen, hround⟩ := copyLoop_round c fname w hroom
      have hwhole : (w ++ piece c ++ tail').length = (w ++ tail).length := by
        rw [List.length_append, List.length_append, List.length_append, hlen, Nat.add_assoc]
      rw [hround]
      by_cases htail' : tail' = []
      · -- the pair fills the buffer
        subst htail'
        have hstop : copyLoop (w ++ tail).length fname (w ++ piece c).length
            (w ++ piece c ++ []) = .ok ((w ++ piece c).length, w ++ piece c ++ []) := by
          cases fname with
          | nil => rfl
          | cons d fname =>
            rw [copyLoop, if_neg]
            rw [← hwhole, List.append_nil]
            omega
        refine ⟨_, _, hstop, hwhole, fun _ => by rw [List.append_nil], fun h => ?_⟩
        have hescape : escapeOf c ≠ none := by
          intro hnone
          rw [hlen, length_piece_of_none hnone] at hroom
          exact absurd hroom (lt_irrefl 1)
        rw [length_piece_of_escape hescape] at hlen
        exact absurd (splits_cons.mpr (Or.inl ⟨hescape, hlen⟩)) h
      · obtain ⟨i, buf, hloop, hbuf, hsplit, hpart⟩ := ih (w := w ++ piece c) htail'
        rw [hwhole] at hloop hbuf
        refine ⟨i, buf, hloop, hbuf, ?_, ?_⟩
        · intro h
          obtain ⟨hc, htwo⟩ | ⟨room', hroom', h⟩ := splits_cons.mp h
          · rw [length_piece_of_escape hc, htwo] at hlen
            exact absurd (List.length_eq_zero_iff.mp (Nat.left_eq_add.mp hlen)) htail'
          · obtain rfl : tail'.length = room' := by omega
            exact hsplit h
        · intro h
          obtain ⟨n, z, hz, hbuf', hi⟩ := hpart fun h' =>
            h (splits_cons.mpr (Or.inr ⟨_, hlen, h'⟩))
          refine ⟨n + 1, z, hz, ?_, ?_⟩
          · rw [hbuf', List.take_succ_cons, escaped_cons, List.append_assoc w]
          · rw [hi, List.take_succ_cons, escaped_cons, List.append_assoc w]
    · have hindex : ¬w.length < (w ++ tail).length - 1 := by
        rw [List.length_append]
        omega
      rw [copyLoop, if_neg hindex]
      refine ⟨w.length, w ++ tail, rfl, rfl, ?_, ?_⟩
      · rintro ⟨before, d, after, -, -, hsplit⟩
        omega
      · exact fun _ => ⟨0, tail, htail, by simp [escaped], by simp [escaped]⟩

/-- The call, in terms of what the loop leaves. -/
theorem call_eq {path libpath buf : List Byte} {i : ℕ} (hlen : libpath ≠ [])
    (hloop : copyLoop libpath.length path 0 libpath = .ok (i, buf)) :
    CC_getLibpath (some path) libpath = write buf i 0 := by
  have hpos : ¬libpath.length ≤ 0 := Nat.not_le.mpr (List.length_pos_iff.mpr hlen)
  rw [CC_getLibpath, if_neg hpos]
  exact congrArg (· >>= fun r => write r.2 r.1 0) hloop

/-- Behind a pair that fills the buffer the terminator is written past its end. -/
theorem not_right_of_splits {path libpath : List Byte} (hlen : libpath ≠ [])
    (h : Splits libpath.length path) : ¬Right path libpath := by
  obtain ⟨i, buf, hloop, hbuf, hsplit, -⟩ := copyLoop_spec path (w := []) hlen
  rintro ⟨out, text, hout, -⟩
  rw [call_eq hlen hloop, write, if_neg (Nat.not_lt.mpr (hsplit h).ge)] at hout
  cases hout

/-- **The path.** The copy stays within the buffer, holds whole pairs and does not end the string
exactly when no character that is escaped begins where there is room for just two bytes. -/
theorem libpath_iff {path libpath : List Byte} (hpath : 0 ∉ path) (hlen : libpath ≠ []) :
    Right path libpath ↔ ¬Splits libpath.length path := by
  refine ⟨fun hright h => not_right_of_splits hlen h hright, fun h => ?_⟩
  obtain ⟨i, buf, hloop, hbuf, -, hpart⟩ := copyLoop_spec path (w := []) hlen
  rw [List.nil_append] at hloop hbuf
  obtain ⟨n, z, hz, hbuf', hi⟩ := hpart h
  obtain ⟨y, z, rfl⟩ := List.exists_cons_of_ne_nil hz
  rw [List.nil_append] at hbuf' hi
  have hzero : 0 ∉ path.take n := fun hmem => hpath (List.mem_of_mem_take hmem)
  have hout : CC_getLibpath (some path) libpath = .ok (escaped (path.take n) ++ 0 :: z) := by
    rw [call_eq hlen hloop]
    exact CString.write_eq hbuf' hi 0
  have htext : CString.text (escaped (path.take n) ++ 0 :: z) 0 = escaped (path.take n) :=
    CString.text_eq (f := []) rfl rfl (escaped_ne_zero hzero)
  refine ⟨_, _, hout, ?_, htext, ?_, ⟨n, rfl⟩, ?_⟩
  · rw [← hbuf, hbuf', List.length_append, List.length_append]
    rfl
  · rw [List.length_append, List.length_cons]
    omega
  · intro odbcVersionString username
    rw [local_conninfo, List.append_assoc, List.drop_left]
    exact readString_escaped _ _

/-- A path without quotes and backslashes, in the driver's buffer. -/
theorem libpath_plain :
    Right (ascii "/usr/lib/libodbc.so") (List.replicate 4096 0) := by
  refine (libpath_iff (by decide) (List.ne_nil_of_length_eq_add_one List.length_replicate)).mpr ?_
  rintro ⟨before, c, after, hpath, hc, -⟩
  have hplain : ((ascii "/usr/lib/libodbc.so").all fun c => escapeOf c = none) = true := by decide
  have hmem : c ∈ ascii "/usr/lib/libodbc.so" :=
    hpath ▸ List.mem_append_right _ List.mem_cons_self
  exact hc (of_decide_eq_true (List.all_eq_true.mp hplain c hmem))

/-- A quote behind 4094 other characters, in the driver's buffer. -/
theorem terminator_behind :
    ¬Right (List.replicate 4094 0x61 ++ [0x22]) (List.replicate 4096 0) := by
  have hplain : ∀ n, (escaped (List.replicate n 0x61)).length = n := by
    intro n
    induction n with
    | zero => rfl
    | succ n ih =>
      rw [List.replicate_succ, escaped_cons, List.length_append, ih]
      exact Nat.add_comm 1 n
  refine not_right_of_splits (List.ne_nil_of_length_eq_add_one List.length_replicate)
    ⟨List.replicate 4094 0x61, 0x22, [], rfl, by decide, ?_⟩
  rw [hplain, List.length_replicate]

end OdbcDriver.Libpath
