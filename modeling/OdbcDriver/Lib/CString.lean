import Mathlib.Data.List.Basic

/-!
# Strings in a buffer

A C program looks through a string, and cuts it into pieces in place, by reading and writing the
buffer it lies in. Reading past the end of the buffer is a fault here. The rules describe a buffer
as what lies before a pointer followed by what the pointer sees, so that the pieces of a text are
looked through one by one:

* `find_eq`, `strchr_found`, `strchr_missing`: a search that passes over `pre`;
* `strtok_r_token`, `strtok_r_none`: the next token, which is cut off by a terminator;
* `set_eq`, `text_eq`: a byte replaced, and the string at a pointer.
-/

namespace OdbcDriver.CString

/-- Why a program over a buffer gives no result. -/
inductive Fault
  /-- It reads or writes past the end of the buffer. -/
  | beyond
  /-- It has used up the steps allowed to it. -/
  | fuel
deriving DecidableEq, Repr

variable {α : Type} [DecidableEq α] [OfNat α 0]

/-- The first position from `i` on that `p` holds of. -/
def find (p : α → Bool) (buf : List α) (i : Nat) : Except Fault Nat :=
  match (buf.drop i).findIdx? p with
  | some k => .ok (i + k)
  | none => .error .beyond

/-- The byte at a pointer. -/
def read (buf : List α) (i : Nat) : Except Fault α :=
  match buf[i]? with
  | some b => .ok b
  | none => .error .beyond

/-- A byte written at a pointer. -/
def write (buf : List α) (i : Nat) (x : α) : Except Fault (List α) :=
  if i < buf.length then .ok (buf.set i x) else .error .beyond

/-- `strchr` -/
def strchr (buf : List α) (i : Nat) (c : α) : Except Fault (Option Nat) := do
  let k ← find (fun b => decide (b = c ∨ b = 0)) buf i
  let b ← read buf k
  return if b = c then some k else none

/-- `strtok_r` with one delimiter, going on from `i`: the token, if there is one, and where to go
on from. -/
def strtok_r (buf : List α) (i : Nat) (delim : α) :
    Except Fault (Option Nat × List α × Nat) := do
  let s ← find (fun b => decide (b ≠ delim)) buf i
  if (← read buf s) = 0 then return (none, buf, s)
  else
    let e ← find (fun b => decide (b = delim ∨ b = 0)) buf s
    if (← read buf e) = 0 then return (some s, buf, e)
    else return (some s, buf.set e 0, e + 1)

/-- The string at a pointer. -/
def text (buf : List α) (i : Nat) : List α := (buf.drop i).takeWhile (fun b => decide (b ≠ 0))

/-! ### Buffers in parts

A rule reads the buffer `m` as the part `f` in front of the pointer, the part `a` that is passed
over, the byte `x` where it stops, and the rest `z`. -/

variable {m f a z : List α} {i : Nat} {x c d : α} {p : α → Bool}

theorem find_eq (hbuf : m = f ++ (a ++ x :: z)) (hi : i = f.length)
    (hpre : ∀ b ∈ a, p b = false) (hx : p x = true) : find p m i = .ok (i + a.length) := by
  have hfind : (a ++ x :: z).findIdx? p = some a.length := by
    induction a generalizing m with
    | nil => simp [List.findIdx?_cons, hx]
    | cons b a ih =>
      have hrest := ih rfl fun b' hb => hpre b' (List.mem_cons_of_mem _ hb)
      rw [List.cons_append, List.findIdx?_cons, hpre b List.mem_cons_self, hrest]
      rfl
  rw [find, hbuf, hi, List.drop_left, hfind]

theorem read_eq (hbuf : m = f ++ x :: z) (hi : i = f.length) :
    read m i = .ok x := by
  rw [read, hbuf, hi, List.getElem?_append_right (Nat.le_refl _), Nat.sub_self]
  rfl

theorem set_eq (hbuf : m = f ++ x :: z) (hi : i = f.length) (y : α) :
    m.set i y = f ++ y :: z := by
  rw [hbuf, hi, List.set_append_right _ _ (Nat.le_refl _), Nat.sub_self]
  rfl

theorem write_eq (hbuf : m = f ++ x :: z) (hi : i = f.length) (y : α) :
    write m i y = .ok (f ++ y :: z) := by
  have hlt : i < m.length := by
    rw [hbuf, hi, List.length_append, List.length_cons]
    omega
  rw [write, if_pos hlt, set_eq hbuf hi]

theorem text_eq (hbuf : m = f ++ (a ++ 0 :: z)) (hi : i = f.length)
    (hpre : ∀ b ∈ a, b ≠ 0) : text m i = a := by
  rw [text, hbuf, hi, List.drop_left, List.takeWhile_append_of_pos (by simpa using hpre)]
  simp

theorem strchr_found (hbuf : m = f ++ (a ++ c :: z)) (hi : i = f.length)
    (hpre : ∀ b ∈ a, b ≠ c ∧ b ≠ 0) : strchr m i c = .ok (some (i + a.length)) := by
  have hfind := find_eq (p := fun b => decide (b = c ∨ b = 0)) hbuf hi
    (fun b hb => by simp [hpre b hb]) (by simp)
  have hread : read m (i + a.length) = .ok c :=
    read_eq (f := f ++ a) (by rw [hbuf, List.append_assoc]) (by simp [hi])
  simp only [strchr, hfind, hread, bind, Except.bind, pure, Except.pure, if_true]

theorem strchr_missing (hbuf : m = f ++ (a ++ 0 :: z)) (hi : i = f.length)
    (hpre : ∀ b ∈ a, b ≠ c ∧ b ≠ 0) (hc : 0 ≠ c) : strchr m i c = .ok none := by
  have hfind := find_eq (p := fun b => decide (b = c ∨ b = 0)) hbuf hi
    (fun b hb => by simp [hpre b hb]) (by simp)
  have hread : read m (i + a.length) = .ok 0 :=
    read_eq (f := f ++ a) (by rw [hbuf, List.append_assoc]) (by simp [hi])
  simp only [strchr, hfind, hread, if_neg hc, bind, Except.bind, pure, Except.pure]

variable {q k : List α}

/-- Nothing but delimiters is left. -/
theorem strtok_r_none (hbuf : m = f ++ (q ++ 0 :: z)) (hi : i = f.length)
    (hseps : ∀ b ∈ q, b = d) (hdelim : (0 : α) ≠ d) :
    strtok_r m i d = .ok (none, m, i + q.length) := by
  have hfind := find_eq (p := fun b => decide (b ≠ d)) hbuf hi
    (fun b hb => by simp [hseps b hb]) (by simp [hdelim])
  have hread : read m (i + q.length) = .ok 0 :=
    read_eq (f := f ++ q) (by rw [hbuf, List.append_assoc]) (by simp [hi])
  simp only [strtok_r, hfind, hread, bind, Except.bind, pure, Except.pure, if_true]

/-- The next token `k`, up to `x`, which is a delimiter or the end. -/
theorem strtok_r_token (hbuf : m = f ++ (q ++ (k ++ x :: z)))
    (hi : i = f.length) (hseps : ∀ b ∈ q, b = d)
    (htoken : ∀ b ∈ k, b ≠ d ∧ b ≠ 0) (hne : k ≠ []) (hx : x = d ∨ x = 0) :
    strtok_r m i d =
      if x = 0 then .ok (some (i + q.length), m, i + q.length + k.length)
      else .ok (some (i + q.length), f ++ (q ++ (k ++ 0 :: z)),
        i + q.length + k.length + 1) := by
  obtain ⟨t, ts, rfl⟩ := List.exists_cons_of_ne_nil hne
  have ht := htoken t List.mem_cons_self
  have hstart := find_eq (p := fun b => decide (b ≠ d)) (x := t)
    (z := ts ++ x :: z) hbuf hi (fun b hb => by simp [hseps b hb]) (by simp [ht.1])
  have hread : read m (i + q.length) = .ok t :=
    read_eq (f := f ++ q) (z := ts ++ x :: z) (by rw [hbuf]; simp) (by simp [hi])
  have hend := find_eq (m := m) (p := fun b => decide (b = d ∨ b = 0))
    (f := f ++ q) (a := t :: ts) (x := x) (z := z)
    (by rw [hbuf, List.append_assoc]) (i := i + q.length) (by simp [hi])
    (fun b hb => by simp [htoken b hb]) (by simpa using hx)
  have hread' : read m (i + q.length + (t :: ts).length) = .ok x :=
    read_eq (f := f ++ q ++ (t :: ts)) (z := z) (by rw [hbuf]; simp)
      (by simp [hi]; omega)
  have hset : m.set (i + q.length + (t :: ts).length) 0 =
      f ++ (q ++ (t :: ts ++ 0 :: z)) := by
    rw [set_eq (f := f ++ q ++ (t :: ts)) (x := x) (z := z)
      (by rw [hbuf]; simp) (by simp [hi]; omega)]
    simp
  simp only [strtok_r, hstart, hread, hend, hread', bind, Except.bind, pure, Except.pure,
    if_neg ht.2, hset]

end OdbcDriver.CString
