import Mathlib.Data.List.Induction
import Mathlib.Data.List.Nodup
import Mathlib.Data.List.Perm.Subperm

/-!
# The first entry of each key

A list of entries with keys is gone through from the front, and an entry is kept if its key is new.

* `firsts_append`: what one more entry does;
* `keys_nodup`, `mem_keys`: each key is kept once, and none is missing;
* `prefix_firsts`: going on keeps what is there;
* `kept_append`, `prefix_kept`, `kept_full`: the same where only so many entries have room;
* `keys_kept_iff`: whether there is room for all.
-/

namespace OdbcDriver.Firsts

universe u v

variable {α : Type u} {κ : Type v} [DecidableEq κ] (key : α → κ)

/-- An entry is added if its key is new. -/
def add (kept : List α) (x : α) : List α :=
  if key x ∈ kept.map key then kept else kept ++ [x]

/-- The first entry of each key. -/
def firsts (l : List α) : List α := l.foldl (add key) []

variable {key} {l m : List α} {x y : α}

theorem firsts_append (l : List α) (x : α) : firsts key (l ++ [x]) = add key (firsts key l) x := by
  rw [firsts, List.foldl_append]
  rfl

theorem prefix_add (kept : List α) (x : α) : kept <+: add key kept x := by
  rw [add]
  split
  · exact List.prefix_refl kept
  · exact List.prefix_append kept [x]

theorem prefix_firsts (l m : List α) : firsts key l <+: firsts key (l ++ m) := by
  induction m using List.reverseRecOn with
  | nil => exact ⟨[], by simp only [List.append_nil]⟩
  | append_singleton m x ih =>
    rw [← List.append_assoc, firsts_append]
    exact ih.trans (prefix_add _ x)

theorem keys_nodup (l : List α) : ((firsts key l).map key).Nodup := by
  induction l using List.reverseRecOn with
  | nil => exact List.nodup_nil
  | append_singleton l x ih =>
    rw [firsts_append, add]
    split
    · exact ih
    · rename_i hnew
      rw [List.map_append, List.nodup_append]
      refine ⟨ih, List.nodup_singleton _, ?_⟩
      rintro k hk _ hx rfl
      rw [List.map_singleton, List.mem_singleton] at hx
      exact hnew (hx ▸ hk)

theorem mem_keys (h : x ∈ l) : key x ∈ (firsts key l).map key := by
  induction l using List.reverseRecOn with
  | nil => exact absurd h List.not_mem_nil
  | append_singleton l y ih =>
    rw [firsts_append, add]
    rcases List.mem_append.mp h with h | h
    · split
      · exact ih h
      · rw [List.map_append]
        exact List.mem_append_left _ (ih h)
    · obtain rfl := List.mem_singleton.mp h
      split
      · assumption
      · simp

theorem mem_of_mem_firsts (h : x ∈ firsts key l) : x ∈ l := by
  induction l using List.reverseRecOn with
  | nil => exact h
  | append_singleton l y ih =>
    rw [firsts_append, add] at h
    split at h
    · exact List.mem_append_left _ (ih h)
    · rcases List.mem_append.mp h with h | h
      · exact List.mem_append_left _ (ih h)
      · exact List.mem_append_right _ h

/-- Entries whose keys are all different are all kept. -/
theorem firsts_of_nodup (h : (l.map key).Nodup) : firsts key l = l := by
  induction l using List.reverseRecOn with
  | nil => rfl
  | append_singleton l x ih =>
    rw [List.map_append, List.nodup_append] at h
    have hl : firsts key l = l := ih h.1
    rw [firsts_append, hl, add, if_neg]
    intro hx
    exact h.2.2 _ hx _ (by simp) rfl

/-! ### With limited room -/

variable (key) in
/-- The first entries of keys, as many as there is room for. -/
def kept (n : ℕ) (l : List α) : List α := (firsts key l).take n

variable {n : ℕ}

theorem length_kept_le (n : ℕ) (l : List α) : (kept key n l).length ≤ n := by
  rw [kept, List.length_take]
  exact Nat.min_le_left _ _

theorem kept_keys_nodup (n : ℕ) (l : List α) : ((kept key n l).map key).Nodup :=
  (keys_nodup l).sublist ((List.take_sublist n _).map key)

theorem prefix_kept (n : ℕ) (l m : List α) : kept key n l <+: kept key n (l ++ m) :=
  List.prefix_take_iff.mpr
    ⟨(List.take_prefix n _).trans (prefix_firsts l m), length_kept_le n l⟩

/-- Where there is no room left, nothing is added. -/
theorem kept_full (h : n ≤ (kept key n l).length) (m : List α) :
    kept key n (l ++ m) = kept key n l := by
  have hle : (kept key n (l ++ m)).length ≤ n := length_kept_le n (l ++ m)
  exact ((prefix_kept n l m).eq_of_length_le (by omega)).symm

/-- Where there is room, nothing has been left out. -/
theorem kept_of_room (h : (kept key n l).length < n) : kept key n l = firsts key l := by
  rw [kept, List.length_take] at h
  exact List.take_of_length_le (by omega)

theorem kept_append (n : ℕ) (l : List α) (x : α) :
    kept key n (l ++ [x]) =
      if key x ∈ (kept key n l).map key ∨ n ≤ (kept key n l).length then kept key n l
      else kept key n l ++ [x] := by
  split
  · rename_i h
    rcases h with h | h
    · have hold : key x ∈ (firsts key l).map key :=
        (List.Sublist.map key (List.take_sublist n _)).subset h
      rw [kept, firsts_append, add, if_pos hold]
      rfl
    · exact kept_full h [x]
  · rename_i h
    rw [not_or, Nat.not_le] at h
    have hroom := kept_of_room h.2
    have hnew : key x ∉ (firsts key l).map key := hroom ▸ h.1
    have hlength : (firsts key l).length < n := hroom ▸ h.2
    rw [hroom, kept, firsts_append, add, if_neg hnew]
    exact List.take_of_length_le (by rw [List.length_append, List.length_singleton]; omega)

/-- Among entries with different keys, the key tells the entry. -/
theorem eq_of_key_eq (hx : x ∈ kept key n l) (hy : y ∈ kept key n l) (hkey : key x = key y) :
    x = y :=
  List.inj_on_of_nodup_map (kept_keys_nodup n l) hx hy hkey

/-- There is room for every key exactly when every key is kept. -/
theorem keys_kept_iff :
    (∀ x ∈ l, key x ∈ (kept key n l).map key) ↔ (firsts key l).length ≤ n := by
  constructor
  · intro h
    have hsubset : (firsts key l).map key ⊆ (kept key n l).map key := by
      intro k hk
      obtain ⟨x, hx, rfl⟩ := List.mem_map.mp hk
      exact h x (mem_of_mem_firsts hx)
    have hle := (List.subperm_of_subset (keys_nodup l) hsubset).length_le
    rw [List.length_map, List.length_map] at hle
    exact Nat.le_trans hle (length_kept_le n l)
  · intro h x hx
    rw [kept, List.take_of_length_le h]
    exact mem_keys hx

end OdbcDriver.Firsts
