import OdbcDriver.Positioned.SetPosRows

/-!
# The rows of a fetch

`PGAPI_ExtendedFetch` sets the `CURS_IN_ROWSET` bits: it goes over the keys from the start of the
rowset on, takes the bit from each, and gives it to the rows that it fetches. It is the only place
that sets them, and the bits of rows it does not come to stay as they are.

* `fetched_rowset`: the rows that a fetch counts are those that are seen.
-/

namespace OdbcDriver.SetPosRows

/-- What a call of `SC_fetch` comes to. -/
inductive Fetched
  | success
  /-- `SQL_SUCCESS_WITH_INFO` for a row that is fetched. -/
  | info
  /-- `SQL_SUCCESS_WITH_INFO` with the `last_fetch_count` 0: a deleted row. -/
  | deleted
  | noData
  | error
deriving DecidableEq, Repr

/-- The loop of `PGAPI_ExtendedFetch` over the calls of `SC_fetch`: the rows of the rowset, all
rows, and the `CURS_IN_ROWSET` bits. An error leaves nothing. -/
def fetch_loop (rowsetSize : ℕ) :
    List Fetched → ℕ → ℕ → ℤ → Option (List Bool) → Option (ℕ × ℕ × Option (List Bool))
  | [], i, fc_io, _, keyset => some (i, fc_io, keyset)
  | result :: results, i, fc_io, currp, keyset =>
    if result = .noData then some (i, fc_io, keyset)
    else if result = .error then none
    else
      match keyset with
      | none =>
        if rowsetSize ≤ i + 1 then some (i + 1, fc_io + 1, none)
        else fetch_loop rowsetSize results (i + 1) (fc_io + 1) (currp + 1) none
      | some keyset =>
        if currp < keyset.length then
          -- off the flag first
          let keyset := keyset.set currp.toNat false
          if result = .deleted then
            fetch_loop rowsetSize results i (fc_io + 1) (currp + 1) (some keyset)
          else
            let keyset := keyset.set currp.toNat true
            if rowsetSize ≤ i + 1 then some (i + 1, fc_io + 1, some keyset)
            else fetch_loop rowsetSize results (i + 1) (fc_io + 1) (currp + 1) (some keyset)
        else some (i, fc_io + 1, some keyset)

/-- The number of rows fetched is saved for `SQLSetPos`. -/
def Stmt.save (stmt : Stmt) (i fc_io : ℕ) (keyset : Option (List Bool)) : Stmt :=
  { stmt with
    keyset := keyset
    last_fetch_count := i
    last_fetch_count_include_ommitted := fc_io }

/-- `PGAPI_ExtendedFetch` from the start of the rowset on, when there is a row to fetch. -/
def PGAPI_ExtendedFetch (stmt : Stmt) (rowsetSize : ℕ) (results : List Fetched) : Option Stmt :=
  let currp := GIdx2KResIdx (RowIdx2GIdx 0 stmt) stmt
  if stmt.keyset.isSome ∧ currp < 0 then none
  else
    (fetch_loop rowsetSize results 0 0 currp stmt.keyset).map fun (i, fc_io, keyset) =>
      stmt.save i fc_io keyset

/-! ### The rows that are counted -/

/-- The rows with a bit, of so many keys from one on. -/
def flagged (keyset : List Bool) (first fc_io : ℕ) : List ℕ :=
  (List.range fc_io).filter fun idx => keyset.getD (first + idx) false

variable {keyset : List Bool} {first fc_io i : ℕ}

/-- The bits of the keys before are not touched. -/
theorem flagged_set (keyset : List Bool) (first fc_io : ℕ) (b : Bool) :
    flagged (keyset.set (first + fc_io) b) first fc_io = flagged keyset first fc_io := by
  refine List.filter_congr fun idx hidx => ?_
  have hne : first + fc_io ≠ first + idx := by
    have hlt := List.mem_range.mp hidx
    omega
  rw [List.getD_eq_getElem?_getD, List.getD_eq_getElem?_getD, List.getElem?_set_ne hne]

theorem flagged_succ (keyset : List Bool) (first fc_io : ℕ) :
    flagged keyset first (fc_io + 1) = flagged keyset first fc_io ++
      if keyset.getD (first + fc_io) false then [fc_io] else [] := by
  rw [flagged, List.range_succ, List.filter_append, flagged]
  rw [List.filter_cons, List.filter_nil]

/-- A key that is passed over or given the bit. -/
theorem flagged_set_succ (h : first + fc_io < keyset.length) (b : Bool) :
    flagged (keyset.set (first + fc_io) b) first (fc_io + 1) =
      flagged keyset first fc_io ++ if b then [fc_io] else [] := by
  have hget : (keyset.set (first + fc_io) b).getD (first + fc_io) false = b := by
    rw [List.getD_eq_getElem?_getD, List.getElem?_set_self h, Option.getD_some]
  rw [flagged_succ, flagged_set, hget]

/-- The rows counted are those with a bit. -/
theorem fetch_loop_flagged {rowsetSize n i' : ℕ} {results : List Fetched}
    {keyset' : Option (List Bool)} (hi : i = (flagged keyset first fc_io).length)
    (h : fetch_loop rowsetSize results i fc_io (first + fc_io : ℕ) (some keyset) =
      some (i', n, keyset')) :
    ∃ keys, keyset' = some keys ∧ i' = (flagged keys first n).length := by
  induction results generalizing i fc_io keyset with
  | nil =>
    obtain ⟨rfl, rfl, rfl⟩ : i = i' ∧ fc_io = n ∧ some keyset = keyset' := by
      simpa [fetch_loop] using h
    exact ⟨keyset, rfl, hi⟩
  | cons result results ih =>
    have hnext : ((first + fc_io : ℕ) : ℤ) + 1 = (first + (fc_io + 1) : ℕ) := by omega
    rw [fetch_loop, Int.toNat_natCast, hnext] at h
    by_cases hno : result = .noData
    · rw [if_pos hno] at h
      obtain ⟨rfl, rfl, rfl⟩ : i = i' ∧ fc_io = n ∧ some keyset = keyset' := by simpa using h
      exact ⟨keyset, rfl, hi⟩
    by_cases herror : result = .error
    · rw [if_neg hno, if_pos herror] at h
      cases h
    rw [if_neg hno, if_neg herror] at h
    dsimp only at h
    by_cases hlen : first + fc_io < keyset.length
    · rw [if_pos (by omega)] at h
      by_cases hdeleted : result = .deleted
      · rw [if_pos hdeleted] at h
        refine ih ?_ h
        rw [flagged_set_succ hlen, if_neg Bool.false_ne_true, List.append_nil]
        exact hi
      · have hcount : i + 1 =
            (flagged (keyset.set (first + fc_io) true) first (fc_io + 1)).length := by
          rw [flagged_set_succ hlen, if_pos rfl, List.length_append, List.length_singleton, hi]
        rw [if_neg hdeleted, List.set_set] at h
        split_ifs at h
        · obtain ⟨rfl, rfl, rfl⟩ : i + 1 = i' ∧ fc_io + 1 = n ∧
              some (keyset.set (first + fc_io) true) = keyset' := by simpa using h
          exact ⟨_, rfl, hcount⟩
        · exact ih hcount h
    · rw [if_neg (by omega)] at h
      obtain ⟨rfl, rfl, rfl⟩ : i = i' ∧ fc_io + 1 = n ∧ some keyset = keyset' := by simpa using h
      refine ⟨keyset, rfl, ?_⟩
      have hget : keyset.getD (first + fc_io) false = false := by
        rw [List.getD_eq_getElem?_getD, List.getElem?_eq_none (by omega), Option.getD_none]
      rw [flagged_succ, hget, if_neg Bool.false_ne_true, List.append_nil]
      exact hi

/-- Without keys all rows are counted. -/
theorem fetch_loop_rows {rowsetSize n i' : ℕ} {results : List Fetched} {currp : ℤ}
    {keyset' : Option (List Bool)}
    (h : fetch_loop rowsetSize results i i currp none = some (i', n, keyset')) :
    keyset' = none ∧ i' = n := by
  induction results generalizing i currp with
  | nil =>
    obtain ⟨rfl, rfl, rfl⟩ : i = i' ∧ i = n ∧ none = keyset' := by simpa [fetch_loop] using h
    exact ⟨rfl, rfl⟩
  | cons result results ih =>
    rw [fetch_loop] at h
    split_ifs at h
    · obtain ⟨rfl, rfl, rfl⟩ : i = i' ∧ i = n ∧ none = keyset' := by simpa using h
      exact ⟨rfl, rfl⟩
    · obtain ⟨rfl, rfl, rfl⟩ : i + 1 = i' ∧ i + 1 = n ∧ none = keyset' := by simpa using h
      exact ⟨rfl, rfl⟩
    · exact ih h

theorem seen_of_keys (stmt : Stmt) (hkeyset : stmt.keyset = some keyset)
    (hfirst : GIdx2KResIdx (RowIdx2GIdx 0 stmt) stmt = first) :
    stmt.seen = flagged keyset first stmt.last_fetch_count_include_ommitted := by
  refine List.filter_congr fun idx _ => ?_
  have hkres : GIdx2KResIdx (RowIdx2GIdx idx stmt) stmt = (first + idx : ℕ) := by
    rw [GIdx2KResIdx_eq, hfirst]
    omega
  rw [Stmt.inRowset, hkeyset]
  dsimp only
  rw [hkres, Int.toNat_natCast]

theorem seen_of_rows {stmt : Stmt} (hkeyset : stmt.keyset = none) :
    stmt.seen = List.range stmt.last_fetch_count_include_ommitted := by
  refine List.filter_eq_self.mpr fun idx _ => ?_
  rw [Stmt.inRowset, hkeyset]

/-- Behind a fetch, the rows that it has counted are those that are seen. -/
theorem fetched_rowset {stmt fetched : Stmt} {rowsetSize : ℕ} {results : List Fetched}
    (h : PGAPI_ExtendedFetch stmt rowsetSize results = some fetched) :
    ∃ rowset : Rowset, rowset.toStmt = fetched := by
  rw [PGAPI_ExtendedFetch] at h
  split_ifs at h with hcached
  obtain ⟨⟨i, fc_io, keyset'⟩, hloop, rfl⟩ := Option.map_eq_some_iff.mp h
  cases hkeyset : stmt.keyset with
  | none =>
    rw [hkeyset] at hloop
    obtain ⟨rfl, rfl⟩ := fetch_loop_rows hloop
    refine ⟨⟨stmt.save i i none, ?_, nofun⟩, rfl⟩
    rw [seen_of_rows rfl, List.length_range]
    rfl
  | some keyset =>
    obtain ⟨first, hfirst⟩ : ∃ first : ℕ, GIdx2KResIdx (RowIdx2GIdx 0 stmt) stmt = first := by
      rw [hkeyset, Option.isSome_some, not_and, Int.not_lt] at hcached
      exact Int.eq_ofNat_of_zero_le (hcached rfl)
    rw [hkeyset, hfirst] at hloop
    have hnone : 0 = (flagged keyset first 0).length := rfl
    obtain ⟨keys, rfl, hcount⟩ := fetch_loop_flagged hnone hloop
    refine ⟨⟨stmt.save i fc_io (some keys), ?_, fun _ => ?_⟩, rfl⟩
    · rw [seen_of_keys (stmt.save i fc_io (some keys)) rfl hfirst]
      exact hcount
    · exact hfirst ▸ Int.natCast_nonneg first

end OdbcDriver.SetPosRows
