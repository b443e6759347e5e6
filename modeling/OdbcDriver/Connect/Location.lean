import Mathlib.Data.Finset.Card
import OdbcDriver.Connect.Coordinators
import OdbcDriver.Lib.GrowingWalk

/-!
# Which coordinators are found

The loops of `get_location` walk with growing steps. What they have visited changes where they stop,
not where they go: the places they reach are those of one walk, which on a list whose length is no
power of two misses some. A call whose walk misses what it looks for does not end.
-/

namespace OdbcDriver.Connect

open Finset Lib

/-! ### Visits -/

/-- The coordinators of the list that have been visited. -/
def Visits.seen (v : Visits) : Finset ℕ := (range v.entry.ip_count).filter (v.visited · = true)

/-- `visited_count` is what its name says. -/
def Visits.Counted (v : Visits) : Prop := v.visited_count = v.seen.card

/-- A coordinator of the list that has not been visited and is not known to be wrong. -/
def Visits.Usable (v : Visits) (i : ℕ) : Prop :=
  i < v.entry.ip_count ∧ v.visited i = false ∧ v.entry.ip_status i ≠ .wrong

theorem Visits.mem_seen {v : Visits} {i : ℕ} :
    i ∈ v.seen ↔ i < v.entry.ip_count ∧ v.visited i = true := by
  rw [Visits.seen, mem_filter, mem_range]

theorem Visits.seen_subset (v : Visits) : v.seen ⊆ range v.entry.ip_count := filter_subset _ _

/-- The count reaches the length of the list when all of it has been visited. -/
theorem Visits.Counted.eq_ip_count_iff {v : Visits} (h : v.Counted) :
    v.visited_count = v.entry.ip_count ↔ ∀ i < v.entry.ip_count, v.visited i = true := by
  have hall := card_filter_eq_iff (s := range v.entry.ip_count) (p := fun i => v.visited i = true)
  rw [card_range] at hall
  rw [h, Visits.seen, hall]
  simp

theorem Visits.Counted.le {v : Visits} (h : v.Counted) : v.visited_count ≤ v.entry.ip_count := by
  rw [h, ← card_range v.entry.ip_count]
  exact card_le_card v.seen_subset

theorem Visits.seen_visit {v : Visits} {ind : ℕ} (hind : ind < v.entry.ip_count) :
    (v.visit ind).seen = insert ind v.seen := by
  ext i
  by_cases hi : i = ind
  · subst hi
    simp [Visits.mem_seen, Visits.visit, hind]
  · simp [Visits.mem_seen, Visits.visit, hi]

theorem Visits.Counted.visit {v : Visits} (h : v.Counted) {ind : ℕ}
    (hind : ind < v.entry.ip_count) (hnot : v.visited ind = false) : (v.visit ind).Counted := by
  have hmem : ind ∉ v.seen := by simp [Visits.mem_seen, hnot]
  rw [Visits.Counted, Visits.seen_visit hind, card_insert_of_notMem hmem, ← h]
  rfl

/-! ### The inner loop -/

section Inner

variable {v : Visits} {fuel ind offset ind' offset' : ℕ}

/-- Where the inner loop stops, it has walked on, and the coordinator has not been visited unless
all have. -/
theorem skipVisited_eq_some (h : skipVisited v fuel ind offset = some (ind', offset')) :
    (∃ k, ind' = growingWalk v.entry.ip_count ind offset k ∧ offset' = offset + k) ∧
      (v.visited ind' = false ∨ v.visited_count = v.entry.ip_count) := by
  induction fuel generalizing ind offset with
  | zero => cases h
  | succ fuel ih =>
    rw [skipVisited] at h
    split at h
    · obtain ⟨⟨k, hk, hoff⟩, hstop⟩ := ih h
      refine ⟨⟨1 + k, ?_, by omega⟩, hstop⟩
      rw [growingWalk_add, hk]
      rfl
    · rename_i hstop
      cases h
      refine ⟨⟨0, rfl, rfl⟩, ?_⟩
      by_cases hvis : v.visited ind' = true
      · exact .inr (not_not.mp fun hne => hstop ⟨hvis, hne⟩)
      · exact .inl (by simpa using hvis)

/-- The inner loop stops when a coordinator on its way has not been visited. -/
theorem exists_skipVisited (h : ∃ k, v.visited (growingWalk v.entry.ip_count ind offset k) = false) :
    ∃ fuel r, skipVisited v fuel ind offset = some r := by
  obtain ⟨k, hk⟩ := h
  induction k generalizing ind offset with
  | zero =>
    refine ⟨1, (ind, offset), ?_⟩
    rw [growingWalk_zero] at hk
    rw [skipVisited, if_neg (by simp [hk])]
  | succ k ih =>
    by_cases hstop : v.visited ind = true ∧ v.visited_count ≠ v.entry.ip_count
    · rw [Nat.add_comm, growingWalk_add] at hk
      obtain ⟨fuel, r, hr⟩ := ih hk
      exact ⟨fuel + 1, r, by rw [skipVisited, if_pos hstop]; exact hr⟩
    · exact ⟨1, (ind, offset), by rw [skipVisited, if_neg hstop]⟩

theorem exists_skipVisited_of_count (h : v.visited_count = v.entry.ip_count) :
    ∃ fuel r, skipVisited v fuel ind offset = some r :=
  ⟨1, (ind, offset), by rw [skipVisited, if_neg (by simp [h])]⟩

theorem skipVisited_mono {fuel' : ℕ} (hle : fuel ≤ fuel') {r : ℕ × ℕ}
    (h : skipVisited v fuel ind offset = some r) : skipVisited v fuel' ind offset = some r := by
  induction fuel generalizing fuel' ind offset with
  | zero => cases h
  | succ fuel ih =>
    obtain ⟨fuel', rfl⟩ := Nat.exists_eq_succ_of_ne_zero (show fuel' ≠ 0 by omega)
    rw [skipVisited] at h ⊢
    split
    · rename_i hgo
      rw [if_pos hgo] at h
      exact ih (by omega) h
    · rename_i hstop
      rwa [if_neg hstop] at h

end Inner

/-! ### The outer loop -/

section Outer

variable {v v' : Visits} {fuel ind offset ind' offset' : ℕ}

/-- A coordinator of no use, counted as visited. -/
def Visits.pass (v : Visits) (ind : ℕ) : Visits := if v.visited ind then v else v.visit ind

@[simp]
theorem Visits.pass_entry (v : Visits) (ind : ℕ) : (v.pass ind).entry = v.entry := by
  unfold Visits.pass
  split <;> rfl

theorem Visits.pass_visited (v : Visits) (ind : ℕ) :
    (v.pass ind).visited = Function.update v.visited ind true := by
  unfold Visits.pass
  split
  · rename_i h
    rw [← h, Function.update_eq_self]
  · rfl

theorem Visits.Counted.pass (h : v.Counted) (hind : ind < v.entry.ip_count) :
    (v.pass ind).Counted := by
  unfold Visits.pass
  split
  · exact h
  · rename_i hnot
    exact h.visit hind (by simpa using hnot)

/-- One turn of the outer loop. -/
theorem findUsable_succ (v : Visits) (fuel ind offset : ℕ) :
    findUsable (fuel + 1) v ind offset =
      if (v.entry.ip_status ind = .wrong ∨ v.visited ind = true) ∧
          v.visited_count ≠ v.entry.ip_count then
        (skipVisited (v.pass ind) fuel ind offset).bind fun r =>
          findUsable fuel (v.pass ind) r.1 r.2
      else some (v, ind, offset) := by
  rw [findUsable, ← Visits.pass]
  split
  · dsimp only
    cases skipVisited (v.pass ind) fuel ind offset <;> rfl
  · rfl

theorem findUsable_mono {fuel' : ℕ} (hle : fuel ≤ fuel') {r : Visits × ℕ × ℕ}
    (h : findUsable fuel v ind offset = some r) : findUsable fuel' v ind offset = some r := by
  induction fuel generalizing fuel' v ind offset with
  | zero => cases h
  | succ fuel ih =>
    obtain ⟨fuel', rfl⟩ := Nat.exists_eq_succ_of_ne_zero (show fuel' ≠ 0 by omega)
    rw [findUsable_succ] at h ⊢
    split
    · rename_i hgo
      rw [if_pos hgo] at h
      obtain ⟨p, hp, h⟩ := Option.bind_eq_some_iff.mp h
      exact Option.bind_eq_some_iff.mpr ⟨p, skipVisited_mono (by omega) hp, ih (by omega) h⟩
    · rename_i hstop
      rwa [if_neg hstop] at h

/-- What the outer loop has done where it stops: it has walked on, and counted as visited some
wrong coordinators on its walk. -/
structure Walked (v : Visits) (ind offset : ℕ) (v' : Visits) (ind' : ℕ) : Prop where
  entry : v'.entry = v.entry
  counted : v'.Counted
  onWalk : OnWalk v.entry.ip_count ind offset ind'
  visited : ∀ i, v.visited i = true → v'.visited i = true
  passed : ∀ i, v'.visited i = true → v.visited i = true ∨
    (v.entry.ip_status i = .wrong ∧ OnWalk v.entry.ip_count ind offset i)

theorem findUsable_eq_some (hcount : v.Counted) (hind : ind < v.entry.ip_count)
    (h : findUsable fuel v ind offset = some (v', ind', offset')) :
    Walked v ind offset v' ind' ∧
      ((v.entry.ip_status ind' ≠ .wrong ∧ v'.visited ind' = false) ∨
        v'.visited_count = v.entry.ip_count) := by
  induction fuel generalizing v ind offset with
  | zero => cases h
  | succ fuel ih =>
    rw [findUsable_succ] at h
    split at h
    · rename_i hgo
      obtain ⟨⟨ind₁, offset₁⟩, hskip, h⟩ := Option.bind_eq_some_iff.mp h
      obtain ⟨⟨k, rfl, rfl⟩, -⟩ := skipVisited_eq_some hskip
      rw [Visits.pass_entry] at h
      have hlt := growingWalk_lt (s := offset) hind k
      obtain ⟨hw, hstop⟩ := ih (hcount.pass hind) (by rwa [Visits.pass_entry]) h
      rw [Visits.pass_entry] at hstop
      refine ⟨⟨hw.entry.trans (Visits.pass_entry v ind), hw.counted, ?_, fun i hi => ?_,
        fun i hi => ?_⟩, hstop⟩
      · have := hw.onWalk
        rwa [Visits.pass_entry, onWalk_growingWalk hind] at this
      · refine hw.visited i ?_
        rw [Visits.pass_visited]
        by_cases hi' : i = ind
        · simp [hi']
        · simpa [hi'] using hi
      · have := hw.passed i hi
        rw [Visits.pass_entry, Visits.pass_visited, onWalk_growingWalk hind] at this
        rcases this with hvis | hwrong
        · by_cases hi' : i = ind
          · subst hi'
            rcases hgo.1 with hwrong | hvis
            · exact .inr ⟨hwrong, 0, rfl⟩
            · exact .inl hvis
          · exact .inl (by simpa [hi'] using hvis)
        · exact .inr hwrong
    · rename_i hstop
      cases h
      refine ⟨⟨rfl, hcount, ⟨0, rfl⟩, fun i hi => hi, fun i hi => .inl hi⟩, ?_⟩
      by_cases hall : v'.visited_count = v'.entry.ip_count
      · exact .inr hall
      · exact .inl (by simpa [hall] using hstop)

/-- A walk reaches what it is to reach: a usable coordinator or, where it reaches none, all those
that have not been visited, which are wrong. -/
def Reaches (v : Visits) (ind offset : ℕ) : Prop :=
  (∃ i, v.Usable i ∧ OnWalk v.entry.ip_count ind offset i) ∨
    ∀ i < v.entry.ip_count, v.visited i = false →
      v.entry.ip_status i = .wrong ∧ OnWalk v.entry.ip_count ind offset i

/-- What a walk is to reach lies ahead of it wherever it stands. -/
theorem Reaches.walk (hind : ind < v.entry.ip_count) (h : Reaches v ind offset) (k : ℕ) :
    Reaches v (growingWalk v.entry.ip_count ind offset k) (offset + k) := by
  simpa only [Reaches, onWalk_growingWalk hind] using h

/-- A coordinator of no use is none that is to be reached. -/
theorem Reaches.pass (h : Reaches v ind offset)
    (hgo : v.entry.ip_status ind = .wrong ∨ v.visited ind = true) :
    Reaches (v.pass ind) ind offset := by
  rcases h with ⟨i, ⟨hi, hnot, hstatus⟩, hwalk⟩ | h
  · have hne : i ≠ ind := by
      rintro rfl
      rcases hgo with hwrong | hvis
      · exact hstatus hwrong
      · simp [hnot] at hvis
    refine .inl ⟨i, ⟨?_, ?_, ?_⟩, ?_⟩
    · simpa using hi
    · simpa [Visits.pass_visited, hne] using hnot
    · simpa using hstatus
    · simpa using hwalk
  · refine .inr fun i hi hnot => ?_
    rw [Visits.pass_visited] at hnot
    rw [Visits.pass_entry] at hi ⊢
    have hne : i ≠ ind := by
      rintro rfl
      simp at hnot
    exact h i hi (by simpa [hne] using hnot)

/-- Unless all have been visited, one that has not been lies ahead. -/
theorem Reaches.exists_not_visited (h : Reaches v ind offset) (hcount : v.Counted)
    (hne : v.visited_count ≠ v.entry.ip_count) :
    ∃ k, v.visited (growingWalk v.entry.ip_count ind offset k) = false := by
  rcases h with ⟨i, ⟨-, hnot, -⟩, k, rfl⟩ | h
  · exact ⟨k, hnot⟩
  · obtain ⟨i, hi⟩ := not_forall.mp (mt hcount.eq_ip_count_iff.mpr hne)
    obtain ⟨hi, hnot⟩ := Classical.not_imp.mp hi
    have hnot : v.visited i = false := by simpa using hnot
    obtain ⟨-, k, rfl⟩ := h i hi hnot
    exact ⟨k, hnot⟩

/-- **Termination.** The outer loop ends when its walk reaches what it is to reach: every turn
visits a coordinator, or leaves one that has been visited behind. -/
theorem exists_findUsable (hcount : v.Counted) (hind : ind < v.entry.ip_count)
    (h : Reaches v ind offset) : ∃ fuel r, findUsable fuel v ind offset = some r := by
  induction hm : 2 * (v.entry.ip_count - v.visited_count) + (v.visited ind).toNat
    using Nat.strong_induction_on generalizing v ind offset with
  | _ m ih =>
    by_cases hgo : (v.entry.ip_status ind = .wrong ∨ v.visited ind = true) ∧
        v.visited_count ≠ v.entry.ip_count
    · have hpass := h.pass hgo.1
      have hcount' := hcount.pass hind
      obtain ⟨fuel₁, ⟨ind₁, offset₁⟩, hskip⟩ : ∃ fuel r,
          skipVisited (v.pass ind) fuel ind offset = some r := by
        by_cases hall : (v.pass ind).visited_count = (v.pass ind).entry.ip_count
        · exact exists_skipVisited_of_count hall
        · exact exists_skipVisited (hpass.exists_not_visited hcount' hall)
      obtain ⟨⟨k, rfl, rfl⟩, hstop⟩ := skipVisited_eq_some hskip
      rw [Visits.pass_entry] at hstop
      have hlt := growingWalk_lt (s := offset) hind k
      obtain ⟨fuel₂, r, hr⟩ : ∃ fuel r, findUsable fuel (v.pass ind)
          (growingWalk (v.pass ind).entry.ip_count ind offset k) (offset + k) = some r := by
        refine ih _ ?_ hcount' ?_ (hpass.walk (by rwa [Visits.pass_entry]) k) rfl
        · have hle := hcount.le
          rw [← hm, Visits.pass_entry]
          by_cases hvis : v.visited ind = true
          · have hsame : v.pass ind = v := by rw [Visits.pass, if_pos hvis]
            rw [hsame] at hstop ⊢
            rw [hvis, hstop.resolve_right hgo.2]
            simp
          · have hnext : (v.pass ind).visited_count = v.visited_count + 1 := by
              rw [Visits.pass, if_neg hvis]
              rfl
            have hbool := Bool.toNat_le ((v.pass ind).visited
              (growingWalk v.entry.ip_count ind offset k))
            have hlt := lt_of_le_of_ne hle hgo.2
            rw [hnext]
            omega
        · rwa [Visits.pass_entry]
      refine ⟨max fuel₁ fuel₂ + 1, r, ?_⟩
      rw [findUsable_succ, if_pos hgo]
      exact Option.bind_eq_some_iff.mpr ⟨_, skipVisited_mono (le_max_left _ _) hskip,
        findUsable_mono (le_max_right _ _) hr⟩
    · exact ⟨1, _, by rw [findUsable_succ, if_neg hgo]⟩

end Outer

/-! ### One call -/

section Call

variable {v v' : Visits} {fuel start : ℕ} {ind : ℤ}

/-- What a call is to do: it ends, with a usable coordinator if there is one and -1 if not. -/
def FindsUsable (v : Visits) (start : ℕ) : Prop :=
  ∃ fuel ind v', get_location fuel v start = some (ind, v') ∧
    ((∃ i, v.Usable i) → ∃ i : ℕ, ind = i ∧ v.Usable i) ∧ ((¬ ∃ i, v.Usable i) → ind = -1)

/-- What a call has done when it ends. -/
structure Located (v : Visits) (start : ℕ) (ind : ℤ) (v' : Visits) : Prop where
  ip_count : v'.entry.ip_count = v.entry.ip_count
  ip_status : v'.entry.ip_status = v.entry.ip_status
  counted : v'.Counted
  visited : ∀ i, v.visited i = true → v'.visited i = true
  passed : ∀ i, v'.visited i = true →
    v.visited i = true ∨ v.entry.ip_status i = .wrong ∨ ind = i
  found : ind = -1 ∨ ∃ i : ℕ, ind = i ∧ v.Usable i ∧ v'.visited i = true
  reaches : Reaches v start (v.entry.step start)
  none : ind = -1 → ¬ ∃ i, v.Usable i

theorem get_location_eq_some (hcount : v.Counted) (hstart : start < v.entry.ip_count)
    (h : get_location fuel v start = some (ind, v')) : Located v start ind v' := by
  rw [get_location, if_neg (by omega)] at h
  split at h
  · cases h
  · rename_i v₁ ind₁ offset₁ hfind
    obtain ⟨hw, hstop⟩ := findUsable_eq_some hcount hstart hfind
    have hn := congrArg CnEntry.ip_count hw.entry
    have hs := congrArg CnEntry.ip_status hw.entry
    have hind : ind₁ < v.entry.ip_count := by
      obtain ⟨k, hk⟩ := hw.onWalk
      exact hk ▸ growingWalk_lt hstart k
    have hunusable : ∀ i, v.Usable i → v₁.visited i = false := by
      rintro i ⟨hi, hnot, hstatus⟩
      by_contra hvis
      rcases hw.passed i (by simpa using hvis) with hvis | ⟨hwrong, -⟩
      · simp [hnot] at hvis
      · exact hstatus hwrong
    have hall : v₁.visited_count = v.entry.ip_count → ∀ i < v.entry.ip_count,
        v₁.visited i = true := by
      rw [← hn]
      exact hw.counted.eq_ip_count_iff.mp
    dsimp only at h
    by_cases hvis : v₁.visited ind₁ = true
    · rw [if_pos hvis] at h
      cases h
      have hall := hall (hstop.resolve_left (by simp [hvis]))
      refine ⟨hn, hs, hw.counted, hw.visited, fun i hi => ?_,
        .inl rfl, .inr fun i hi hnot => ?_, fun _ => ?_⟩
      · exact (hw.passed i hi).imp_right fun h => .inl h.1
      · exact (hw.passed i (hall i hi)).resolve_left (by simp [hnot])
      · rintro ⟨i, hi⟩
        simpa [hunusable i hi] using hall i hi.1
    · rw [if_neg hvis] at h
      cases h
      obtain ⟨hstatus, hnot⟩ := hstop.resolve_right fun hcount => hvis (hall hcount ind₁ hind)
      have husable : v.Usable ind₁ := by
        refine ⟨hind, ?_, hstatus⟩
        by_contra h
        exact hvis (hw.visited ind₁ (by simpa using h))
      have hvisited (i : ℕ) : Function.update v₁.visited ind₁ true i = true ↔
          i = ind₁ ∨ v₁.visited i = true := by
        by_cases hi : i = ind₁ <;> simp [hi]
      refine ⟨hn, hs, ?_, fun i hi => ?_, fun i hi => ?_,
        .inr ⟨ind₁, rfl, husable, ?_⟩, .inl ⟨ind₁, husable, hw.onWalk⟩, fun h => ?_⟩
      · exact Visits.Counted.visit (v := { v₁ with entry := _ }) hw.counted (hn ▸ hind) hnot
      · exact (hvisited i).mpr (.inr (hw.visited i hi))
      · rcases (hvisited i).mp hi with rfl | hi
        · exact .inr (.inr rfl)
        · exact (hw.passed i hi).imp_right fun h => .inl h.1
      · exact (hvisited ind₁).mpr (.inl rfl)
      · exact absurd h (by omega)

theorem get_location_mono {fuel' : ℕ} (hle : fuel ≤ fuel') {r : ℤ × Visits}
    (h : get_location fuel v start = some r) : get_location fuel' v start = some r := by
  unfold get_location at h ⊢
  split
  · rename_i h0
    rwa [if_pos h0] at h
  · rename_i h0
    rw [if_neg h0] at h
    split at h
    · cases h
    · rename_i hfind
      rw [findUsable_mono hle hfind]
      exact h

/-- **A call ends** exactly when its walk reaches what it is to reach. -/
theorem get_location_ends_iff (hcount : v.Counted) (hstart : start < v.entry.ip_count) :
    (∃ fuel r, get_location fuel v start = some r) ↔ Reaches v start (v.entry.step start) := by
  constructor
  · rintro ⟨fuel, ⟨ind, v'⟩, h⟩
    exact (get_location_eq_some hcount hstart h).reaches
  · intro h
    obtain ⟨fuel, ⟨v₁, ind₁, offset₁⟩, hfind⟩ := exists_findUsable hcount hstart h
    refine ⟨fuel, ?_⟩
    rw [get_location, if_neg (by omega), hfind]
    dsimp only
    split
    · exact ⟨_, rfl⟩
    · exact ⟨_, rfl⟩

theorem findsUsable_iff (hcount : v.Counted) (hstart : start < v.entry.ip_count) :
    FindsUsable v start ↔ Reaches v start (v.entry.step start) := by
  rw [← get_location_ends_iff hcount hstart]
  constructor
  · rintro ⟨fuel, ind, v', h, -⟩
    exact ⟨fuel, _, h⟩
  · rintro ⟨fuel, ⟨ind, v'⟩, h⟩
    have hloc := get_location_eq_some hcount hstart h
    refine ⟨fuel, ind, v', h, fun husable => ?_, fun hnone => ?_⟩
    · rcases hloc.found with hnone | ⟨i, hi, hu, -⟩
      · exact absurd husable (hloc.none hnone)
      · exact ⟨i, hi, hu⟩
    · rcases hloc.found with hnone | ⟨i, hi, hu, -⟩
      · exact hnone
      · exact absurd ⟨i, hu⟩ hnone

/-- A list on which every call does what it is to do, whatever it has visited and wherever it
starts, is one whose length is a power of two. -/
theorem forall_findsUsable_iff {n : ℕ} (hn : 0 < n) :
    (∀ (v : Visits) (start : ℕ), v.entry.ip_count = n → v.Counted → start < n →
      FindsUsable v start) ↔ ∃ m, n = 2 ^ m := by
  constructor
  · intro h
    by_contra hpow
    -- all but one place are visited, and the walk from the first misses that one
    obtain ⟨i, hi, hmiss⟩ := exists_not_onWalk hpow hn 0
    let v : Visits := ⟨⟨n, fun _ => .correct, fun _ => 0⟩, fun j => j ≠ i,
      ((range n).filter (fun j => (decide (j ≠ i)) = true)).card⟩
    rcases (findsUsable_iff (v := v) rfl hn).mp (h v 0 rfl rfl hn) with ⟨j, ⟨-, hj, -⟩, hwalk⟩ | hall
    · obtain rfl : j = i := by simpa [v] using hj
      exact hmiss hwalk
    · exact hmiss (hall i hi (by simp [v])).2
  · rintro ⟨m, hm⟩ v start rfl hcount hstart
    refine (findsUsable_iff hcount hstart).mpr ?_
    by_cases husable : ∃ i, v.Usable i
    · obtain ⟨i, hi⟩ := husable
      exact .inl ⟨i, hi, onWalk_of_two_pow hm hstart hi.1⟩
    · refine .inr fun i hi hnot => ⟨?_, onWalk_of_two_pow hm hstart hi⟩
      by_contra hstatus
      exact husable ⟨i, hi, hnot, hstatus⟩

end Call

/-! ### A connection -/

section Connection

variable {net : Network} {entry : CnEntry} {v v' : Visits} {fuel call : ℕ} {tried : List ℕ}
  {out : Attempt}

/-- The start of a call. -/
def startOf (net : Network) (call : ℕ) (v : Visits) : ℕ := net.rand call % v.entry.ip_count

/-- The calls of `get_location` that a connection makes from one of them on: after a call whose
coordinator cannot be connected to, there is another. -/
inductive Called (net : Network) (call : ℕ) (v : Visits) : ℕ → Visits → Prop
  | first : Called net call v call v
  | next {call' fuel : ℕ} {v₁ v₂ : Visits} {ind : ℤ} : Called net call v call' v₁ →
      get_location fuel v₁ (startOf net call' v₁) = some (ind, v₂) → ind ≠ -1 →
      net.connects call' ind.toNat = false → Called net call v (call' + 1) v₂

/-- A call is the first one, or one of those after it. -/
theorem Called.head {call' : ℕ} (h : Called net call v call' v') :
    (call' = call ∧ v' = v) ∨ ∃ fuel ind v₁,
      get_location fuel v (startOf net call v) = some (ind, v₁) ∧ ind ≠ -1 ∧
        net.connects call ind.toNat = false ∧ Called net (call + 1) v₁ call' v' := by
  induction h with
  | first => exact .inl ⟨rfl, rfl⟩
  | next _ hloc hind hfail ih =>
    right
    rcases ih with ⟨rfl, rfl⟩ | ⟨fuel, ind, v₁, hloc', hind', hfail', hcalled⟩
    · exact ⟨_, _, _, hloc, hind, hfail, .first⟩
    · exact ⟨fuel, ind, v₁, hloc', hind', hfail', hcalled.next hloc hind hfail⟩

/-- What holds at every call: the coordinators tried are those visited that are not wrong. -/
structure Tried (v : Visits) (tried : List ℕ) : Prop where
  counted : v.Counted
  nodup : tried.Nodup
  visited : ∀ i ∈ tried, v.visited i = true
  usable : ∀ i, v.visited i = true → i ∈ tried ∨ v.entry.ip_status i = .wrong

/-- A call that finds a coordinator adds it to those tried. -/
theorem Tried.next (h : Tried v tried) {start i : ℕ} (hloc : Located v start i v') :
    Tried v' (tried ++ [i]) := by
  obtain ⟨j, hij, husable, hvis⟩ := hloc.found.resolve_left (by omega)
  obtain rfl : i = j := by simpa using hij
  refine ⟨hloc.counted, ?_, fun j hj => ?_, fun j hj => ?_⟩
  · rw [List.nodup_append]
    refine ⟨h.nodup, List.nodup_singleton i, fun a ha b hb => ?_⟩
    obtain rfl := List.mem_singleton.mp hb
    rintro rfl
    simpa [husable.2.1] using h.visited a ha
  · rcases List.mem_append.mp hj with hj | hj
    · exact hloc.visited j (h.visited j hj)
    · rwa [List.mem_singleton.mp hj]
  · rw [hloc.ip_status, List.mem_append, List.mem_singleton]
    rcases hloc.passed j hj with hj | hwrong | heq
    · exact (h.usable j hj).imp_left .inl
    · exact .inr hwrong
    · exact .inl (.inr (by simpa using heq.symm))

/-- The calls after the second are calls after the first. -/
theorem Called.tail_of {fuel call' : ℕ} {ind : ℤ} {v₁ : Visits}
    (h : Called net (call + 1) v₁ call' v')
    (hloc : get_location fuel v (startOf net call v) = some (ind, v₁)) (hind : ind ≠ -1)
    (hfail : net.connects call ind.toNat = false) : Called net call v call' v' := by
  induction h with
  | first => exact .next .first hloc hind hfail
  | next _ hloc' hind' hfail' ih => exact ih.next hloc' hind' hfail'

/-- Two runs of a call agree. -/
theorem get_location_unique {fuel fuel' start : ℕ} {r r' : ℤ × Visits}
    (h : get_location fuel v start = some r) (h' : get_location fuel' v start = some r') :
    r = r' := by
  have hm := get_location_mono (le_max_left fuel fuel') h
  rw [get_location_mono (le_max_right fuel fuel') h'] at hm
  exact (Option.some.inj hm).symm

theorem startOf_lt (net : Network) (call : ℕ) (hn : 0 < v.entry.ip_count) :
    startOf net call v < v.entry.ip_count := Nat.mod_lt _ hn

/-- What a connection that ends has done: every call has reached what it was to reach, no
coordinator was tried twice and, if it failed, all usable ones were. -/
theorem tryCoordinators_eq_some (hn : 0 < v.entry.ip_count) (htried : Tried v tried)
    (h : tryCoordinators net fuel call v tried = some out) :
    (∀ call' v', Called net call v call' v' →
        Reaches v' (startOf net call' v') (v'.entry.step (startOf net call' v'))) ∧
      out.tried.Nodup ∧
      (out.connected = false → ∀ i < v.entry.ip_count, v.entry.ip_status i ≠ .wrong →
        i ∈ out.tried) := by
  induction fuel generalizing call v tried with
  | zero => cases h
  | succ fuel ih =>
    rw [tryCoordinators, ← startOf] at h
    split at h
    · cases h
    · rename_i ind v₁ hloc
      have hdone := get_location_eq_some htried.counted (startOf_lt net call hn) hloc
      by_cases hind : ind = -1
      · rw [if_pos hind] at h
        cases h
        refine ⟨fun call' v' hcalled => ?_, htried.nodup, fun _ i hi hstatus => ?_⟩
        · rcases hcalled.head with ⟨rfl, rfl⟩ | ⟨_, _, _, hloc', hind', -⟩
          · exact hdone.reaches
          · cases get_location_unique hloc hloc'
            exact absurd hind hind'
        · have hvis : v.visited i = true := by
            by_contra hnot
            exact hdone.none hind ⟨i, hi, by simpa using hnot, hstatus⟩
          exact (htried.usable i hvis).resolve_right hstatus
      · rw [if_neg hind] at h
        obtain ⟨i, rfl, -⟩ := hdone.found.resolve_left hind
        have hnext := htried.next hdone
        dsimp only at h
        rw [Int.toNat_natCast] at h
        by_cases hconn : net.connects call i = true
        · rw [if_pos hconn] at h
          cases h
          refine ⟨fun call' v' hcalled => ?_, hnext.nodup, nofun⟩
          rcases hcalled.head with ⟨rfl, rfl⟩ | ⟨_, _, _, hloc', -, hfail, -⟩
          · exact hdone.reaches
          · cases get_location_unique hloc hloc'
            rw [Int.toNat_natCast, hconn] at hfail
            cases hfail
        · rw [if_neg hconn] at h
          obtain ⟨hcalls, hnodup, hall⟩ := ih (hdone.ip_count ▸ hn) hnext h
          refine ⟨fun call' v' hcalled => ?_, hnodup, ?_⟩
          · rcases hcalled.head with ⟨rfl, rfl⟩ | ⟨_, _, _, hloc', -, -, hcalled⟩
            · exact hdone.reaches
            · cases get_location_unique hloc hloc'
              exact hcalls call' v' hcalled
          · rwa [hdone.ip_count, hdone.ip_status] at hall

theorem tryCoordinators_mono {fuel' : ℕ} (hle : fuel ≤ fuel')
    (h : tryCoordinators net fuel call v tried = some out) :
    tryCoordinators net fuel' call v tried = some out := by
  induction fuel generalizing fuel' call v tried with
  | zero => cases h
  | succ fuel ih =>
    obtain ⟨fuel', rfl⟩ := Nat.exists_eq_succ_of_ne_zero (show fuel' ≠ 0 by omega)
    rw [tryCoordinators] at h ⊢
    split at h
    · cases h
    · rename_i ind v₁ hloc
      rw [get_location_mono (show fuel ≤ fuel' by omega) hloc]
      dsimp only at h ⊢
      split
      · rename_i hind
        rwa [if_pos hind] at h
      · rename_i hind
        rw [if_neg hind] at h
        split
        · rename_i hconn
          rwa [if_pos hconn] at h
        · rename_i hconn
          rw [if_neg hconn] at h
          exact ih (by omega) h

/-- A call that finds a coordinator visits one more. -/
theorem Located.visited_count_lt {start : ℕ} {ind : ℤ} (h : Located v start ind v')
    (hcount : v.Counted) (hind : ind ≠ -1) : v.visited_count < v'.visited_count := by
  obtain ⟨i, -, ⟨hi, hnot, -⟩, hvis⟩ := h.found.resolve_left hind
  rw [hcount, h.counted]
  refine card_lt_card ((ssubset_iff_of_subset fun j hj => ?_).mpr ⟨i, ?_, ?_⟩)
  · rw [Visits.mem_seen] at hj ⊢
    exact ⟨h.ip_count ▸ hj.1, h.visited j hj.2⟩
  · exact Visits.mem_seen.mpr ⟨h.ip_count ▸ hi, hvis⟩
  · simp [Visits.mem_seen, hnot]

/-- A connection ends when each of its calls reaches what it is to reach. -/
theorem exists_tryCoordinators (hn : 0 < v.entry.ip_count) (htried : Tried v tried)
    (h : ∀ call' v', Called net call v call' v' →
      Reaches v' (startOf net call' v') (v'.entry.step (startOf net call' v'))) :
    ∃ fuel out, tryCoordinators net fuel call v tried = some out := by
  induction hm : v.entry.ip_count - v.visited_count using Nat.strong_induction_on
    generalizing call v tried with
  | _ m ih =>
    obtain ⟨fuel, ⟨ind, v₁⟩, hloc⟩ :=
      (get_location_ends_iff htried.counted (startOf_lt net call hn)).mpr (h call v .first)
    have hdone := get_location_eq_some htried.counted (startOf_lt net call hn) hloc
    by_cases hind : ind = -1
    · refine ⟨fuel + 1, ⟨false, tried⟩, ?_⟩
      rw [tryCoordinators, ← startOf, hloc]
      simp [hind]
    · obtain ⟨i, rfl, -⟩ := hdone.found.resolve_left hind
      by_cases hconn : net.connects call i = true
      · refine ⟨fuel + 1, ⟨true, tried ++ [i]⟩, ?_⟩
        rw [tryCoordinators, ← startOf, hloc]
        simp [hconn]
      · have hlt := hdone.visited_count_lt htried.counted hind
        have hle := hdone.counted.le
        rw [hdone.ip_count] at hle
        obtain ⟨fuel', out, hout⟩ := ih _ (by rw [← hm, hdone.ip_count]; omega)
          (hdone.ip_count ▸ hn) (htried.next hdone)
          (fun call' v' hcalled => h call' v' (hcalled.tail_of hloc hind (by simpa using hconn)))
          rfl
        refine ⟨max fuel fuel' + 1, out, ?_⟩
        rw [tryCoordinators, ← startOf, get_location_mono (le_max_left _ _) hloc]
        simp only [if_neg hind, Int.toNat_natCast, if_neg hconn]
        exact tryCoordinators_mono (le_max_right _ _) hout

/-- What a connection is to do: it ends, has tried no coordinator twice and, if it has failed, all
those that answer the check. -/
def ConnectsRight (net : Network) (entry : CnEntry) : Prop :=
  ∃ fuel out, connect_random_IP net fuel entry = some out ∧ out.tried.Nodup ∧
    (out.connected = false → ∀ i < entry.ip_count, net.answers i = true → i ∈ out.tried)

/-- Every call that a connection makes reaches what it is to reach. -/
def EveryCallReaches (net : Network) (entry : CnEntry) : Prop :=
  (check_IP_connection net entry).1 = true →
    ∀ call v, Called net 0 (.fresh (check_IP_connection net entry).2) call v →
      Reaches v (startOf net call v) (v.entry.step (startOf net call v))

theorem tried_fresh (entry : CnEntry) : Tried (.fresh entry) [] where
  counted := by
    rw [Visits.Counted, Visits.seen]
    simp [Visits.fresh]
  nodup := List.nodup_nil
  visited := nofun
  usable i hi := by cases hi

theorem connectsRight_iff (hn : 0 < entry.ip_count) :
    ConnectsRight net entry ↔ EveryCallReaches net entry := by
  set checked := (check_IP_connection net entry).2 with hchecked
  have hcount : (Visits.fresh checked).entry.ip_count = entry.ip_count := rfl
  have hstatus : ∀ i < entry.ip_count, net.answers i = true →
      (Visits.fresh checked).entry.ip_status i ≠ .wrong := by
    intro i hi hans
    simp [Visits.fresh, hchecked, check_IP_connection, hi, hans]
  have hrun (fuel : ℕ) : connect_random_IP net fuel entry =
      if (check_IP_connection net entry).1 then
        tryCoordinators net fuel 0 (.fresh checked) [] else some ⟨false, []⟩ := rfl
  by_cases husable : (check_IP_connection net entry).1 = true
  · simp only [ConnectsRight, hrun, if_pos husable]
    constructor
    · rintro ⟨fuel, out, hout, -⟩ -
      exact (tryCoordinators_eq_some (hcount ▸ hn) (tried_fresh checked) hout).1
    · intro h
      obtain ⟨fuel, out, hout⟩ :=
        exists_tryCoordinators (hcount ▸ hn) (tried_fresh checked) (h husable)
      obtain ⟨-, hnodup, hall⟩ :=
        tryCoordinators_eq_some (hcount ▸ hn) (tried_fresh checked) hout
      exact ⟨fuel, out, hout, hnodup, fun hfail i hi hans =>
        hall hfail i hi (hstatus i hi hans)⟩
  · refine iff_of_true ⟨0, ⟨false, []⟩, ?_, List.nodup_nil, fun _ i hi hans => ?_⟩
      fun h => absurd h husable
    · rw [hrun, if_neg husable]
    · refine absurd ?_ husable
      exact List.any_eq_true.mpr ⟨i, List.mem_range.mpr hi, hans⟩

end Connection

/-- **Which coordinators are found.** A call of `get_location` ends as it should exactly when its
walk reaches a usable coordinator or, where there is none, all that have not been visited; all calls
on a list do, whatever has been visited, exactly when its length is a power of two. A connection
ends as it should exactly when each of its calls reaches what it is to reach. -/
theorem coordinators_found_iff {n : ℕ} (hn : 0 < n) :
    (∀ (v : Visits) (start : ℕ), v.entry.ip_count = n → v.Counted → start < n →
      (FindsUsable v start ↔ Reaches v start (v.entry.step start))) ∧
    ((∀ (v : Visits) (start : ℕ), v.entry.ip_count = n → v.Counted → start < n →
      FindsUsable v start) ↔ ∃ m, n = 2 ^ m) ∧
    ∀ (net : Network) (entry : CnEntry), entry.ip_count = n →
      (ConnectsRight net entry ↔ EveryCallReaches net entry) := by
  refine ⟨?_, forall_findsUsable_iff hn, ?_⟩
  · rintro v start rfl hcount hstart
    exact findsUsable_iff hcount hstart
  · rintro net entry rfl
    exact connectsRight_iff hn

/-- Three coordinators, of which only the last answers, and a connection that begins at the
first. -/
def lastAnswers : Network := ⟨fun i => i = 2, fun _ => 0, fun _ _ => true⟩

def threeCoordinators : CnEntry := ⟨3, fun _ => .empty, fun _ => 0⟩

/-- Of four coordinators, the last is found. -/
theorem last_of_four_found :
    FindsUsable ⟨⟨4, fun i => if i = 3 then .correct else .wrong, fun _ => 0⟩, fun _ => false, 0⟩
      0 :=
  (coordinators_found_iff (n := 4) (by decide)).2.1.mpr ⟨2, rfl⟩ _ 0 rfl rfl (by decide)

/-- The walk from the first of three places, with a first step of 0, misses the last. -/
theorem last_of_three_missed : ¬ OnWalk 3 0 0 2 := by
  rintro ⟨k, hk⟩
  have hreturn := growingWalk_returns (n := 3) (s := 0) (show 0 < 3 by decide) (k % 6) (k / 6)
  rw [show k % 6 + 2 * 3 * (k / 6) = k by omega, hk] at hreturn
  have hlt : k % 6 < 6 := Nat.mod_lt _ (by decide)
  generalize k % 6 = j at hreturn hlt
  have hall : ∀ j < 6, 2 ≠ growingWalk 3 0 0 j := by decide
  exact hall j hlt hreturn

/-- Neither the first call nor the connection to the one of three coordinators that answers
ends. -/
theorem last_of_three_not_found :
    ¬ FindsUsable (.fresh (check_IP_connection lastAnswers threeCoordinators).2) 0 ∧
      ∀ fuel, connect_random_IP lastAnswers fuel threeCoordinators = none := by
  set v := Visits.fresh (check_IP_connection lastAnswers threeCoordinators).2
  have hmiss : ¬ Reaches v 0 0 := by
    rintro (⟨i, ⟨hi, -, hstatus⟩, hwalk⟩ | hall)
    · match i, hi with
      | 0, _ => exact hstatus rfl
      | 1, _ => exact hstatus rfl
      | 2, _ => exact last_of_three_missed hwalk
    · exact last_of_three_missed (hall 2 (by decide) rfl).2
  have hcount : v.Counted := (tried_fresh _).counted
  refine ⟨mt (findsUsable_iff hcount (by decide)).mp hmiss, fun fuel => ?_⟩
  rw [Option.eq_none_iff_forall_ne_some]
  intro out hout
  have hrun : tryCoordinators lastAnswers fuel 0 v [] = some out := hout
  exact hmiss ((tryCoordinators_eq_some (by decide) (tried_fresh _) hrun).1 0 v .first)

end OdbcDriver.Connect
