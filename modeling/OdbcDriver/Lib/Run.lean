import Mathlib.Logic.Basic

/-!
# Runs of a deterministic machine

A `Machine` reads inputs one at a time, moving its state and producing an output. The
rules here are the inductions every claim about a sequence of calls needs, proved
once:

* `Machine.run_invariant`: what one admissible step preserves, an admissible run preserves;
* `Machine.allSteps_of`: what an invariant and one condition give a step, they give every step of
  a run;
* `Machine.allSteps_of_invariant`: the same of what an invariant alone gives a step;
* `Machine.allSteps_congr`: when an invariant makes a step condition exact, it is exact along the run;
* `Machine.allSteps_iff`: when a step condition is exact for the next state to be good, it is
  exact along the run for every state to be good;
* `Machine.lockstep`: two machines fed the same inputs, related at the start and at every
  admissible step, stay related and produce the same outputs;
* `Machine.accumulate`: a machine whose state represents a value that every accepted input
  extends ends with the value folded over its inputs;
* `Machine.follows_iff`: when a step condition characterises a single step exactly, the
  condition along the run characterises the whole run exactly.
-/

namespace OdbcDriver

universe u v w x

/-- A deterministic machine with states `σ`, inputs `ι` and outputs `ο`. -/
structure Machine (σ : Type u) (ι : Type v) (ο : Type w) where
  /-- One call: the next state and the output of the call. -/
  step : σ → ι → σ × ο

namespace Machine

variable {σ : Type u} {τ : Type x} {ι : Type v} {ο : Type w}

/-- The state after a list of inputs. -/
def final (m : Machine σ ι ο) : σ → List ι → σ
  | s, [] => s
  | s, i :: is => m.final (m.step s i).1 is

/-- The outputs of a list of inputs, in order. -/
def outputs (m : Machine σ ι ο) : σ → List ι → List ο
  | _, [] => []
  | s, i :: is => (m.step s i).2 :: m.outputs (m.step s i).1 is

/-- Every step of the run meets `P`, which sees the state before the step and the input. -/
def AllSteps (m : Machine σ ι ο) (P : σ → ι → Prop) : σ → List ι → Prop
  | _, [] => True
  | s, i :: is => P s i ∧ m.AllSteps P (m.step s i).1 is

instance decidableAllSteps (m : Machine σ ι ο) (P : σ → ι → Prop)
    [∀ s i, Decidable (P s i)] : ∀ s is, Decidable (m.AllSteps P s is)
  | _, [] => inferInstanceAs (Decidable True)
  | s, i :: is =>
    have := decidableAllSteps m P (m.step s i).1 is
    inferInstanceAs (Decidable (_ ∧ _))

@[simp] theorem final_nil (m : Machine σ ι ο) (s : σ) : m.final s [] = s := rfl

@[simp] theorem final_cons (m : Machine σ ι ο) (s : σ) (i : ι) (is : List ι) :
    m.final s (i :: is) = m.final (m.step s i).1 is := rfl

@[simp] theorem outputs_nil (m : Machine σ ι ο) (s : σ) : m.outputs s [] = [] := rfl

@[simp] theorem outputs_cons (m : Machine σ ι ο) (s : σ) (i : ι) (is : List ι) :
    m.outputs s (i :: is) = (m.step s i).2 :: m.outputs (m.step s i).1 is := rfl

@[simp] theorem allSteps_nil (m : Machine σ ι ο) (P : σ → ι → Prop) (s : σ) :
    m.AllSteps P s [] := trivial

@[simp] theorem allSteps_cons {m : Machine σ ι ο} {P : σ → ι → Prop} {s : σ} {i : ι}
    {is : List ι} : m.AllSteps P s (i :: is) ↔ P s i ∧ m.AllSteps P (m.step s i).1 is :=
  Iff.rfl

theorem final_append (m : Machine σ ι ο) {is js : List ι} :
    ∀ {s : σ}, m.final s (is ++ js) = m.final (m.final s is) js := by
  induction is with
  | nil => exact rfl
  | cons i is ih => exact ih

/-- The outputs of a run of two parts. -/
theorem outputs_append (m : Machine σ ι ο) {is js : List ι} :
    ∀ {s : σ}, m.outputs s (is ++ js) = m.outputs s is ++ m.outputs (m.final s is) js := by
  induction is with
  | nil => exact rfl
  | cons i is ih =>
    intro s
    rw [List.cons_append, outputs_cons, outputs_cons, ih, final_cons, List.cons_append]

/-- A run of two parts. -/
theorem allSteps_append {m : Machine σ ι ο} {P : σ → ι → Prop} {is js : List ι} :
    ∀ {s : σ}, m.AllSteps P s (is ++ js) ↔ m.AllSteps P s is ∧ m.AllSteps P (m.final s is) js := by
  induction is with
  | nil => simp
  | cons i is ih =>
    intro s
    rw [List.cons_append, allSteps_cons, allSteps_cons, ih, final_cons, and_assoc]

/-- **Invariant rule.** An invariant every admissible step preserves holds at the end of
every admissible run. -/
theorem run_invariant {m : Machine σ ι ο} {P : σ → ι → Prop} {Inv : σ → Prop}
    (hstep : ∀ s i, Inv s → P s i → Inv (m.step s i).1) {is : List ι} :
    ∀ {s : σ}, Inv s → m.AllSteps P s is → Inv (m.final s is) := by
  induction is with
  | nil => exact fun hs _ => hs
  | cons i is ih => exact fun hs h => ih (hstep _ i hs h.1) h.2

/-- An invariant that every step preserves holds at the end of every run. -/
theorem invariant {m : Machine σ ι ο} {Inv : σ → Prop}
    (hstep : ∀ s i, Inv s → Inv (m.step s i).1) {is : List ι} :
    ∀ {s : σ}, Inv s → Inv (m.final s is) := by
  induction is with
  | nil => exact fun hs => hs
  | cons i is ih => exact fun hs => ih (hstep _ i hs)

/-- When an invariant and `P` make a step meet `Q` and keep the invariant, a run all of whose steps
meet `P` has all of them meet `Q`. -/
theorem allSteps_of {m : Machine σ ι ο} {P Q : σ → ι → Prop} {Inv : σ → Prop}
    (hstep : ∀ s i, Inv s → P s i → Q s i ∧ Inv (m.step s i).1) {is : List ι} :
    ∀ {s : σ}, Inv s → m.AllSteps P s is → m.AllSteps Q s is := by
  induction is with
  | nil => exact fun _ _ => trivial
  | cons i is ih =>
    intro s hs h
    obtain ⟨hQ, hInv⟩ := hstep s i hs h.1
    exact ⟨hQ, ih hInv h.2⟩

/-- When an invariant that every step keeps makes every step meet `Q`, all steps of a run do. -/
theorem allSteps_of_invariant {m : Machine σ ι ο} {Q : σ → ι → Prop} {Inv : σ → Prop}
    (hstep : ∀ s i, Inv s → Q s i ∧ Inv (m.step s i).1) {is : List ι} :
    ∀ {s : σ}, Inv s → m.AllSteps Q s is := by
  induction is with
  | nil => exact fun _ => trivial
  | cons i is ih =>
    intro s hs
    obtain ⟨hQ, hInv⟩ := hstep s i hs
    exact ⟨hQ, ih hInv⟩

/-- When an invariant makes `P` the exact condition for a step to meet `Q`, and `P` keeps the
invariant, the runs all of whose steps meet `Q` are those all of whose steps meet `P`. -/
theorem allSteps_congr {m : Machine σ ι ο} {P Q : σ → ι → Prop} {Inv : σ → Prop}
    (hstep : ∀ s i, Inv s → (Q s i ↔ P s i))
    (hinv : ∀ s i, Inv s → P s i → Inv (m.step s i).1) {is : List ι} :
    ∀ {s : σ}, Inv s → (m.AllSteps Q s is ↔ m.AllSteps P s is) := by
  induction is with
  | nil => exact fun _ => Iff.rfl
  | cons i is ih =>
    intro s hs
    rw [allSteps_cons, allSteps_cons, hstep s i hs]
    exact and_congr_right fun hP => ih (hinv s i hs hP)

/-- **Safety rule.** When an invariant makes `P` the exact condition for the next state to meet
`Q`, the runs all of whose states meet `Q` are those all of whose steps meet `P`. -/
theorem allSteps_iff {m : Machine σ ι ο} {P : σ → ι → Prop} {Q Inv : σ → Prop}
    (hstep : ∀ s i, Inv s → (Q (m.step s i).1 ↔ P s i))
    (hinv : ∀ s i, Inv s → P s i → Inv (m.step s i).1) {is : List ι} {s : σ} (hs : Inv s) :
    m.AllSteps (fun s i => Q (m.step s i).1) s is ↔ m.AllSteps P s is :=
  allSteps_congr hstep hinv hs

/-- **Lockstep rule.** Two machines related by `R`, whose admissible steps preserve `R` and
answer alike, end related and answer alike on every admissible run. -/
theorem lockstep {m : Machine σ ι ο} {n : Machine τ ι ο} {R : σ → τ → Prop}
    {P : σ → ι → Prop}
    (hstep : ∀ s t i, R s t → P s i →
      R (m.step s i).1 (n.step t i).1 ∧ (m.step s i).2 = (n.step t i).2)
    {is : List ι} : ∀ {s : σ} {t : τ}, R s t → m.AllSteps P s is →
      R (m.final s is) (n.final t is) ∧ m.outputs s is = n.outputs t is := by
  induction is with
  | nil => exact fun hR _ => ⟨hR, rfl⟩
  | cons i is ih =>
    intro s t hR h
    obtain ⟨hR', hout⟩ := hstep s t i hR h.1
    obtain ⟨hfin, houts⟩ := ih hR' h.2
    exact ⟨hfin, by rw [outputs_cons, outputs_cons, hout, houts]⟩

/-- **Accumulator rule.** The state represents a value `a` by `R`; on the inputs that meet `Q`,
a step answers `ok` exactly when `P` holds of its input, and then moves the value by `f`. A run
answers `ok` throughout exactly when all its inputs meet `P`, and ends with the folded value. -/
theorem accumulate {α : Type x} {m : Machine σ ι ο} {R : α → σ → Prop} (ok : ο → Prop)
    (P : ι → Prop) (f : α → ι → α) {Q : ι → Prop}
    (hstep : ∀ a s i, R a s → Q i →
      (ok (m.step s i).2 ↔ P i) ∧ (P i → R (f a i) (m.step s i).1)) {is : List ι} :
    ∀ {a : α} {s : σ}, R a s → (∀ i ∈ is, Q i) →
      ((∀ o ∈ m.outputs s is, ok o) ↔ ∀ i ∈ is, P i) ∧
        ((∀ i ∈ is, P i) → R (is.foldl f a) (m.final s is)) := by
  induction is with
  | nil => exact fun hR _ => ⟨by simp, fun _ => hR⟩
  | cons i is ih =>
    intro a s hR hQ
    obtain ⟨hok, hnext⟩ := hstep a s i hR (hQ i (List.mem_cons_self))
    have hrest : ∀ j ∈ is, Q j := fun j hj => hQ j (List.mem_cons_of_mem _ hj)
    constructor
    · simp only [outputs_cons, List.forall_mem_cons, hok]
      exact and_congr_right fun hP => (ih (hnext hP) hrest).1
    · intro hP
      rw [List.forall_mem_cons] at hP
      exact (ih (hnext hP.1) hrest).2 hP.2

/-- Run side by side from `s` and `t`, the two machines stay related by `R` and answer
alike at every step. -/
def Follows (m : Machine σ ι ο) (n : Machine τ ι ο) (R : σ → τ → Prop) :
    σ → τ → List ι → Prop
  | _, _, [] => True
  | s, t, i :: is =>
    (R (m.step s i).1 (n.step t i).1 ∧ (m.step s i).2 = (n.step t i).2) ∧
      m.Follows n R (m.step s i).1 (n.step t i).1 is

/-- A run that follows another machine's produces its outputs. -/
theorem Follows.outputs_eq {m : Machine σ ι ο} {n : Machine τ ι ο} {R : σ → τ → Prop}
    {is : List ι} : ∀ {s : σ} {t : τ}, m.Follows n R s t is →
      m.outputs s is = n.outputs t is := by
  induction is with
  | nil => exact fun _ => rfl
  | cons i is ih => exact fun h => by rw [outputs_cons, outputs_cons, h.1.2, ih h.2]

/-- **Exactness rule.** When `P` characterises the single steps that stay in `R` and answer
alike, the runs that follow are exactly those all of whose steps meet `P`. -/
theorem follows_iff {m : Machine σ ι ο} {n : Machine τ ι ο} {R : σ → τ → Prop}
    {P : σ → ι → Prop}
    (hstep : ∀ s t i, R s t →
      ((R (m.step s i).1 (n.step t i).1 ∧ (m.step s i).2 = (n.step t i).2) ↔ P s i))
    {is : List ι} : ∀ {s : σ} {t : τ}, R s t →
      (m.Follows n R s t is ↔ m.AllSteps P s is) := by
  induction is with
  | nil => exact fun _ => Iff.rfl
  | cons i is ih =>
    intro s t hR
    constructor
    · rintro ⟨hnow, hrest⟩
      exact ⟨(hstep s t i hR).mp hnow, (ih hnow.1).mp hrest⟩
    · rintro ⟨hP, hrest⟩
      have hnow := (hstep s t i hR).mpr hP
      exact ⟨hnow, (ih hnow.1).mpr hrest⟩

end Machine

end OdbcDriver
