import Mathlib.Data.List.Basic

/-!
# Scanning a text

A scanner passes over a text from left to right. At each element it sees what it has passed,
latest first, and what is still to come, and it may pass over elements that follow without
looking at them. The rules are the inductions that claims about a scan need:

* `Scanner.run_append`: a text is scanned part by part, each in front of what follows it;
* `Scanner.run_invariant`: what every step keeps, a scan keeps;
* `Scanner.simulation`, `Scanner.lockstep`: two scanners of the same text that are related stay related.
-/

namespace OdbcDriver

universe u v w

/-- A scanner with states `σ` over elements `β`. -/
structure Scanner (σ : Type u) (β : Type v) where
  /-- The state after an element, and how many of the elements after it are passed over. The
  step sees the elements before it, latest first, and those after it. -/
  step : σ → List β → β → List β → σ × Nat

namespace Scanner

variable {σ : Type u} {τ : Type w} {β : Type v}

/-- One element further: an element that is passed over is not looked at. -/
def advance (m : Scanner σ β) : σ × Nat → List β → β → List β → σ × Nat
  | (s, k + 1), _, _, _ => (s, k)
  | (s, 0), done, c, rest => m.step s done c rest

/-- The scan of `l`, with `done` before it and `rest` after it. -/
def run (m : Scanner σ β) : σ × Nat → List β → List β → List β → σ × Nat
  | a, _, [], _ => a
  | a, done, c :: l, rest => m.run (m.advance a done c (l ++ rest)) (c :: done) l rest

@[simp]
theorem advance_skip (m : Scanner σ β) (s : σ) (k : Nat) (done : List β) (c : β)
    (rest : List β) : m.advance (s, k + 1) done c rest = (s, k) := rfl

@[simp]
theorem advance_step (m : Scanner σ β) (s : σ) (done : List β) (c : β) (rest : List β) :
    m.advance (s, 0) done c rest = m.step s done c rest := rfl

@[simp]
theorem run_nil (m : Scanner σ β) (a : σ × Nat) (done rest : List β) :
    m.run a done [] rest = a := rfl

@[simp]
theorem run_cons (m : Scanner σ β) (a : σ × Nat) (done : List β) (c : β) (l rest : List β) :
    m.run a done (c :: l) rest =
      m.run (m.advance a done c (l ++ rest)) (c :: done) l rest := rfl

/-- A text is scanned part by part. -/
theorem run_append (m : Scanner σ β) (l₁ : List β) :
    ∀ (a : σ × Nat) (done l₂ rest : List β), m.run a done (l₁ ++ l₂) rest =
      m.run (m.run a done l₁ (l₂ ++ rest)) (l₁.reverse ++ done) l₂ rest := by
  induction l₁ with
  | nil => exact fun _ _ _ _ => rfl
  | cons c l₁ ih =>
    intro a done l₂ rest
    rw [List.cons_append, run_cons, run_cons, ih, List.append_assoc, List.reverse_cons,
      List.append_assoc, List.singleton_append]

/-- Elements that are passed over change nothing. -/
theorem run_skip (m : Scanner σ β) (s : σ) (l : List β) :
    ∀ (k : Nat) (done rest : List β),
      m.run (s, l.length + k) done l rest = (s, k) := by
  induction l with
  | nil =>
    intro k done rest
    rw [run_nil, List.length_nil, Nat.zero_add]
  | cons c l ih =>
    intro k done rest
    have hlen : (c :: l).length + k = (l.length + k) + 1 := by
      rw [List.length_cons]
      omega
    rw [hlen, run_cons, advance_skip, ih]

/-- **Invariant rule.** What every step keeps, a scan keeps. -/
theorem run_invariant {m : Scanner σ β} {P : σ × Nat → List β → List β → Prop}
    (hstep : ∀ a done c rest, P a done (c :: rest) → P (m.advance a done c rest) (c :: done) rest)
    {l : List β} : ∀ {a : σ × Nat} {done rest : List β}, P a done (l ++ rest) →
      P (m.run a done l rest) (l.reverse ++ done) rest := by
  induction l with
  | nil => exact fun h => h
  | cons c l ih =>
    intro a done rest h
    rw [List.reverse_cons, List.append_assoc, List.singleton_append]
    exact ih (hstep a done c (l ++ rest) h)

/-- Every step of the scan that looks at an element meets `P`. -/
def AllSteps (m : Scanner σ β) (P : σ → List β → β → List β → Prop) :
    σ × Nat → List β → List β → List β → Prop
  | _, _, [], _ => True
  | a, done, c :: l, rest =>
    (a.2 = 0 → P a.1 done c (l ++ rest)) ∧
      m.AllSteps P (m.advance a done c (l ++ rest)) (c :: done) l rest

instance instDecidableAllSteps (m : Scanner σ β) (P : σ → List β → β → List β → Prop)
    [∀ s done c rest, Decidable (P s done c rest)] :
    ∀ (a : σ × Nat) (done l rest : List β), Decidable (m.AllSteps P a done l rest)
  | _, _, [], _ => .isTrue trivial
  | a, done, c :: l, rest =>
    haveI := instDecidableAllSteps m P (m.advance a done c (l ++ rest)) (c :: done) l rest
    inferInstanceAs (Decidable (_ ∧ _))

/-- **Lockstep rule.** Two scanners of the same text that are related stay related, as long as
the steps of the second meet `P`. -/
theorem lockstep {m : Scanner σ β} {n : Scanner τ β}
    {R : σ × Nat → τ × Nat → List β → List β → Prop} {P : τ → List β → β → List β → Prop}
    (hstep : ∀ a b done c rest, R a b done (c :: rest) → (b.2 = 0 → P b.1 done c rest) →
      R (m.advance a done c rest) (n.advance b done c rest) (c :: done) rest)
    {l : List β} : ∀ {a : σ × Nat} {b : τ × Nat} {done rest : List β},
      R a b done (l ++ rest) → n.AllSteps P b done l rest →
      R (m.run a done l rest) (n.run b done l rest) (l.reverse ++ done) rest := by
  induction l with
  | nil => exact fun h _ => h
  | cons c l ih =>
    intro a b done rest h hP
    rw [List.reverse_cons, List.append_assoc, List.singleton_append]
    exact ih (hstep a b done c (l ++ rest) h hP.1) hP.2

/-- What holds of every step holds of the steps of every scan. -/
theorem allSteps_of_forall {m : Scanner σ β} {P : σ → List β → β → List β → Prop}
    (hP : ∀ s done c rest, P s done c rest) {l : List β} :
    ∀ {a : σ × Nat} {done rest : List β}, m.AllSteps P a done l rest := by
  induction l with
  | nil => exact trivial
  | cons c l ih => exact ⟨fun _ => hP _ _ _ _, ih⟩

/-- **Simulation rule.** Two scanners of the same text that are related stay related. -/
theorem simulation {m : Scanner σ β} {n : Scanner τ β}
    {R : σ × Nat → τ × Nat → List β → List β → Prop}
    (hstep : ∀ a b done c rest, R a b done (c :: rest) →
      R (m.advance a done c rest) (n.advance b done c rest) (c :: done) rest)
    {l : List β} {a : σ × Nat} {b : τ × Nat} {done rest : List β} (h : R a b done (l ++ rest)) :
    R (m.run a done l rest) (n.run b done l rest) (l.reverse ++ done) rest :=
  lockstep (P := fun _ _ _ _ => True) (fun a b done c rest h _ => hstep a b done c rest h) h
    (allSteps_of_forall fun _ _ _ _ => trivial)

end Scanner

end OdbcDriver
