import Mathlib.Data.List.Forall2

/-!
# Computations that can fail

The rules for taking an `Except` computation apart at its binds.
-/

namespace OdbcDriver.Lib

variable {ε ε' α β σ : Type}

@[simp]
theorem ok_bind (a : α) (f : α → Except ε β) : (Except.ok a >>= f) = f a := rfl

@[simp]
theorem error_bind (e : ε) (f : α → Except ε β) : (Except.error e >>= f) = .error e := rfl

@[simp]
theorem pure_eq_ok (a : α) : (pure a : Except ε α) = .ok a := rfl

@[simp]
theorem throw_eq_error (e : ε) : (throw e : Except ε α) = .error e := rfl

/-- A sequence gives a result exactly when both its parts do. -/
theorem bind_eq_ok {x : Except ε α} {f : α → Except ε β} {b : β} :
    (x >>= f) = .ok b ↔ ∃ a, x = .ok a ∧ f a = .ok b := by
  cases x <;> simp

/-- A mapped computation gives a result exactly when the computation does. -/
theorem map_eq_ok {x : Except ε α} {f : α → β} {b : β} :
    (f <$> x) = .ok b ↔ ∃ a, x = .ok a ∧ f a = b := by
  cases x <;> simp [Functor.map, Except.map]

/-- Renaming the errors changes no result. -/
theorem mapError_eq_ok {x : Except ε α} {f : ε → ε'} {a : α} :
    x.mapError f = .ok a ↔ x = .ok a := by
  cases x <;> simp [Except.mapError]

theorem isOk_iff {x : Except ε α} : x.isOk = true ↔ ∃ a, x = .ok a := by
  cases x <;> simp [Except.isOk, Except.toBool]

/-! ### What holds at the end -/

/-- `P` holds of the result of a computation, or `E` of the error it fails with. -/
def Post (E : ε → Prop) (P : α → Prop) : Except ε α → Prop
  | .ok a => P a
  | .error e => E e

/-- **Sequence.** What holds at the end of the first part is what the second starts from. -/
theorem Post.bind {E : ε → Prop} {P : α → Prop} {Q : β → Prop} {x : Except ε α}
    {f : α → Except ε β} (hx : Post E P x) (hf : ∀ a, P a → Post E Q (f a)) :
    Post E Q (x >>= f) := by
  cases x with
  | ok a => exact hf a hx
  | error e => exact hx

theorem Post.mono {E : ε → Prop} {P Q : α → Prop} {x : Except ε α} (hx : Post E P x)
    (h : ∀ a, P a → Q a) : Post E Q x := by
  cases x with
  | ok a => exact h a hx
  | error e => exact hx

theorem Post.ite {E : ε → Prop} {P : α → Prop} {c : Prop} [Decidable c] {x y : Except ε α}
    (hx : c → Post E P x) (hy : ¬ c → Post E P y) : Post E P (if c then x else y) := by
  split
  · exact hx ‹_›
  · exact hy ‹_›

/-! ### Lists of computations -/

/-- A list of computations gives the list of their results. -/
theorem mapM_eq_ok {f : α → Except ε β} {l : List α} {l' : List β} :
    l.mapM f = .ok l' ↔ List.Forall₂ (fun a b => f a = .ok b) l l' := by
  induction l generalizing l' with
  | nil => simp [eq_comm]
  | cons a l ih =>
    rw [List.mapM_cons, bind_eq_ok]
    constructor
    · rintro ⟨b, hb, h⟩
      obtain ⟨bs, hbs, h⟩ := bind_eq_ok.mp h
      obtain rfl := Except.ok.inj h
      exact .cons hb (ih.mp hbs)
    · rintro (_ | ⟨hb, hbs⟩)
      exact ⟨_, hb, bind_eq_ok.mpr ⟨_, ih.mpr hbs, rfl⟩⟩

theorem length_of_mapM {f : α → Except ε β} {l : List α} {l' : List β}
    (h : l.mapM f = .ok l') : l'.length = l.length :=
  (mapM_eq_ok.mp h).length_eq.symm

/-- Each result is that of the computation in its place. -/
theorem getElem?_of_mapM {f : α → Except ε β} {l : List α} {l' : List β}
    (h : l.mapM f = .ok l') {k : Nat} {b : β} (hb : l'[k]? = some b) :
    ∃ a, l[k]? = some a ∧ f a = .ok b := by
  have hall := mapM_eq_ok.mp h
  clear h
  induction hall generalizing k with
  | nil => cases hb
  | cons ha _ ih =>
    cases k with
    | zero =>
      obtain rfl := Option.some.inj hb
      exact ⟨_, rfl, ha⟩
    | succ k => exact ih hb

/-- A list of computations gives results exactly when every computation does. -/
theorem exists_mapM_eq_ok {f : α → Except ε β} {l : List α} :
    (∃ l', l.mapM f = .ok l') ↔ ∀ a ∈ l, ∃ b, f a = .ok b := by
  induction l with
  | nil => simp
  | cons a l ih =>
    rw [List.forall_mem_cons, ← ih]
    constructor
    · rintro ⟨l', h⟩
      rw [List.mapM_cons] at h
      obtain ⟨b, hb, h⟩ := bind_eq_ok.mp h
      obtain ⟨bs, hbs, -⟩ := bind_eq_ok.mp h
      exact ⟨⟨b, hb⟩, bs, hbs⟩
    · rintro ⟨⟨b, hb⟩, bs, hbs⟩
      exact ⟨b :: bs, by rw [List.mapM_cons, hb, hbs]; rfl⟩

/-- What every step of a loop keeps, the loop keeps. -/
theorem foldlM_invariant {P : σ → Prop} {f : σ → α → Except ε σ} {l : List α}
    (hstep : ∀ s, ∀ a ∈ l, ∀ s', P s → f s a = .ok s' → P s') {s s' : σ} (hs : P s)
    (h : l.foldlM f s = .ok s') : P s' := by
  induction l generalizing s with
  | nil =>
    obtain rfl := Except.ok.inj h
    exact hs
  | cons a l ih =>
    rw [List.foldlM_cons] at h
    obtain ⟨t, ht, h⟩ := bind_eq_ok.mp h
    refine ih (fun s b hb => hstep s b (List.mem_cons_of_mem _ hb)) ?_ h
    exact hstep s a List.mem_cons_self t hs ht

/-- A loop whose every step goes through, as long as what is left to do is in order, goes through. -/
theorem foldlM_total {I : List α → σ → Prop} {f : σ → α → Except ε σ}
    (hstep : ∀ a l s, I (a :: l) s → ∃ s', f s a = .ok s' ∧ I l s') {l : List α} :
    ∀ {s : σ}, I l s → ∃ s', l.foldlM f s = .ok s' ∧ I [] s' := by
  induction l with
  | nil => exact fun hs => ⟨_, rfl, hs⟩
  | cons a l ih =>
    intro s hs
    obtain ⟨t, ht, hI⟩ := hstep a l s hs
    obtain ⟨s', hs', hend⟩ := ih hI
    exact ⟨s', by rw [List.foldlM_cons, ht, ok_bind, hs'], hend⟩

end OdbcDriver.Lib
