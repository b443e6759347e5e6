import OdbcDriver.Lib.Scan

/-!
# Copying a text around a token

A replacer copies a text and puts another text in the place of a token. Where the tokens are is
decided by a lexer that moves over what is copied. The question is what becomes of the copy when
the replacer passes over one element too many behind a token:

* `Replacer.scan_eq_iff`: the copy is right exactly where every token is the end of the text.

The element that is lost is not made up for by the rest of the copy, however the lexer takes
what follows: up to the next token the copy would have to repeat that element, and the text that
replaces the token does not begin like that.
-/

namespace OdbcDriver

universe u v

/-- A lexer with states `σ` over elements `β`, and a token with what replaces it. -/
structure Replacer (σ : Type u) (β : Type v) where
  /-- How the lexer moves over elements that are copied. -/
  step : σ → List β → β → List β → σ × Nat
  /-- The token begins here. -/
  token : σ → β → List β → Bool
  /-- The state behind the token. -/
  behind : σ → σ
  /-- What replaces the token. -/
  text : List β

namespace Replacer

variable {σ : Type u} {β : Type v}

/-- The copy, where `n` elements behind the first one are passed over at a token. -/
def scan (r : Replacer σ β) (n : Nat) : Scanner (σ × List β) β where
  step s done c rest :=
    if r.token s.1 c rest then ((r.behind s.1, s.2 ++ r.text), n)
    else
      (((r.step s.1 done c rest).1, s.2 ++ c :: rest.take (r.step s.1 done c rest).2),
        (r.step s.1 done c rest).2)

/-- What `scan_eq_iff` needs: all tokens begin with `first` twice and have `n` elements behind
the first one, no two of them overlap in all but one element, an element `first` behind a token
does not move the lexer, and the text begins with two elements that differ and are not
`first`. -/
structure Detectable (r : Replacer σ β) (n : Nat) (first : β) : Prop where
  begins : ∀ {s c rest}, r.token s c rest → c = first ∧ rest.head? = some first
  length : ∀ {s c rest}, r.token s c rest → n ≤ rest.length
  apart : ∀ {s t c d rest}, r.token s c (d :: rest) → r.token t d rest = false
  stays : ∀ s done rest, r.step (r.behind s) done first rest = (r.behind s, 0)
  text : ∃ x y t, r.text = x :: y :: t ∧ x ≠ y ∧ x ≠ first ∧ y ≠ first

variable {r : Replacer σ β} {n : Nat} {first : β}

/-- At a token. -/
theorem advance_token {s : σ × List β} {done : List β} {c : β} {rest : List β}
    (h : r.token s.1 c rest = true) :
    (r.scan n).advance (s, 0) done c rest = ((r.behind s.1, s.2 ++ r.text), n) :=
  if_pos h

/-- At anything else. -/
theorem advance_copy {s : σ × List β} {done : List β} {c : β} {rest : List β}
    (h : r.token s.1 c rest = false) :
    (r.scan n).advance (s, 0) done c rest =
      (((r.step s.1 done c rest).1, s.2 ++ c :: rest.take (r.step s.1 done c rest).2),
        (r.step s.1 done c rest).2) :=
  if_neg (by rw [h]; exact Bool.false_ne_true)

/-- The lexer alone. -/
def lexer (r : Replacer σ β) : Scanner σ β where
  step := r.step

/-- Where no token begins, the element is copied. `q` is what has been copied of the text before
it, and `k` elements have been copied with what stands before them. -/
theorem advance_copied {s : σ} {k : Nat} {q done : List β} {c : β} {rest : List β}
    (h : k = 0 → r.token s c rest = false) :
    (r.scan n).advance ((s, q ++ (c :: rest).take k), k) done c rest =
      (((r.lexer.advance (s, k) done c rest).1,
        (q ++ [c]) ++ rest.take (r.lexer.advance (s, k) done c rest).2),
        (r.lexer.advance (s, k) done c rest).2) := by
  cases k with
  | succ k => simp
  | zero =>
    rw [List.take_zero, List.append_nil, advance_copy (h rfl), List.append_assoc]
    rfl

/-- What has been copied stays. -/
theorem prefix_run {out rest : List β} (l : List β) : ∀ {a : (σ × List β) × Nat} {done : List β},
    out <+: a.1.2 → out <+: ((r.scan n).run a done l rest).1.2 := by
  induction l with
  | nil => exact fun h => h
  | cons c l ih =>
    rintro ⟨s, k⟩ done hout
    refine ih (hout.trans ?_)
    cases k with
    | succ k => exact List.prefix_refl _
    | zero =>
      cases h : r.token s.1 c (l ++ rest) with
      | true =>
        rw [advance_token h]
        exact List.prefix_append _ _
      | false =>
        rw [advance_copy h]
        exact List.prefix_append _ _

/-- A text without tokens is copied as it is. -/
theorem run_of_no_token {l : List β} : ∀ {s : σ} {k : Nat} {q d : List β},
    (∀ t c rest, c :: rest <:+ l → r.token t c rest = false) →
      ((r.scan n).run ((s, q ++ l.take k), k) d l []).1.2 = q ++ l := by
  induction l with
  | nil => intro s k q d _; simp
  | cons c l ih =>
    intro s k q d h
    rw [Scanner.run_cons, List.append_nil, advance_copied fun _ => h s c l (List.suffix_refl _),
      ih fun t b rest ht => h t b rest (ht.trans (List.suffix_cons c l)), List.append_assoc]
    rfl

/-- Texts with different beginnings of one length are different. -/
theorem ne_of_prefix {l m p q : List β} (h₁ : p <+: l) (h₂ : q <+: m)
    (hlen : p.length = q.length) (hne : p ≠ q) : l ≠ m := by
  rintro rfl
  exact hne ((List.prefix_of_prefix_length_le h₁ h₂ (Nat.le_of_eq hlen)).eq_of_length hlen)

/-- **A lost element is missed.** A copy that goes on without `b` is not the copy that goes on
with it. -/
theorem run_ne_run_of_lost (hr : r.Detectable n first) {m : Nat} (b : β) (l : List β) :
    ∀ (s t : σ) (j k : Nat) (p done : List β), (b = first → (s, j) = (t, k)) →
      ((r.scan m).run ((s, p ++ l.take j), j) done l []).1.2 ≠
        ((r.scan n).run ((t, (p ++ [b]) ++ l.take k), k) done l []).1.2 := by
  obtain ⟨x, y, tail, htext, hxy, -, hy⟩ := hr.text
  induction l with
  | nil => exact fun _ _ _ _ p _ _ => by simp
  | cons c l ih =>
    intro s t j k p done hsame
    rw [Scanner.run_cons, Scanner.run_cons, List.append_nil]
    by_cases hs : j = 0 ∧ r.token s c l = true
    · -- the copy without `b` goes on with the text for the token
      obtain ⟨rfl, hs⟩ := hs
      obtain ⟨rfl, -⟩ := hr.begins hs
      have hwithout : p ++ [x, y] <+: ((r.scan m).run
          ((r.scan m).advance ((s, p ++ (c :: l).take 0), 0) done c l) (c :: done) l []).1.2 := by
        refine prefix_run l ?_
        rw [advance_token hs, htext, List.take_zero, List.append_nil]
        exact (List.prefix_append_right_inj p).mpr ⟨tail, rfl⟩
      obtain ⟨z, hz, hwith⟩ : ∃ z, y ≠ z ∧ p ++ [b, z] <+: ((r.scan n).run
          ((r.scan n).advance ((t, (p ++ [b]) ++ (c :: l).take k), k) done c l)
            (c :: done) l []).1.2 := by
        by_cases ht : k = 0 ∧ r.token t c l = true
        · obtain ⟨rfl, ht⟩ := ht
          refine ⟨x, hxy.symm, prefix_run l ?_⟩
          rw [advance_token ht, htext, List.take_zero, List.append_nil, List.append_assoc]
          exact (List.prefix_append_right_inj p).mpr ⟨y :: tail, rfl⟩
        · refine ⟨c, hy, prefix_run l ?_⟩
          rw [advance_copied fun h0 => Bool.eq_false_iff.mpr fun h => ht ⟨h0, h⟩]
          exact ⟨l.take (r.lexer.advance (t, k) done c l).2, by simp⟩
      exact ne_of_prefix hwithout hwith (by simp) fun h =>
        hz (by simpa using (List.cons.inj (List.append_cancel_left h)).2)
    · rw [advance_copied fun h0 => Bool.eq_false_iff.mpr fun h => hs ⟨h0, h⟩]
      have hwithout : p ++ [c] <+: (((r.lexer.advance (s, j) done c l).1,
          (p ++ [c]) ++ l.take (r.lexer.advance (s, j) done c l).2),
          (r.lexer.advance (s, j) done c l).2).1.2 := List.prefix_append _ _
      by_cases ht : k = 0 ∧ r.token t c l = true
      · -- the copy with `b` goes on with it, the other one with the token: `b` is no `first`
        obtain ⟨rfl, ht⟩ := ht
        obtain ⟨rfl, -⟩ := hr.begins ht
        have hb : b ≠ c := fun hb => by
          obtain ⟨rfl, rfl⟩ := Prod.mk.inj (hsame hb)
          exact hs ⟨rfl, ht⟩
        refine ne_of_prefix (prefix_run l hwithout) (q := p ++ [b]) (prefix_run l ?_) (by simp)
          (by simpa using hb.symm)
        rw [advance_token ht, List.append_assoc]
        exact List.prefix_append _ _
      · rw [advance_copied fun h0 => Bool.eq_false_iff.mpr fun h => ht ⟨h0, h⟩]
        by_cases hcb : c = b
        · subst hcb
          refine ih _ _ _ _ (p ++ [c]) (c :: done) fun hc => ?_
          rw [hsame hc]
        · refine ne_of_prefix (prefix_run l hwithout) (q := p ++ [b]) (prefix_run l ?_) (by simp)
            (by simpa using hcb)
          exact ⟨[c] ++ l.take (r.lexer.advance (t, k) done c l).2, by simp⟩

/-- A scan that passes over the whole text looks at nothing. -/
theorem allSteps_of_length_le {m : Scanner σ β} {P : σ → List β → β → List β → Prop}
    (l : List β) : ∀ {s : σ} {k : Nat} {done rest : List β}, l.length ≤ k →
      m.AllSteps P (s, k) done l rest := by
  induction l with
  | nil => exact fun _ => trivial
  | cons c l ih =>
    rintro s (_ | k) done rest hlen
    · exact absurd hlen (by simp)
    · exact ⟨fun h => absurd h (Nat.succ_ne_zero k), ih (Nat.le_of_succ_le_succ hlen)⟩

/-- Behind a token, the copy that loses the next element is another one. -/
theorem run_ne_run_of_token (hr : r.Detectable n first) {s : σ × List β} {done : List β}
    {c b : β} {skipped l : List β} (hlen : skipped.length = n)
    (htoken : r.token s.1 c (skipped ++ b :: l) = true) :
    ((r.scan (n + 1)).run ((r.behind s.1, s.2 ++ r.text), n + 1) done (skipped ++ b :: l) []).1.2 ≠
      ((r.scan n).run ((r.behind s.1, s.2 ++ r.text), n) done (skipped ++ b :: l) []).1.2 := by
  subst hlen
  rw [Scanner.run_append, Scanner.run_append, Scanner.run_skip]
  have hskip := Scanner.run_skip (r.scan skipped.length) (r.behind s.1, s.2 ++ r.text) skipped 0
    done (b :: l ++ [])
  rw [Nat.add_zero] at hskip
  rw [hskip, Scanner.run_cons, Scanner.run_cons, Scanner.advance_skip, List.append_nil]
  cases hb : r.token (r.behind s.1) b l with
  | false =>
    rw [advance_copy hb]
    have h := run_ne_run_of_lost hr (m := skipped.length + 1) b l (r.behind s.1)
      (r.step (r.behind s.1) (skipped.reverse ++ done) b l).1 0
      (r.step (r.behind s.1) (skipped.reverse ++ done) b l).2 (s.2 ++ r.text)
      (b :: (skipped.reverse ++ done)) fun hfirst => by rw [hfirst, hr.stays]
    rw [List.take_zero, List.append_nil, List.append_assoc] at h
    exact h
  | true =>
    -- two tokens side by side: the second one is copied, without its first element
    obtain ⟨x, y, tail, htext, -, hx, -⟩ := hr.text
    obtain ⟨rfl, hhead⟩ := hr.begins hb
    cases l with
    | nil => simp at hhead
    | cons d l =>
      obtain rfl : d = b := by simpa using hhead
      have hd : r.token (r.behind s.1) d l = false := hr.apart hb
      rw [advance_token hb, Scanner.run_cons, List.append_nil, advance_copy hd]
      refine ne_of_prefix (p := (s.2 ++ r.text) ++ [d]) (q := (s.2 ++ r.text) ++ [x])
        (prefix_run l ?_) (prefix_run _ ?_) (by simp) (by simpa using hx.symm)
      · exact ⟨_, (List.append_cons _ d _).symm⟩
      · exact ⟨y :: tail, by simp [htext]⟩

/-- **Losing the element behind a token.** The copy that passes over one element too many is
right exactly where every token is the end of the text. -/
theorem scan_eq_iff (hr : r.Detectable n first) (l : List β) :
    ∀ (a : (σ × List β) × Nat) (done : List β),
      ((r.scan (n + 1)).run a done l []).1.2 = ((r.scan n).run a done l []).1.2 ↔
        (r.scan n).AllSteps (fun s _ c rest => r.token s.1 c rest = true → rest.length = n) a done
          l [] := by
  induction l with
  | nil => exact fun _ _ => ⟨fun _ => trivial, fun _ => rfl⟩
  | cons c l ih =>
    rintro ⟨s, k⟩ done
    rw [Scanner.run_cons, Scanner.run_cons, Scanner.AllSteps, List.append_nil]
    cases k with
    | succ k =>
      rw [Scanner.advance_skip, Scanner.advance_skip, ih]
      exact ⟨fun h => ⟨fun h0 => absurd h0 (Nat.succ_ne_zero k), h⟩, fun h => h.2⟩
    | zero =>
      cases htoken : r.token s.1 c l with
      | false =>
        rw [advance_copy htoken, advance_copy htoken, ih]
        exact ⟨fun h => ⟨fun _ h' => absurd h' Bool.false_ne_true, h⟩, fun h => h.2⟩
      | true =>
        rw [advance_token htoken, advance_token htoken]
        by_cases hend : l.length = n
        · -- both copies end with the token
          subst hend
          refine ⟨fun _ => ⟨fun _ _ => rfl, allSteps_of_length_le l (Nat.le_refl _)⟩, fun _ => ?_⟩
          rw [Scanner.run_skip _ _ l 1]
          exact congrArg (·.1.2) (Scanner.run_skip (r.scan l.length) _ l 0 _ _).symm
        · refine ⟨fun h => absurd h ?_, fun h => absurd (h.1 rfl rfl) hend⟩
          obtain ⟨skipped, b, l', rfl, hlen⟩ : ∃ skipped b l', l = skipped ++ b :: l' ∧
              skipped.length = n := by
            have hlt : n < l.length := Nat.lt_of_le_of_ne (hr.length htoken) (Ne.symm hend)
            exact ⟨l.take n, l[n], l.drop (n + 1),
              by rw [← List.drop_eq_getElem_cons hlt, List.take_append_drop],
              List.length_take_of_le (Nat.le_of_lt hlt)⟩
          exact run_ne_run_of_token hr hlen htoken

end Replacer

end OdbcDriver
