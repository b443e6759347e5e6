import Mathlib.Data.List.Infix
import OdbcDriver.GetData.ScratchWrites

/-!
# Line feeds there and back

`convert_linefeeds` puts carriage returns in front of line feeds, when a value is read;
`convert_special_chars` takes them away, when it is sent back. The first writes two bytes where it has
looked for room for one, and the second leaves a carriage return alone that stands where a byte of a
multibyte character is expected.
-/

namespace OdbcDriver

variable {ccsc : Ccsc} {convlf : Bool} {max out stat : Nat} {prev : Option Byte}
  {si p t text : List Byte}

/-! ### The two passes -/

/-- The loop of `convert_linefeeds` without a destination. -/
def countLoop (convlf : Bool) (max : Nat) : Option Byte → Nat → List Byte → Nat
  | _, out, [] => out
  | prev, out, c :: si =>
    if ¬ out < max - 1 then out
    else if convlf ∧ c = PG_LINEFEED ∧ prev ≠ some PG_CARRIAGE_RETURN then
      countLoop convlf max (some c) (out + 2) si
    else countLoop convlf max (some c) (out + 1) si

/-- `convert_linefeeds` without a destination: what it returns. -/
def estimate_linefeeds (si : List Byte) (max : Nat) (convlf : Bool) : Nat :=
  countLoop convlf (if max = 0 then 0xffffffff else max) none 0 si

/-- The way back: `convert_special_chars` with `convlf`, when it doubles nothing. -/
def restore_linefeeds (ccsc : Ccsc) (s : List Byte) : List Byte :=
  specialChars ccsc true false 0 0 s.length s

theorem countLoop_eq : countLoop convlf max prev out si =
    out + (linefeedsLoop convlf max prev out si).1.length := by
  induction si generalizing prev out with
  | nil => rfl
  | cons c si ih =>
    rw [countLoop, linefeedsLoop]
    split
    · rfl
    · split
      · rw [ih]
        simp only [List.length_cons]
        omega
      · rw [ih]
        simp only [List.length_cons]
        omega

/-- A destination that has just room for what has been counted. -/
theorem linefeedsLoop_counted (h : countLoop convlf max prev out si = t.length) :
    linefeedsLoop convlf (t.length + 1) prev out si = linefeedsLoop convlf max prev out si := by
  induction si generalizing prev out with
  | nil => rfl
  | cons c si ih =>
    have hlen := h
    rw [countLoop_eq] at hlen
    rw [countLoop] at h
    rw [linefeedsLoop] at hlen ⊢
    rw [linefeedsLoop]
    by_cases hfull : out < max - 1
    · rw [if_neg (not_not.mpr hfull)] at h hlen
      rw [if_neg (not_not.mpr hfull)]
      by_cases hlf : convlf ∧ c = PG_LINEFEED ∧ prev ≠ some PG_CARRIAGE_RETURN
      · rw [if_pos hlf] at h hlen
        simp only [List.length_cons] at hlen
        rw [if_neg (by omega), if_pos hlf, if_pos hlf, ih h]
      · rw [if_neg hlf] at h hlen
        simp only [List.length_cons] at hlen
        rw [if_neg (by omega), if_neg hlf, if_neg hlf, ih h]
    · rw [if_pos hfull] at h
      rw [if_pos hfull, if_pos (by omega)]

/-! ### What is written -/

theorem linefeedsLoop_cons (c : Byte) (si : List Byte) :
    (linefeedsLoop convlf max prev out (c :: si)).1 =
      if ¬ out < max - 1 then []
      else if convlf ∧ c = PG_LINEFEED ∧ prev ≠ some PG_CARRIAGE_RETURN then
        PG_CARRIAGE_RETURN :: PG_LINEFEED :: (linefeedsLoop convlf max (some c) (out + 2) si).1
      else c :: (linefeedsLoop convlf max (some c) (out + 1) si).1 := by
  rw [linefeedsLoop]
  split
  · rfl
  · split <;> rfl

/-- What is written is the expansion of a beginning of the text. -/
theorem linefeedsLoop_consumed : ∃ p, p <+: si ∧
    (linefeedsLoop convlf max prev out si).1 = expandLines convlf prev p := by
  induction si generalizing prev out with
  | nil => exact ⟨[], List.prefix_rfl, rfl⟩
  | cons c si ih =>
    rw [linefeedsLoop_cons]
    split
    · exact ⟨[], List.nil_prefix, rfl⟩
    · split
      · next hlf =>
        obtain ⟨p, hp, heq⟩ := @ih (out + 2) (some c)
        refine ⟨c :: p, List.cons_prefix_cons.mpr ⟨rfl, hp⟩, ?_⟩
        rw [expandLines, if_pos hlf, heq]
      · next hlf =>
        obtain ⟨p, hp, heq⟩ := @ih (out + 1) (some c)
        refine ⟨c :: p, List.cons_prefix_cons.mpr ⟨rfl, hp⟩, ?_⟩
        rw [expandLines, if_neg hlf, heq]

/-- All of the text is written where there is room for it. -/
theorem linefeedsLoop_room (h : out + (expandLines convlf prev si).length < max) :
    (linefeedsLoop convlf max prev out si).1 = expandLines convlf prev si := by
  induction si generalizing prev out with
  | nil => rfl
  | cons c si ih =>
    rw [linefeedsLoop_cons]
    rw [expandLines] at h ⊢
    by_cases hlf : convlf ∧ c = PG_LINEFEED ∧ prev ≠ some PG_CARRIAGE_RETURN
    · rw [if_pos hlf] at h ⊢
      simp only [List.length_cons] at h
      rw [if_neg (by omega), if_pos hlf, ih (by omega)]
    · rw [if_neg hlf] at h ⊢
      simp only [List.length_cons] at h
      rw [if_neg (by omega), if_neg hlf, ih (by omega)]

theorem expandLines_pos (hne : p ≠ []) : 0 < (expandLines convlf prev p).length := by
  obtain ⟨c, p, rfl⟩ := List.exists_cons_of_ne_nil hne
  rw [expandLines]
  split
  · exact Nat.zero_lt_succ _
  · exact Nat.zero_lt_succ _

/-- A beginning of the text ends with a line feed that is expanded, and fills the destination: no
room is left for the terminator. -/
def Fills (convlf : Bool) (max : Nat) (prev : Option Byte) (out : Nat) (si : List Byte) : Prop :=
  ∃ p, p <+: si ∧ EndsLine convlf prev p ∧ out + (expandLines convlf prev p).length = max

theorem not_endsLine_nil : ¬ EndsLine convlf prev [] := by
  rintro ⟨-, t, ht, -⟩
  exact List.cons_ne_nil _ _ (List.append_eq_nil_iff.mp ht.symm).2

theorem fills_cons {c : Byte} : Fills convlf max prev out (c :: si) ↔
    if convlf ∧ c = PG_LINEFEED ∧ prev ≠ some PG_CARRIAGE_RETURN then
      out + 2 = max ∨ Fills convlf max (some c) (out + 2) si
    else Fills convlf max (some c) (out + 1) si := by
  have hlen : ∀ p, (expandLines convlf prev (c :: p)).length =
      (if convlf ∧ c = PG_LINEFEED ∧ prev ≠ some PG_CARRIAGE_RETURN then 2 else 1) +
        (expandLines convlf (some c) p).length := by
    intro p
    rw [expandLines]
    split
    · simp only [List.length_cons]
      omega
    · simp only [List.length_cons]
      omega
  have hfills : Fills convlf max prev out (c :: si) ↔
      (EndsLine convlf prev [c] ∧ out + (expandLines convlf prev [c]).length = max) ∨
        Fills convlf max (some c) (out + if convlf ∧ c = PG_LINEFEED ∧
          prev ≠ some PG_CARRIAGE_RETURN then 2 else 1) si := by
    constructor
    · rintro ⟨p, hp, hends, heq⟩
      obtain _ | ⟨d, p⟩ := p
      · exact absurd hends not_endsLine_nil
      · obtain ⟨rfl, hrest⟩ := List.cons_prefix_cons.mp hp
        by_cases hne : p = []
        · subst hne
          exact .inl ⟨hends, heq⟩
        · rw [hlen, ← Nat.add_assoc] at heq
          exact .inr ⟨p, hrest, (endsLine_cons hne).mp hends, heq⟩
    · rintro (⟨hends, heq⟩ | ⟨p, hp, hends, heq⟩)
      · exact ⟨[c], List.cons_prefix_cons.mpr ⟨rfl, List.nil_prefix⟩, hends, heq⟩
      · have hne : p ≠ [] := by
          rintro rfl
          exact not_endsLine_nil hends
        refine ⟨c :: p, List.cons_prefix_cons.mpr ⟨rfl, hp⟩, (endsLine_cons hne).mpr hends, ?_⟩
        rw [hlen, ← Nat.add_assoc]
        exact heq
  rw [hfills, endsLine_singleton, hlen]
  split
  · next hlf => exact or_congr (and_iff_right hlf) Iff.rfl
  · next hlf => exact or_iff_right fun h => hlf h.1

/-- Room for the terminator is left unless the text fills the destination. -/
theorem linefeedsLoop_lt_iff (hout : out < max) :
    out + (linefeedsLoop convlf max prev out si).1.length < max ↔ ¬ Fills convlf max prev out si := by
  induction si generalizing prev out with
  | nil =>
    refine iff_of_true hout ?_
    rintro ⟨p, hp, hends, -⟩
    rw [List.prefix_nil.mp hp] at hends
    exact not_endsLine_nil hends
  | cons c si ih =>
    rw [linefeedsLoop_cons, fills_cons]
    by_cases hfull : out < max - 1
    · rw [if_neg (not_not.mpr hfull)]
      by_cases hlf : convlf ∧ c = PG_LINEFEED ∧ prev ≠ some PG_CARRIAGE_RETURN
      · rw [if_pos hlf, if_pos hlf, not_or]
        simp only [List.length_cons]
        by_cases hend : out + 2 = max
        · exact iff_of_false (by omega) fun h => h.1 hend
        · rw [and_iff_right hend, ← ih (by omega)]
          omega
      · rw [if_neg hlf, if_neg hlf, ← ih (by omega)]
        simp only [List.length_cons]
        omega
    · -- One byte is left, and no more is written.
      rw [if_pos hfull]
      refine iff_of_true hout fun h => ?_
      have hlong : ∀ {prev : Option Byte} {out : Nat}, max ≤ out → ¬ Fills convlf max prev out si := by
        rintro prev out hout ⟨p, -, hends, heq⟩
        have hne : p ≠ [] := by
          rintro rfl
          exact not_endsLine_nil hends
        have := @expandLines_pos convlf prev p hne
        omega
      split at h
      · rcases h with h | h
        · omega
        · exact hlong (by omega) h
      · exact hlong (by omega) h

/-! ### The way back -/

/-- There is a carriage return in front of a line feed. -/
def HasCrLf (s : List Byte) : Prop := [PG_CARRIAGE_RETURN, PG_LINEFEED] <:+: s

theorem hasCrLf_cons {c : Byte} {s : List Byte} :
    HasCrLf (c :: s) ↔ c = PG_CARRIAGE_RETURN ∧ s.head? = some PG_LINEFEED ∨ HasCrLf s := by
  rw [HasCrLf, List.infix_cons_iff, List.cons_prefix_cons]
  refine or_congr_left ?_
  cases s with
  | nil => simp
  | cons d s => simp [eq_comm]

/-- No line feed stands where a carriage return would be taken for a byte of a multibyte character.
-/
def Apart (ccsc : Ccsc) : Nat → List Byte → Prop
  | _, [] => True
  | stat, c :: s =>
    (c = PG_LINEFEED → nextStat ccsc stat PG_CARRIAGE_RETURN = 0) ∧ Apart ccsc (nextStat ccsc stat c) s

theorem nextStat_lineFeed (h : nextStat ccsc stat PG_CARRIAGE_RETURN = 0) :
    nextStat ccsc stat PG_LINEFEED = 0 := by
  have hcr : PG_CARRIAGE_RETURN.toNat = 13 := rfl
  have hlf : PG_LINEFEED.toNat = 10 := rfl
  rw [nextStat, hcr] at h
  rw [nextStat, hlf]
  cases ccsc <;> simp_all [pg_CS_stat, twoByteStat, utf8Stat, eucJpStat, eucTwStat, gb18030Stat]

/-- One step of the way back, when nothing is doubled. -/
theorem restore_cons {n : Nat} {c : Byte} (hc : c ≠ 0) (s : List Byte) :
    specialChars ccsc true false 0 stat (n + 1) (c :: s) =
      if nextStat ccsc stat c = 0 ∧ c = PG_CARRIAGE_RETURN ∧ s.headD 0 = PG_LINEFEED then
        specialChars ccsc true false 0 (nextStat ccsc stat c) n s
      else c :: specialChars ccsc true false 0 (nextStat ccsc stat c) n s := by
  rw [specialChars, if_neg hc]
  dsimp only
  by_cases hstat : nextStat ccsc stat c = 0
  · by_cases hcr : c = PG_CARRIAGE_RETURN
    · subst hcr
      have hascii : nonAscii 0 PG_CARRIAGE_RETURN = false := rfl
      simp [hstat, hascii]
    · simp [hcr]
  · have hnon : nonAscii (nextStat ccsc stat c) c = true := by
      rw [nonAscii, decide_eq_true hstat]
      rfl
    simp [hnon, hstat]

/-- **The way back.** It leads to a text without carriage returns in front of line feeds only if this
is the text that has been expanded. -/
theorem restore_iff {n : Nat} (hnul : 0 ∉ p) (hp : ¬ HasCrLf (prev.toList ++ p))
    (ht : ¬ HasCrLf t) (hn : (expandLines true prev p).length ≤ n) :
    specialChars ccsc true false 0 stat n (expandLines true prev p) = t ↔
      t = p ∧ Apart ccsc stat p := by
  induction p generalizing prev stat t n with
  | nil =>
    have hnil : specialChars ccsc true false 0 stat n [] = [] := by
      cases n <;> rfl
    rw [expandLines, hnil]
    exact ⟨fun h => ⟨h.symm, trivial⟩, fun h => h.1.symm⟩
  | cons c p ih =>
    obtain ⟨hc, hnul'⟩ := not_or.mp (List.mem_cons.not.mp hnul)
    have hfront : prev = some PG_CARRIAGE_RETURN → c ≠ PG_LINEFEED := by
      rintro rfl rfl
      exact hp (hasCrLf_cons.mpr (.inl ⟨rfl, rfl⟩))
    have hrest : ¬ HasCrLf ((some c).toList ++ p) := by
      intro h
      cases prev with
      | none => exact hp h
      | some d => exact hp (hasCrLf_cons.mpr (.inr h))
    -- Where the first character comes back, the rest decides.
    have hstep : ∀ {d : Byte} {stat' m : Nat}, d = c →
        (c = PG_LINEFEED → nextStat ccsc stat PG_CARRIAGE_RETURN = 0) → nextStat ccsc stat c = stat' →
        (expandLines true (some c) p).length ≤ m →
        (d :: specialChars ccsc true false 0 stat' m (expandLines true (some c) p) = t ↔
          t = c :: p ∧ Apart ccsc stat (c :: p)) := by
      rintro d stat' m rfl hcr rfl hm
      cases t with
      | nil => exact iff_of_false (List.cons_ne_nil _ _) fun h => List.cons_ne_nil _ _ h.1.symm
      | cons e t =>
        have ht' : ¬ HasCrLf t := fun h => ht (hasCrLf_cons.mpr (.inr h))
        rw [List.cons.injEq, List.cons.injEq, ih hnul' hrest ht' hm, Apart, and_iff_right hcr,
          eq_comm, and_assoc]
    rw [expandLines] at hn ⊢
    by_cases hlf : c = PG_LINEFEED
    · have hexpand : true = true ∧ c = PG_LINEFEED ∧ prev ≠ some PG_CARRIAGE_RETURN :=
        ⟨rfl, hlf, fun h => hfront h hlf⟩
      rw [if_pos hexpand] at hn ⊢
      obtain ⟨n, rfl⟩ : ∃ m, n = m + 2 := ⟨n - 2, by simp only [List.length_cons] at hn; omega⟩
      simp only [List.length_cons] at hn
      have hfeed : ∀ stat s, specialChars ccsc true false 0 stat (n + 1) (PG_LINEFEED :: s) =
          PG_LINEFEED :: specialChars ccsc true false 0 (nextStat ccsc stat PG_LINEFEED) n s := by
        intro stat s
        rw [restore_cons (by decide), if_neg fun h => absurd h.2.1 (by decide)]
      rw [restore_cons (by decide), List.headD_cons, hfeed]
      by_cases hstat : nextStat ccsc stat PG_CARRIAGE_RETURN = 0
      · have hzero : nextStat ccsc 0 PG_LINEFEED = 0 := pg_CS_stat_ascii ccsc (by decide) (by decide)
        have hlen : (expandLines true (some c) p).length ≤ n := by omega
        rw [if_pos ⟨hstat, rfl, rfl⟩, hstat, hzero]
        exact hstep hlf.symm (fun _ => hstat) (by rw [hlf]; exact nextStat_lineFeed hstat) hlen
      · -- Both characters stay.
        rw [if_neg fun h => hstat h.1]
        refine iff_of_false ?_ fun h => hstat (h.2.1 hlf)
        rintro rfl
        exact ht (hasCrLf_cons.mpr (.inl ⟨rfl, rfl⟩))
    · rw [if_neg fun h => hlf h.2.1] at hn ⊢
      obtain ⟨n, rfl⟩ : ∃ m, n = m + 1 := ⟨n - 1, by simp only [List.length_cons] at hn; omega⟩
      simp only [List.length_cons] at hn
      have hhead : ¬ (c = PG_CARRIAGE_RETURN ∧
          (expandLines true (some c) p).headD 0 = PG_LINEFEED) := by
        rintro ⟨rfl, hhead⟩
        cases p with
        | nil => cases hhead
        | cons d p =>
          rw [expandLines, if_neg fun h => h.2.2 rfl] at hhead
          exact hrest (hasCrLf_cons.mpr (.inl ⟨rfl, congrArg some hhead⟩))
      rw [restore_cons (Ne.symm hc), if_neg fun h => hhead h.2]
      exact hstep rfl (fun h => absurd h hlf) rfl (by omega)

/-- A text without carriage returns in front of line feeds is left alone. -/
theorem restore_plain {n : Nat} (hnul : 0 ∉ p) (hp : ¬ HasCrLf p) (hn : p.length ≤ n) :
    specialChars ccsc true false 0 stat n p = p := by
  induction p generalizing stat n with
  | nil => cases n <;> rfl
  | cons c p ih =>
    obtain ⟨hc, hnul'⟩ := not_or.mp (List.mem_cons.not.mp hnul)
    obtain ⟨hfront, hrest⟩ := not_or.mp (hasCrLf_cons.not.mp hp)
    obtain ⟨n, rfl⟩ : ∃ m, n = m + 1 := ⟨n - 1, by simp only [List.length_cons] at hn; omega⟩
    have hhead : ¬ (c = PG_CARRIAGE_RETURN ∧ p.headD 0 = PG_LINEFEED) := by
      rintro ⟨rfl, hhead⟩
      cases p with
      | nil => cases hhead
      | cons d p => exact hfront ⟨rfl, congrArg some hhead⟩
    rw [restore_cons (Ne.symm hc), if_neg fun h => hhead h.2,
      ih hnul' hrest (Nat.le_of_succ_le_succ hn)]

theorem expandLines_false : expandLines false prev p = p := by
  induction p generalizing prev with
  | nil => rfl
  | cons c p ih =>
    rw [expandLines, if_neg fun h => Bool.false_ne_true h.1]
    exact congrArg (c :: ·) ih

/-! ### Both ways -/

/-- Both translations do what they should: the bytes that are written, with the terminator, are no
more than `max`; what is counted is what is written, with this `max` and into a destination that is
made after the count; and the way back leads to the text. -/
structure Translated (ccsc : Ccsc) (convlf : Bool) (max : Nat) (si : List Byte) : Prop where
  room : (convert_linefeeds si max convlf).1.length + 1 ≤ max
  counted : estimate_linefeeds si max convlf = (convert_linefeeds si max convlf).1.length
  allocated : (convert_linefeeds si (estimate_linefeeds si 0 convlf + 1) convlf).1.length =
    estimate_linefeeds si 0 convlf
  back : ¬ HasCrLf si → restore_linefeeds ccsc (convert_linefeeds si max convlf).1 = si

theorem estimate_eq (si : List Byte) (max : Nat) (convlf : Bool) :
    estimate_linefeeds si max convlf = (convert_linefeeds si max convlf).1.length := by
  rw [estimate_linefeeds, countLoop_eq, Nat.zero_add]
  rfl

theorem convert_estimated (si : List Byte) (convlf : Bool) :
    convert_linefeeds si (estimate_linefeeds si 0 convlf + 1) convlf =
      convert_linefeeds si 0 convlf := by
  obtain ⟨t, ht⟩ : ∃ t, t = (convert_linefeeds si 0 convlf).1 := ⟨_, rfl⟩
  have hcount : countLoop convlf 0xffffffff none 0 si = t.length := by
    rw [ht]
    exact estimate_eq si 0 convlf
  have hestimate : estimate_linefeeds si 0 convlf = t.length := hcount
  rw [hestimate]
  exact linefeedsLoop_counted hcount

/-- The way back from the expansion of `p`. -/
theorem restore_expanded (hnul : 0 ∉ p) (hp : ¬ HasCrLf p) (ht : ¬ HasCrLf t) :
    restore_linefeeds ccsc (expandLines convlf none p) = t ↔
      t = p ∧ (convlf = true → Apart ccsc 0 p) := by
  cases convlf with
  | false =>
    rw [restore_linefeeds, expandLines_false, restore_plain hnul hp (Nat.le_refl _)]
    exact ⟨fun h => ⟨h.symm, nofun⟩, fun h => h.1.symm⟩
  | true =>
    have hp' : ¬ HasCrLf ((none : Option Byte).toList ++ p) := hp
    rw [restore_linefeeds, restore_iff hnul hp' ht (Nat.le_refl _)]
    exact and_congr_right fun _ => ⟨fun h _ => h, fun h => h rfl⟩

theorem back_iff (hnul : 0 ∉ si) (hcrlf : ¬ HasCrLf si)
    (hroom : (convert_linefeeds si max convlf).1.length < max) :
    restore_linefeeds ccsc (convert_linefeeds si max convlf).1 = si ↔
      (expandLines convlf none si).length < max ∧ (convlf = true → Apart ccsc 0 si) := by
  have hmax : (if max = 0 then 0xffffffff else max) = max := if_neg (by omega)
  by_cases hlt : (expandLines convlf none si).length < max
  · have hfull : (convert_linefeeds si max convlf).1 = expandLines convlf none si := by
      rw [convert_linefeeds, hmax]
      exact linefeedsLoop_room (by rwa [Nat.zero_add])
    rw [hfull, restore_expanded hnul hcrlf hcrlf, and_iff_right rfl, and_iff_right hlt]
  · -- Only a beginning is written.
    refine iff_of_false (fun h => hlt ?_) fun h => hlt h.1
    obtain ⟨p, hp, heq⟩ := @linefeedsLoop_consumed convlf max 0 none si
    have hconvert : (convert_linefeeds si max convlf).1 = expandLines convlf none p := by
      rw [convert_linefeeds, hmax, heq]
    have hp' : ¬ HasCrLf p := fun h => hcrlf (h.trans hp.isInfix)
    have hpnul : 0 ∉ p := fun h => hnul (hp.subset h)
    rw [hconvert] at h hroom
    rwa [((restore_expanded hpnul hp' hcrlf).mp h).1]

/-- **Line feeds.** Both translations do what they should exactly where no beginning of the text fills
the destination with the line feed at its end, and a text without carriage returns in front of line
feeds finds room and has no line feed inside of a multibyte character. -/
theorem translated_iff (ccsc : Ccsc) (convlf : Bool) (max : Nat) (si : List Byte) (hnul : 0 ∉ si) :
    Translated ccsc convlf max si ↔
      0 < max ∧ ¬ Fills convlf max none 0 si ∧
        (¬ HasCrLf si → (expandLines convlf none si).length < max ∧
          (convlf = true → Apart ccsc 0 si)) := by
  have hroom : (convert_linefeeds si max convlf).1.length < max ↔
      0 < max ∧ ¬ Fills convlf max none 0 si := by
    by_cases hmax : 0 < max
    · have hne : (if max = 0 then 0xffffffff else max) = max := if_neg hmax.ne'
      have hloop := @linefeedsLoop_lt_iff convlf max 0 none si hmax
      rw [Nat.zero_add] at hloop
      rw [convert_linefeeds, hne, hloop, and_iff_right hmax]
    · exact iff_of_false (by omega) fun h => hmax h.1
  constructor
  · rintro ⟨hlt, -, -, hback⟩
    obtain ⟨hmax, hfills⟩ := hroom.mp hlt
    exact ⟨hmax, hfills, fun hcrlf => (back_iff hnul hcrlf hlt).mp (hback hcrlf)⟩
  · rintro ⟨hmax, hfills, hback⟩
    have hlt := hroom.mpr ⟨hmax, hfills⟩
    refine ⟨hlt, estimate_eq si max convlf, ?_, fun hcrlf =>
      (back_iff hnul hcrlf hlt).mpr (hback hcrlf)⟩
    rw [convert_estimated, estimate_eq]

/-- A line and its end, for which there is just room. -/
theorem line_translated : Translated .utf8 true 4 [0x61, 0x0a] :=
  (translated_iff .utf8 true 4 [0x61, 0x0a] (by decide)).mpr ⟨by decide,
    (linefeedsLoop_lt_iff (by decide)).mp (by decide),
    fun _ => ⟨by decide, fun _ => ⟨nofun, fun _ => rfl, trivial⟩⟩⟩

/-- The terminator of a line feed alone is written behind two bytes. In Shift JIS the carriage return
that is put behind a lead byte does not go away. -/
theorem lineFeed_not_translated :
    ¬ Translated .utf8 true 2 [0x0a] ∧ (convert_linefeeds [0x0a] 2 true).1 = [0x0d, 0x0a] ∧
      restore_linefeeds .sjis (convert_linefeeds [0x81, 0x0a] 4 true).1 = [0x81, 0x0d, 0x0a] := by
  refine ⟨fun h => ?_, rfl, rfl⟩
  exact absurd h.room (by decide)

end OdbcDriver
