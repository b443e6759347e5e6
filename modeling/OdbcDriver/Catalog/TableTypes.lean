import OdbcDriver.Catalog.Tables

/-!
# The types of the tables returned

When the relations that `PGAPI_Tables` returns are those reported under a requested type:

* `shows_of_asked`: a type that the list asks for has its flag set;
* `included_iff`: a relation is selected by the flag of the type it is reported under, or by that
  of `alsoSelectedBy`;
* `tables_asked_iff`: the result is the one asked for exactly when no relation in the query is
  selected without its type having been asked for.
-/

namespace OdbcDriver.Catalog

variable {item list name after : List Byte} {t t' : TableType} {settings : TableSettings}
  {tableType : Option (List Byte)} {found : Relation → Bool} {r : Relation}
  {relations : List Relation}

/-! ### The list of types -/

theorem lower_of_names (h : stricmp name t.cstr = true) :
    name.map tolower = t.cstr.map tolower := by
  simpa [stricmp] using h

/-- The names of two types differ in their first letter. -/
theorem cstr_head (h : (t.cstr.map tolower).head? = (t'.cstr.map tolower).head?) : t = t' := by
  revert h
  cases t <;> cases t' <;> decide

/-- A text that begins with the name of a type begins with that of no other. -/
theorem strnicmp_name (h : stricmp name t.cstr = true) :
    strnicmp (name ++ after) t'.cstr = decide (t' = t) := by
  have hname := lower_of_names h
  have hlen : name.length = t.cstr.length := by simpa using congrArg List.length hname
  by_cases ht : t' = t
  · subst ht
    rw [decide_eq_true rfl, strnicmp, ← hlen, List.take_left, h]
  · rw [decide_eq_false ht, strnicmp, ← Bool.not_eq_true]
    intro hbegin
    refine ht (cstr_head ?_)
    have hlower := lower_of_names hbegin
    have hne : t'.cstr ≠ [] := by cases t' <;> decide
    have hpos : t'.cstr.length ≠ 0 := by simpa using hne
    have hne' : name.map tolower ≠ [] := by rw [hname]; cases t <;> decide
    rw [← hlower, List.map_take, List.map_append, hname, List.head?_take, if_neg hpos,
      List.head?_append_of_ne_nil _ (hname ▸ hne')]

/-- A name of a type begins with a letter. -/
theorem name_head (h : stricmp name t.cstr = true) :
    ∃ c rest, name = c :: rest ∧ isSpace c = false ∧ c ≠ 0x27 := by
  have hname := lower_of_names h
  cases name with
  | nil => cases t <;> cases hname
  | cons c rest =>
    have hc : tolower c = (t.cstr.map tolower).headD 0 := by
      rw [← hname]
      rfl
    have hletter : (isSpace c || decide (c = 0x27)) = true → tolower c = c := by
      intro hsome
      unfold tolower
      rw [if_neg]
      simp only [isSpace, Bool.or_eq_true, Bool.and_eq_true, decide_eq_true_eq] at hsome
      rintro ⟨hlo, hhi⟩
      rcases hsome with (⟨-, hle⟩ | rfl) | rfl
      · exact absurd (UInt8.le_trans hlo hle) (by decide)
      · exact absurd hlo (by decide)
      · exact absurd hlo (by decide)
    have hdiff : (isSpace ((t.cstr.map tolower).headD 0) ||
        decide ((t.cstr.map tolower).headD 0 = 0x27)) = false := by
      cases t <;> decide
    have hno : (isSpace c || decide (c = 0x27)) = false := by
      by_contra hsome
      have hsome : (isSpace c || decide (c = 0x27)) = true := Bool.eq_true_of_not_eq_false hsome
      rw [hletter hsome] at hc
      rw [← hc, hsome] at hdiff
      cases hdiff
    exact ⟨c, rest, rfl, by simpa using hno⟩

/-- An item that names a type is read as that type. -/
theorem typeOfItem_of_names (h : Names item t) : typeOfItem item = some t := by
  obtain ⟨before, opening, name, closing, after, rfl, hbefore, -, hopening, -, hname⟩ := h
  obtain ⟨c, rest, hcons, hspace, hquote⟩ := name_head hname
  have hskip : (before ++ opening ++ name ++ closing ++ after).dropWhile isSpace =
      opening ++ name ++ closing ++ after := by
    simp only [List.append_assoc]
    rw [List.dropWhile_append_of_pos (by simpa using hbefore)]
    rcases hopening with rfl | rfl
    · simp [hcons, hspace]
    · have hq : isSpace 0x27 = false := by decide
      simp [hq]
  have hunquoted : (if (opening ++ name ++ closing ++ after).head? = some 0x27 then
      (opening ++ name ++ closing ++ after).tail else opening ++ name ++ closing ++ after) =
      name ++ (closing ++ after) := by
    rcases hopening with rfl | rfl
    · rw [if_neg (by simp [hcons, hquote])]
      simp
    · rw [if_pos (by simp)]
      simp
  unfold typeOfItem
  rw [hskip]
  simp only [hunquoted, strnicmp_name hname]
  cases t <;> rfl

/-- A type that is asked for has its flag set. -/
theorem shows_of_asked (h : Asked tableType t) : shows tableType t = true := by
  match tableType with
  | none => simpa [shows, Asked] using h
  | some list =>
    unfold shows
    unfold Asked at h
    by_cases hall : stricmp list (ascii "%") = true
    · simp only [hall, if_true] at h ⊢
      simpa using h
    · simp only [hall] at h ⊢
      obtain ⟨item, hitem, hnames⟩ := h
      simp only [Bool.false_eq_true, if_false, List.any_eq_true]
      exact ⟨item, hitem, by simp [typeOfItem_of_names hnames]⟩

/-! ### The selection -/

/-- A relation is selected by its reported type and by one more. -/
theorem included_iff : included settings tableType r = true ↔
    shows tableType (reported settings r) = true ∨
      ∃ t ∈ alsoSelectedBy settings r, shows tableType t = true := by
  have hkinds : (view r = true → foreign_table r = false ∧ matview r = false) ∧
      (foreign_table r = true → matview r = false) := by
    simp only [view, foreign_table, matview]
    constructor
    · intro h
      simp [of_decide_eq_true h]
    · intro h
      simp [of_decide_eq_true h]
  obtain ⟨hview, hforeign⟩ := hkinds
  unfold included reported alsoSelectedBy regular_table
  cases hs : systable settings r <;> cases hv : view r <;> cases hf : foreign_table r <;>
    cases hm : matview r <;> simp_all [or_comm]

/-- A relation that the query leaves out is no table of a requested type. -/
theorem inQuery_of_asked (hkind : TABLE_IN_RELKIND.contains r.relkind = true)
    (hfound : found r = true) (h : Asked tableType (reported settings r)) :
    inQuery settings tableType found r = true := by
  have hshown := shows_of_asked h
  rw [inQuery, hkind, hfound]
  by_cases hset : settings.show_system_tables = 0
  · by_cases hschema : systemSchemas.contains r.nspname = true
    · have hsys : systable settings r = true := by
        have hmem : r.nspname ∈ systemSchemas := by simpa using hschema
        simp only [systemSchemas, List.mem_cons, List.not_mem_nil, or_false] at hmem
        rw [systable, decide_eq_true hset, Bool.true_and]
        rcases hmem with h | h | h | h <;> rw [h] <;> rfl
      rw [reported, if_pos hsys] at hshown
      simp [hshown]
    · have hmem : r.nspname ∉ systemSchemas := by simpa using hschema
      simp [hmem]
  · simp [hset]

/-! ### The result -/

/-- The relations that the names match. -/
def candidates (found : Relation → Bool) (relations : List Relation) : List Relation :=
  relations.filter fun r => TABLE_IN_RELKIND.contains r.relkind && found r

/-- A smaller selection gives the same list only if it is the same selection. -/
theorem map_filter_eq_iff {α β : Type} {f : α → β} {p q : α → Bool} {l : List α}
    (himp : ∀ a ∈ l, q a = true → p a = true) :
    (l.filter p).map f = (l.filter q).map f ↔ ∀ a ∈ l, p a = true → q a = true := by
  constructor
  · intro h
    have hlen : (l.filter p).length = (l.filter q).length := by
      simpa using congrArg List.length h
    have hsub : (l.filter q).Sublist (l.filter p) := by
      have hqp : l.filter q = (l.filter p).filter q := by
        rw [List.filter_filter]
        refine List.filter_congr fun a ha => ?_
        cases hq : q a
        · rfl
        · rw [himp a ha hq]
          rfl
      rw [hqp]
      exact List.filter_sublist
    have heq := hsub.eq_of_length hlen.symm
    intro a ha hp
    have hmem : a ∈ l.filter q := heq ▸ List.mem_filter.mpr ⟨ha, hp⟩
    exact (List.mem_filter.mp hmem).2
  · intro h
    refine congrArg (List.map f) (List.filter_congr fun a ha => ?_)
    exact Bool.eq_iff_iff.mpr ⟨h a ha, himp a ha⟩

open Classical in
/-- The rows are those of the relations whose reported type was asked for exactly when every
relation in the query has its type asked for, or is selected neither by what the list says of that
type nor by what it says of the other type that selects it. -/
theorem tables_asked_iff (settings : TableSettings) (tableType : Option (List Byte))
    (found : Relation → Bool) (relations : List Relation) :
    PGAPI_Tables settings tableType found relations =
        ((candidates found relations).filter
          fun r => decide (Asked tableType (reported settings r))).map (tableRow settings) ↔
      ∀ r ∈ candidates found relations, inQuery settings tableType found r = true →
        Asked tableType (reported settings r) ∨
          (shows tableType (reported settings r) = false ∧
            ∀ t ∈ alsoSelectedBy settings r, shows tableType t = false) := by
  have hrows : PGAPI_Tables settings tableType found relations =
      ((candidates found relations).filter fun r =>
        inQuery settings tableType found r && included settings tableType r).map
          (tableRow settings) := by
    rw [PGAPI_Tables, candidates, List.filter_filter, List.filter_filter]
    refine congrArg _ (List.filter_congr fun r _ => ?_)
    unfold inQuery
    cases TABLE_IN_RELKIND.contains r.relkind <;> cases found r <;> simp [Bool.and_comm]
  have hasked : ∀ r ∈ candidates found relations,
      decide (Asked tableType (reported settings r)) = true →
      (inQuery settings tableType found r && included settings tableType r) = true := by
    intro r hr h
    have h := of_decide_eq_true h
    obtain ⟨hkind, hfound⟩ : TABLE_IN_RELKIND.contains r.relkind = true ∧ found r = true := by
      simpa using (List.mem_filter.mp hr).2
    rw [inQuery_of_asked hkind hfound h, included_iff.mpr (.inl (shows_of_asked h))]
    rfl
  rw [hrows, map_filter_eq_iff hasked]
  refine forall_congr' fun r => forall_congr' fun _ => ?_
  rw [Bool.and_eq_true, decide_eq_true_eq, included_iff, and_imp]
  refine imp_congr_right fun _ => ?_
  constructor
  · intro h
    by_cases hr : Asked tableType (reported settings r)
    · exact .inl hr
    · refine .inr ⟨?_, fun t ht => ?_⟩
      · exact Bool.eq_false_iff.mpr fun hshown => hr (h (.inl hshown))
      · exact Bool.eq_false_iff.mpr fun hshown => hr (h (.inr ⟨t, ht, hshown⟩))
  · rintro (hr | ⟨hshown, halso⟩) (h | ⟨t, ht, h⟩)
    · exact hr
    · exact hr
    · rw [hshown] at h
      cases h
    · rw [halso t ht] at h
      cases h

/-- A foreign table, where tables were asked for. -/
theorem foreign_table_listed :
    PGAPI_Tables ⟨0, [], []⟩ (some (ascii "TABLE")) (fun _ => true)
        [⟨ascii "remote", ascii "public", 0x66⟩] =
      [⟨[], ascii "public", ascii "remote", ascii "FOREIGN TABLE", []⟩] ∧
    ¬ Asked (some (ascii "TABLE")) .foreignTable := by
  refine ⟨rfl, fun h => ?_⟩
  have hshown := shows_of_asked h
  revert hshown
  decide

end OdbcDriver.Catalog
