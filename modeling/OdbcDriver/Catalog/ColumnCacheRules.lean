import OdbcDriver.Catalog.ColumnCache
import OdbcDriver.Lib.RefCount

/-!
# The counters of the column cache

The counters of the `COL_INFO`s are those of `Lib/RefCount`: the `TABLE_INFO`s are the references.
Here are the parts of a call that looks a table up.

* `State.Core`, `State.Inv`: the counters, and what the cache keeps besides;
* `State.Core.point`, `State.Core.free_col_info_contents`, `State.Core.alloc`: what is done to a
  `COL_INFO`, and when the counters stay right;
* `State.Inv.getColumnsInfo`, `State.Inv.getCOLIfromTI`: the functions that do it.
-/

namespace OdbcDriver.ColumnCache

open CInt RefCount

variable {s s' : State} {id k : ℕ} {wti wti' : TABLE_INFO} {coli coli' : COL_INFO}
  {greloid reloid : BitVec 32} {reads : Reads} {res : Columns}

/-! ### Counters and references -/

/-- The counters of the `COL_INFO`s that are allocated. -/
def State.counts (s : State) (id : ℕ) : Option ℤ := (s.heap id).map COL_INFO.refcnt

theorem State.heap_setCol_self : (s.setCol id coli).heap id = some coli :=
  Function.update_self ..

theorem State.heap_setCol_of_ne {j : ℕ} (h : j ≠ id) : (s.setCol id coli).heap j = s.heap j :=
  Function.update_of_ne h ..

theorem State.counts_setCol :
    (s.setCol id coli).counts = Function.update s.counts id (some coli.refcnt) := by
  funext j
  by_cases hj : j = id
  · rw [hj, State.counts, State.heap_setCol_self, Function.update_self, Option.map_some]
  · rw [State.counts, State.heap_setCol_of_ne hj, Function.update_of_ne hj, State.counts]

theorem State.refs_setTable : (s.setTable k wti).refs = s.refs.set k wti.col_info := by
  rw [State.refs, State.setTable, List.map_set, State.refs, Option.bind_some]

theorem State.refs_construct : (s.construct wti).refs = s.refs ++ [wti.col_info] := by
  rw [State.refs, State.construct, List.map_append, State.refs, List.map_singleton,
    Option.bind_some]

theorem State.col_eq (h : s.heap id = some coli) : s.col id = coli := by
  rw [State.col, h, Option.getD_some]

theorem State.table_eq_some : s.table k = some wti ↔ s.ti[k]? = some (some wti) := by
  rw [State.table, Option.join_eq_some_iff]

theorem State.refs_getElem? (h : s.table k = some wti) : s.refs[k]? = some wti.col_info := by
  rw [State.refs, List.getElem?_map, State.table_eq_some.mp h, Option.map_some, Option.bind_some]

theorem State.table_setTable (h : s.table k = some wti) :
    (s.setTable k wti').table k = some wti' := by
  have hlt := (List.getElem?_eq_some_iff.mp (State.table_eq_some.mp h)).1
  rw [State.table_eq_some, State.setTable, List.getElem?_set_self hlt]

theorem State.table_construct : (s.construct wti).table s.ti.length = some wti := by
  rw [State.table_eq_some, State.construct, List.getElem?_concat_length]

/-- What is known of the counters alone. -/
structure State.Core (s : State) : Prop where
  counted : Counted s.counts s.refs
  fits : ∀ id coli, s.heap id = some coli → Fits 16 coli.refcnt
  fresh : ∀ id, s.next ≤ id → s.heap id = none
  freed_zero : ∀ refcnt ∈ s.freed, refcnt = 0

/-- The invariant: the cached `COL_INFO`s are allocated, each is cached once, and there is room for
them in the array. -/
structure State.Inv (s : State) : Prop extends s.Core where
  cached : ∀ id ∈ s.col_info, (s.heap id).isSome
  nodup : s.col_info.Nodup
  sized : s.col_info.length ≤ s.coli_allocated

theorem State.Core.right (h : s.Core) : Right s :=
  ⟨fun id coli hid => h.counted.eq id _ (by rw [State.counts, hid, Option.map_some]), h.freed_zero⟩

theorem State.start_inv : State.start.Inv where
  counted := counted_nil
  fits := fun _ _ h => nomatch h
  fresh := fun _ _ => rfl
  freed_zero := fun _ h => nomatch h
  cached := fun _ h => nomatch h
  nodup := List.nodup_nil
  sized := le_refl _

theorem State.counts_eq (h : s.heap id = some coli) : s.counts id = some coli.refcnt := by
  rw [State.counts, h, Option.map_some]

/-- A `COL_INFO` that is pointed to is allocated. -/
theorem State.Core.live (h : s.Core) (htable : s.table k = some wti)
    (hid : wti.col_info = some id) : ∃ coli, s.heap id = some coli := by
  have hmem : some id ∈ s.refs := by
    have hget := State.refs_getElem? htable
    rw [hid] at hget
    exact List.mem_of_getElem? hget
  have hlive := h.counted.live id hmem
  rw [State.counts, Option.isSome_map] at hlive
  exact Option.isSome_iff_exists.mp hlive

/-- What is left of the invariant where the cached `COL_INFO`s stay. -/
theorem State.Inv.of_core (h : s.Inv) (hcore : s'.Core) (hcol : s'.col_info = s.col_info)
    (halloc : s'.coli_allocated = s.coli_allocated)
    (hheap : ∀ id, (s.heap id).isSome → (s'.heap id).isSome) : s'.Inv := by
  refine ⟨hcore, ?_, ?_, ?_⟩
  · rw [hcol]
    exact fun id hid => hheap id (h.cached id hid)
  · rw [hcol]
    exact h.nodup
  · rw [hcol, halloc]
    exact h.sized

theorem State.isSome_setCol (h : (s.heap id).isSome) (j : ℕ) :
    ((s.setCol j coli).heap id).isSome := by
  by_cases hj : id = j
  · rw [hj, State.heap_setCol_self]
    rfl
  · rw [State.heap_setCol_of_ne hj]
    exact h

/-! ### The parts of a call -/

theorem State.Core.fresh_setCol (h : s.Core) (hid : s.heap id = some coli) (j : ℕ)
    (hj : s.next ≤ j) : (s.setCol id coli').heap j = none := by
  have hne : j ≠ id := by
    rintro rfl
    have hnone := h.fresh j hj
    rw [hid] at hnone
    cases hnone
  rw [State.heap_setCol_of_ne hne]
  exact h.fresh j hj

theorem State.Core.fits_setCol (h : s.Core) (hfits : Fits 16 coli'.refcnt) (j : ℕ)
    (hj : (s.setCol id coli').heap j = some coli) : Fits 16 coli.refcnt := by
  by_cases hne : j = id
  · rw [hne, State.heap_setCol_self] at hj
    exact Option.some.inj hj ▸ hfits
  · rw [State.heap_setCol_of_ne hne] at hj
    exact h.fits j coli hj

/-- A `COL_INFO` that keeps its counter. -/
theorem State.Core.setCol (h : s.Core) (hid : s.heap id = some coli) (coli' : COL_INFO)
    (hrefcnt : coli'.refcnt = coli.refcnt) : (s.setCol id coli').Core := by
  have hfits : Fits 16 coli'.refcnt := hrefcnt ▸ h.fits id coli hid
  refine ⟨?_, fun j _ => h.fits_setCol hfits j, h.fresh_setCol hid, h.freed_zero⟩
  have hself : Function.update s.counts id (some coli'.refcnt) = s.counts := by
    rw [hrefcnt, ← State.counts_eq hid, Function.update_eq_self]
  rw [State.counts_setCol, hself]
  exact h.counted

/-- A `TABLE_INFO` that keeps its `COL_INFO`. -/
theorem State.Core.setTable (h : s.Core) (htable : s.table k = some wti) (wti' : TABLE_INFO)
    (hcol : wti'.col_info = wti.col_info) : (s.setTable k wti').Core := by
  refine ⟨?_, h.fits, h.fresh, h.freed_zero⟩
  have hlt := (List.getElem?_eq_some_iff.mp (State.refs_getElem? htable)).1
  have hself : s.refs.set k wti'.col_info = s.refs := by
    rw [hcol]
    refine List.ext_getElem? fun j => ?_
    rw [List.getElem?_set]
    split_ifs with hj
    · rw [← hj, State.refs_getElem? htable]
    · rfl
  rw [State.refs_setTable, hself]
  exact h.counted

/-- **A `TABLE_INFO` is given a `COL_INFO`**, whose counter goes up. -/
theorem State.Core.point (h : s.Core) (htable : s.table k = some wti) (hnone : wti.col_info = none)
    (hid : s.heap id = some coli) (hrefcnt : coli'.refcnt = coli.refcnt + 1)
    (hfits : Fits 16 coli'.refcnt) (hcol : wti'.col_info = some id) :
    ((s.setCol id coli').setTable k wti').Core := by
  refine ⟨?_, fun j _ => h.fits_setCol hfits j, h.fresh_setCol hid, h.freed_zero⟩
  have hget := State.refs_getElem? htable
  rw [hnone] at hget
  have hacquire := h.counted.acquire hget (State.counts_eq hid)
  rw [← hrefcnt, ← State.counts_setCol, ← hcol] at hacquire
  rw [State.refs_setTable]
  exact hacquire

/-- **Contents are freed** while nothing points to them. -/
theorem State.Core.free_col_info_contents (h : s.Core) (hid : s.heap id = some coli)
    (hzero : coli.refcnt = 0) : (s.free_col_info_contents id).Core := by
  have hcore := h.setCol hid coli.contentsFreed hzero.symm
  rw [State.free_col_info_contents, State.col_eq hid]
  refine ⟨hcore.counted, hcore.fits, hcore.fresh, fun refcnt hmem => ?_⟩
  rcases List.mem_append.mp hmem with hmem | hmem
  · exact h.freed_zero refcnt hmem
  · rw [List.mem_singleton.mp hmem, hzero]

/-- A new `COL_INFO`. -/
theorem State.Core.alloc (h : s.Core) (col_info : List ℕ) (coli_allocated : ℤ) :
    State.Core ({ s with
      col_info := col_info
      coli_allocated := coli_allocated
      next := s.next + 1 }.setCol s.next .initialized) := by
  refine ⟨?_, fun j _ => h.fits_setCol (by decide) j, ?_, h.freed_zero⟩
  · have hnone : s.counts s.next = none := by
      rw [State.counts, h.fresh s.next (le_refl _), Option.map_none]
    rw [State.counts_setCol]
    exact h.counted.alloc hnone
  · intro j hj
    have hlt : s.next < j := hj
    rw [State.heap_setCol_of_ne hlt.ne']
    exact h.fresh j hlt.le

/-- A `COL_INFO` that nothing points to is given up. -/
theorem State.Core.freeCol (h : s.Core) (hid : s.heap id = some coli) (hzero : coli.refcnt = 0) :
    (s.freeCol id).Core := by
  have hself : (s.freeCol id).heap id = none := Function.update_self ..
  have hother : ∀ j, j ≠ id → (s.freeCol id).heap j = s.heap j := fun j hj =>
    Function.update_of_ne hj ..
  refine ⟨?_, ?_, ?_, h.freed_zero⟩
  · have hcounts : (s.freeCol id).counts = Function.update s.counts id none := by
      funext j
      by_cases hj : j = id
      · rw [hj, State.counts, hself, Function.update_self, Option.map_none]
      · rw [State.counts, hother j hj, Function.update_of_ne hj, State.counts]
    rw [hcounts]
    exact h.counted.free (by rw [State.counts_eq hid, hzero])
  · intro j coli hj
    by_cases hne : j = id
    · rw [hne, hself] at hj
      cases hj
    · rw [hother j hne] at hj
      exact h.fits j coli hj
  · intro j hj
    by_cases hne : j = id
    · rw [hne, hself]
    · rw [hother j hne]
      exact h.fresh j hj

theorem State.Core.construct (h : s.Core) (hnone : wti.col_info = none) :
    (s.construct wti).Core := by
  refine ⟨?_, h.fits, h.fresh, h.freed_zero⟩
  rw [State.refs_construct, hnone]
  exact h.counted.append_none

/-- A `TABLE_INFO` without a `COL_INFO` is given up. -/
theorem State.Core.freeTable (h : s.Core) (htable : s.table k = some wti)
    (hnone : wti.col_info = none) : (s.freeTable k).Core := by
  have hcore := h.setTable htable wti rfl
  refine ⟨?_, h.fits, h.fresh, h.freed_zero⟩
  have hrefs : (s.freeTable k).refs = (s.setTable k wti).refs := by
    rw [State.refs_setTable, State.refs, State.freeTable, List.map_set, hnone]
    rfl
  rw [hrefs]
  exact hcore.counted

/-! ### Looking up -/

/-- A `TABLE_INFO` is given a `COL_INFO` of the cache. -/
theorem State.Inv.point (h : s.Inv) (htable : s.table k = some wti) (hnone : wti.col_info = none)
    (hid : s.heap id = some coli) (hrefcnt : coli'.refcnt = coli.refcnt + 1)
    (hfits : Fits 16 coli'.refcnt) (hcol : wti'.col_info = some id) :
    ((s.setCol id coli').setTable k wti').Inv :=
  h.of_core (h.toCore.point htable hnone hid hrefcnt hfits hcol) rfl rfl fun _ hj =>
    State.isSome_setCol hj id

theorem State.Inv.setCol (h : s.Inv) (hid : s.heap id = some coli) (coli' : COL_INFO)
    (hrefcnt : coli'.refcnt = coli.refcnt) : (s.setCol id coli').Inv :=
  h.of_core (h.toCore.setCol hid coli' hrefcnt) rfl rfl fun _ hj => State.isSome_setCol hj id

theorem State.Inv.setTable (h : s.Inv) (htable : s.table k = some wti) (wti' : TABLE_INFO)
    (hcol : wti'.col_info = wti.col_info) : (s.setTable k wti').Inv :=
  h.of_core (h.toCore.setTable htable wti' hcol) rfl rfl fun _ hj => hj

theorem State.Inv.construct (h : s.Inv) (hnone : wti.col_info = none) : (s.construct wti).Inv :=
  h.of_core (h.toCore.construct hnone) rfl rfl fun _ hj => hj

theorem State.Inv.freeTable (h : s.Inv) (htable : s.table k = some wti)
    (hnone : wti.col_info = none) : (s.freeTable k).Inv :=
  h.of_core (h.toCore.freeTable htable hnone) rfl rfl fun _ hj => hj

theorem State.Inv.free_col_info_contents (h : s.Inv) (hid : s.heap id = some coli)
    (hzero : coli.refcnt = 0) : (s.free_col_info_contents id).Inv :=
  h.of_core (h.toCore.free_col_info_contents hid hzero) rfl rfl fun _ hj =>
    State.isSome_setCol hj id

/-- A cached `COL_INFO` that nothing points to is filled for a `TABLE_INFO`. -/
theorem State.Inv.fill (h : s.Inv) (htable : s.table k = some wti) (hnone : wti.col_info = none)
    (hid : s.heap id = some coli) (hzero : coli.refcnt = 0) :
    (s.fill id k wti greloid res).Inv :=
  h.point htable hnone hid (by rw [hzero]; rfl) (by decide : Fits 16 (0 + 1)) rfl

/-- The `COL_INFO` that is used again is cached, and nothing points to it. -/
theorem State.reusable_some {ids : List ℕ} {ccoli : Option (ℕ × ℤ)} {P : ℕ → Prop}
    (hids : ∀ id ∈ ids, ¬0 < (s.col id).refcnt → P id) (hccoli : ∀ e, ccoli = some e → P e.1)
    (h : s.reusable ids ccoli = some id) : P id := by
  induction ids generalizing ccoli with
  | nil =>
    rw [State.reusable] at h
    split_ifs at h
    obtain ⟨e, he, rfl⟩ := Option.map_eq_some_iff.mp h
    exact hccoli e he
  | cons j ids ih =>
    have hrest : ∀ id ∈ ids, ¬0 < (s.col id).refcnt → P id := fun id hid =>
      hids id (List.mem_cons_of_mem j hid)
    rw [State.reusable] at h
    split_ifs at h with hpos hempty hold
    · exact ih hrest hccoli h
    · rw [← Option.some.inj h]
      exact hids j List.mem_cons_self hpos
    · refine ih hrest (fun e he => ?_) h
      rw [← Option.some.inj he]
      exact hids j List.mem_cons_self hpos
    · exact ih hrest hccoli h

theorem State.grow_eq : s.grow = { s with coli_allocated := s.grow.coli_allocated } := by
  rw [State.grow]
  split_ifs <;> rfl

/-- There is room for another `COL_INFO`, unless there are too many for an `Int2`. -/
theorem State.Inv.length_lt_grow (h : s.Inv) (hlen : s.col_info.length < 16384) :
    s.col_info.length < s.grow.coli_allocated := by
  have hsized := h.sized
  rw [State.grow]
  split_ifs with hfull
  · have hfits : Fits 16 (s.coli_allocated * 2) := by
      rw [Fits]
      omega
    simp only [wrap_of_fits (by decide) hfits]
    split_ifs <;> omega
  · omega

theorem State.fill_setCol (coli : COL_INFO) :
    (s.setCol id coli).fill id k wti greloid res = s.fill id k wti greloid res := by
  simp only [State.fill, State.setCol, Function.update_idem]

/-- A new `COL_INFO` is made for a `TABLE_INFO`. -/
theorem State.Inv.fill_new (h : s.Inv) (htable : s.table k = some wti)
    (hnone : wti.col_info = none) (hlen : s.col_info.length < 16384) :
    State.Inv (State.fill { s.grow with
      col_info := s.col_info ++ [s.next]
      next := s.next + 1 } s.next k wti greloid res) := by
  have hroom := h.length_lt_grow hlen
  have hcore := h.toCore.alloc (s.col_info ++ [s.next]) s.grow.coli_allocated
  have hunused : s.next ∉ s.col_info := by
    intro hmem
    have hsome := h.cached _ hmem
    rw [h.fresh s.next (le_refl _)] at hsome
    cases hsome
  rw [State.grow_eq, ← State.fill_setCol .initialized]
  refine State.Inv.fill ⟨hcore, ?_, ?_, ?_⟩ htable hnone State.heap_setCol_self rfl
  · intro id hid
    rcases List.mem_append.mp hid with hid | hid
    · exact State.isSome_setCol (h.cached id hid) s.next
    · rw [List.mem_singleton.mp hid, State.heap_setCol_self]
      rfl
  · exact List.nodup_append.mpr ⟨h.nodup, List.nodup_singleton _, fun a ha b hb hab =>
      hunused (List.mem_singleton.mp hb ▸ hab ▸ ha)⟩
  · change (((s.col_info ++ [s.next]).length : ℕ) : ℤ) ≤ s.grow.coli_allocated
    rw [List.length_append, List.length_singleton]
    omega

/-- **`getColumnsInfo`**, for a `TABLE_INFO` without a `COL_INFO` that is not in the cache. -/
theorem State.Inv.getColumnsInfo (h : s.Inv) (htable : s.table k = some wti)
    (hnone : wti.col_info = none) (hoid : greloid ≠ 0 → s.findOid greloid = none)
    (hlen : s.col_info.length < 16384) (reads : Fetched) :
    ∃ s' found, s.getColumnsInfo k wti greloid reads = some (s', found) ∧ s'.Inv := by
  have hcached : (if greloid = 0 then none else s.findOid greloid) = none := by
    split_ifs with hzero
    · rfl
    · exact hoid hzero
  have hroom := h.length_lt_grow hlen
  rw [State.getColumnsInfo, hcached, Option.none_or]
  cases reads.columns with
  | none => exact ⟨s, false, rfl, h⟩
  | some res =>
    cases hreuse : s.reusable s.col_info none with
    | some id =>
      obtain ⟨hmem, hpos⟩ : id ∈ s.col_info ∧ ¬0 < (s.col id).refcnt :=
        State.reusable_some (P := fun id => id ∈ s.col_info ∧ ¬0 < (s.col id).refcnt)
          (fun _ hid hpos => ⟨hid, hpos⟩) (fun _ he => absurd he.symm (Option.some_ne_none _))
          hreuse
      obtain ⟨coli, hid⟩ := Option.isSome_iff_exists.mp (h.cached id hmem)
      have hzero : coli.refcnt = 0 := by
        have hnonneg := h.counted.nonneg (State.counts_eq hid)
        rw [State.col_eq hid] at hpos
        omega
      have hfreed : (s.free_col_info_contents id).heap id = some (s.col id).contentsFreed :=
        State.heap_setCol_self
      exact ⟨_, true, rfl, (h.free_col_info_contents hid hzero).fill htable hnone hfreed rfl⟩
    | none =>
      dsimp only
      split_ifs with harray hfull hmemory
      · exact ⟨s, false, rfl, h⟩
      · omega
      · refine ⟨s.grow, false, rfl, ?_⟩
        rw [State.grow_eq]
        exact ⟨⟨h.counted, h.fits, h.fresh, h.freed_zero⟩, h.cached, h.nodup, hroom.le⟩
      · exact ⟨_, true, rfl, h.fill_new htable hnone hlen⟩

theorem State.findOid_cached {oid : BitVec 32} (h : s.findOid oid = some id) :
    id ∈ s.col_info :=
  List.mem_of_find?_eq_some h

theorem State.findName_cached {schema : List Byte} {table_name : Name}
    (h : s.findName schema table_name = some id) : id ∈ s.col_info :=
  List.mem_of_find?_eq_some h

theorem State.getCOLIfromTable_cached {schema_name table_name curschema nspname name : Name}
    (h : s.getCOLIfromTable schema_name table_name curschema nspname = some (name, some id)) :
    id ∈ s.col_info := by
  unfold State.getCOLIfromTable at h
  split_ifs at h with hnull
  · cases h
  · split at h
    · exact State.findName_cached (Prod.mk.inj (Option.some.inj h)).2
    · split at h
      · rename_i hcur
        obtain ⟨schema, -, hfind⟩ := Option.bind_eq_some_iff.mp hcur
        rw [← Option.some.inj (Prod.mk.inj (Option.some.inj h)).2]
        exact State.findName_cached hfind
      · obtain ⟨schema, -, heq⟩ := Option.map_eq_some_iff.mp h
        exact State.findName_cached (Prod.mk.inj heq).2

/-- What is found is cached. -/
theorem State.find_cached {name : Name} (h : s.find wti greloid reads = some (name, some id)) :
    id ∈ s.col_info := by
  rw [State.find] at h
  split_ifs at h
  · exact State.findOid_cached (Prod.mk.inj (Option.some.inj h)).2
  · exact State.getCOLIfromTable_cached h

theorem State.findOid_of_find {name : Name} (h : s.find wti greloid reads = some (name, none))
    (hoid : greloid ≠ 0) : s.findOid greloid = none := by
  rw [State.find, if_pos hoid] at h
  exact (Prod.mk.inj (Option.some.inj h)).2

/-- The counter or the array has room for what a lookup does. -/
def State.Room (s : State) (wti : TABLE_INFO) (greloid : BitVec 32) (reads : Reads) : Prop :=
  match s.find wti greloid reads with
  | none => True
  | some (_, some id) => s.refs.count (some id) < 32767
  | some (_, none) => s.col_info.length < 16384

/-- The counter of a `COL_INFO` that is pointed to once more. -/
theorem State.Inv.attach (h : s.Inv) (htable : s.table k = some wti) (hnone : wti.col_info = none)
    (hmem : id ∈ s.col_info) (hroom : s.refs.count (some id) < 32767) :
    (s.attach id k wti').Inv := by
  obtain ⟨coli, hid⟩ := Option.isSome_iff_exists.mp (h.cached id hmem)
  have hcount := h.counted.eq id _ (State.counts_eq hid)
  have hfits : Fits 16 (coli.refcnt + 1) := by
    rw [Fits]
    omega
  rw [State.attach, State.col_eq hid, wrap_of_fits (by decide) hfits]
  exact h.point htable hnone hid rfl hfits rfl

/-- **The first part of `getCOLIfromTI`.** -/
theorem State.Inv.obtain (h : s.Inv) (htable : s.table k = some wti)
    (hroom : wti.col_info = none → s.Room wti greloid reads) :
    ∃ s' found, s.obtain k wti greloid reads = some (s', found) ∧ s'.Inv := by
  rw [State.obtain]
  split_ifs with hsome
  · exact ⟨s, true, rfl, h⟩
  · have hnone : wti.col_info = none := by simpa using hsome
    have hroom := hroom hnone
    rw [State.Room] at hroom
    split
    · exact ⟨s, false, rfl, h⟩
    · rename_i name id hfind
      rw [hfind] at hroom
      exact ⟨_, true, rfl, h.attach htable hnone (State.find_cached hfind) hroom⟩
    · rename_i name hfind
      rw [hfind] at hroom
      have hset := h.setTable htable { wti with schema_name := name } rfl
      dsimp only
      split_ifs
      · exact hset.getColumnsInfo (State.table_setTable htable) hnone
          (State.findOid_of_find hfind) hroom reads.toFetched
      · exact ⟨_, false, rfl, hset⟩

theorem State.Inv.touch (h : s.Inv) (time : ℤ) : (s.touch k time).Inv := by
  rw [State.touch]
  split
  · exact h
  · rename_i id hcol
    obtain ⟨wti, htable, hid⟩ := Option.bind_eq_some_iff.mp hcol
    obtain ⟨coli, hcoli⟩ := h.live htable hid
    rw [State.col_eq hcoli]
    exact h.setCol hcoli _ rfl

/-- Without columns nothing is read anew. -/
theorem State.refresh_none {reads : Fetched} (h : reads.columns = none) :
    s.refresh k reads = some s := by
  rw [State.refresh]
  split
  · rfl
  · rw [State.getColumnsInfo, h, Option.map_some]

theorem State.refresh_foldlM {refreshes : List Fetched}
    (h : ∀ reads ∈ refreshes, reads.columns = none) :
    refreshes.foldlM (State.refresh k) s = some s := by
  induction refreshes with
  | nil => rfl
  | cons reads refreshes ih =>
    rw [List.foldlM_cons, State.refresh_none (h reads List.mem_cons_self)]
    exact ih fun r hr => h r (List.mem_cons_of_mem reads hr)

theorem State.Inv.ColAttSet (h : s.Inv) {refreshes : List Fetched}
    (hrefreshes : ∀ reads ∈ refreshes, reads.columns = none) (returns : Bool) :
    ∃ s', s.ColAttSet k refreshes returns = some s' ∧ s'.Inv := by
  rw [State.ColAttSet]
  split
  · exact ⟨s, rfl, h⟩
  · rename_i wti htable
    have hset : State.Inv (if returns then s else
        s.setTable k { wti with colAttribute := true }) := by
      split_ifs
      · exact h
      · exact h.setTable htable _ rfl
    by_cases hdone : wti.table_oid = 0 ∨ wti.colAttribute = true
    · rw [if_pos hdone]
      exact ⟨s, rfl, h⟩
    · rw [if_neg hdone, State.refresh_foldlM hrefreshes, Option.map_some, htable]
      exact ⟨_, rfl, hset⟩

/-- The columns that `SQLColAttribute` asks for anew, if it asks. -/
def Quiet (colatt : Option (List Fetched × Bool)) : Prop :=
  ∀ refreshes returns, colatt = some (refreshes, returns) →
    ∀ reads ∈ refreshes, reads.columns = none

theorem State.Inv.complete (h : s.Inv) (htable : s.table k = some wti) (greloid : BitVec 32) :
    (s.complete k wti greloid).Inv := by
  rw [State.complete]
  split
  · exact h.setTable htable _ rfl
  · exact h

/-- **The last part of `getCOLIfromTI`.** -/
theorem State.Inv.finish (h : s.Inv) {colatt : Option (List Fetched × Bool)}
    (hquiet : Quiet colatt) (greloid : BitVec 32) (time : ℤ) :
    ∃ s', s.finish k greloid time colatt = some s' ∧ s'.Inv := by
  rw [State.finish]
  split
  · exact ⟨s, rfl, h⟩
  · rename_i wti htable
    have hcomplete := h.complete htable greloid
    split
    · exact ⟨_, rfl, hcomplete.touch time⟩
    · rename_i refreshes returns
      obtain ⟨s', heq, hs'⟩ := hcomplete.ColAttSet (k := k) (hquiet _ _ rfl) returns
      rw [heq]
      exact ⟨_, rfl, hs'.touch time⟩

/-- **`getCOLIfromTI`.** -/
theorem State.Inv.getCOLIfromTI (h : s.Inv) {colatt : Option (List Fetched × Bool)}
    (hquiet : Quiet colatt)
    (hroom : ∀ wti, s.table k = some wti → wti.col_info = none →
      s.Room wti (wti.sought reloid) reads) :
    ∃ s', s.getCOLIfromTI k reloid reads colatt = some s' ∧ s'.Inv := by
  rw [State.getCOLIfromTI]
  split
  · exact ⟨s, rfl, h⟩
  · rename_i wti htable
    obtain ⟨s', found, heq, hs'⟩ := h.obtain htable (hroom wti htable)
    rw [heq]
    cases found with
    | false => exact ⟨s', rfl, hs'⟩
    | true => exact hs'.finish hquiet _ _

end OdbcDriver.ColumnCache
