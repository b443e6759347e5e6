import OdbcDriver.Catalog.ColumnCacheRules

/-!
# Runs of the column cache

The calls of a connection keep the counters right, with three exceptions: a `TABLE_INFO` that has a
`COL_INFO` may be given another one for `SQLColAttribute`, the local one of `@@identity` is never
destroyed, and a statement that is executing outlives the cache of its connection.

* `State.Inv.destroy`, `State.Inv.CC_clear_col_info`: what gives references and `COL_INFO`s up;
* `CacheCall.Fine`: the calls without these exceptions;
* `refcnt_right`: the runs in which the counters are right.
-/

namespace OdbcDriver.ColumnCache

open CInt RefCount

variable {s s' : State} {id k : ℕ} {wti wti' : TABLE_INFO} {coli coli' : COL_INFO}
  {greloid reloid : BitVec 32} {reads : Reads} {res : Columns}

/-! ### `TI_Destructor` -/

/-- **A `TABLE_INFO` is destroyed**, and the counter of its `COL_INFO` goes down. -/
theorem State.Core.release (h : s.Core) (htable : s.table k = some wti)
    (hsome : wti.col_info = some id) (hid : s.heap id = some coli) (coli' : COL_INFO)
    (hrefcnt : coli'.refcnt = coli.refcnt - 1) (hfits : Fits 16 coli'.refcnt) :
    ((s.setCol id coli').freeTable k).Core := by
  refine ⟨?_, fun j _ => h.fits_setCol hfits j, h.fresh_setCol hid, h.freed_zero⟩
  have hget := State.refs_getElem? htable
  rw [hsome] at hget
  have hrelease := h.counted.release hget (State.counts_eq hid)
  have hrefs : ((s.setCol id coli').freeTable k).refs = s.refs.set k none := by
    rw [State.refs, State.freeTable, List.map_set]
    rfl
  rw [← hrefcnt, ← State.counts_setCol, ← hrefs] at hrelease
  exact hrelease

theorem State.Core.refcnt_pos (h : s.Core) (htable : s.table k = some wti)
    (hsome : wti.col_info = some id) (hid : s.heap id = some coli) : 0 < coli.refcnt := by
  have hget := State.refs_getElem? htable
  rw [hsome] at hget
  have hne := mt (h.counted.zero_iff (State.counts_eq hid)).mp
    (not_not.mpr (List.mem_of_getElem? hget))
  have hnonneg := h.counted.nonneg (State.counts_eq hid)
  omega

theorem State.unref_ti : (s.unref wti).ti = s.ti := by
  rw [State.unref]
  split
  · rfl
  · dsimp only
    split_ifs <;> rfl

theorem State.unref_col_info : (s.unref wti).col_info = s.col_info := by
  rw [State.unref]
  split
  · rfl
  · dsimp only
    split_ifs <;> rfl

theorem State.Inv.destroy (h : s.Inv) (k : ℕ) : (s.destroy k).Inv := by
  rw [State.destroy]
  split
  · exact h
  · rename_i wti htable
    rw [State.unref]
    cases hcol : wti.col_info with
    | none => exact h.freeTable htable hcol
    | some id =>
      obtain ⟨coli, hid⟩ := h.live htable hcol
      have hpos := h.refcnt_pos htable hcol hid
      have hfits := h.fits id coli hid
      have hfits' : Fits 16 (coli.refcnt - 1) := by
        rw [Fits] at hfits ⊢
        omega
      simp only [State.col_eq hid, wrap_of_fits (by decide) hfits',
        State.col_eq State.heap_setCol_self]
      have hrelease := h.of_core
        (h.toCore.release htable hcol hid { coli with refcnt := coli.refcnt - 1 } rfl hfits')
        rfl rfl fun _ hj => State.isSome_setCol hj id
      split_ifs with hdropped
      · have hzero : coli.refcnt - 1 = 0 := by omega
        exact hrelease.free_col_info_contents State.heap_setCol_self hzero
      · exact hrelease

theorem State.Inv.TI_Destructor (h : s.Inv) (ti : List ℕ) : (s.TI_Destructor ti).Inv := by
  rw [State.TI_Destructor]
  induction ti generalizing s with
  | nil => exact h
  | cons k ti ih => exact ih (h.destroy k)

/-- The other `TABLE_INFO`s stay as they are. -/
theorem State.table_destroy (s : State) (k j : ℕ) :
    (s.destroy k).table j = if j = k then none else s.table j := by
  rw [State.destroy]
  split
  · rename_i hnone
    by_cases hj : j = k
    · rw [if_pos hj, hj, hnone]
    · rw [if_neg hj]
  · rw [State.table, State.freeTable, State.unref_ti, List.getElem?_set]
    by_cases hj : j = k
    · rw [if_pos hj, if_pos hj.symm]
      split_ifs <;> rfl
    · rw [if_neg hj, if_neg (Ne.symm hj)]
      rfl

theorem State.col_info_destroy (s : State) (k : ℕ) : (s.destroy k).col_info = s.col_info := by
  rw [State.destroy]
  split
  · rfl
  · exact State.unref_col_info

theorem State.table_TI_Destructor (ti : List ℕ) (j : ℕ) :
    (s.TI_Destructor ti).table j = if j ∈ ti then none else s.table j := by
  rw [State.TI_Destructor]
  induction ti generalizing s with
  | nil => rfl
  | cons k ti ih =>
    rw [List.foldl_cons, ih, State.table_destroy]
    by_cases hj : j ∈ ti
    · rw [if_pos hj, if_pos (List.mem_cons_of_mem k hj)]
    · rw [if_neg hj]
      simp only [List.mem_cons, hj, or_false]

theorem State.col_info_TI_Destructor (ti : List ℕ) :
    (s.TI_Destructor ti).col_info = s.col_info := by
  rw [State.TI_Destructor]
  induction ti generalizing s with
  | nil => rfl
  | cons k ti ih => rw [List.foldl_cons, ih, State.col_info_destroy]

/-! ### `CC_clear_col_info` -/

/-- A `COL_INFO` is freed while nothing points to it, or it is only marked. -/
theorem State.Core.clearCol {destroy : Bool} (h : s.Core) (hid : s.heap id = some coli)
    (hzero : destroy → coli.refcnt = 0) : (s.clearCol destroy id).Core := by
  rw [State.clearCol, State.col_eq hid]
  split_ifs with hfree
  · have hcoli : coli.refcnt = 0 := hfree.elim hzero fun hzero => hzero
    exact (h.free_col_info_contents hid hcoli).freeCol State.heap_setCol_self rfl
  · exact h.setCol hid _ rfl

theorem State.refs_clearCol (destroy : Bool) (id : ℕ) : (s.clearCol destroy id).refs = s.refs := by
  rw [State.clearCol]
  split_ifs <;> rfl

theorem State.heap_clearCol {destroy : Bool} {j : ℕ} (hj : j ≠ id) :
    (s.clearCol destroy id).heap j = s.heap j := by
  have hset : ∀ coli, (s.setCol id coli).heap j = s.heap j := fun _ => State.heap_setCol_of_ne hj
  rw [State.clearCol]
  split_ifs
  · exact (Function.update_of_ne hj ..).trans (hset _)
  · exact hset _

/-- Each cached `COL_INFO` is met once, and is still allocated then. -/
theorem State.Core.clearCols {destroy : Bool} {ids : List ℕ} (h : s.Core) (hnodup : ids.Nodup)
    (hcached : ∀ id ∈ ids, (s.heap id).isSome)
    (hunused : destroy → ∀ id ∈ ids, some id ∉ s.refs) :
    (ids.foldl (State.clearCol destroy) s).Core := by
  induction ids generalizing s with
  | nil => exact h
  | cons id ids ih =>
    obtain ⟨hnot, hnodup⟩ := List.nodup_cons.mp hnodup
    obtain ⟨coli, hid⟩ := Option.isSome_iff_exists.mp (hcached id List.mem_cons_self)
    have hzero : destroy → coli.refcnt = 0 := fun hdestroy =>
      (h.counted.zero_iff (State.counts_eq hid)).mpr (hunused hdestroy id List.mem_cons_self)
    refine ih (h.clearCol hid hzero) hnodup (fun j hj => ?_) (fun hdestroy j hj => ?_)
    · rw [State.heap_clearCol (ne_of_mem_of_not_mem hj hnot)]
      exact hcached j (List.mem_cons_of_mem id hj)
    · rw [State.refs_clearCol]
      exact hunused hdestroy j (List.mem_cons_of_mem id hj)

/-- **`CC_clear_col_info`**, with nothing that points to the cache where all of it is freed. -/
theorem State.Inv.CC_clear_col_info {destroy : Bool} (h : s.Inv)
    (hunused : destroy → ∀ id ∈ s.col_info, some id ∉ s.refs) :
    (s.CC_clear_col_info destroy).Inv := by
  have hcore := h.toCore.clearCols h.nodup h.cached hunused
  refine ⟨⟨hcore.counted, hcore.fits, hcore.fresh, hcore.freed_zero⟩, (fun _ hid => nomatch hid),
    List.nodup_nil, ?_⟩
  have hsized := h.sized
  change (0 : ℤ) ≤ if destroy then 0 else s.coli_allocated
  split_ifs <;> omega

theorem State.mem_refs (h : some id ∈ s.refs) :
    ∃ k wti, s.table k = some wti ∧ wti.col_info = some id := by
  obtain ⟨k, hk⟩ := List.mem_iff_getElem?.mp h
  rw [State.refs, List.getElem?_map] at hk
  obtain ⟨t, ht, hbind⟩ := Option.map_eq_some_iff.mp hk
  obtain ⟨wti, rfl, hcol⟩ := Option.bind_eq_some_iff.mp hbind
  exact ⟨k, wti, State.table_eq_some.mpr ht, hcol⟩

/-- **`CC_cleanup`**, with no statement executing that has a table in the cache. -/
theorem State.Inv.CC_cleanup (h : s.Inv) {executing : List ℕ}
    (hexecuting : ∀ k ∈ executing, ∀ wti, s.table k = some wti →
      ∀ id ∈ s.col_info, wti.col_info ≠ some id) : (s.CC_cleanup executing).Inv := by
  rw [State.CC_cleanup]
  refine (h.TI_Destructor _).CC_clear_col_info fun _ id hid hmem => ?_
  obtain ⟨k, wti, htable, hcol⟩ := State.mem_refs hmem
  rw [State.col_info_TI_Destructor] at hid
  rw [State.table_TI_Destructor] at htable
  split_ifs at htable with hk
  have hlt : k < s.ti.length :=
    (List.getElem?_eq_some_iff.mp (State.table_eq_some.mp htable)).1
  have hmem : k ∈ executing := by
    by_contra hnot
    exact hk (List.mem_filter.mpr ⟨List.mem_range.mpr hlt, by simpa using hnot⟩)
  exact hexecuting k hmem wti htable id hid hcol

/-! ### Runs -/

/-- A lookup has room, where the `TABLE_INFO` does not have a `COL_INFO` yet. -/
def State.Roomy (s : State) (k : ℕ) (reloid : BitVec 32) (reads : Reads) : Prop :=
  ∀ wti, s.table k = some wti → wti.col_info = none → s.Room wti (wti.sought reloid) reads

/-- A table is neither cached nor known to the server. -/
def State.Unknown (s : State) (wti : TABLE_INFO) (reads : Reads) : Prop :=
  match s.find wti 0 reads with
  | none => True
  | some (_, some _) => False
  | some (_, none) => reads.columns = none

/-- The calls that keep the counters right. -/
def CacheCall.Fine (s : State) : CacheCall → Prop
  | lookup k reads => s.Roomy k 0 reads
  | colAttribute ti reloid memory reads refreshes _ =>
    (∀ reads ∈ refreshes, reads.columns = none) ∧
      ∀ s' k, s.attributeTable ti reloid memory = some (s', k) → s'.Roomy k reloid reads
  | identity schemaIns tableIns reads =>
    tableIns = none ∨
      s.Unknown { TABLE_INFO.new with schema_name := schemaIns, table_name := tableIns } reads
  | cleanup executing =>
    ∀ k ∈ executing, ∀ wti, s.table k = some wti → ∀ id ∈ s.col_info, wti.col_info ≠ some id
  | construct .. | rename .. | destruct _ | clear => True

theorem State.Unknown.cases (h : s.Unknown wti reads) : s.find wti 0 reads = none ∨
    ∃ name, s.find wti 0 reads = some (name, none) ∧ reads.columns = none := by
  rw [State.Unknown] at h
  split at h
  · rename_i hfind
    exact Or.inl hfind
  · exact h.elim
  · rename_i name hfind
    exact Or.inr ⟨name, hfind, h⟩

/-- A `TABLE_INFO` for which nothing is found. -/
theorem State.Inv.getCOLIfromTI_unknown (h : s.Inv) (htable : s.table k = some wti)
    (hnone : wti.col_info = none) (hoid : wti.table_oid = 0) (hunknown : s.Unknown wti reads) :
    ∃ s', s.getCOLIfromTI k 0 reads none = some s' ∧ (s'.freeTable k).Inv := by
  have hsought : wti.sought 0 = 0 := by rw [TABLE_INFO.sought, if_pos rfl, hoid]
  rw [State.getCOLIfromTI, htable]
  dsimp only
  rw [hsought, State.obtain, if_neg (by simp [hnone])]
  obtain hfind | ⟨name, hfind, hcolumns⟩ := hunknown.cases
  · rw [hfind]
    exact ⟨s, rfl, h.freeTable htable hnone⟩
  · have hset := h.setTable htable { wti with schema_name := name } rfl
    have hfree := hset.freeTable (State.table_setTable htable) hnone
    rw [hfind]
    dsimp only
    rw [State.getColumnsInfo, hcolumns]
    by_cases hnamed : (0 : BitVec 32) ≠ 0 ∨ wti.table_name.isSome
    · rw [if_pos hnamed]
      exact ⟨_, rfl, hfree⟩
    · rw [if_neg hnamed]
      exact ⟨_, rfl, hfree⟩

theorem State.Inv.attributeTable (h : s.Inv) {ti : List ℕ} {memory : Bool}
    (heq : s.attributeTable ti reloid memory = some (s', k)) : s'.Inv := by
  rw [State.attributeTable] at heq
  by_cases hzero : reloid = 0
  · rw [if_pos hzero] at heq
    cases heq
  · rw [if_neg hzero] at heq
    split at heq
    · rw [← (Prod.mk.inj (Option.some.inj heq)).1]
      exact h
    · split_ifs at heq
      rw [← (Prod.mk.inj (Option.some.inj heq)).1]
      exact h.construct rfl

/-- **A call that is fine** is one that the driver can make, and keeps the invariant. -/
theorem CacheCall.run_inv (h : s.Inv) {call : CacheCall} (hfine : call.Fine s) :
    ∃ s', call.run s = some s' ∧ s'.Inv := by
  cases call with
  | construct schema_name table_name => exact ⟨_, rfl, h.construct rfl⟩
  | rename k table_oid schema_name table_name =>
    rw [CacheCall.run]
    split
    · exact ⟨s, rfl, h⟩
    · rename_i wti htable
      exact ⟨_, rfl, h.setTable htable _ rfl⟩
  | destruct ti => exact ⟨_, rfl, h.TI_Destructor ti⟩
  | lookup k reads => exact h.getCOLIfromTI (fun _ _ hnone => nomatch hnone) hfine
  | colAttribute ti reloid memory reads refreshes returns =>
    obtain ⟨hquiet, hroom⟩ := hfine
    rw [CacheCall.run]
    split
    · exact ⟨s, rfl, h⟩
    · rename_i s' k heq
      refine (h.attributeTable heq).getCOLIfromTI (fun _ _ hsome => ?_) (hroom s' k heq)
      rw [← (Prod.mk.inj (Option.some.inj hsome)).1]
      exact hquiet
  | identity schemaIns tableIns reads =>
    rw [CacheCall.run]
    split_ifs with hnone
    · exact ⟨s, rfl, h⟩
    · have hunknown := hfine.resolve_left hnone
      have hcon : (s.construct { TABLE_INFO.new with
          schema_name := schemaIns, table_name := tableIns }).Inv := h.construct rfl
      obtain ⟨s', heq, hs'⟩ := hcon.getCOLIfromTI_unknown State.table_construct rfl rfl hunknown
      rw [heq]
      exact ⟨_, rfl, hs'⟩
  | clear => exact ⟨_, rfl, h.CC_clear_col_info fun hdestroy => nomatch hdestroy⟩
  | cleanup executing => exact ⟨_, rfl, h.CC_cleanup hfine⟩

/-- The states of the runs all of whose calls meet a condition. -/
inductive State.Run (P : CacheCall → State → Prop) : State → Prop
  | start : State.Run P .start
  | step {s s' : State} (call : CacheCall) :
      State.Run P s → P call s → call.run s = some s' → State.Run P s'

theorem State.Run.inv (h : s.Run fun call s => call.Fine s) : s.Inv := by
  induction h with
  | start => exact State.start_inv
  | step call _ hfine hrun ih =>
    obtain ⟨s'', heq, hs''⟩ := CacheCall.run_inv ih hfine
    rw [hrun] at heq
    exact Option.some.inj heq ▸ hs''

/-- **The counters of the column cache.** In every state of a run whose calls are fine, every
counter is the number of `TABLE_INFO`s that point to the `COL_INFO`, and contents have been freed
only where it was zero. -/
theorem refcnt_right (h : s.Run fun call s => call.Fine s) : Right s :=
  h.inv.right

/-! ### A table that rows were inserted into -/

def tableT : Columns := ⟨16384, some (ascii "public"), some (ascii "t"), 0⟩

def readT : Reads := ⟨⟨some tableT, true, true⟩, none, some (ascii "public"), 1⟩

/-- A statement with one table is parsed. -/
def parsedOnce : State :=
  let s := State.start.construct { TABLE_INFO.new with table_name := some (ascii "t") }
  ((CacheCall.lookup 0 readT).run s).getD s

theorem refcnt_parsed : Right parsedOnce := by
  have hfine : (CacheCall.lookup 0 readT).Fine
      (State.start.construct { TABLE_INFO.new with table_name := some (ascii "t") }) := by
    intro wti htable _
    obtain rfl : _ = wti := Option.some.inj htable
    exact (by decide : 0 < 16384)
  exact refcnt_right (.step (.lookup 0 readT)
    (.step (.construct none (some (ascii "t"))) .start trivial rfl) hfine rfl)

/-- The table is asked for by `@@identity`. -/
def identityRead : State :=
  ((CacheCall.identity none (some (ascii "t")) readT).run .start).getD .start

/-- Nothing points to the table any more, and its counter is one. -/
theorem identity_leaks : identityRead.Run (fun _ _ => True) ∧ ¬Right identityRead := by
  constructor
  · exact .step (.identity none (some (ascii "t")) readT) .start trivial rfl
  · intro h
    have heq := h.refcnt_eq 0 _ rfl
    revert heq
    decide

end OdbcDriver.ColumnCache
