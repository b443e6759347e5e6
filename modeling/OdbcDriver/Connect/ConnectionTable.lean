import Mathlib.Logic.Function.Basic
import OdbcDriver.Lib.CInt
import OdbcDriver.Lib.Run
import OdbcDriver.Lib.Slots

/-!
# The table of connections

All environments share one table of connections. A connection takes a hole of it when it is
allocated, or the table is made twice as large; an environment that is freed frees its connections
with it, but for those that are executing, and the table is given up when nothing is left in it.

Beside the driver's state stands a register of what the application has been told: a handle is valid
from the call that returns it to the one that frees it. Freeing an environment that fails keeps the
environment, and its connections that are executing.

* `destroyLoop_eq`: what the loop of `EN_Destructor` leaves;
* `step_holds`: a careful call keeps table and register in agreement;
* `connection_table_iff`: the runs throughout which they agree.
-/

namespace OdbcDriver.Environments

open CInt Slots

/-! ### The driver -/

/-- `ConnectionClass`: the environment, and whether the status is `CONN_EXECUTING`. -/
structure ConnectionClass where
  henv : ℕ
  executing : Bool
deriving DecidableEq, Repr

/-- The memory that handles point to, and the table. A handle that points to nothing has been
freed. -/
structure Driver where
  envs : ℕ → Bool
  heap : ℕ → Option ConnectionClass
  /-- `conns` and `conns_count`; an empty table is `NULL`. -/
  conns : List (Option ℕ)

/-- `INIT_CONN_COUNT` -/
def INIT_CONN_COUNT : ℤ := 128

/-- `CC_Destructor` -/
def CC_Destructor (self : ℕ) (heap : ℕ → Option ConnectionClass) :
    (ℕ → Option ConnectionClass) × Bool :=
  match heap self with
  | some conn => if conn.executing then (heap, false) else (Function.update heap self none, true)
  | none => (heap, false)

/-- What the loop of `EN_Destructor` leaves. -/
structure Destroyed where
  conns : List (Option ℕ)
  heap : ℕ → Option ConnectionClass
  rv : Bool
  nullcnt : ℕ

/-- The connection is one of the environment's. -/
def owned (self : ℕ) (heap : ℕ → Option ConnectionClass) (conn : ℕ) : Bool :=
  (heap conn).elim false (·.henv == self)

/-- The loop of `EN_Destructor`. A place counts as empty even where its connection is not
destroyed. -/
def destroyLoop (self : ℕ) : List (Option ℕ) → (ℕ → Option ConnectionClass) → Destroyed
  | [], heap => ⟨[], heap, true, 0⟩
  | none :: conns, heap =>
    let d := destroyLoop self conns heap
    { d with conns := none :: d.conns, nullcnt := d.nullcnt + 1 }
  | some conn :: conns, heap =>
    if owned self heap conn then
      let (heap, destroyed) := CC_Destructor conn heap
      let d := destroyLoop self conns heap
      { d with
        conns := (if destroyed then none else some conn) :: d.conns
        rv := destroyed && d.rv
        nullcnt := d.nullcnt + 1 }
    else
      let d := destroyLoop self conns heap
      { d with conns := some conn :: d.conns }

/-- `EN_Destructor`. The environment is freed in any case. -/
def EN_Destructor (self : ℕ) (s : Driver) : Driver × Bool :=
  let d := destroyLoop self s.conns s.heap
  ({ envs := Function.update s.envs self false
     heap := d.heap
     conns := if d.conns.length ≤ d.nullcnt then [] else d.conns }, d.rv)

/-- The size of a table that is made larger. -/
def newCount (count : ℕ) : ℤ := if 0 < count then wrap 32 (2 * count) else INIT_CONN_COUNT

/-- `EN_add_connection`; `memory` tells whether `realloc` finds the memory. There is none for a size
that has overflown. -/
def EN_add_connection (self conn : ℕ) (memory : Bool) (s : Driver) : Driver × Bool :=
  let heap := Function.update s.heap conn (some ⟨self, false⟩)
  match fill conn s.conns with
  | some conns => ({ s with heap := heap, conns := conns }, true)
  | none =>
    let alloc := newCount s.conns.length
    if memory ∧ 0 < alloc then
      ({ s with heap := heap, conns := grow conn (alloc.toNat - s.conns.length - 1) s.conns }, true)
    else (s, false)

/-- `EN_remove_connection` -/
def EN_remove_connection (conn : ℕ) (s : Driver) : Driver × Bool :=
  if some conn ∈ s.conns ∧ (s.heap conn).elim false (!·.executing) = true then
    ({ s with conns := clear conn s.conns }, true)
  else (s, false)

/-! ### Calls -/

inductive Call
  /-- The handle is the address of the memory that is allocated. -/
  | allocEnv (env : ℕ)
  | freeEnv (env : ℕ)
  | allocConnect (env conn : ℕ) (memory : Bool)
  | freeConnect (conn : ℕ)
  /-- A statement of the connection begins to execute, or ends. -/
  | execute (conn : ℕ) (executing : Bool)
deriving DecidableEq, Repr

inductive Answer
  | success
  | error
  /-- The driver manager does not pass the call on, as a handle is not valid. -/
  | invalid
deriving DecidableEq, Repr

def Answer.ofBool (ok : Bool) : Answer := if ok then .success else .error

/-- `PGAPI_AllocConnect`. A connection that has no place in the table is destroyed. -/
def PGAPI_AllocConnect (env conn : ℕ) (memory : Bool) (s : Driver) : Driver × Answer :=
  let (s, ok) := EN_add_connection env conn memory s
  (s, .ofBool ok)

/-- `PGAPI_FreeConnect` -/
def PGAPI_FreeConnect (conn : ℕ) (s : Driver) : Driver × Answer :=
  let (s, removed) := EN_remove_connection conn s
  if removed then ({ s with heap := (CC_Destructor conn s.heap).1 }, .success) else (s, .error)

/-- `PGAPI_FreeEnv` -/
def PGAPI_FreeEnv (env : ℕ) (s : Driver) : Driver × Answer :=
  let (s, ok) := EN_Destructor env s
  (s, .ofBool ok)

/-- One call. -/
def Driver.step (s : Driver) : Call → Driver × Answer
  | .allocEnv env =>
    if s.envs env then (s, .invalid)
    else ({ s with envs := Function.update s.envs env true }, .success)
  | .freeEnv env => if s.envs env then PGAPI_FreeEnv env s else (s, .invalid)
  | .allocConnect env conn memory =>
    if s.envs env = true ∧ s.heap conn = none then PGAPI_AllocConnect env conn memory s
    else (s, .invalid)
  | .freeConnect conn => if (s.heap conn).isSome then PGAPI_FreeConnect conn s else (s, .invalid)
  | .execute conn executing =>
    ({ s with
       heap := Function.update s.heap conn ((s.heap conn).map fun c => { c with executing }) },
      if (s.heap conn).isSome then .success else .invalid)

/-! ### The register -/

/-- The environments and the connections that are valid. -/
structure Register where
  envs : ℕ → Bool
  live : ℕ → Option ConnectionClass

/-- What an answer tells. -/
def Register.step (r : Register) : Call → Answer → Register
  | _, .invalid => r
  | .allocEnv env, .success => { r with envs := Function.update r.envs env true }
  | .freeEnv env, .success =>
    { envs := Function.update r.envs env false
      live := fun conn => (r.live conn).filter fun c => !(c.henv == env) }
  | .freeEnv env, .error =>
    { r with live := fun conn => (r.live conn).filter fun c => !(c.henv == env && !c.executing) }
  | .allocConnect env conn _, .success =>
    { r with live := Function.update r.live conn (some ⟨env, false⟩) }
  | .freeConnect conn, .success => { r with live := Function.update r.live conn none }
  | .execute conn executing, .success =>
    { r with
      live := Function.update r.live conn ((r.live conn).map fun c => { c with executing }) }
  | _, .error => r

/-- The driver, and what the application knows of it. -/
abbrev World := Driver × Register

def tableMachine : Machine World Call Answer where
  step w call := ((w.1.step call |>.1, w.2.step call (w.1.step call).2), (w.1.step call).2)

/-- Before the first call. -/
def start : World := (⟨fun _ => false, fun _ => none, []⟩, ⟨fun _ => false, fun _ => none⟩)

/-- The valid handles point to what they are for, the table holds each valid connection once and
nothing else, and a valid connection has a valid environment. -/
structure Holds (w : World) : Prop where
  envs_eq : w.1.envs = w.2.envs
  heap_eq : w.1.heap = w.2.live
  count_eq : ∀ conn, w.1.conns.count (some conn) = if (w.2.live conn).isSome then 1 else 0
  env_live : ∀ conn c, w.2.live conn = some c → w.2.envs c.henv = true

/-- An environment is not freed while one of its connections is executing. -/
def Careful (w : World) : Call → Prop
  | .freeEnv env =>
    w.2.envs env = true → ∀ conn c, w.2.live conn = some c → c.henv = env → c.executing = false
  | _ => True

/-! ### Destroying the connections of an environment -/

section

variable {self conn : ℕ} {conns : List (Option ℕ)} {heap : ℕ → Option ConnectionClass}

/-- No connection of the environment is executing. -/
def Idle (self : ℕ) (heap : ℕ → Option ConnectionClass) : Prop :=
  ∀ conn c, heap conn = some c → c.henv = self → c.executing = false

theorem Idle.update_none (h : Idle self heap) : Idle self (Function.update heap conn none) := by
  intro d c hd
  by_cases hne : d = conn
  · subst hne
    simp at hd
  · rw [Function.update_of_ne hne] at hd
    exact h d c hd

theorem owned_update_none (d : ℕ) (hne : d ≠ conn) :
    owned self (Function.update heap conn none) d = owned self heap d := by
  rw [owned, owned, Function.update_of_ne hne]

theorem CC_Destructor_owned (hidle : Idle self heap) (howned : owned self heap conn = true) :
    CC_Destructor conn heap = (Function.update heap conn none, true) := by
  rw [owned] at howned
  cases hconn : heap conn with
  | none => simp [hconn] at howned
  | some c =>
    have henv : c.henv = self := by simpa [hconn] using howned
    simp [CC_Destructor, hconn, hidle conn c hconn henv]

theorem CC_Destructor_executing {d : ℕ} {c : ConnectionClass} (hconn : heap conn = some c)
    (hexec : c.executing = true) : (CC_Destructor d heap).1 conn = some c := by
  rw [CC_Destructor]
  cases hd : heap d with
  | none => exact hconn
  | some k =>
    by_cases hk : k.executing = true
    · simp only [hk, if_true]
      exact hconn
    · have hne : conn ≠ d := by
        rintro rfl
        obtain rfl := Option.some.inj (hconn.symm.trans hd)
        exact hk hexec
      simp only [hk, Bool.false_eq_true, if_false, Function.update_of_ne hne]
      exact hconn

/-- A connection that is executing is not destroyed. -/
theorem destroyLoop_executing {c : ConnectionClass} (hconn : heap conn = some c)
    (hexec : c.executing = true) : (destroyLoop self conns heap).heap conn = some c := by
  induction conns generalizing heap with
  | nil => exact hconn
  | cons o conns ih =>
    cases o with
    | none => exact ih hconn
    | some d =>
      rw [destroyLoop]
      split
      · exact ih (CC_Destructor_executing hconn hexec)
      · exact ih hconn

/-- Where none of its connections is executing, an environment loses them all, and their places are
counted with the holes. -/
theorem destroyLoop_eq (honce : ∀ c, conns.count (some c) ≤ 1) (hidle : Idle self heap) :
    destroyLoop self conns heap =
      { conns := Slots.drop (owned self heap) conns
        heap := fun c => if some c ∈ conns ∧ owned self heap c = true then none else heap c
        rv := true
        nullcnt := conns.countP fun o => o.elim true (owned self heap) } := by
  induction conns generalizing heap with
  | nil => simp [destroyLoop, Slots.drop]
  | cons o conns ih =>
    have hrest : ∀ c, conns.count (some c) ≤ 1 := fun c =>
      (List.count_le_count_cons).trans (honce c)
    cases o with
    | none =>
      rw [destroyLoop, ih hrest hidle, List.countP_cons_of_pos (by simp)]
      simp [Slots.drop]
    | some conn =>
      by_cases howned : owned self heap conn = true
      · have hnot : some conn ∉ conns := by
          have hcount := honce conn
          rw [count_some_cons, if_pos rfl] at hcount
          exact List.count_eq_zero.mp (by omega)
        have hsame : ∀ c, some c ∈ conns →
            owned self (Function.update heap conn none) c = owned self heap c := fun c hc =>
          owned_update_none c fun h => hnot (h ▸ hc)
        rw [destroyLoop, if_pos howned, CC_Destructor_owned hidle howned]
        simp only [ih hrest hidle.update_none, if_true, Bool.true_and]
        congr 1
        · rw [Slots.drop, Slots.drop, List.map_cons]
          congr 1
          · simp only [Option.filter, howned, Bool.not_true, Bool.false_eq_true, if_false]
          · refine List.map_congr_left fun o ho => ?_
            cases o with
            | none => rfl
            | some c => simp only [Option.filter, hsame c ho]
        · funext c
          by_cases hc : c = conn
          · subst hc
            simp [howned]
          · by_cases hmem : some c ∈ conns
            · simp [hmem, hsame c hmem, hc]
            · simp [hmem, hc]
        · rw [List.countP_cons_of_pos (by simpa using howned)]
          congr 1
          refine List.countP_congr fun o ho => ?_
          cases o with
          | none => rfl
          | some c => rw [Option.elim_some, Option.elim_some, hsame c ho]
      · rw [destroyLoop, if_neg howned, ih hrest hidle]
        have hne : ∀ c, owned self heap c = true → c ≠ conn := fun c hc h => howned (h ▸ hc)
        rw [List.countP_cons_of_neg (by simpa using howned)]
        have hheap : (fun c => if some c ∈ conns ∧ owned self heap c = true then none else heap c) =
            fun c => if some c ∈ some conn :: conns ∧ owned self heap c = true then none
              else heap c := by
          funext c
          by_cases hc : owned self heap c = true
          · simp [hc, hne c hc]
          · simp [hc]
        have hkept : (some conn).filter (fun c => !owned self heap c) = some conn := by
          simp [howned]
        rw [hheap, Slots.drop, Slots.drop, List.map_cons, hkept]

end

/-! ### One call -/

section

variable {s : Driver} {r : Register} {env conn : ℕ}

theorem Holds.mem (h : Holds (s, r)) {c : ConnectionClass} (hlive : r.live conn = some c) :
    some conn ∈ s.conns := by
  have hcount : s.conns.count (some conn) = 1 := by rw [h.count_eq conn, hlive]; rfl
  exact List.count_pos_iff.mp (by omega)

theorem Holds.once (h : Holds (s, r)) (c : ℕ) : s.conns.count (some c) ≤ 1 := by
  rw [h.count_eq c]
  split <;> omega

/-- A new connection has one place more. -/
theorem Holds.added (h : Holds (s, r)) (henv : r.envs env = true) (hfresh : r.live conn = none)
    {conns : List (Option ℕ)}
    (hcount : ∀ y, conns.count (some y) = s.conns.count (some y) + if y = conn then 1 else 0) :
    Holds ({ s with heap := Function.update s.heap conn (some ⟨env, false⟩), conns := conns },
      { r with live := Function.update r.live conn (some ⟨env, false⟩) }) := by
  refine ⟨h.envs_eq, ?_, ?_, ?_⟩
  · rw [h.heap_eq]
  · intro y
    rw [hcount, h.count_eq]
    by_cases hy : y = conn
    · subst hy
      simp [hfresh]
    · simp [hy]
  · intro y c hy
    by_cases hyc : y = conn
    · subst hyc
      obtain rfl : (⟨env, false⟩ : ConnectionClass) = c := by simpa using hy
      exact henv
    · refine h.env_live y c ?_
      rw [← hy]
      exact (Function.update_of_ne hyc _ _).symm

theorem allocConnect_holds (h : Holds (s, r)) (henv : r.envs env = true)
    (hfresh : r.live conn = none) (memory : Bool) :
    Holds ((PGAPI_AllocConnect env conn memory s).1,
      r.step (.allocConnect env conn memory) (PGAPI_AllocConnect env conn memory s).2) := by
  rw [PGAPI_AllocConnect, EN_add_connection]
  cases hfill : fill conn s.conns with
  | some conns => exact h.added henv hfresh (count_fill hfill)
  | none =>
    by_cases hroom : memory = true ∧ 0 < newCount s.conns.length
    · simp only [if_pos hroom]
      exact h.added henv hfresh (count_grow conn _ s.conns)
    · simp only [if_neg hroom]
      exact h

theorem freeConnect_holds (h : Holds (s, r)) :
    Holds ((PGAPI_FreeConnect conn s).1,
      r.step (.freeConnect conn) (PGAPI_FreeConnect conn s).2) := by
  rw [PGAPI_FreeConnect, EN_remove_connection]
  by_cases hidle : some conn ∈ s.conns ∧ (s.heap conn).elim false (!·.executing) = true
  · simp only [if_pos hidle, if_true]
    have hgone : (CC_Destructor conn s.heap).1 = Function.update s.heap conn none := by
      cases hconn : s.heap conn with
      | none => simp [hconn] at hidle
      | some c =>
        have hexec : c.executing = false := by simpa [hconn] using hidle.2
        simp [CC_Destructor, hconn, hexec]
    refine ⟨h.envs_eq, ?_, ?_, ?_⟩
    · exact hgone.trans (by rw [h.heap_eq]; rfl)
    · intro y
      refine (count_clear conn s.conns y).trans ?_
      rw [h.count_eq]
      by_cases hy : y = conn
      · subst hy
        simp only [if_true, Register.step, Function.update_self, Option.isSome_none]
        split <;> simp
      · simp [Register.step, hy]
    · intro y c hy
      by_cases hyc : y = conn
      · subst hyc
        simp [Register.step] at hy
      · simp only [Register.step, Function.update_of_ne hyc] at hy
        exact h.env_live y c hy
  · simp only [if_neg hidle, Bool.false_eq_true, if_false]
    exact h

theorem execute_holds (h : Holds (s, r)) (executing : Bool) :
    Holds ((s.step (.execute conn executing)).1,
      r.step (.execute conn executing) (s.step (.execute conn executing)).2) := by
  rw [Driver.step]
  cases hlive : r.live conn with
  | none =>
    have hheap : s.heap conn = none := by rw [h.heap_eq]; exact hlive
    have hsame : Function.update s.heap conn none = s.heap := by
      rw [← hheap]
      exact Function.update_eq_self conn s.heap
    simp only [hheap, Option.map_none, hsame, Option.isSome_none, Bool.false_eq_true, if_false]
    exact h
  | some c =>
    have hheap : s.heap conn = some c := by rw [h.heap_eq]; exact hlive
    simp only [hheap, Option.map_some, Option.isSome_some, if_true]
    refine ⟨h.envs_eq, ?_, ?_, ?_⟩
    · simp only [Register.step, hlive, Option.map_some]
      rw [h.heap_eq]
    · intro y
      refine (h.count_eq y).trans ?_
      by_cases hy : y = conn
      · subst hy
        simp [Register.step, hlive]
      · simp [Register.step, hy]
    · intro y k hy
      by_cases hyc : y = conn
      · subst hyc
        simp only [Register.step, Function.update_self, hlive, Option.map_some] at hy
        obtain rfl := Option.some.inj hy
        exact h.env_live y c hlive
      · simp only [Register.step, Function.update_of_ne hyc] at hy
        exact h.env_live y k hy

theorem owned_iff (h : Holds (s, r)) :
    owned env s.heap conn = true ↔ ∃ c, r.live conn = some c ∧ c.henv = env := by
  rw [owned, h.heap_eq]
  cases r.live conn <;> simp

/-- The connections that do not belong to the environment. -/
theorem isSome_filter_other (h : Holds (s, r)) (y : ℕ) :
    ((r.live y).filter fun c => !(c.henv == env)).isSome =
      ((r.live y).isSome && !owned env s.heap y) := by
  rw [owned, h.heap_eq]
  cases r.live y <;> simp [Option.filter]
  split <;> simp_all

/-- What is left of the table when nothing of the environment is executing. -/
theorem freeEnv_holds (h : Holds (s, r)) (hidle : Idle env r.live) :
    Holds ((PGAPI_FreeEnv env s).1, r.step (.freeEnv env) (PGAPI_FreeEnv env s).2) := by
  have hheap : s.heap = r.live := h.heap_eq
  have hidle' : Idle env s.heap := hheap ▸ hidle
  have hloop := destroyLoop_eq h.once hidle'
  simp only [PGAPI_FreeEnv, EN_Destructor, hloop, Answer.ofBool, if_true]
  have hdropped : ∀ y, (Slots.drop (owned env s.heap) s.conns).count (some y) =
      if ((r.live y).filter fun c => !(c.henv == env)).isSome then 1 else 0 := by
    intro y
    rw [count_drop, h.count_eq, isSome_filter_other h]
    cases owned env s.heap y <;> simp
  refine ⟨?_, ?_, ?_, ?_⟩
  · exact congrArg (Function.update · env false) h.envs_eq
  · funext y
    show (if some y ∈ s.conns ∧ owned env s.heap y = true then none else s.heap y) =
      (r.live y).filter fun c => !(c.henv == env)
    cases hlive : r.live y with
    | none => simp [hheap, hlive]
    | some c =>
      by_cases henv : c.henv = env
      · have howned : owned env s.heap y = true := (owned_iff h).mpr ⟨c, hlive, henv⟩
        rw [if_pos ⟨h.mem hlive, howned⟩]
        simp [Option.filter, henv]
      · have howned : ¬ owned env s.heap y = true := by
          intro howned
          obtain ⟨k, hk, hkenv⟩ := (owned_iff h).mp howned
          obtain rfl := Option.some.inj (hk.symm.trans hlive)
          exact henv hkenv
        rw [if_neg fun hboth => howned hboth.2, hheap, hlive]
        simp [Option.filter, henv]
  · intro y
    show (if _ then [] else Slots.drop (owned env s.heap) s.conns).count (some y) =
      if ((r.live y).filter fun c => !(c.henv == env)).isSome then 1 else 0
    rw [← hdropped]
    split
    · -- every place is a hole or holds one of the environment's connections
      rename_i hfull
      rw [List.count_nil, count_drop]
      split
      · rfl
      · rename_i hother
        have hall : s.conns.countP (fun o => o.elim true (owned env s.heap)) = s.conns.length := by
          refine le_antisymm List.countP_le_length ?_
          rwa [Slots.drop, List.length_map] at hfull
        refine (List.count_eq_zero.mpr fun hmem => ?_).symm
        exact hother (List.countP_eq_length.mp hall _ hmem)
    · rfl
  · intro y c hy
    simp only [Register.step, Option.filter_eq_some_iff] at hy ⊢
    have hne : c.henv ≠ env := by simpa using hy.2
    rw [Function.update_of_ne hne]
    exact h.env_live y c hy.1

end

/-- A careful call keeps the table and the register in agreement. -/
theorem step_holds (w : World) (call : Call) (h : Holds w) (hcareful : Careful w call) :
    Holds (tableMachine.step w call).1 := by
  obtain ⟨s, r⟩ := w
  have henvs : s.envs = r.envs := h.envs_eq
  cases call with
  | allocEnv env =>
    simp only [tableMachine, Driver.step]
    split
    · exact h
    · refine ⟨congrArg (Function.update · env true) henvs, h.heap_eq, h.count_eq, ?_⟩
      intro conn c hlive
      have hlive' : r.envs c.henv = true := h.env_live conn c hlive
      by_cases hc : c.henv = env
      · rw [hc]
        exact Function.update_self env true r.envs
      · exact (Function.update_of_ne hc _ _).trans hlive'
  | freeEnv env =>
    simp only [tableMachine, Driver.step]
    split
    · rename_i henv
      exact freeEnv_holds h (hcareful (henvs ▸ henv))
    · exact h
  | allocConnect env conn memory =>
    simp only [tableMachine, Driver.step]
    split
    · rename_i hvalid
      exact allocConnect_holds h (henvs ▸ hvalid.1) (h.heap_eq ▸ hvalid.2) memory
    · exact h
  | freeConnect conn =>
    simp only [tableMachine, Driver.step]
    split
    · exact freeConnect_holds h
    · exact h
  | execute conn executing => exact execute_holds h executing

/-- An environment that is freed while one of its connections is executing is gone, although the
call fails. -/
theorem careful_of_holds (w : World) (call : Call) (h : Holds w)
    (hstep : Holds (tableMachine.step w call).1) : Careful w call := by
  obtain ⟨s, r⟩ := w
  cases call with
  | freeEnv env =>
    intro henv conn c hlive hc
    change r.live conn = some c at hlive
    change r.envs env = true at henv
    have hvalid : s.envs env = true := by
      rw [h.envs_eq]
      exact henv
    by_contra hexec
    rw [Bool.not_eq_false] at hexec
    have hkept : (destroyLoop env s.conns s.heap).heap conn = some c :=
      destroyLoop_executing (h.heap_eq ▸ hlive) hexec
    simp only [tableMachine, Driver.step, hvalid, if_true, PGAPI_FreeEnv, EN_Destructor] at hstep
    cases hrv : (destroyLoop env s.conns s.heap).rv with
    | true =>
      -- the connection is still there, and no longer valid
      simp only [hrv] at hstep
      have hgone : _ = (r.live conn).filter fun c => !(c.henv == env) :=
        hkept.symm.trans (congrFun hstep.heap_eq conn)
      simp [Option.filter, hlive, hc] at hgone
    | false =>
      -- the environment is gone, and still valid
      simp only [hrv] at hstep
      have hgone := congrFun hstep.envs_eq env
      simp [Answer.ofBool, Register.step, henv] at hgone
  | allocEnv env => exact trivial
  | allocConnect env conn memory => exact trivial
  | freeConnect conn => exact trivial
  | execute conn executing => exact trivial

/-- **The table of connections.** Throughout a run the table holds each valid connection once, with
its own environment, and an environment that could not be freed stays valid with the connections
that are left, exactly if no environment is freed while one of its connections is executing. -/
theorem connection_table_iff (calls : List Call) :
    tableMachine.AllSteps (fun w call => Holds (tableMachine.step w call).1) start calls ↔
      tableMachine.AllSteps Careful start calls := by
  have hstart : Holds start := ⟨rfl, rfl, fun _ => rfl, nofun⟩
  have hstep : ∀ w call, Holds w → (Holds (tableMachine.step w call).1 ↔ Careful w call) :=
    fun w call h => ⟨careful_of_holds w call h, step_holds w call h⟩
  exact Machine.allSteps_iff hstep step_holds hstart

/-- Freeing an environment with a connection that is executing fails, and the environment is gone. -/
theorem environment_lost :
    ¬ tableMachine.AllSteps (fun w call => Holds (tableMachine.step w call).1) start
      [.allocEnv 1, .allocConnect 1 2 true, .execute 2 true, .freeEnv 1] := by
  rintro ⟨-, -, -, h, -⟩
  have henv := congrFun h.envs_eq 1
  exact absurd henv (by decide)

end OdbcDriver.Environments
