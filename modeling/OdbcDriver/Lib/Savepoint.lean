import Mathlib.Data.List.Basic

/-!
# Savepoints in the log of a transaction

A transaction block keeps what has been done in it as a log, latest first: the effects of
commands, and between them the savepoints. Going back to a savepoint drops what came after it
and keeps the savepoint; releasing one forgets it and the later savepoints, and no effect.

Savepoints may share a name, so both operations pick theirs by a predicate, and take the latest
one it holds of.
-/

namespace OdbcDriver

universe u v

variable {ν : Type u} {ε : Type v}

/-- An entry in the log of a transaction block. -/
inductive Entry (ν : Type u) (ε : Type v)
  | effect (e : ε)
  | savepoint (n : ν)

/-- The log of a transaction block, latest first. -/
abbrev Log (ν : Type u) (ε : Type v) := List (Entry ν ε)

namespace Log

/-- The effects in a log. -/
def effects (log : Log ν ε) : List ε :=
  log.filterMap fun
    | .effect e => some e
    | .savepoint _ => none

/-- The latest savepoint that `p` holds of. -/
def latest (p : ν → Bool) : Log ν ε → Option ν
  | [] => none
  | .effect _ :: log => latest p log
  | .savepoint n :: log => if p n then some n else latest p log

/-- Back to the latest savepoint that `p` holds of. -/
def rollbackTo (p : ν → Bool) : Log ν ε → Log ν ε
  | [] => []
  | .effect _ :: log => rollbackTo p log
  | .savepoint n :: log => if p n then .savepoint n :: log else rollbackTo p log

/-- The latest savepoint that `p` holds of, and those after it, are forgotten. -/
def release (p : ν → Bool) : Log ν ε → Log ν ε
  | [] => []
  | .effect e :: log => .effect e :: release p log
  | .savepoint n :: log => if p n then log else release p log

variable {p : ν → Bool} {log : Log ν ε}

@[simp] theorem effects_nil : effects ([] : Log ν ε) = [] := rfl

@[simp] theorem effects_effect (e : ε) : effects (.effect e :: log) = e :: effects log := rfl

@[simp] theorem effects_savepoint (n : ν) : effects (.savepoint n :: log) = effects log := rfl

@[simp] theorem latest_effect (e : ε) : latest p (.effect e :: log) = latest p log := rfl

theorem latest_savepoint (n : ν) :
    latest p (.savepoint n :: log) = if p n then some n else latest p log := rfl

@[simp] theorem latest_savepoint_self {n : ν} (h : p n = true) :
    latest p (.savepoint n :: log) = some n := if_pos h

@[simp] theorem latest_savepoint_other {n : ν} (h : p n = false) :
    latest p (.savepoint n :: log) = latest p log := by
  rw [latest_savepoint, h]
  rfl

/-- Effects hide no savepoint. -/
@[simp] theorem latest_effects (es : List ε) :
    latest p (es.map .effect ++ log) = latest p log := by
  induction es with
  | nil => rfl
  | cons e es ih => exact ih

@[simp] theorem effects_effects (es : List ε) :
    effects (es.map .effect ++ log) = es ++ effects log := by
  induction es with
  | nil => rfl
  | cons e es ih => exact congrArg (e :: ·) ih

@[simp] theorem rollbackTo_effect (e : ε) :
    rollbackTo p (.effect e :: log) = rollbackTo p log := rfl

@[simp] theorem rollbackTo_savepoint_self {n : ν} (h : p n = true) :
    rollbackTo p (.savepoint n :: log) = .savepoint n :: log := if_pos h

@[simp] theorem release_effect (e : ε) :
    release p (.effect e :: log) = .effect e :: release p log := rfl

@[simp] theorem release_savepoint_self {n : ν} (h : p n = true) :
    release p (.savepoint n :: log) = log := if_pos h

/-- Releasing a savepoint undoes nothing, provided there is one to release. -/
theorem effects_release {n : ν} (h : latest p log = some n) :
    effects (release p log) = effects log := by
  induction log with
  | nil => rfl
  | cons entry log ih =>
    cases entry with
    | effect e => exact congrArg (e :: ·) (ih h)
    | savepoint m =>
      rw [latest_savepoint] at h
      rw [release]
      split at h
      next hm => rw [if_pos hm, effects_savepoint]
      next hm => rw [if_neg hm, effects_savepoint, ih h]

/-- Going back to a savepoint finds it the latest of its kind. -/
theorem latest_rollbackTo : latest p (rollbackTo p log) = latest p log := by
  induction log with
  | nil => rfl
  | cons entry log ih =>
    cases entry with
    | effect _ => exact ih
    | savepoint m =>
      rw [rollbackTo, latest_savepoint]
      split
      next hm => exact latest_savepoint_self hm
      next => exact ih

/-- Effects come and go above a savepoint; going back to it leaves what lies below. -/
theorem rollbackTo_effects (es : List ε) :
    rollbackTo p (es.map .effect ++ log) = rollbackTo p log := by
  induction es with
  | nil => rfl
  | cons e es ih => exact ih

theorem release_effects (es : List ε) :
    release p (es.map .effect ++ log) = es.map .effect ++ release p log := by
  induction es with
  | nil => rfl
  | cons e es ih => exact congrArg (.effect e :: ·) ih

end Log

end OdbcDriver
