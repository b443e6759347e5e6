import OdbcDriver.Transaction.Server

/-!
# Rules about the server

What a command can do to the server, said once as `Server.Answer`, and how the answers to a
query put together from parts are put together.
-/

namespace OdbcDriver.Server

variable {s : Server} {c : Sent} {cs : List Sent}

/-! ### One command -/

/-- What a command can do, and how it is answered. -/
inductive Answer (s : Server) (c : Sent) : Server × Reply → Prop
  /-- An error fails the open block. -/
  | refused (notice : Bool) : Answer s c (s.fail.1, ⟨notice, .error⟩)
  | opened (t : Tag) (hblock : s.block = none) (ht : t = .start_transaction ∨ t = .begin_) :
      Answer s c ({ s with block := some ⟨[], false⟩ }, ⟨false, .tag t⟩)
  /-- A block is begun within a block, or ended where there is none. -/
  | warned (t : Tag) (hfailed : s.failed = false)
      (ht : t = .commit ∨ t = .rollback → s.block = none) (hs : t ≠ .savepoint)
      (hr : t ≠ .release) : Answer s c (s, ⟨true, .tag t⟩)
  | committed (b : Block) (notice : Bool) (hblock : s.block = some b) (hb : b.failed = false) :
      Answer s c ({ s with block := none, committed := s.committed + 1 }, ⟨notice, .tag .commit⟩)
  | rolledBack (b : Block) (hblock : s.block = some b) :
      Answer s c ({ s with block := none, aborted := s.aborted + 1 }, ⟨false, .tag .rollback⟩)
  /-- A commit is refused. -/
  | undone (b : Block) (notice : Bool) (hblock : s.block = some b) :
      Answer s c ({ s with block := none, aborted := s.aborted + 1 }, ⟨notice, .error⟩)
  | marked (b : Block) (name : SavepointName) (hblock : s.block = some b) (hb : b.failed = false) :
      Answer s c
        ({ s with block := some { b with log := .savepoint ⟨name, c.internal⟩ :: b.log } },
          ⟨false, .tag .savepoint⟩)
  | returned (b : Block) (name : SavepointName) (hblock : s.block = some b) :
      Answer s c ({ s with block := some ⟨b.log.rollbackTo (·.name == name), false⟩ },
        ⟨false, .tag .rollback⟩)
  | released (b : Block) (name : SavepointName) (hblock : s.block = some b)
      (hb : b.failed = false) :
      Answer s c ({ s with block := some { b with log := b.log.release (·.name == name) } },
        ⟨false, .tag .release⟩)
  | idle (notice : Bool) (o : Outcome) (hblock : s.block = none)
      (ho : o = .tuples ∨ o = .tag .other) : Answer s c (s, ⟨notice, o⟩)
  | worked (b : Block) (es : List Nat) (notice : Bool) (o : Outcome) (hblock : s.block = some b)
      (hb : b.failed = false) (ho : o = .tuples ∨ o = .tag .other) :
      Answer s c ({ s with block := some { b with log := es.map .effect ++ b.log } },
        ⟨notice, o⟩)

theorem failed_of_block {b : Block} (h : s.block = some b) : s.failed = b.failed := by
  rw [Server.failed, h]
  rfl

theorem failed_of_idle (h : s.block = none) : s.failed = false := by
  rw [Server.failed, h]
  rfl

theorem tuplesOr (b : Bool) : (if b then Outcome.tuples else Outcome.tag .other) = .tuples ∨
    (if b then Outcome.tuples else Outcome.tag .other) = .tag .other := by
  cases b
  · exact .inr rfl
  · exact .inl rfl

/-- **Inversion.** What `exec` does is one of the answers. -/
theorem exec_cases (s : Server) (c : Sent) : Answer s c (s.exec c) := by
  obtain ⟨command, internal⟩ := c
  unfold exec
  cases hblock : s.block with
  | none =>
    cases command with
    | start => exact .opened _ hblock (.inl rfl)
    | begin_ => exact .opened _ hblock (.inr rfl)
    | commit ok notice =>
      exact .warned _ (failed_of_idle hblock) (fun _ => hblock) (by decide) (by decide)
    | rollback =>
      exact .warned _ (failed_of_idle hblock) (fun _ => hblock) (by decide) (by decide)
    | savepoint name => exact .refused false
    | rollbackTo name => exact .refused false
    | release name => exact .refused false
    | work w =>
      dsimp only
      split
      · exact .idle _ _ hblock (tuplesOr _)
      · have hsame : s.fail.1 = s := by
          obtain ⟨block, _, _⟩ := s
          cases hblock
          rfl
        simpa only [hsame] using Answer.refused (s := s) (c := ⟨.work w, internal⟩) w.notice
  | some b =>
    cases command with
    | start =>
      dsimp only
      split
      · exact .refused false
      next hb =>
        refine .warned _ ?_ (by simp) (by decide) (by decide)
        rw [failed_of_block hblock, Bool.eq_false_iff.mpr hb]
    | begin_ =>
      dsimp only
      split
      · exact .refused false
      next hb =>
        refine .warned _ ?_ (by simp) (by decide) (by decide)
        rw [failed_of_block hblock, Bool.eq_false_iff.mpr hb]
    | commit ok notice =>
      dsimp only
      split
      · exact .rolledBack b hblock
      next hb =>
        split
        · exact .committed b _ hblock (Bool.eq_false_iff.mpr hb)
        · exact .undone b _ hblock
    | rollback => exact .rolledBack b hblock
    | savepoint name =>
      dsimp only
      split
      · exact .refused false
      next hb => exact .marked b name hblock (Bool.eq_false_iff.mpr hb)
    | rollbackTo name =>
      dsimp only
      split
      · exact .returned b name hblock
      · exact .refused false
    | release name =>
      dsimp only
      split
      · exact .refused false
      next hb =>
        split
        · exact .released b name hblock (Bool.eq_false_iff.mpr hb)
        · exact .refused false
    | work w =>
      dsimp only
      split
      · exact .refused false
      next hb =>
        split
        · exact .worked b _ _ _ hblock (Bool.eq_false_iff.mpr hb) (tuplesOr _)
        · exact .refused _

/-- No command unmakes a commit. -/
theorem committed_le_exec (s : Server) (c : Sent) : s.committed ≤ (s.exec c).1.committed := by
  have h := exec_cases s c
  generalize s.exec c = x at h ⊢
  cases h with
  | committed => exact Nat.le_succ _
  | _ => exact Nat.le_refl _

/-- A command that succeeds finds or leaves the block unfailed. -/
theorem failed_exec_of_ok (h : (s.exec c).2.failed = false) : (s.exec c).1.failed = false := by
  have hcases := exec_cases s c
  generalize s.exec c = x at hcases h ⊢
  cases hcases with
  | refused => cases h
  | undone => cases h
  | opened => rfl
  | warned t hfailed => exact hfailed
  | committed => rfl
  | rolledBack => rfl
  | marked b name hblock hb => exact hb
  | returned => rfl
  | released b name hblock hb => exact hb
  | idle notice out hblock => exact failed_of_idle hblock
  | worked b es notice out hblock hb => exact hb

/-- A command that returns rows is no transaction command. -/
theorem isOpen_exec_of_tuples (h : (s.exec c).2.outcome = .tuples) :
    (s.exec c).1.isOpen = s.isOpen := by
  have hcases := exec_cases s c
  generalize s.exec c = x at hcases h ⊢
  cases hcases with
  | idle => rfl
  | worked b es notice out hblock =>
    rw [isOpen, isOpen, hblock]
    rfl
  | _ => cases h

/-! ### Queries in parts -/

@[simp] theorem query_nil : s.query [] = (s, []) := rfl

theorem query_cons_of_failed (h : (s.exec c).2.failed = true) :
    s.query (c :: cs) = ((s.exec c).1, [(s.exec c).2]) := by
  rw [query]
  exact if_pos h

theorem query_cons_of_ok (h : (s.exec c).2.failed = false) :
    s.query (c :: cs) =
      (((s.exec c).1.query cs).1, (s.exec c).2 :: ((s.exec c).1.query cs).2) := by
  rw [query]
  exact if_neg (Bool.eq_false_iff.mp h)

@[simp] theorem query_single : s.query [c] = ((s.exec c).1, [(s.exec c).2]) := by
  cases h : (s.exec c).2.failed with
  | true => exact query_cons_of_failed h
  | false => exact query_cons_of_ok h

theorem strays_cons_of_failed (h : (s.exec c).2.failed = true) :
    s.strays (c :: cs) =
      (if s.refers c then [] else [c]) ++ cs.filter (!(s.exec c).1.refers ·) := by
  rw [strays, if_pos h]

theorem strays_cons_of_ok (h : (s.exec c).2.failed = false) :
    s.strays (c :: cs) = (if s.refers c then [] else [c]) ++ (s.exec c).1.strays cs := by
  rw [strays, if_neg (Bool.eq_false_iff.mp h)]

/-- After commands that succeed, a query goes on as a query of the rest. -/
theorem query_append (h : (s.query cs).2.all (!·.failed) = true) (ds : List Sent) :
    s.query (cs ++ ds) = (((s.query cs).1.query ds).1,
      (s.query cs).2 ++ ((s.query cs).1.query ds).2) := by
  induction cs generalizing s with
  | nil => rfl
  | cons c cs ih =>
    cases hc : (s.exec c).2.failed with
    | true =>
      rw [query_cons_of_failed hc] at h
      simp [hc] at h
    | false =>
      rw [query_cons_of_ok hc] at h
      have hrest : ((s.exec c).1.query cs).2.all (!·.failed) = true := by
        simpa [hc] using h
      rw [List.cons_append, query_cons_of_ok hc, query_cons_of_ok hc, ih hrest]
      rfl

theorem strays_append (h : (s.query cs).2.all (!·.failed) = true) (ds : List Sent) :
    s.strays (cs ++ ds) = s.strays cs ++ (s.query cs).1.strays ds := by
  induction cs generalizing s with
  | nil => rfl
  | cons c cs ih =>
    cases hc : (s.exec c).2.failed with
    | true =>
      rw [query_cons_of_failed hc] at h
      simp [hc] at h
    | false =>
      rw [query_cons_of_ok hc] at h
      have hrest : ((s.exec c).1.query cs).2.all (!·.failed) = true := by
        simpa [hc] using h
      rw [List.cons_append, strays_cons_of_ok hc, strays_cons_of_ok hc, ih hrest,
        query_cons_of_ok hc, List.append_assoc]

/-- The application's commands refer to no savepoint of the driver. -/
theorem refers_theirs (s : Server) (command : Command) : s.refers ⟨command, false⟩ = true := by
  cases command <;> rfl

theorem strays_theirs (s : Server) (query : List Command) : s.strays (theirs query) = [] := by
  induction query generalizing s with
  | nil => rfl
  | cons command query ih =>
    have hmap : theirs (command :: query) = ⟨command, false⟩ :: theirs query := rfl
    rw [hmap]
    cases hc : (s.exec ⟨command, false⟩).2.failed with
    | true =>
      rw [strays_cons_of_failed hc, if_pos (refers_theirs s command), List.nil_append,
        List.filter_eq_nil_iff]
      intro d hd
      obtain ⟨command', -, rfl⟩ := List.mem_map.mp hd
      rw [refers_theirs]
      decide
    | false =>
      rw [strays_cons_of_ok hc, if_pos (refers_theirs s command), ih]
      rfl

end OdbcDriver.Server
