import OdbcDriver.Result.DeletedRows
import OdbcDriver.Result.UpdatedEntries

/-!
# What a rollback takes out of the lists

When changes are undone, the entries of a row are taken out of the lists of updated and of deleted
rows. The loops go one place on also when an entry was taken out, so they step over the entry that
moved into its place: of two updates of one row in a row the second is left. A key up to which the
updates are to stay is met from the side of the oldest, so that not the newer ones are taken out but
the older ones.
-/

namespace OdbcDriver.RowLists

open Result SkipErase

theorem hasKey_none : Entry.HasKey none = fun _ => false := rfl

/-- **What a rollback takes out.** In all states that calls lead to, the arrays are aligned after a
removal, hold a part of their entries in order, and count them. The entries of a row are all taken out
exactly when no two of them are neighbours; those newer than a key, exactly when there is no entry of
the row with the key and no two of its entries are neighbours, or when its first and its last entry
have the key. -/
theorem removals_exact_iff {r : UpdatedRows} {d : DeletedRows} (hr : r.Reachable)
    (hd : d.Reachable) (index : Int) (key : KeySet) :
    let row := rowNumbers r.num_total_read index
    (∃ es, r.Holds es ∧
      (∀ keyset, ∃ es', (RemoveUpdatedAfterTheKey r index keyset).Holds es' ∧ es'.Sublist es) ∧
      ((RemoveUpdated r index).Holds (es.filter (!Entry.OfRow row ·)) ↔
        SkipErase.Apart (Entry.OfRow row) es) ∧
      ((RemoveUpdatedAfterTheKey r index (some key)).Holds
          (dropNewer (Entry.OfRow row) (Entry.HasKey (some key)) es) ↔
        NothingSkipped (Entry.OfRow row) (Entry.HasKey (some key)) es)) ∧
      ∃ es, d.Holds es ∧
        (∃ es', (RemoveDeleted r.num_total_read d index).Holds es' ∧ es'.Sublist es) ∧
        ((RemoveDeleted r.num_total_read d index).Holds (es.filter (!deletedRow row ·)) ↔
          SkipErase.Apart (deletedRow row) es) := by
  obtain ⟨es, hes⟩ := hr.inv.holds
  obtain ⟨ds, hds⟩ := hd.inv.1.holds
  refine ⟨⟨es, hes, fun keyset => ?_, ?_, ?_⟩, ds, hds, ?_, ?_⟩
  · exact ⟨_, RemoveUpdatedAfterTheKey_holds hes index keyset, skipErase_sublist es⟩
  · rw [RemoveUpdated, (RemoveUpdatedAfterTheKey_holds hes index none).holds_iff, hasKey_none,
      skipErase_eq_filter_iff]
  · rw [(RemoveUpdatedAfterTheKey_holds hes index (some key)).holds_iff,
      skipErase_eq_dropNewer_iff]
  · exact ⟨_, RemoveDeleted_holds hds r.num_total_read index, skipErase_sublist ds⟩
  · rw [(RemoveDeleted_holds hds r.num_total_read index).holds_iff, skipErase_eq_filter_iff]

theorem removals_exact_cleared :
    let row := rowNumbers 0 0
    (∃ es, (UpdatedRows.cleared true).Holds es ∧
      (∀ keyset, ∃ es', (RemoveUpdatedAfterTheKey (.cleared true) 0 keyset).Holds es' ∧
        es'.Sublist es) ∧
      ((RemoveUpdated (.cleared true) 0).Holds (es.filter (!Entry.OfRow row ·)) ↔
        SkipErase.Apart (Entry.OfRow row) es) ∧
      ((RemoveUpdatedAfterTheKey (.cleared true) 0 (some (keyAt 1))).Holds
          (dropNewer (Entry.OfRow row) (Entry.HasKey (some (keyAt 1))) es) ↔
        NothingSkipped (Entry.OfRow row) (Entry.HasKey (some (keyAt 1))) es)) ∧
      ∃ es, (DeletedRows.cleared true).Holds es ∧
        (∃ es', (RemoveDeleted 0 (.cleared true) 0).Holds es' ∧ es'.Sublist es) ∧
        ((RemoveDeleted 0 (.cleared true) 0).Holds (es.filter (!deletedRow row ·)) ↔
          SkipErase.Apart (deletedRow row) es) :=
  removals_exact_iff (.start true) ⟨[], rfl⟩ 0 (keyAt 1)

/-! ### A row that was updated twice -/

/-- Row 0 was updated twice in one transaction. -/
def updatedTwice : UpdatedRows :=
  { UpdatedRows.cleared true with
    updated := [0, 0]
    updated_keyset := [{ keyAt 1 with status := updatedStatus true 0 },
      { keyAt 2 with status := updatedStatus true 0 }]
    up_alloc := 10
    up_count := 2 }

theorem updatedTwice_reachable : updatedTwice.Reachable := by
  have hfirst : AddUpdated 0 true (.cleared true) 0 (keyAt 1) [] =
      some ({ UpdatedRows.cleared true with
        updated := [0]
        updated_keyset := [{ keyAt 1 with status := updatedStatus true 0 }]
        up_alloc := 10
        up_count := 1 }, []) := rfl
  have hsecond : AddUpdated 0 true { UpdatedRows.cleared true with
        updated := [0]
        updated_keyset := [{ keyAt 1 with status := updatedStatus true 0 }]
        up_alloc := 10
        up_count := 1 } 0 (keyAt 2) [] = some (updatedTwice, []) := rfl
  exact .step (.step (.start true) (.update hfirst)) (.update hsecond)

/-- The second update is left, and undoing the updates after the first one takes none out. -/
theorem updatedTwice_not_removed :
    updatedTwice.Reachable ∧ (RemoveUpdated updatedTwice 0).updated = [0] ∧
      (RemoveUpdatedAfterTheKey updatedTwice 0 (some (keyAt 1))).updated = [0, 0] :=
  ⟨updatedTwice_reachable, by decide, by decide⟩

end OdbcDriver.RowLists
