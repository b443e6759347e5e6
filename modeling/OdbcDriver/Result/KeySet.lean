import Mathlib.Data.List.Basic

/-!
# Key-set entries

A key-set driven result keeps one `KeySet` entry per row: the row's tuple identifier, its
oid, and a status word. The low three bits of the status word are the ODBC row status
(`SQL_ROW_DELETED`, ...); the other bits record what this driver did to the row and whether
the change is committed.
-/

namespace OdbcDriver.Result

/-- `struct KeySet_`: the status word and identity of one row. -/
structure KeySet where
  status : BitVec 16 := 0
  offset : BitVec 16 := 0
  blocknum : BitVec 32 := 0
  oid : BitVec 32 := 0
deriving DecidableEq, Repr

/-! ### Status bits -/

/-- `KEYSET_INFO_PUBLIC`: the bits reported to the application. -/
def keysetInfoPublic : BitVec 16 := 0x07
/-- `CURS_SELF_ADDING` -/
def cursSelfAdding : BitVec 16 := 1 <<< 3
/-- `CURS_SELF_DELETING` -/
def cursSelfDeleting : BitVec 16 := 1 <<< 4
/-- `CURS_SELF_UPDATING` -/
def cursSelfUpdating : BitVec 16 := 1 <<< 5
/-- `CURS_SELF_ADDED` -/
def cursSelfAdded : BitVec 16 := 1 <<< 6
/-- `CURS_SELF_DELETED` -/
def cursSelfDeleted : BitVec 16 := 1 <<< 7
/-- `CURS_SELF_UPDATED` -/
def cursSelfUpdated : BitVec 16 := 1 <<< 8
/-- `CURS_NEEDS_REREAD` -/
def cursNeedsReread : BitVec 16 := 1 <<< 9
/-- `CURS_IN_ROWSET` -/
def cursInRowset : BitVec 16 := 1 <<< 10
/-- `CURS_OTHER_DELETED` -/
def cursOtherDeleted : BitVec 16 := 1 <<< 11

/-- `SQL_ROW_DELETED` -/
def sqlRowDeleted : BitVec 16 := 1
/-- `SQL_ROW_UPDATED` -/
def sqlRowUpdated : BitVec 16 := 2
/-- `SQL_ROW_ADDED` -/
def sqlRowAdded : BitVec 16 := 4

end OdbcDriver.Result
