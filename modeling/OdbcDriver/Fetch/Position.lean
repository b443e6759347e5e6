import Mathlib.Data.Int.Order.Basic

/-!
# Cursor positions and the ODBC positioning table

The specification side of scrolling: where `SQLFetchScroll` must put the rowset, as the
positioning rules of the ODBC reference state it. `CurrRowsetStart`, `LastResultRow`,
`RowsetSize` and `FetchOffset` are the table's own words; rows are numbered from `1`.

An empty result has no row to stand on, so all of its positions are identified with
`beforeStart`.
-/

namespace OdbcDriver.Fetch

/-- The orientations of `SQLFetchScroll` (bookmarks apart). -/
inductive Orientation
  | next | prior | first | last | absolute | relative
deriving DecidableEq, Repr

/-- Where a cursor stands: before the first row, on a rowset starting at a row counted
from `1`, or after the last row. -/
inductive Position
  | beforeStart
  | inside (currRowsetStart : Int)
  | afterEnd
deriving DecidableEq, Repr

namespace Position

/-- The table's row for `SQL_FETCH_ABSOLUTE`. -/
def absolute (lastResultRow rowsetSize fetchOffset : Int) : Position :=
  if fetchOffset < 0 then
    if -fetchOffset ≤ lastResultRow then inside (lastResultRow + fetchOffset + 1)
    else if rowsetSize < -fetchOffset then beforeStart
    else inside 1
  else if fetchOffset = 0 then beforeStart
  else if fetchOffset ≤ lastResultRow then inside fetchOffset
  else afterEnd

/-- The table's row for `SQL_FETCH_NEXT`; `prevSize` is the rowset size of the previous
fetch, which the table's footnote prescribes. -/
def next (lastResultRow prevSize : Int) : Position → Position
  | beforeStart => inside 1
  | inside c => if c + prevSize ≤ lastResultRow then inside (c + prevSize) else afterEnd
  | afterEnd => afterEnd

/-- The table's row for `SQL_FETCH_PRIOR`. -/
def prior (lastResultRow rowsetSize : Int) : Position → Position
  | beforeStart => beforeStart
  | inside c =>
    if c = 1 then beforeStart
    else if c ≤ rowsetSize then inside 1
    else inside (c - rowsetSize)
  | afterEnd =>
    if lastResultRow < rowsetSize then inside 1 else inside (lastResultRow - rowsetSize + 1)

/-- The table's row for `SQL_FETCH_RELATIVE`. -/
def relative (lastResultRow rowsetSize fetchOffset : Int) : Position → Position
  | beforeStart =>
    if 0 < fetchOffset then absolute lastResultRow rowsetSize fetchOffset else beforeStart
  | inside c =>
    if c = 1 ∧ fetchOffset < 0 then beforeStart
    else if c + fetchOffset < 1 then
      if rowsetSize < -fetchOffset then beforeStart else inside 1
    else if c + fetchOffset ≤ lastResultRow then inside (c + fetchOffset)
    else afterEnd
  | afterEnd =>
    if fetchOffset < 0 then absolute lastResultRow rowsetSize fetchOffset else afterEnd

/-- The table's row for `SQL_FETCH_LAST`. -/
def last (lastResultRow rowsetSize : Int) : Position :=
  if rowsetSize ≤ lastResultRow then inside (lastResultRow - rowsetSize + 1) else inside 1

/-- **The positioning table.** The position after a fetch from position `p`. -/
def table (lastResultRow rowsetSize prevSize : Int) (o : Orientation) (fetchOffset : Int)
    (p : Position) : Position :=
  if lastResultRow = 0 then beforeStart
  else
    match o with
    | .next => p.next lastResultRow prevSize
    | .prior => p.prior lastResultRow rowsetSize
    | .first => inside 1
    | .last => last lastResultRow rowsetSize
    | .absolute => absolute lastResultRow rowsetSize fetchOffset
    | .relative => p.relative lastResultRow rowsetSize fetchOffset

/-- The position a zero-based rowset start stands for in a result of `n` rows. -/
def ofStart (n start : Int) : Position :=
  if start < 0 ∨ n = 0 then beforeStart else if n ≤ start then afterEnd else inside (start + 1)

/-- The answer to a fetch: no data, or the rows of the rowset, given by its first row and
their number. -/
inductive Answer
  | noData
  | rows (first count : Int)
deriving DecidableEq, Repr

/-- What a fetch that lands on `p` must answer: the rows from there on, as many as the
rowset holds and the result still has. -/
def answer (lastResultRow rowsetSize : Int) : Position → Answer
  | inside c => .rows c (min rowsetSize (lastResultRow - c + 1))
  | _ => .noData

end Position

end OdbcDriver.Fetch
