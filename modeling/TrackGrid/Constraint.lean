import TrackGrid.Geometry
import TrackGrid.Number

/-! Where a component is placed: in one cell, aligned within it, or over a span of cells. -/

namespace TrackGrid

/-- How a component lies in its cell along one axis: at the leading edge, in the middle, over the
whole cell, or at the trailing edge. -/
inductive Alignment where
  | leading
  | center
  | full
  | trailing
  deriving DecidableEq, Repr

inductive Constraint where
  | single (cell : PerAxis Int) (align : PerAxis Alignment)
  | span (cells : PerAxis Interval)
  deriving DecidableEq, Repr

namespace Constraint

def fullAlign : PerAxis Alignment := ⟨.full, .full⟩

def cells : Constraint → PerAxis Interval
  | .single cell _ => cell.map Interval.one
  | .span cells => cells

def align : Constraint → PerAxis Alignment
  | .single _ align => align
  | .span _ => fullAlign

def isSingle : Constraint → Bool
  | .single _ _ => true
  | .span _ => false

/-- The constraint in normal form for a range of cells: reversed bounds are brought up, and the
alignment is kept only in a single cell. -/
def ofCells (cells : PerAxis Interval) (align : PerAxis Alignment) : Constraint :=
  let cells := cells.map Interval.ordered
  if cells.columns.first = cells.columns.last ∧ cells.rows.first = cells.rows.last then
    .single (cells.map Interval.first) align
  else .span cells

def ofRange (column row : Int) (lastColumn lastRow : Option Int) (align : PerAxis Alignment) :
    Constraint :=
  ofCells ⟨⟨column, lastColumn.getD column⟩, ⟨row, lastRow.getD row⟩⟩ align

def normalize (c : Constraint) : Constraint := ofCells c.cells c.align

def shift (c : Constraint) (axis : Axis) (index delta : Int) : Constraint :=
  ofCells (c.cells.modify axis fun i => i.shift index delta) c.align

def within (c : Constraint) (counts : PerAxis Int) : Bool :=
  c.cells.columns.within counts.columns && c.cells.rows.within counts.rows

def meets (c d : Constraint) : Bool :=
  c.cells.columns.meets d.cells.columns && c.cells.rows.meets d.cells.rows

end Constraint

namespace Alignment

def letter : Axis → Alignment → Char
  | .columns, .leading => 'L'
  | .rows, .leading => 'T'
  | _, .center => 'C'
  | _, .full => 'F'
  | .columns, .trailing => 'R'
  | .rows, .trailing => 'B'

def name : Axis → Alignment → String
  | .columns, .leading => "LEFT"
  | .rows, .leading => "TOP"
  | _, .center => "CENTER"
  | _, .full => "FULL"
  | .columns, .trailing => "RIGHT"
  | .rows, .trailing => "BOTTOM"

def ofField? (axis : Axis) (field : List Char) : Option Alignment :=
  [Alignment.leading, .center, .full, .trailing].find? fun a =>
    Text.capitals field = [a.letter axis]

end Alignment

namespace Constraint

def isSeparator (c : Char) : Bool := c = ',' || c = ' '

/-- Splits a text at each separator, so neighbouring separators give empty fields. -/
def split : List Char → List (List Char)
  | [] => [[]]
  | c :: rest =>
      if isSeparator c then [] :: split rest
      else match split rest with
        | field :: fields => (c :: field) :: fields
        | [] => [[c]]

def fields (cs : List Char) : List (List Char) := (split cs).filter (· ≠ [])

/-- The integers among the first `count` fields, up to the first field that is none. -/
def leadingInts : Nat → List (List Char) → Except Fault (List Int)
  | count + 1, field :: rest =>
      match Number.ofNumeral? field with
      | some value => do return (← value) :: (← leadingInts count rest)
      | none => .ok []
  | _, _ => .ok []

def readAlign (fields : List (List Char)) : PerAxis Alignment :=
  ⟨(fields[0]?.bind (Alignment.ofField? .columns)).getD .full,
    (fields[1]?.bind (Alignment.ofField? .rows)).getD .full⟩

/-- The constraint written by fields: up to four integers, or fewer and two alignments. Only an
integer of too many digits is refused. -/
def ofFields (fields : List (List Char)) : Except Fault Constraint := do
  let values ← leadingInts 4 fields
  let align := if values.length < 4 then readAlign (fields.drop values.length) else fullAlign
  return ofRange (values[0]?.getD 0) (values[1]?.getD 0) values[2]? values[3]? align

def ofText (text : String) : Except Fault Constraint := ofFields (fields text.toList)

/-- The constraint written by a text that may be missing, which is the same as an empty one. -/
def parse (text : Option String) : Except Fault Constraint := ofText (text.getD "")

/-- The written form of a constraint, which reads back as its normal form. -/
def text : Constraint → Except Fault String
  | .single cell align => do
      let column ← Number.writeInt cell.columns
      let row ← Number.writeInt cell.rows
      let letters := [align.columns.letter .columns, ',', ' ', align.rows.letter .rows]
      return column ++ ", " ++ row ++ ", " ++ String.ofList letters
  | .span cells => do
      let column ← Number.writeInt cells.columns.first
      let row ← Number.writeInt cells.rows.first
      let lastColumn ← Number.writeInt cells.columns.last
      let lastRow ← Number.writeInt cells.rows.last
      return column ++ ", " ++ row ++ ", " ++ lastColumn ++ ", " ++ lastRow

end Constraint

inductive GivenConstraint where
  | text (t : String)
  | constraint (c : Constraint)
  | absent
  | other (kind : ValueKind)
  deriving DecidableEq, Repr

namespace Constraint

def ofGiven : GivenConstraint → Except Fault Constraint
  | .text t => ofText t
  | .constraint c => .ok c.normalize
  | .absent => .error .noConstraint
  | .other kind => .error (.notAConstraint kind)

end Constraint

end TrackGrid
