/-! The two axes of a table, the tracks covered along one of them, and sizes in whole pixels. What
holds for columns holds for rows, so rules are written for one axis. -/

namespace TrackGrid

inductive Axis where
  | columns
  | rows
  deriving DecidableEq, Repr

namespace Axis

def across : Axis → Axis
  | .columns => .rows
  | .rows => .columns

end Axis

structure PerAxis (α : Type) where
  columns : α
  rows : α
  deriving DecidableEq, Repr

namespace PerAxis

variable {α β : Type}

def along (p : PerAxis α) : Axis → α
  | .columns => p.columns
  | .rows => p.rows

def put (p : PerAxis α) (axis : Axis) (a : α) : PerAxis α :=
  match axis with
  | .columns => ⟨a, p.rows⟩
  | .rows => ⟨p.columns, a⟩

def modify (p : PerAxis α) (axis : Axis) (f : α → α) : PerAxis α := p.put axis (f (p.along axis))

def map (f : α → β) (p : PerAxis α) : PerAxis β := ⟨f p.columns, f p.rows⟩

def transpose (p : PerAxis α) : PerAxis α := ⟨p.rows, p.columns⟩

end PerAxis

/-- The tracks from `first` to `last`. -/
structure Interval where
  first : Int
  last : Int
  deriving DecidableEq, Repr

namespace Interval

def one (track : Int) : Interval := ⟨track, track⟩

/-- The interval with its last track not before the first one. -/
def ordered (i : Interval) : Interval := ⟨i.first, max i.first i.last⟩

/-- Moves every bound at or past `index`. -/
def shift (i : Interval) (index delta : Int) : Interval :=
  ⟨if index ≤ i.first then i.first + delta else i.first,
    if index ≤ i.last then i.last + delta else i.last⟩

/-- Whether the interval lies within `count` tracks in the right order. -/
def within (i : Interval) (count : Int) : Bool :=
  0 ≤ i.first && i.first ≤ i.last && i.last < count

def meets (i j : Interval) : Bool := i.first ≤ j.last && j.first ≤ i.last

def covers (i : Interval) (track : Int) : Bool := i.first ≤ track && track ≤ i.last

end Interval

structure Size where
  width : Int
  height : Int
  deriving DecidableEq, Repr

namespace Size

def zero : Size := ⟨0, 0⟩

def along (size : Size) : Axis → Int
  | .columns => size.width
  | .rows => size.height

end Size

/-- The space kept free at the edges of a container. -/
structure Insets where
  top : Int
  left : Int
  bottom : Int
  right : Int
  deriving DecidableEq, Repr

namespace Insets

def zero : Insets := ⟨0, 0, 0, 0⟩

def leading (insets : Insets) : PerAxis Int := ⟨insets.left, insets.top⟩

def trailing (insets : Insets) : PerAxis Int := ⟨insets.right, insets.bottom⟩

end Insets

structure Frame where
  size : Size
  insets : Insets
  deriving DecidableEq, Repr

namespace Frame

/-- Where the tracks of each axis begin. -/
def origin (frame : Frame) : PerAxis Int := frame.insets.leading

/-- The space for the tracks of each axis. -/
def inner (frame : Frame) : PerAxis Int :=
  ⟨frame.size.width - frame.insets.left - frame.insets.right,
    frame.size.height - frame.insets.top - frame.insets.bottom⟩

end Frame

/-- A rectangle by its upper left corner and its size. -/
structure Rect where
  x : Int
  y : Int
  width : Int
  height : Int
  deriving DecidableEq, Repr

end TrackGrid
