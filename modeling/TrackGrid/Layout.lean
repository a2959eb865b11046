import TrackGrid.Entries
import TrackGrid.Line

/-! Table layouts, their changes and their descriptions. A change marks the grid that is held as
stale; one that fails changes nothing. -/

namespace TrackGrid

structure Solved where
  frame : Frame
  grid : Grid
  deriving DecidableEq

/-- A table layout of components of type `κ`: whether the held grid is out of date, the grid, and
how often a grid was solved. -/
structure Layout (κ : Type) where
  tracks : Specification
  entries : Entries κ
  stale : Bool
  held : Option Solved
  solveCount : Nat
  deriving DecidableEq

namespace Layout

variable {κ : Type}

def ofTracks (tracks : Specification) : Layout κ := ⟨tracks, .empty, true, none, 0⟩

def ofGiven (columns rows : Option (List GivenSize)) : Except Fault (Layout κ) := do
  return ofTracks (← Specification.ofGiven columns rows)

def text (layout : Layout κ) : Except Fault String := do
  return "TableLayout " ++ (← layout.tracks.text)

def counts (layout : Layout κ) : PerAxis Int := layout.tracks.counts

def invalidate (layout : Layout κ) : Layout κ := { layout with stale := true }

def putTracks (layout : Layout κ) (tracks : Specification) : Layout κ :=
  { layout with tracks := tracks, stale := true }

/-- The track at a position; negative positions count from the end. -/
def trackAt (layout : Layout κ) (axis : Axis) (index : Int) : Except Fault Track :=
  layout.tracks.trackAt axis index

def setTracks (layout : Layout κ) (axis : Axis) (values : List GivenSize) :
    Except Fault (Layout κ) := do
  return layout.putTracks (← layout.tracks.setTracks axis values)

def setTrack (layout : Layout κ) (axis : Axis) (index : Int) (value : GivenSize) :
    Except Fault (Layout κ) := do
  return layout.putTracks (← layout.tracks.setTrack axis index value)

def shiftEntries (layout : Layout κ) (axis : Axis) (index delta : Int) : Layout κ :=
  { layout with entries := layout.entries.mapConstraints fun c => c.shift axis index delta }

def insertTrack (layout : Layout κ) (axis : Axis) (index : Int) (value : GivenSize) :
    Except Fault (Layout κ) := do
  return (layout.putTracks (← layout.tracks.insertTrack axis index value)).shiftEntries axis index 1

def deleteTrack (layout : Layout κ) (axis : Axis) (index : Int) : Except Fault (Layout κ) := do
  return (layout.putTracks (← layout.tracks.deleteTrack axis index)).shiftEntries axis index (-1)

def putEntries (layout : Layout κ) (entries : Entries κ) : Layout κ :=
  { layout with entries := entries, stale := true }

section
variable [DecidableEq κ]

def removeEntry (layout : Layout κ) (handle : Int) : Layout κ :=
  match layout.entries.get? handle with
  | none => layout
  | some _ => layout.putEntries (layout.entries.remove handle)

/-- Adds a component under the given constraint, or changes its constraint if it is present. The
handle of its entry is given too. -/
def add (layout : Layout κ) (component : κ) (given : GivenConstraint) :
    Except Fault (Nat × Layout κ) := do
  let (handle, entries) := layout.entries.add component (← Constraint.ofGiven given)
  return (handle, layout.putEntries entries)

def setConstraint (layout : Layout κ) (component : κ) (given : GivenConstraint) :
    Except Fault (Layout κ) := do
  let constraint ← Constraint.ofGiven given
  match layout.entries.ofComponent? component with
  | none => return layout
  | some entry => return layout.putEntries (layout.entries.constrain entry.handle constraint)

def removeComponent (layout : Layout κ) (component : κ) : Layout κ :=
  match layout.entries.ofComponent? component with
  | none => layout
  | some entry => layout.removeEntry entry.handle

def constraintOf? (layout : Layout κ) (component : κ) : Option Constraint :=
  (layout.entries.ofComponent? component).map Entry.constraint

end

def hasHidden (layout : Layout κ) : Bool :=
  layout.entries.constraints.any fun c => !c.within layout.counts

def anyMeet : List Constraint → Bool
  | [] => false
  | c :: rest => rest.any (Constraint.meets c) || anyMeet rest

def hasOverlap (layout : Layout κ) : Bool := anyMeet layout.entries.constraints

def isFresh (layout : Layout κ) (frame : Frame) : Bool :=
  !layout.stale && layout.held.any fun solved => solved.frame == frame

def hold (layout : Layout κ) (frame : Frame) (grid : Grid) : Layout κ :=
  { layout with held := some ⟨frame, grid⟩, stale := false, solveCount := layout.solveCount + 1 }

def grid? (layout : Layout κ) : Option Grid := layout.held.map Solved.grid

end Layout

structure DescribedItem where
  component : Option String
  constraint : Option GivenConstraint
  deriving DecidableEq

/-- What an item gives as a constraint; if nothing is written, an empty text. -/
def DescribedItem.given (item : DescribedItem) : GivenConstraint :=
  item.constraint.getD (.text "")

/-- A described layout. Tracks that are not given have their default; items are left out where
components have no names. -/
structure Description where
  columns : Option (List GivenSize)
  rows : Option (List GivenSize)
  items : Option (List DescribedItem)
  deriving DecidableEq

namespace Layout

variable {κ : Type} {m : Type → Type} [Monad m]

/-- Adds a described item; `find` knows components by name. -/
def addDescribed [DecidableEq κ] (report : Notice κ → m Unit) (find : String → Option κ)
    (layout : Layout κ) (item : DescribedItem) : ExceptT Fault m (Layout κ) := do
  match item.component.bind find with
  | some component =>
      let (_, layout) ← calculate (layout.add component item.given)
      return layout
  | none =>
      ExceptT.lift (report (.unknownComponent item.component))
      return layout

def ofDescription [DecidableEq κ] (report : Notice κ → m Unit) (find : String → Option κ)
    (d : Description) : ExceptT Fault m (Layout κ) := do
  let layout ← calculate (ofGiven d.columns d.rows)
  (d.items.getD []).foldlM (addDescribed report find) layout

def describeEntry (name : κ → Option String) (entry : Entry κ) :
    Except Fault (Option DescribedItem) :=
  match name entry.component with
  | some component => do return some ⟨some component, some (.text (← entry.constraint.text))⟩
  | none => .ok none

/-- The description of a layout, with its items if a naming is given. Components without a name are
left out. -/
def describe (layout : Layout κ) (name : Option (κ → Option String)) :
    Except Fault Description := do
  let items ← match name with
    | some name => do
        let items ← layout.entries.present.mapM (describeEntry name)
        pure (some (items.filterMap id))
    | none => pure none
  return ⟨some (layout.tracks.columns.map Track.describe),
    some (layout.tracks.rows.map Track.describe), items⟩

end Layout

end TrackGrid
