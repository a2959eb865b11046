import TrackGrid.Host

/-! Edits: the changes of a layout as values. `Edit.carryOut` does in place, one write after the
other, what `Edit.apply` tells. -/

namespace TrackGrid

namespace Entries

variable {κ : Type}

def modifyAt (entries : Entries κ) (position : Nat) (f : Constraint → Constraint) : Entries κ :=
  { entries with
    present := entries.present.modify position fun entry =>
      { entry with constraint := f entry.constraint } }

end Entries

namespace Act

variable {κ σ α : Type}

def markStale : Act κ σ Unit := change Layout.invalidate

/-- Writes the tracks of an axis, once they have been found. -/
def writeTracks (axis : Axis) (f : List Track → Except Fault (List Track)) : Act κ σ Unit := do
  let tracks ← around (calculate (f ((← layout).tracks.along axis)))
  change fun l => { l with tracks := l.tracks.put axis tracks }

def writeEntries (f : Entries κ → Entries κ) : Act κ σ Unit :=
  change fun l => { l with entries := f l.entries }

/-- Shifts the entries at or past a position, one after the other. -/
def shiftEach (axis : Axis) (index delta : Int) : Act κ σ Unit := do
  (List.range (← layout).entries.present.length).forM fun position =>
    writeEntries fun entries => entries.modifyAt position fun c => c.shift axis index delta

def setTracks (axis : Axis) (values : List GivenSize) : Act κ σ Unit := do
  writeTracks axis fun _ => Track.listOfGiven values
  markStale

def setTrack (axis : Axis) (index : Int) (value : GivenSize) : Act κ σ Unit := do
  writeTracks axis fun tracks => Track.replace tracks index value
  markStale

def insertTrack (axis : Axis) (index : Int) (value : GivenSize) : Act κ σ Unit := do
  writeTracks axis fun tracks => Track.insert tracks index value
  shiftEach axis index 1
  markStale

def deleteTrack (axis : Axis) (index : Int) : Act κ σ Unit := do
  writeTracks axis fun tracks => Track.delete tracks index
  shiftEach axis index (-1)
  markStale

section
variable [DecidableEq κ]

def add (component : κ) (given : GivenConstraint) : Act κ σ Nat := do
  let constraint ← around (calculate (Constraint.ofGiven given))
  let entries := (← layout).entries
  match entries.ofComponent? component with
  | some entry =>
      writeEntries fun entries => entries.constrain entry.handle constraint
      markStale
      return entry.handle
  | none =>
      let handle := entries.nextHandle
      writeEntries fun entries => { entries with nextHandle := handle + 1 }
      writeEntries fun entries =>
        { entries with present := entries.present ++ [⟨handle, component, constraint⟩] }
      writeEntries fun entries =>
        { entries with
          index := (component, handle) :: entries.index.filter fun pair => pair.1 ≠ component }
      markStale
      return handle

def setConstraint (component : κ) (given : GivenConstraint) : Act κ σ Unit := do
  let constraint ← around (calculate (Constraint.ofGiven given))
  match (← layout).entries.ofComponent? component with
  | none => return
  | some entry =>
      writeEntries fun entries => entries.constrain entry.handle constraint
      markStale

def removeEntry (handle : Int) : Act κ σ Unit := do
  match (← layout).entries.get? handle with
  | none => return
  | some entry =>
      writeEntries fun entries =>
        { entries with
          present := entries.present.filter fun other => other.handle ≠ entry.handle
          departed := entry :: entries.departed }
      writeEntries fun entries =>
        { entries with index := entries.index.filter fun pair => pair.1 ≠ entry.component }
      markStale

def removeComponent (component : κ) : Act κ σ Unit := do
  match (← layout).entries.ofComponent? component with
  | none => return
  | some entry => removeEntry entry.handle

end

end Act

inductive Edit (κ : Type) where
  | add (component : κ) (given : GivenConstraint)
  | setConstraint (component : κ) (given : GivenConstraint)
  | removeComponent (component : κ)
  | removeEntry (handle : Int)
  | setTracks (axis : Axis) (values : List GivenSize)
  | setTrack (axis : Axis) (index : Int) (value : GivenSize)
  | insertTrack (axis : Axis) (index : Int) (value : GivenSize)
  | deleteTrack (axis : Axis) (index : Int)
  | invalidate
  deriving DecidableEq

namespace Edit

variable {κ σ : Type} [DecidableEq κ]

/-- What an edit makes of a layout. Adding gives the handle. -/
def apply (edit : Edit κ) (layout : Layout κ) : Except Fault (Option Nat × Layout κ) :=
  match edit with
  | .add component given => do
      let (handle, layout) ← layout.add component given
      return (some handle, layout)
  | .setConstraint component given => do return (none, ← layout.setConstraint component given)
  | .removeComponent component => return (none, layout.removeComponent component)
  | .removeEntry handle => return (none, layout.removeEntry handle)
  | .setTracks axis values => do return (none, ← layout.setTracks axis values)
  | .setTrack axis index value => do return (none, ← layout.setTrack axis index value)
  | .insertTrack axis index value => do return (none, ← layout.insertTrack axis index value)
  | .deleteTrack axis index => do return (none, ← layout.deleteTrack axis index)
  | .invalidate => return (none, layout.invalidate)

/-- Carries out an edit in place. Adding gives the handle. -/
def carryOut : Edit κ → Act κ σ (Option Nat)
  | .add component given => do return some (← Act.add component given)
  | .setConstraint component given => do
      Act.setConstraint component given
      return none
  | .removeComponent component => do
      Act.removeComponent component
      return none
  | .removeEntry handle => do
      Act.removeEntry handle
      return none
  | .setTracks axis values => do
      Act.setTracks axis values
      return none
  | .setTrack axis index value => do
      Act.setTrack axis index value
      return none
  | .insertTrack axis index value => do
      Act.insertTrack axis index value
      return none
  | .deleteTrack axis index => do
      Act.deleteTrack axis index
      return none
  | .invalidate => do
      Act.markStale
      return none

end Edit

end TrackGrid
