import TrackGrid.Constraint

/-! The entries of a table: the components it holds in the order of their arrival, each with a
handle that is never given out again and with its constraint. -/

namespace TrackGrid

structure Entry (κ : Type) where
  handle : Nat
  component : κ
  constraint : Constraint
  deriving DecidableEq

namespace Entry

def text {κ : Type} (entry : Entry κ) : Except Fault String := do
  return s!"TableEntry ({entry.handle}: " ++ (← entry.constraint.text) ++ ")"

end Entry

/-- The entries of a table: those present in the order of their arrival, those that left as they
were when they left, latest first, the handle of each component, and the next handle. -/
structure Entries (κ : Type) where
  present : List (Entry κ)
  departed : List (Entry κ)
  index : List (κ × Nat)
  nextHandle : Nat
  deriving DecidableEq

namespace Entries

variable {κ : Type}

def empty : Entries κ := ⟨[], [], [], 0⟩

def handles (entries : Entries κ) : List Nat := entries.present.map Entry.handle

def constraints (entries : Entries κ) : List Constraint := entries.present.map Entry.constraint

def get? (entries : Entries κ) (handle : Int) : Option (Entry κ) :=
  entries.present.find? fun entry => (entry.handle : Int) = handle

/-- The entry of a handle as it is, or as it was when it left. -/
def lastKnown? (entries : Entries κ) (handle : Nat) : Option (Entry κ) :=
  (entries.present ++ entries.departed).find? fun entry => entry.handle = handle

def mapConstraints (entries : Entries κ) (f : Constraint → Constraint) : Entries κ :=
  { entries with
    present := entries.present.map fun entry => { entry with constraint := f entry.constraint } }

def constrain (entries : Entries κ) (handle : Nat) (constraint : Constraint) : Entries κ :=
  { entries with
    present := entries.present.map fun entry =>
      if entry.handle = handle then { entry with constraint := constraint } else entry }

variable [DecidableEq κ]

def handleOf? (entries : Entries κ) (component : κ) : Option Nat :=
  (entries.index.find? fun pair => pair.1 = component).map Prod.snd

def ofComponent? (entries : Entries κ) (component : κ) : Option (Entry κ) :=
  (entries.handleOf? component).bind fun handle => entries.get? handle

def append (entries : Entries κ) (component : κ) (constraint : Constraint) : Entries κ :=
  { entries with
    present := entries.present ++ [⟨entries.nextHandle, component, constraint⟩]
    index := (component, entries.nextHandle) :: entries.index.filter fun pair => pair.1 ≠ component
    nextHandle := entries.nextHandle + 1 }

/-- Adds a component behind the others. One that is present keeps its handle and its place and
takes the new constraint. The handle is given too. -/
def add (entries : Entries κ) (component : κ) (constraint : Constraint) : Nat × Entries κ :=
  match entries.ofComponent? component with
  | some entry => (entry.handle, entries.constrain entry.handle constraint)
  | none => (entries.nextHandle, entries.append component constraint)

def remove (entries : Entries κ) (handle : Int) : Entries κ :=
  match entries.get? handle with
  | none => entries
  | some entry =>
      { entries with
        present := entries.present.filter fun other => other.handle ≠ entry.handle
        departed := entry :: entries.departed
        index := entries.index.filter fun pair => pair.1 ≠ entry.component }

end Entries

end TrackGrid
