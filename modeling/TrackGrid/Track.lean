import TrackGrid.Geometry
import TrackGrid.Number

/-! Tracks, which are rows or columns. The value of a track says how its size is found;
`Track.ofGiven` makes a track out of any given value. -/

namespace TrackGrid

/-- Sizes that are found without a number: a share of the space left over, or the largest
preferred or minimum size among the components that occupy the track alone. -/
inductive Sizing where
  | fill
  | preferred
  | minimum
  deriving DecidableEq, Repr

namespace Sizing

def text : Sizing → String
  | .fill => "fill"
  | .preferred => "preferred"
  | .minimum => "minimum"

def name : Sizing → String
  | .fill => "FILL"
  | .preferred => "PREFERRED"
  | .minimum => "MINIMUM"

/-- The number that stands for a sizing in old descriptions. -/
def code : Sizing → Int
  | .fill => -1
  | .preferred => -2
  | .minimum => -3

def all : List Sizing := [.fill, .preferred, .minimum]

def ofCapitals? (word : List Char) : Option Sizing := all.find? fun s => word = s.name.toList

/-- The sizing named by a text, in letters of either case and with blanks around it. -/
def ofText? (text : String) : Option Sizing :=
  ofCapitals? (Text.capitals (Text.trim Text.isBlank text.toList))

def ofNumber? (x : Number) : Option Sizing := all.find? fun s => x.same (.int s.code)

end Sizing

inductive Track where
  | sizing (s : Sizing)
  | number (x : Number)
  deriving DecidableEq

/-- A real number of another kind than those of `Number`, by what comes of converting it. One that is
integral becomes an integer and any other one a floating-point number, unless that fails in a way of
its own. -/
inductive OtherNumber where
  | integral (n : Int)
  | real (x : Binary64)
  | inconvertible (fault : Fault)
  deriving DecidableEq

namespace OtherNumber

def convert : OtherNumber → Except Fault Number
  | .integral n => .ok (.int n)
  | .real x => .ok (.float x)
  | .inconvertible fault => .error fault

end OtherNumber

/-- A value that is given for a track. -/
inductive GivenSize where
  | number (x : Number)
  | sizing (s : Sizing)
  | text (t : String)
  | boolean (b : Bool)
  | absent
  | other (x : OtherNumber)
  /-- An object that is none of these. -/
  | object
  deriving DecidableEq

namespace Track

def zero : Track := .number (.int 0)

def fill : Track := .sizing .fill

/-- The track of a given number: a number below zero stands for a sizing or for no size, and so
does one that is not finite. -/
def ofNumber (x : Number) : Except Fault Track := do
  if ← x.isFinite then
    if x.lt (.int 0) then
      match Sizing.ofNumber? x with
      | some s => pure (.sizing s)
      | none => pure zero
    else pure (.number x)
  else pure zero

/-- The track of a given value. What is no size counts as zero. -/
def ofGiven : GivenSize → Except Fault Track
  | .sizing s => pure (.sizing s)
  | .number x => ofNumber x
  | .text t =>
      match Sizing.ofText? t with
      | some s => pure (.sizing s)
      | none => match Binary64.ofText? t with
        | some x => ofNumber (.float x)
        | none => pure zero
  | .other x => do ofNumber (← x.convert)
  | .boolean _ | .absent | .object => pure zero

/-- A count of pixels: zero, or one and more. -/
def isAbsolute : Track → Bool
  | .sizing _ => false
  | .number x => Number.le (.int 1) x || x.same (.int 0)

def isRelative : Track → Bool
  | .sizing _ => false
  | .number x => Number.lt (.int 0) x && x.lt (.int 1)

def isContent : Track → Bool
  | .sizing .preferred | .sizing .minimum => true
  | _ => false

def isFill : Track → Bool
  | .sizing .fill => true
  | _ => false

/-- The fraction of a relative track. An integer is none. -/
def fraction? : Track → Option Binary64
  | .number (.float x) => if isRelative (.number (.float x)) then some x else none
  | _ => none

def pixels : Track → Except Fault Int
  | .sizing _ => .error .wrongTrackKind
  | .number x => do (← x.toBinary64).roundHalfUp

def text : Track → Except Fault String
  | .sizing s => pure s.text
  | .number x => x.text

/-- The value that stands for a track in a description: a word for a sizing, else the number. -/
def describe : Track → GivenSize
  | .sizing s => .text s.text
  | .number x => .number x

def same : Track → Track → Bool
  | .sizing s, .sizing t => s = t
  | .number x, .number y => x.same y
  | _, _ => false

end Track

namespace Track

def listOfGiven (values : List GivenSize) : Except Fault (List Track) := values.mapM ofGiven

def replace (tracks : List Track) (index : Int) (value : GivenSize) : Except Fault (List Track) :=
  if index < 0 ∨ tracks.length ≤ index then .error (.noSuchTrack index)
  else do return tracks.set index.toNat (← ofGiven value)

/-- Inserts a track in front of the one at `index`, or behind the last one. -/
def insert (tracks : List Track) (index : Int) (value : GivenSize) : Except Fault (List Track) :=
  if index < 0 ∨ tracks.length < index then .error (.badTrackPosition index tracks.length)
  else do return tracks.insertIdx index.toNat (← ofGiven value)

/-- Deletes a track. The last one that remains is kept. -/
def delete (tracks : List Track) (index : Int) : Except Fault (List Track) :=
  if index < 0 ∨ tracks.length ≤ index then .error (.badTrackPosition index (tracks.length - 1))
  else if tracks.length = 1 then .error .onlyTrack
  else .ok (tracks.eraseIdx index.toNat)

def listText (tracks : List Track) : Except Fault String := do
  return ", ".intercalate (← tracks.mapM text)

end Track

abbrev Specification := PerAxis (List Track)

namespace Specification

def single : Specification := ⟨[Track.fill], [Track.fill]⟩

/-- The specification of given values; an axis for which none are given has one fill track. -/
def ofGiven (columns rows : Option (List GivenSize)) : Except Fault Specification := do
  let columns ← match columns with
    | some values => Track.listOfGiven values
    | none => pure single.columns
  let rows ← match rows with
    | some values => Track.listOfGiven values
    | none => pure single.rows
  return ⟨columns, rows⟩

def change (spec : Specification) (axis : Axis) (f : List Track → Except Fault (List Track)) :
    Except Fault Specification := do
  return spec.put axis (← f (spec.along axis))

def setTracks (spec : Specification) (axis : Axis) (values : List GivenSize) :
    Except Fault Specification :=
  spec.change axis fun _ => Track.listOfGiven values

def setTrack (spec : Specification) (axis : Axis) (index : Int) (value : GivenSize) :
    Except Fault Specification :=
  spec.change axis fun tracks => Track.replace tracks index value

def insertTrack (spec : Specification) (axis : Axis) (index : Int) (value : GivenSize) :
    Except Fault Specification :=
  spec.change axis fun tracks => Track.insert tracks index value

def deleteTrack (spec : Specification) (axis : Axis) (index : Int) : Except Fault Specification :=
  spec.change axis fun tracks => Track.delete tracks index

def trackAt (spec : Specification) (axis : Axis) (index : Int) : Except Fault Track :=
  itemAt (spec.along axis) index

def counts (spec : Specification) : PerAxis Int := spec.map fun tracks => (tracks.length : Int)

def text (spec : Specification) : Except Fault String := do
  let columns ← Track.listText spec.columns
  let rows ← Track.listText spec.rows
  return "\x7b\x7b" ++ columns ++ "\x7d, \x7b" ++ rows ++ "\x7d\x7d"

def same (s t : Specification) : Bool :=
  s.columns.length == t.columns.length && s.rows.length == t.rows.length &&
    (s.columns.zip t.columns).all (fun p => p.1.same p.2) &&
    (s.rows.zip t.rows).all (fun p => p.1.same p.2)

end Specification

end TrackGrid
