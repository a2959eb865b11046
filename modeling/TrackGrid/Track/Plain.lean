import TrackGrid.Line

/-! Values that are used as tracks as they are, without being made into tracks first. A value that
is no number fails where one is needed. -/

namespace TrackGrid

mutual

inductive PlainSize where
  | number (x : Number)
  | sizing (s : Sizing)
  | text (t : String)
  | boolean (b : Bool)
  | absent
  | list (items : PlainSizes)

inductive PlainSizes where
  | none
  | more (first : PlainSize) (rest : PlainSizes)

end

namespace PlainSizes

def ofList : List PlainSize → PlainSizes
  | [] => .none
  | first :: rest => .more first (ofList rest)

end PlainSizes

namespace PlainSize

def given : PlainSize → GivenSize
  | .number x => .number x
  | .sizing s => .sizing s
  | .text t => .text t
  | .boolean b => .boolean b
  | .absent => .absent
  | .list _ => .object

/-- The track that a value is where a number is needed for the given use. -/
def asTrack (use : NumberUse) : PlainSize → Except Fault Track
  | .number x => .ok (.number x)
  | .sizing s => .ok (.sizing s)
  | .boolean b => .ok (.number (.int (if b then 1 else 0)))
  | .text _ => .error (.notANumber use .text)
  | .absent => .error (.notANumber use .absent)
  | .list _ => .error (.notANumber use .list)

mutual

/-- The written form of an item of a list: a text in quotes, a sizing by its name and number, and a
list in brackets. -/
def itemForm : PlainSize → Except Fault String
  | .number x => x.text
  | .sizing s => do return "<TrackSizing." ++ s.name ++ ": " ++ (← Number.writeInt s.code) ++ ">"
  | .text t => .ok (String.ofList (Text.quoted t.toList))
  | .boolean b => .ok (if b then "True" else "False")
  | .absent => .ok "None"
  | .list items => do return "[" ++ ", ".intercalate (← itemForms items) ++ "]"

def itemForms : PlainSizes → Except Fault (List String)
  | .none => .ok []
  | .more first rest => do return (← itemForm first) :: (← itemForms rest)

end

def pixels (value : PlainSize) : Except Fault Int := do (← value.asTrack .plus).pixels

/-- The written form of a value: a text as it is, a sizing by its word, and any other value as an
item of a list. -/
def writtenForm : PlainSize → Except Fault String
  | .sizing s => .ok s.text
  | .text t => .ok t
  | value => value.itemForm

def describe : PlainSize → PlainSize
  | .sizing s => .text s.text
  | value => value

def contentExtent {m : Type → Type} [Monad m] (value : PlainSize) (index : Int)
    (items : List (Item m)) : ExceptT Fault m Int :=
  match value with
  | .sizing kind => largestExtent kind index items
  | _ => throw .wrongTrackKind

end PlainSize

namespace Line

/-- The tracks that values are when they are laid out. The pixels of each are counted before the
next value is looked at. -/
def tracksOfGiven (values : List PlainSize) : Except Fault (List Track) :=
  values.mapM fun value => do
    let track ← value.asTrack .atLeast
    if track.isAbsolute then
      let _ ← track.pixels
    return track

variable {m : Type → Type} [Monad m]

def solveGiven (values : List PlainSize) (origin length : Int) (items : List (Item m)) :
    ExceptT Fault m Line := do
  solve (← calculate (tracksOfGiven values)) origin length items

def requiredGiven (values : List PlainSize) (items : List (Item m)) (kind : Sizing) :
    ExceptT Fault m Int := do
  required (← calculate (values.mapM (PlainSize.asTrack .above))) items kind

end Line

namespace Grid

def solveGiven {m : Type → Type} [Monad m] (values : PerAxis (List PlainSize))
    (origin length : PerAxis Int) (items : PerAxis (List (Item m))) : ExceptT Fault m Grid := do
  let columns ← Line.solveGiven values.columns origin.columns length.columns items.columns
  let rows ← Line.solveGiven values.rows origin.rows length.rows items.rows
  return ⟨columns, rows⟩

end Grid

end TrackGrid
