import TrackGrid.Text

/-! The ways an operation can fail, as causes, and what is reported of components that are passed
over. -/

namespace TrackGrid

inductive ValueKind where
  | integer | float | boolean | text | list | absent | sizing
  deriving DecidableEq, Repr

namespace ValueKind

def name : ValueKind → String
  | .integer => "int"
  | .float => "float"
  | .boolean => "bool"
  | .text => "str"
  | .list => "list"
  | .absent => "NoneType"
  | .sizing => "TrackSizing"

def label (kind : ValueKind) : String :=
  match kind with
  | .sizing => "<enum '" ++ kind.name ++ "'>"
  | _ => "<class '" ++ kind.name ++ "'>"

end ValueKind

/-- What a value must be a number for. -/
inductive NumberUse where
  | atLeast
  | above
  | plus
  deriving DecidableEq, Repr

namespace NumberUse

/-- The wording of what is wrong with using a value of a kind so. Texts and lists can be added to,
but no number can. -/
def complaint (use : NumberUse) (kind : ValueKind) : String :=
  match use with
  | .atLeast => "'>=' not supported between instances of '" ++ kind.name ++ "' and 'float'"
  | .above => "'<' not supported between instances of 'float' and '" ++ kind.name ++ "'"
  | .plus =>
      match kind with
      | .text | .list =>
          "can only concatenate " ++ kind.name ++ " (not \"float\") to " ++ kind.name
      | _ => "unsupported operand type(s) for +: '" ++ kind.name ++ "' and 'float'"

end NumberUse

inductive SizeKind where
  | preferred
  | minimum
  deriving DecidableEq, Repr

namespace SizeKind

def label : SizeKind → String
  | .preferred => "preferred_size"
  | .minimum => "minimum_size"

end SizeKind

inductive Fault where
  | integerTooLarge
  | infiniteInteger
  | undefinedInteger
  /-- An integer of more digits than are ever read was met; the field counts them. -/
  | tooLongToRead (digits : Nat)
  | tooLongToWrite
  | noInteger (text : String)
  | noFloat (text : String)
  /-- A track was used where another kind of track belongs. -/
  | wrongTrackKind
  | noSuchTrack (index : Int)
  | badTrackPosition (index last : Int)
  | onlyTrack
  | indexOutOfRange
  /-- A list was read at a position beyond all lists. -/
  | indexTooLarge
  | notANumber (use : NumberUse) (kind : ValueKind)
  | noConstraint
  | notAConstraint (kind : ValueKind)
  /-- A component failed of its own accord. Its reason is taken to have a written form. -/
  | component (reason : String)
  /-- Something else from outside failed: a conversion of a number, or the making of a picture. Its
  reason is taken to have a written form. -/
  | foreign (kind reason : String)
  /-- A component that gives no size was asked for its width. -/
  | noSize
  | fixedSize (kind : SizeKind)
  /-- No grid is held after resolving. -/
  | noGrid
  /-- Callbacks called for callbacks beyond the deepest level. -/
  | nestedTooDeeply
  deriving DecidableEq, Repr

namespace Fault

/-- The most decimal digits of an integer that are read or written. -/
def digitLimit : Nat := 4300

/-- The most characters of a quoted text that are shown where no integer was found. -/
def shownLimit : Nat := 200

def message : Fault → String
  | .integerTooLarge => "int too large to convert to float"
  | .infiniteInteger => "cannot convert float infinity to integer"
  | .undefinedInteger => "cannot convert float NaN to integer"
  | .tooLongToRead digits =>
      s!"Exceeds the limit ({digitLimit} digits) for integer string conversion: value has " ++
        s!"{digits} digits; use sys.set_int_max_str_digits() to increase the limit"
  | .tooLongToWrite =>
      s!"Exceeds the limit ({digitLimit} digits) for integer string conversion; use " ++
        "sys.set_int_max_str_digits() to increase the limit"
  | .noInteger text =>
      "invalid literal for int() with base 10: " ++
        String.ofList ((Text.quoted text.toList).take shownLimit)
  | .noFloat text =>
      "could not convert string to float: " ++ String.ofList (Text.quoted text.toList)
  | .wrongTrackKind => ""
  | .noSuchTrack index => s!"Track index {index} out of range."
  | .badTrackPosition index last => s!"Track index {index} is invalid. Valid range is [0, {last}]."
  | .onlyTrack => "Cannot delete the only remaining track."
  | .indexOutOfRange => "list index out of range"
  | .indexTooLarge => "cannot fit 'int' into an index-sized integer"
  | .notANumber use kind => use.complaint kind
  | .noConstraint => "No constraint for the component."
  | .notAConstraint kind => "Cannot accept a constraint of type " ++ kind.label ++ "."
  | .component reason | .foreign _ reason => reason
  | .noSize => "'NoneType' object has no attribute 'width'"
  | .fixedSize kind => "property '" ++ kind.label ++ "' of 'BrokenComponent' object has no setter"
  | .noGrid => ""
  | .nestedTooDeeply => "maximum recursion depth exceeded"

end Fault

/-- The largest position that any list can have. -/
def largestIndex : Nat := 9223372036854775807

/-- The item at a position; -1 is the last one. -/
def itemAt {α : Type} (xs : List α) (index : Int) : Except Fault α :=
  let position := if index < 0 then index + xs.length else index
  match if position < 0 then none else xs[position.toNat]? with
  | some x => .ok x
  | none =>
      .error (if index < -(largestIndex : Int) - 1 ∨ largestIndex < index then .indexTooLarge
        else .indexOutOfRange)

inductive Severity where
  | debug
  | error
  deriving DecidableEq, Repr

/-- A notice about a component of type `κ` or about an entry, which is given in its written form. -/
inductive Notice (κ : Type) where
  | unknownComponent (name : Option String)
  | queryFailed (component : κ) (fault : Fault)
  | entryHidden (entry : String)
  | placementFailed (entry : String) (fault : Fault)
  deriving DecidableEq, Repr

namespace Notice

variable {κ : Type}

def severity : Notice κ → Severity
  | .unknownComponent _ | .entryHidden _ => .debug
  | .queryFailed _ _ | .placementFailed _ _ => .error

def message (label : κ → String) : Notice κ → String
  | .unknownComponent name =>
      "Table layout description references unknown component " ++ name.getD "None"
  | .queryFailed component fault =>
      "Table layout size query failed " ++ label component ++ ": " ++ fault.message
  | .entryHidden entry => "Table layout skipping hidden entry " ++ entry
  | .placementFailed entry fault =>
      "Table layout placement failed " ++ entry ++ ": " ++ fault.message

end Notice

end TrackGrid
