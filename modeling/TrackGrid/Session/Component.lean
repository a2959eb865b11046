import TrackGrid.Layout.Edit

/-! Components held in memory, which may be made to fail, to give no size, or to carry out commands
while they are placed. -/

namespace TrackGrid

namespace SizeKind

def sizing : SizeKind → Sizing
  | .preferred => .preferred
  | .minimum => .minimum

end SizeKind

/-- A command to a layout and what is around it. A command that could not be read fails with the
fault that was met. -/
inductive Command where
  | edit (edit : Edit String)
  | constraintOf (component : String)
  | entry (handle : Int)
  | track (axis : Axis) (index : Int)
  | arrange
  | resolve
  | heldGrid
  | size (kind : SizeKind)
  | maximumSize
  | alignment
  | hasHidden
  | hasOverlap
  | describe (named : Bool) (skipped : List String)
  | setContainerSize (size : Size)
  | setInsets (insets : Insets)
  | setComponentSize (component : String) (kind : SizeKind) (size : Size)
  | fit (kind : SizeKind)
  | boundsOf (component : String) (given : GivenConstraint)
  | picture (seed : Int)
  | reload (skipped : List String)
  | unreadable (fault : Fault)
  deriving DecidableEq

inductive Reply where
  | size
  | none
  | fail (reason : String)
  deriving DecidableEq, Repr

structure Component where
  name : String
  preferred : Size
  minimum : Size
  preferredReply : Reply
  minimumReply : Reply
  /-- Whether preferred size queries are counted. -/
  counts : Bool
  /-- Whether the sizes cannot be changed. -/
  fixed : Bool
  refusesBounds : Bool
  onBounds : List Command
  bounds : Option Rect
  boundsCount : Nat
  queryCount : Nat

namespace Component

/-- A component that was not placed yet. The minimum size is the preferred one unless given. -/
def make (name : String) (preferred minimum : Option Size) : Component where
  name := name
  preferred := preferred.getD Size.zero
  minimum := minimum.getD (preferred.getD Size.zero)
  preferredReply := .size
  minimumReply := .size
  counts := true
  fixed := false
  refusesBounds := false
  onBounds := []
  bounds := none
  boundsCount := 0
  queryCount := 0

/-- A component whose size queries fail and are not counted. -/
def broken (name : String) : Component :=
  { make name none none with
    preferredReply := .fail "preferred size unavailable"
    minimumReply := .fail "minimum size unavailable"
    counts := false
    fixed := true }

def resize (c : Component) (kind : SizeKind) (size : Size) : Except Fault Component :=
  if c.fixed then .error (.fixedSize kind)
  else match kind with
    | .preferred => .ok { c with preferred := size }
    | .minimum => .ok { c with minimum := size }

def answer (reply : Reply) (size : Size) : Except Fault (Option Size) :=
  match reply with
  | .size => .ok (some size)
  | .none => .ok none
  | .fail reason => .error (.component reason)

def asked (c : Component) : Component :=
  if c.counts then { c with queryCount := c.queryCount + 1 } else c

def placed (c : Component) (bounds : Rect) : Component :=
  { c with bounds := some bounds, boundsCount := c.boundsCount + 1 }

end Component

end TrackGrid
