import TrackGrid.Track

/-! The tracks of one axis laid out one after the other in four passes, and the inverse: the length
they must have to give each item its extent. -/

namespace TrackGrid

/-- A component along one axis: the tracks it covers, whether it occupies a single cell, and its
extent of a kind. -/
structure Item (m : Type → Type) where
  tracks : Interval
  single : Bool
  extent : Sizing → ExceptT Fault m Int

namespace Item

variable {m : Type → Type}

def sitsIn (item : Item m) (index : Int) : Bool :=
  item.single && item.tracks.first == index && item.tracks.last == index

/-- Whether the tracks of the item, if they are in order, are among `count` tracks. -/
def inside (item : Item m) (count : Int) : Bool :=
  0 ≤ item.tracks.first && item.tracks.last < count

end Item

variable {m : Type → Type} [Monad m]

def calculate {α : Type} (x : Except Fault α) : ExceptT Fault m α := ExceptT.mk (pure x)

/-- The largest extent of a kind among the items that occupy a track alone, or zero. -/
def largestExtent (kind : Sizing) (index : Int) (items : List (Item m)) : ExceptT Fault m Int :=
  (items.filter (·.sitsIn index)).foldlM (fun best item => return max best (← item.extent kind)) 0

def contentExtent (track : Track) (index : Int) (items : List (Item m)) : ExceptT Fault m Int :=
  match track with
  | .sizing kind => largestExtent kind index items
  | .number _ => throw .wrongTrackKind

/-- The sizes of the tracks of one axis and the edges between them, one edge more than sizes. -/
structure Line where
  sizes : List Int
  offsets : List Int
  deriving DecidableEq, Repr

namespace Line

def edges (origin : Int) : List Int → List Int
  | [] => [origin]
  | size :: rest => origin :: edges (origin + size) rest

def ofSizes (origin : Int) (sizes : List Int) : Line := ⟨sizes, edges origin sizes⟩

def origin (line : Line) : Int := line.offsets.headD 0

def length (line : Line) : Int := line.offsets.getLastD 0 - line.origin

def total (sizes : List Int) : Int := sizes.foldr (· + ·) 0

def absoluteSizes (tracks : List Track) : Except Fault (List Int) :=
  tracks.mapM fun track => if track.isAbsolute then track.pixels else pure 0

def share (fraction : Binary64) (base : Int) : Except Fault Int := do
  (fraction * (← Binary64.ofInt base)).roundHalfUp

/-- The sizes of the relative tracks, zero for the others. All take their fraction of one base. -/
def relativeSizes (base : Int) (tracks : List Track) : Except Fault (List Int) :=
  tracks.mapM fun track => match track.fraction? with
    | some fraction => share fraction base
    | none => pure 0

/-- Gives `part` to each fill track, and the remainder of the division to the last one. -/
def dealFill (part remainder : Int) : List Track → List Int
  | [] => []
  | track :: rest =>
      (if track.isFill then if rest.any Track.isFill then part else part + remainder else 0) ::
        dealFill part remainder rest

def fillSizes (rest : Int) (tracks : List Track) : List Int :=
  let count : Int := tracks.countP Track.isFill
  dealFill (rest / count) (rest % count) tracks

variable {m : Type → Type} [Monad m]

def contentSizes (tracks : List Track) (items : List (Item m)) : ExceptT Fault m (List Int) :=
  tracks.zipIdx.mapM fun (track, index) =>
    if track.isContent then contentExtent track index items else pure 0

def addSizes (sizes : List Int) (others : List Int) : List Int := List.zipWith (· + ·) sizes others

/-- Lays out tracks from `origin` on in the space of `length`. Absolute tracks take their pixels,
content tracks the largest extent of their items, relative tracks their fraction of what is then left,
and fill tracks share the rest. -/
def solve (tracks : List Track) (origin length : Int) (items : List (Item m)) :
    ExceptT Fault m Line := do
  let absolute ← calculate (absoluteSizes tracks)
  let content ← contentSizes tracks items
  let left := length - total absolute - total content
  let relative ← calculate (relativeSizes (max left 0) tracks)
  let fill := fillSizes (max (left - total relative) 0) tracks
  return ofSizes origin (addSizes (addSizes absolute content) (addSizes relative fill))

end Line

abbrev Grid := PerAxis Line

namespace Grid

variable {m : Type → Type} [Monad m]

def solve (tracks : PerAxis (List Track)) (origin length : PerAxis Int)
    (items : PerAxis (List (Item m))) : ExceptT Fault m Grid := do
  let columns ← Line.solve tracks.columns origin.columns length.columns items.columns
  let rows ← Line.solve tracks.rows origin.rows length.rows items.rows
  return ⟨columns, rows⟩

def counts (grid : Grid) : PerAxis Int := grid.map fun line => (line.sizes.length : Int)

end Grid

namespace Line

/-- What a track contributes: a size of its own, and a share of the remaining space if it takes
one. -/
structure Contribution where
  fixed : Int
  share : Option Binary64
  deriving DecidableEq

def sumShares (shares : List Binary64) : Binary64 := shares.foldl (· + ·) Binary64.zero

/-- The part of the remaining space that each fill track receives: an equal part of what the
relative tracks leave. -/
def fillShare (tracks : List Track) : Binary64 :=
  let left := Binary64.one - sumShares (tracks.filterMap Track.fraction?)
  let left := if (Number.float left).lt (.int 0) then Binary64.zero else left
  left / Binary64.ofRatio (tracks.countP Track.isFill) 1

variable {m : Type → Type} [Monad m]

def contribution (fillShare : Binary64) (items : List (Item m)) (track : Track) (index : Nat) :
    ExceptT Fault m Contribution := do
  if track.isAbsolute then
    return ⟨← calculate track.pixels, none⟩
  else if track.isContent then
    return ⟨← contentExtent track index items, none⟩
  else if track.isFill then
    return ⟨0, some fillShare⟩
  else
    return ⟨0, track.fraction?⟩

def spanned (contributions : List Contribution) (tracks : Interval) : List Contribution :=
  (contributions.drop tracks.first.toNat).take (tracks.last + 1 - tracks.first).toNat

/-- The length at which shares add up to `need`. If they add up to nothing, the space is treated
as split evenly among all tracks that take a share. -/
def scaledNeed (need : Int) (shares : List Binary64) (takers : Nat) : Except Fault Int := do
  let share := sumShares shares
  let share :=
    if (Number.float share).le (.int 0) then Binary64.ofRatio shares.length takers else share
  ((← Binary64.ofInt need) / share).roundHalfUp

/-- The length that an item asks of the tracks that take a share; none if its tracks take none. Its
extent is asked for in any case. -/
def itemNeed (contributions : List Contribution) (kind : Sizing) (item : Item m) :
    ExceptT Fault m (Option Int) := do
  let spanned := spanned contributions item.tracks
  let need := (← item.extent kind) - total (spanned.map Contribution.fixed)
  let shares := spanned.filterMap Contribution.share
  if shares.isEmpty then return none
  else
    let takers := contributions.countP (·.share.isSome)
    return some (← calculate (scaledNeed need shares takers))

/-- The length at which every item inside of the tracks has its extent of a kind. -/
def required (tracks : List Track) (items : List (Item m)) (kind : Sizing) :
    ExceptT Fault m Int := do
  let fillShare := fillShare tracks
  let contributions ← tracks.zipIdx.mapM fun (track, index) =>
    contribution fillShare items track index
  let scaled ← (items.filter (·.inside tracks.length)).foldlM
    (fun longest item => return max longest ((← itemNeed contributions kind item).getD longest)) 0
  return scaled + total (contributions.map Contribution.fixed)

end Line

end TrackGrid
