import TrackGrid.Proofs.Layout.Edit
import TrackGrid.Proofs.Layout.Shifting
import TrackGrid.Proofs.Transposition

/-! A change of the tracks of one axis looks at these tracks and moves entries along that axis only,
so changes of the two axes can be made in either order. -/

namespace TrackGrid

variable {κ σ : Type}

private theorem PerAxis.put_comm {α : Type} (p : PerAxis α) (axis : Axis) (a b : α) :
    (p.put axis a).put axis.across b = (p.put axis.across b).put axis a := by
  cases axis <;> rfl

private theorem PerAxis.along_put_across {α : Type} (p : PerAxis α) (axis : Axis) (a : α) :
    (p.put axis.across a).along axis = p.along axis := by
  cases axis <;> rfl

namespace Entries

variable (entries : Entries κ)

private theorem mapConstraints_id : entries.mapConstraints id = entries := by
  simp only [mapConstraints, id_eq, List.map_id']

private theorem mapConstraints_comm {f g : Constraint → Constraint} (h : ∀ c, g (f c) = f (g c)) :
    (entries.mapConstraints f).mapConstraints g = (entries.mapConstraints g).mapConstraints f := by
  simp only [mapConstraints, List.map_map, Function.comp_def, h]

end Entries

inductive TrackEdit where
  | setAll (values : List GivenSize)
  | set (index : Int) (value : GivenSize)
  | insert (index : Int) (value : GivenSize)
  | delete (index : Int)
  deriving DecidableEq

namespace TrackEdit

def along (axis : Axis) : TrackEdit → Edit κ
  | .setAll values => .setTracks axis values
  | .set index value => .setTrack axis index value
  | .insert index value => .insertTrack axis index value
  | .delete index => .deleteTrack axis index

def change : TrackEdit → List Track → Except Fault (List Track)
  | .setAll values => fun _ => Track.listOfGiven values
  | .set index value => fun tracks => Track.replace tracks index value
  | .insert index value => fun tracks => Track.insert tracks index value
  | .delete index => fun tracks => Track.delete tracks index

def move (axis : Axis) : TrackEdit → Constraint → Constraint
  | .setAll _ | .set _ _ => id
  | .insert index _ => fun c => c.shift axis index 1
  | .delete index => fun c => c.shift axis index (-1)

/-- The layout that a change leaves that makes the given tracks of those of an axis. -/
def leaves (axis : Axis) (edit : TrackEdit) (l : Layout κ) (tracks : List Track) : Layout κ :=
  { l with
    tracks := l.tracks.put axis tracks
    entries := l.entries.mapConstraints (edit.move axis)
    stale := true }

variable (axis : Axis) (edit other : TrackEdit)

/-- All that a change depends on are the tracks of its axis. -/
theorem apply_along [DecidableEq κ] (l : Layout κ) :
    (edit.along axis).apply l =
      (edit.change (l.tracks.along axis)).map fun tracks => (none, edit.leaves axis l tracks) := by
  have hkeep (tracks : List Track) :
      l.putTracks (l.tracks.put axis tracks) =
        { l with
          tracks := l.tracks.put axis tracks
          entries := l.entries.mapConstraints id
          stale := true } := by
    rw [l.entries.mapConstraints_id]
    rfl
  cases edit with
  | setAll values =>
    change (do return (none, ← l.setTracks axis values)) = Except.map _ (Track.listOfGiven values)
    rw [Layout.setTracks, Specification.setTracks, Specification.change]
    cases Track.listOfGiven values with
    | error fault => rfl
    | ok tracks => exact congrArg (fun left => Except.ok (none, left)) (hkeep tracks)
  | set index value =>
    change (do return (none, ← l.setTrack axis index value)) =
      Except.map _ (Track.replace (l.tracks.along axis) index value)
    rw [Layout.setTrack, Specification.setTrack, Specification.change]
    cases Track.replace (l.tracks.along axis) index value with
    | error fault => rfl
    | ok tracks => exact congrArg (fun left => Except.ok (none, left)) (hkeep tracks)
  | insert index value =>
    change (do return (none, ← l.insertTrack axis index value)) =
      Except.map _ (Track.insert (l.tracks.along axis) index value)
    rw [Layout.insertTrack, Specification.insertTrack, Specification.change]
    cases Track.insert (l.tracks.along axis) index value <;> rfl
  | delete index =>
    change (do return (none, ← l.deleteTrack axis index)) =
      Except.map _ (Track.delete (l.tracks.along axis) index)
    rw [Layout.deleteTrack, Specification.deleteTrack, Specification.change]
    cases Track.delete (l.tracks.along axis) index <;> rfl

private theorem run_along [DecidableEq κ] (w : World κ σ) :
    ((edit.along axis).carryOut : Act κ σ (Option Nat)).run.run w =
      match edit.change (w.layout.tracks.along axis) with
      | .ok tracks => (.ok none, ⟨edit.leaves axis w.layout tracks, w.around⟩)
      | .error fault => (.error fault, w) := by
  rw [(edit.along axis).carryOut_performs w, apply_along]
  cases edit.change (w.layout.tracks.along axis) <;> rfl

private theorem move_comm (c : Constraint) :
    other.move axis.across (edit.move axis c) = edit.move axis (other.move axis.across c) := by
  have hback : (-1 : Int) ≤ -1 := le_rfl
  have hfar : (-1 : Int) ≤ 1 := by decide
  cases edit with
  | setAll _ | set _ _ => rfl
  | insert index value =>
    cases other with
    | setAll _ | set _ _ => rfl
    | insert index' value' => exact c.shift_comm axis index index' hfar hfar
    | delete index' => exact c.shift_comm axis index index' hfar hback
  | delete index =>
    cases other with
    | setAll _ | set _ _ => rfl
    | insert index' value' => exact c.shift_comm axis index index' hback hfar
    | delete index' => exact c.shift_comm axis index index' hback hback

/-- Two columns and two rows collapse to one cell after the first of the two changes has left a span. -/
example :
    (TrackEdit.delete 2).move .rows ((TrackEdit.delete 2).move .columns (.span ⟨⟨1, 2⟩, ⟨1, 2⟩⟩)) =
      .single ⟨1, 1⟩ Constraint.fullAlign := by
  decide

private theorem leaves_comm (l : Layout κ) (tracks tracks' : List Track) :
    other.leaves axis.across (edit.leaves axis l tracks) tracks' =
      edit.leaves axis (other.leaves axis.across l tracks') tracks := by
  simp only [leaves, l.tracks.put_comm axis tracks tracks',
    l.entries.mapConstraints_comm (move_comm axis edit other)]

/-- A change of the tracks of one axis and a change of those of the other one can be made in either
order. Each of them has the same outcome first or second, the same failure too, and in the end the
world is the same: the tracks of both axes, the entries in their order with their handles, cells and
alignments, whether each is a single cell or a span, and the mark of being out of date. -/
theorem either_order [DecidableEq κ] :
    (do let first ← Act.outcome (edit.along axis).carryOut
        let second ← Act.outcome (other.along axis.across).carryOut
        return (first, second) :
      Act κ σ (Except Fault (Option Nat) × Except Fault (Option Nat))) =
    (do let second ← Act.outcome (other.along axis.across).carryOut
        let first ← Act.outcome (edit.along axis).carryOut
        return (first, second)) := by
  refine ExceptT.ext (StateT.ext fun w => ?_)
  have hfirst (l : Layout κ) (tracks : List Track) :
      (edit.leaves axis l tracks).tracks.along axis.across = l.tracks.along axis.across :=
    PerAxis.across_put _ _ _
  have hsecond (l : Layout κ) (tracks : List Track) :
      (other.leaves axis.across l tracks).tracks.along axis = l.tracks.along axis :=
    PerAxis.along_put_across _ _ _
  simp only [run_bind, Act.run_outcome, run_along]
  -- whether a change fails is settled by tracks that the other one leaves alone
  cases hedit : edit.change (w.layout.tracks.along axis) with
  | error fault =>
    cases hother : other.change (w.layout.tracks.along axis.across) with
    | error fault' => simp only [hedit]
    | ok tracks' => simp only [hedit, hsecond]
  | ok tracks =>
    cases hother : other.change (w.layout.tracks.along axis.across) with
    | error fault' => simp only [hedit, hother, hfirst]
    | ok tracks' =>
      simp only [hedit, hother, hfirst, hsecond, leaves_comm axis edit other]

end TrackEdit
end TrackGrid
