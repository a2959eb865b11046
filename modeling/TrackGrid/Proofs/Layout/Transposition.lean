import TrackGrid.Proofs.Layout.Rebuilding
import TrackGrid.Proofs.Layout.Shifting
import TrackGrid.Proofs.Transposition

/-! What an edit makes of a layout across is what it makes of the layout, across, and so with the
grid and the sizes. -/

namespace TrackGrid

variable {κ σ : Type}

def Entry.transpose (e : Entry κ) : Entry κ := { e with constraint := e.constraint.transpose }

namespace Entries

def transpose (entries : Entries κ) : Entries κ :=
  { entries with
    present := entries.present.map Entry.transpose
    departed := entries.departed.map Entry.transpose }

variable (entries : Entries κ)

theorem handles_transpose : entries.transpose.handles = entries.handles := by
  rw [handles, transpose, List.map_map]
  rfl

private theorem constraints_transpose :
    entries.transpose.constraints = entries.constraints.map Constraint.transpose := by
  rw [constraints, constraints, transpose, List.map_map, List.map_map]
  rfl

theorem get?_transpose (handle : Int) :
    entries.transpose.get? handle = (entries.get? handle).map Entry.transpose :=
  List.find?_map

theorem lastKnown?_transpose (handle : Nat) :
    entries.transpose.lastKnown? handle = (entries.lastKnown? handle).map Entry.transpose := by
  rw [lastKnown?, lastKnown?, transpose, ← List.map_append]
  exact List.find?_map

private theorem mapConstraints_transpose {f g : Constraint → Constraint}
    (h : ∀ c : Constraint, g c.transpose = (f c).transpose) :
    entries.transpose.mapConstraints g = (entries.mapConstraints f).transpose := by
  simp only [mapConstraints, transpose, List.map_map, Entries.mk.injEq, List.map_inj_left, and_true]
  intro e _
  exact congrArg (Entry.mk e.handle e.component) (h e.constraint)

private theorem constrain_transpose (handle : Nat) (constraint : Constraint) :
    entries.transpose.constrain handle constraint.transpose =
      (entries.constrain handle constraint).transpose := by
  simp only [constrain, transpose, List.map_map, Entries.mk.injEq, List.map_inj_left, and_true]
  intro e _
  change (if e.handle = handle then (⟨e.handle, e.component, constraint.transpose⟩ : Entry κ)
    else e.transpose) = Entry.transpose (if e.handle = handle then _ else e)
  by_cases hhandle : e.handle = handle
  · rw [if_pos hhandle, if_pos hhandle]
    rfl
  · rw [if_neg hhandle, if_neg hhandle]

section
variable [DecidableEq κ]

private theorem ofComponent?_transpose (component : κ) :
    entries.transpose.ofComponent? component =
      (entries.ofComponent? component).map Entry.transpose := by
  change (entries.handleOf? component).bind _ = ((entries.handleOf? component).bind _).map _
  cases entries.handleOf? component with
  | none => rfl
  | some handle => exact entries.get?_transpose handle

private theorem add_transpose (component : κ) (constraint : Constraint) :
    entries.transpose.add component constraint.transpose =
      ((entries.add component constraint).1, (entries.add component constraint).2.transpose) := by
  unfold add
  rw [ofComponent?_transpose]
  cases entries.ofComponent? component with
  | some e => exact Prod.ext rfl (entries.constrain_transpose e.handle constraint)
  | none => simp [append, transpose, Entry.transpose]

private theorem remove_transpose (handle : Int) :
    entries.transpose.remove handle = (entries.remove handle).transpose := by
  unfold remove
  rw [get?_transpose]
  cases entries.get? handle with
  | none => rfl
  | some gone =>
    simp only [Option.map_some, transpose, List.filter_map, List.map_cons]
    rfl

end
end Entries

def Solved.transpose (solved : Solved) : Solved :=
  ⟨solved.frame.transpose, PerAxis.transpose solved.grid⟩

namespace Layout

def transpose (l : Layout κ) : Layout κ where
  tracks := l.tracks.transpose
  entries := l.entries.transpose
  stale := l.stale
  held := l.held.map Solved.transpose
  solveCount := l.solveCount

variable (l : Layout κ)

theorem hasHidden_transpose : l.transpose.hasHidden = l.hasHidden := by
  have hwithin (c : Constraint) : c.transpose.within l.transpose.counts = c.within l.counts :=
    c.within_transpose l.counts
  change l.entries.transpose.constraints.any _ = _
  rw [Entries.constraints_transpose, List.any_map, hasHidden]
  simp only [Function.comp_def, hwithin]

theorem hasOverlap_transpose : l.transpose.hasOverlap = l.hasOverlap := by
  change anyMeet l.entries.transpose.constraints = _
  rw [Entries.constraints_transpose]
  exact anyMeet_map fun c _ d _ => c.meets_transpose d

theorem visible_transpose : l.transpose.visible = l.visible.map Entry.transpose := by
  have hwithin (e : Entry κ) : e.transpose.constraint.within l.transpose.counts =
      e.constraint.within l.counts := e.constraint.within_transpose l.counts
  change (l.entries.present.map Entry.transpose).filter _ = _
  rw [List.filter_map, visible]
  simp only [Function.comp_def, hwithin]

theorem isFresh_transpose (frame : Frame) :
    l.transpose.isFresh frame.transpose = l.isFresh frame := by
  unfold isFresh transpose
  cases l.held with
  | none => rfl
  | some solved =>
    have hframe : (solved.transpose.frame == frame.transpose) = (solved.frame == frame) := by
      rw [Bool.eq_iff_iff, beq_iff_eq, beq_iff_eq]
      exact Frame.transpose_injective.eq_iff
    simp only [Option.map_some, Option.any_some, hframe]

theorem grid?_transpose : l.transpose.grid? = l.grid?.map PerAxis.transpose := by
  unfold grid? transpose
  cases l.held <;> rfl

theorem trackAt_transpose (axis : Axis) (index : Int) :
    l.transpose.trackAt axis.across index = l.trackAt axis index := by
  cases axis <;> rfl

theorem ofGiven_transpose (columns rows : Option (List GivenSize)) :
    Matches (fun l l' => l' = l.transpose) (ofGiven (κ := κ) columns rows) (ofGiven rows columns) := by
  have htracks : Matches (fun spec spec' => spec' = PerAxis.transpose spec)
      (Specification.ofGiven columns rows) (Specification.ofGiven rows columns) := by
    have htracks (columns rows : List Track) :
        (⟨rows, columns⟩ : Specification) = PerAxis.transpose ⟨columns, rows⟩ := rfl
    unfold Specification.ofGiven
    cases columns <;> cases rows <;> exact Matches.swap htracks
  exact htracks.bind fun spec _ heq => .results (by rw [heq]; rfl)

private theorem change_transpose (spec : Specification) (axis : Axis)
    (f : List Track → Except Fault (List Track)) :
    Specification.change spec.transpose axis.across f =
      (Specification.change spec axis f).map PerAxis.transpose := by
  unfold Specification.change
  rw [PerAxis.along_transpose, Axis.across_across]
  cases f (spec.along axis) with
  | error => rfl
  | ok tracks => exact congrArg Except.ok (PerAxis.transpose_put spec axis tracks)

/-- Changing the tracks of an axis and going on from there. -/
theorem change_bind_transpose (axis : Axis) (f : List Track → Except Fault (List Track))
    {g g' : Specification → Layout κ} (h : ∀ spec, g' (PerAxis.transpose spec) = (g spec).transpose) :
    (do return g' (← Specification.change l.transpose.tracks axis.across f)) =
      (do return g (← Specification.change l.tracks axis f) : Except Fault (Layout κ)).map
        Layout.transpose := by
  change (do return g' (← Specification.change (PerAxis.transpose l.tracks) axis.across f)) = _
  rw [change_transpose]
  cases Specification.change l.tracks axis f with
  | error => rfl
  | ok spec => exact congrArg Except.ok (h spec)

private theorem shiftEntries_transpose (axis : Axis) (index delta : Int) :
    l.transpose.shiftEntries axis.across index delta =
      (l.shiftEntries axis index delta).transpose := by
  unfold shiftEntries transpose
  rw [l.entries.mapConstraints_transpose fun c => c.shift_transpose axis index delta]

section
variable [DecidableEq κ]

private theorem add_transpose (component : κ) (given : GivenConstraint) :
    l.transpose.add component given.transpose =
      (l.add component given).map fun p => (p.1, p.2.transpose) := by
  unfold add
  rw [GivenConstraint.ofGiven_transpose]
  cases Constraint.ofGiven given with
  | error => rfl
  | ok c =>
    change Except.ok ((l.entries.transpose.add component c.transpose).1,
      l.transpose.putEntries (l.entries.transpose.add component c.transpose).2) = _
    rw [l.entries.add_transpose]
    rfl

private theorem setConstraint_transpose (component : κ) (given : GivenConstraint) :
    l.transpose.setConstraint component given.transpose =
      (l.setConstraint component given).map transpose := by
  unfold setConstraint
  rw [GivenConstraint.ofGiven_transpose, show l.transpose.entries = l.entries.transpose from rfl,
    Entries.ofComponent?_transpose]
  cases Constraint.ofGiven given with
  | error => rfl
  | ok c =>
    cases l.entries.ofComponent? component with
    | none => rfl
    | some e =>
      refine congrArg (fun entries => Except.ok (l.transpose.putEntries entries)) ?_
      exact l.entries.constrain_transpose e.handle c

private theorem removeEntry_transpose (handle : Int) :
    l.transpose.removeEntry handle = (l.removeEntry handle).transpose := by
  unfold removeEntry
  rw [show l.transpose.entries = l.entries.transpose from rfl, Entries.get?_transpose]
  cases l.entries.get? handle with
  | none => rfl
  | some gone =>
    refine congrArg (fun entries => l.transpose.putEntries entries) ?_
    exact l.entries.remove_transpose handle

private theorem removeComponent_transpose (component : κ) :
    l.transpose.removeComponent component = (l.removeComponent component).transpose := by
  unfold removeComponent
  rw [show l.transpose.entries = l.entries.transpose from rfl, Entries.ofComponent?_transpose]
  cases l.entries.ofComponent? component with
  | none => rfl
  | some e => exact l.removeEntry_transpose e.handle

theorem constraintOf?_transpose (component : κ) :
    l.transpose.constraintOf? component =
      (l.constraintOf? component).map Constraint.transpose := by
  unfold constraintOf?
  rw [show l.transpose.entries = l.entries.transpose from rfl, Entries.ofComponent?_transpose,
    Option.map_map, Option.map_map]
  rfl

end
end Layout

namespace Edit

def transpose : Edit κ → Edit κ
  | .add component given => .add component given.transpose
  | .setConstraint component given => .setConstraint component given.transpose
  | .removeComponent component => .removeComponent component
  | .removeEntry handle => .removeEntry handle
  | .setTracks axis values => .setTracks axis.across values
  | .setTrack axis index value => .setTrack axis.across index value
  | .insertTrack axis index value => .insertTrack axis.across index value
  | .deleteTrack axis index => .deleteTrack axis.across index
  | .invalidate => .invalidate

/-- An edit across makes of a layout across what the edit makes of the layout, or fails alike. -/
theorem apply_transpose [DecidableEq κ] (edit : Edit κ) (l : Layout κ) :
    edit.transpose.apply l.transpose = (edit.apply l).map fun p => (p.1, p.2.transpose) := by
  have hlift {x y : Except Fault (Layout κ)} (h : y = x.map Layout.transpose) :
      (do return (none, ← y) : Except Fault (Option Nat × Layout κ)) =
        (do return (none, ← x) : Except Fault (Option Nat × Layout κ)).map
          fun p => (p.1, p.2.transpose) := by
    rw [h]
    cases x <;> rfl
  cases edit with
  | add component given =>
    simp only [transpose, apply, l.add_transpose]
    cases l.add component given <;> rfl
  | setConstraint component given => exact hlift (l.setConstraint_transpose component given)
  | removeComponent component =>
    exact congrArg (fun l => Except.ok (none, l)) (l.removeComponent_transpose component)
  | removeEntry handle =>
    exact congrArg (fun l => Except.ok (none, l)) (l.removeEntry_transpose handle)
  | setTracks axis values => exact hlift (l.change_bind_transpose axis _ fun _ => rfl)
  | setTrack axis index value => exact hlift (l.change_bind_transpose axis _ fun _ => rfl)
  | insertTrack axis index value =>
    exact hlift (l.change_bind_transpose axis _ fun spec =>
      (l.putTracks spec).shiftEntries_transpose axis index 1)
  | deleteTrack axis index =>
    exact hlift (l.change_bind_transpose axis _ fun spec =>
      (l.putTracks spec).shiftEntries_transpose axis index (-1))
  | invalidate => rfl

end Edit
end TrackGrid
