import TrackGrid.Layout.Edit
import TrackGrid.Proofs.Layout.Run

/-! Edits are all or nothing. Carried out in place, one that fails at whatever point has written
nothing. -/

namespace TrackGrid

variable {κ σ α : Type}

namespace Entries

private theorem getElem?_foldl_modify (f : α → α) (xs : List α) (n j : Nat) :
    ((List.range n).foldl (fun ys i => ys.modify i f) xs)[j]? =
      if j < n then f <$> xs[j]? else xs[j]? := by
  induction n with
  | zero => rfl
  | succ n ih =>
    rw [List.range_succ, List.foldl_concat, List.getElem?_modify, ih]
    grind

/-- Changing the constraints one after the other changes all. -/
theorem foldl_modifyAt (entries : Entries κ) (f : Constraint → Constraint) :
    (List.range entries.present.length).foldl (fun es i => es.modifyAt i f) entries =
      entries.mapConstraints f := by
  let change (e : Entry κ) : Entry κ := { e with constraint := f e.constraint }
  -- position by position the list of entries is modified, and nothing else of the table
  have hfold (is : List Nat) (es : Entries κ) : is.foldl (fun es i => es.modifyAt i f) es =
      { es with present := is.foldl (fun xs i => xs.modify i change) es.present } := by
    induction is generalizing es with
    | nil => rfl
    | cons i is ih => exact ih (es.modifyAt i f)
  have hpresent : (List.range entries.present.length).foldl (fun xs i => xs.modify i change)
      entries.present = entries.present.map change := by
    refine List.ext_getElem? fun j => ?_
    rw [getElem?_foldl_modify, List.getElem?_map]
    split
    · rfl
    · rw [List.getElem?_eq_none (by omega)]
      rfl
  rw [hfold, hpresent]
  rfl

end Entries

/-- An act that makes of a layout what `f` tells and gives the result that `f` tells. Where `f` fails,
it fails as well and leaves everything as it is. -/
def Act.Performs (f : Layout κ → Except Fault (α × Layout κ)) (x : Act κ σ α) : Prop :=
  ∀ w, x.run.run w = match f w.layout with
    | .ok (a, l) => (.ok a, ⟨l, w.around⟩)
    | .error fault => (.error fault, w)

/-- The same for an act without a result. -/
def Act.Changes (f : Layout κ → Except Fault (Layout κ)) (x : Act κ σ Unit) : Prop :=
  ∀ w, x.run.run w = match f w.layout with
    | .ok l => (.ok (), ⟨l, w.around⟩)
    | .error fault => (.error fault, w)

namespace Act

private theorem run_markStale (w : World κ σ) :
    (markStale : Act κ σ Unit).run.run w = (.ok (), ⟨w.layout.invalidate, w.around⟩) := rfl

private theorem run_forM_writeEntries {ι : Type} (f : ι → Entries κ → Entries κ) (is : List ι)
    (w : World κ σ) :
    (is.forM fun i => (writeEntries (f i) : Act κ σ Unit)).run.run w =
      (.ok (), ⟨{ w.layout with entries := is.foldl (fun es i => f i es) w.layout.entries },
        w.around⟩) := by
  induction is generalizing w with
  | nil => rfl
  | cons i is ih => exact ih ⟨{ w.layout with entries := f i w.layout.entries }, w.around⟩

private theorem run_shiftEach (axis : Axis) (index delta : Int) (w : World κ σ) :
    (shiftEach axis index delta : Act κ σ Unit).run.run w =
      (.ok (), ⟨w.layout.shiftEntries axis index delta, w.around⟩) := by
  refine (run_forM_writeEntries _ _ w).trans ?_
  rw [Entries.foldl_modifyAt]
  rfl

private theorem run_writeTracks (axis : Axis) (f : List Track → Except Fault (List Track))
    (w : World κ σ) : (writeTracks axis f : Act κ σ Unit).run.run w =
      match w.layout.tracks.change axis f with
      | .ok tracks => (.ok (), ⟨{ w.layout with tracks := tracks }, w.around⟩)
      | .error fault => (.error fault, w) := by
  unfold writeTracks Specification.change
  simp only [run_bind, run_layout, run_around]
  cases f (w.layout.tracks.along axis) <;> rfl

private theorem Changes.performs {f : Layout κ → Except Fault (Layout κ)} {x : Act κ σ Unit}
    (h : x.Changes f) (a : α) : (x >>= fun _ => pure a).Performs fun l => do return (a, ← f l) := by
  intro w
  dsimp only
  rw [run_bind, h w]
  cases f w.layout <;> rfl

/-- Writing tracks and then what cannot fail. -/
theorem writeTracks_changes {axis : Axis} {f : List Track → Except Fault (List Track)}
    {x : Act κ σ Unit} {g : Layout κ → Layout κ} {change : Layout κ → Except Fault (Layout κ)}
    (hx : ∀ w, x.run.run w = (.ok (), ⟨g w.layout, w.around⟩))
    (hchange : ∀ l, change l =
      (fun tracks => g { l with tracks := tracks }) <$> l.tracks.change axis f) :
    (writeTracks axis f >>= fun _ => x).Changes change := by
  intro w
  rw [run_bind, run_writeTracks, hchange]
  cases w.layout.tracks.change axis f with
  | error fault => rfl
  | ok tracks => exact hx _

private theorem setTracks_changes (axis : Axis) (values : List GivenSize) :
    (setTracks axis values : Act κ σ Unit).Changes fun l => l.setTracks axis values :=
  writeTracks_changes run_markStale fun _ => bind_pure_comp _ _

private theorem setTrack_changes (axis : Axis) (index : Int) (value : GivenSize) :
    (setTrack axis index value : Act κ σ Unit).Changes fun l => l.setTrack axis index value :=
  writeTracks_changes run_markStale fun _ => bind_pure_comp _ _

private theorem run_shiftEach_markStale (axis : Axis) (index delta : Int) (w : World κ σ) :
    (shiftEach axis index delta >>= fun _ => markStale : Act κ σ Unit).run.run w =
      (.ok (), ⟨(w.layout.shiftEntries axis index delta).invalidate, w.around⟩) := by
  rw [run_bind, run_shiftEach]
  rfl

private theorem insertTrack_changes (axis : Axis) (index : Int) (value : GivenSize) :
    (insertTrack axis index value : Act κ σ Unit).Changes fun l => l.insertTrack axis index value :=
  writeTracks_changes (g := fun l => (l.shiftEntries axis index 1).invalidate)
    (run_shiftEach_markStale axis index 1) fun _ => bind_pure_comp _ _

private theorem deleteTrack_changes (axis : Axis) (index : Int) :
    (deleteTrack axis index : Act κ σ Unit).Changes fun l => l.deleteTrack axis index :=
  writeTracks_changes (g := fun l => (l.shiftEntries axis index (-1)).invalidate)
    (run_shiftEach_markStale axis index (-1)) fun _ => bind_pure_comp _ _

variable [DecidableEq κ]

private theorem add_performs (component : κ) (given : GivenConstraint) :
    (add component given : Act κ σ Nat).Performs fun l => l.add component given := by
  intro w
  unfold add Layout.add Entries.add
  simp only [run_bind, run_around, run_calculate, run_layout]
  cases Constraint.ofGiven given with
  | error fault => rfl
  | ok constraint =>
    dsimp only
    cases w.layout.entries.ofComponent? component <;> rfl

private theorem setConstraint_changes (component : κ) (given : GivenConstraint) :
    (setConstraint component given : Act κ σ Unit).Changes fun l =>
      l.setConstraint component given := by
  intro w
  unfold setConstraint Layout.setConstraint
  simp only [run_bind, run_around, run_calculate, run_layout]
  cases Constraint.ofGiven given with
  | error fault => rfl
  | ok constraint =>
    dsimp only
    cases w.layout.entries.ofComponent? component <;> rfl

private theorem removeEntry_changes (handle : Int) :
    (removeEntry handle : Act κ σ Unit).Changes fun l => .ok (l.removeEntry handle) := by
  intro w
  unfold removeEntry Layout.removeEntry Entries.remove
  rw [run_bind, run_layout]
  dsimp only
  cases w.layout.entries.get? handle <;> rfl

private theorem removeComponent_changes (component : κ) :
    (removeComponent component : Act κ σ Unit).Changes fun l =>
      .ok (l.removeComponent component) := by
  intro w
  unfold removeComponent Layout.removeComponent
  rw [run_bind, run_layout]
  dsimp only
  cases w.layout.entries.ofComponent? component with
  | none => rfl
  | some entry => exact removeEntry_changes entry.handle w

end Act

namespace Edit

variable [DecidableEq κ] {l l' : Layout κ} {handle? : Option Nat}

/-- Carrying out an edit in place makes of a layout what the edit does, as a whole or not at all. -/
theorem carryOut_performs (edit : Edit κ) :
    (edit.carryOut : Act κ σ (Option Nat)).Performs edit.apply := by
  cases edit with
  | add component given =>
    intro w
    unfold carryOut
    rw [run_bind, Act.add_performs component given w]
    dsimp only [apply]
    cases w.layout.add component given <;> rfl
  | setConstraint component given => exact (Act.setConstraint_changes component given).performs none
  | removeComponent component => exact (Act.removeComponent_changes component).performs none
  | removeEntry handle => exact (Act.removeEntry_changes handle).performs none
  | setTracks axis values => exact (Act.setTracks_changes axis values).performs none
  | setTrack axis index value => exact (Act.setTrack_changes axis index value).performs none
  | insertTrack axis index value => exact (Act.insertTrack_changes axis index value).performs none
  | deleteTrack axis index => exact (Act.deleteTrack_changes axis index).performs none
  | invalidate => exact fun _ => rfl

/-- An edit that does not fail is one change. -/
theorem apply_change {edit : Edit κ} (h : edit.apply l = .ok (handle?, l')) :
    Layout.Change l l' := by
  cases edit with
  | add component given =>
    obtain ⟨⟨handle, after⟩, hadd, heq⟩ := bind_eq_ok_iff.mp h
    cases pure_eq_ok_iff.mp heq
    exact .add hadd
  | setConstraint component given =>
    obtain ⟨after, hset, heq⟩ := bind_eq_ok_iff.mp h
    cases pure_eq_ok_iff.mp heq
    exact .setConstraint hset
  | removeComponent component =>
    cases pure_eq_ok_iff.mp h
    exact .removeComponent l component
  | removeEntry handle =>
    cases pure_eq_ok_iff.mp h
    exact .removeEntry l handle
  | setTracks axis values =>
    obtain ⟨after, hset, heq⟩ := bind_eq_ok_iff.mp h
    cases pure_eq_ok_iff.mp heq
    exact .setTracks hset
  | setTrack axis index value =>
    obtain ⟨after, hset, heq⟩ := bind_eq_ok_iff.mp h
    cases pure_eq_ok_iff.mp heq
    exact .setTrack hset
  | insertTrack axis index value =>
    obtain ⟨after, hinsert, heq⟩ := bind_eq_ok_iff.mp h
    cases pure_eq_ok_iff.mp heq
    exact .insertTrack hinsert
  | deleteTrack axis index =>
    obtain ⟨after, hdelete, heq⟩ := bind_eq_ok_iff.mp h
    cases pure_eq_ok_iff.mp heq
    exact .deleteTrack hdelete
  | invalidate =>
    cases pure_eq_ok_iff.mp h
    exact .invalidate l

/-- The layout that an edit leaves, which is the one before if the edit fails. -/
def leaves (edit : Edit κ) (l : Layout κ) : Layout κ :=
  match edit.apply l with
  | .ok (_, l') => l'
  | .error _ => l

theorem leaves_cases (edit : Edit κ) (l : Layout κ) :
    edit.leaves l = l ∨ Layout.Change l (edit.leaves l) := by
  unfold leaves
  cases happly : edit.apply l with
  | error fault => exact .inl rfl
  | ok result => exact .inr (apply_change happly)

theorem carryOut_leaves (edit : Edit κ) (w : World κ σ) :
    (edit.carryOut.run.run w).2 = ⟨edit.leaves w.layout, w.around⟩ := by
  unfold leaves
  rw [edit.carryOut_performs w]
  cases edit.apply w.layout <;> rfl

/-- Editing is acting by operations only. -/
theorem carryOut_orderly (kept : σ → Prop) (fit : Host κ σ → Prop) (edit : Edit κ) :
    Orderly kept fit edit.carryOut := by
  refine .step fun w hw => ?_
  rw [carryOut_leaves]
  exact ⟨hw, edit.leaves_cases w.layout⟩

end Edit

end TrackGrid
