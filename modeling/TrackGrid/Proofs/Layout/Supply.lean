import TrackGrid.Proofs.Layout.Edit
import TrackGrid.Proofs.Line.Kinds

/-! Tracks that are made of given values alone are clean, each of one kind and sized by one pass,
and there are some if the empty list is never given. -/

namespace TrackGrid

variable {κ σ α : Type}

namespace Track

variable {tracks tracks' : List Track} {index : Int} {value : GivenSize}

private theorem listOfGiven_ne_nil {values : List GivenSize} (hvalues : values ≠ [])
    (h : listOfGiven values = .ok tracks) : tracks ≠ [] := by
  have hlength := (mapM_eq_ok_iff.mp h).length_eq
  rintro rfl
  exact hvalues (List.length_eq_zero_iff.mp hlength)

private theorem replace_ne_nil (htracks : tracks ≠ [])
    (h : replace tracks index value = .ok tracks') :
    tracks' ≠ [] := by
  unfold replace at h
  split at h
  · cases h
  · obtain ⟨new, -, h⟩ := bind_eq_ok_iff.mp h
    obtain rfl := pure_eq_ok_iff.mp h
    simpa using htracks

private theorem insert_ne_nil (h : insert tracks index value = .ok tracks') : tracks' ≠ [] := by
  unfold insert at h
  split at h
  · cases h
  · rename_i hindex
    obtain ⟨new, -, h⟩ := bind_eq_ok_iff.mp h
    obtain rfl := pure_eq_ok_iff.mp h
    have hlength := List.length_insertIdx_of_le_length (a := new)
      (show index.toNat ≤ tracks.length by omega)
    intro hnil
    rw [hnil] at hlength
    cases hlength

/-- The last track that remains is not deleted. -/
theorem delete_ne_nil (h : delete tracks index = .ok tracks') : tracks' ≠ [] := by
  unfold delete at h
  split at h
  · cases h
  · rename_i hindex
    split at h
    · cases h
    · rename_i hone
      obtain rfl := Except.ok.inj h
      have hlength := List.length_eraseIdx_of_lt (show index.toNat < tracks.length by omega)
      intro hnil
      rw [hnil, List.length_nil] at hlength
      omega

end Track

namespace Specification

variable {filled : Axis → Prop} {spec spec' : Specification}

/-- Specifications that are made of given values and changed by giving further ones, where the empty
list is not given for certain axes. -/
inductive Supplied (filled : Axis → Prop) : Specification → Prop
  | made {columns rows : Option (List GivenSize)} {spec : Specification}
      (hcolumns : filled .columns → columns ≠ some []) (hrows : filled .rows → rows ≠ some [])
      (h : ofGiven columns rows = .ok spec) : Supplied filled spec
  | setTracks {spec spec' : Specification} {axis : Axis} {values : List GivenSize}
      (hspec : Supplied filled spec) (hvalues : filled axis → values ≠ [])
      (h : spec.setTracks axis values = .ok spec') : Supplied filled spec'
  | setTrack {spec spec' : Specification} {axis : Axis} {index : Int} {value : GivenSize}
      (hspec : Supplied filled spec) (h : spec.setTrack axis index value = .ok spec') :
      Supplied filled spec'
  | insertTrack {spec spec' : Specification} {axis : Axis} {index : Int} {value : GivenSize}
      (hspec : Supplied filled spec) (h : spec.insertTrack axis index value = .ok spec') :
      Supplied filled spec'
  | deleteTrack {spec spec' : Specification} {axis : Axis} {index : Int}
      (hspec : Supplied filled spec) (h : spec.deleteTrack axis index = .ok spec') :
      Supplied filled spec'

theorem Supplied.clean (h : Supplied filled spec) : spec.Clean := by
  induction h with
  | made _ _ h => exact ofGiven_clean h
  | setTracks _ _ h ih => exact ih.step (.setTracks h)
  | setTrack _ h ih => exact ih.step (.setTrack h)
  | insertTrack _ h ih => exact ih.step (.insertTrack h)
  | deleteTrack _ h ih => exact ih.step (.deleteTrack h)

/-- A change of one axis leaves tracks there, and the other axis as it is. -/
theorem change_ne_nil {axis other : Axis} {f : List Track → Except Fault (List Track)}
    (h : spec.change axis f = .ok spec') (hspec : spec.along other ≠ [])
    (hf : other = axis → ∀ tracks, f (spec.along axis) = .ok tracks → tracks ≠ []) :
    spec'.along other ≠ [] := by
  obtain ⟨tracks, htracks, h⟩ := bind_eq_ok_iff.mp h
  obtain rfl := pure_eq_ok_iff.mp h
  cases axis <;> cases other
  · exact hf rfl tracks htracks
  · exact hspec
  · exact hspec
  · exact hf rfl tracks htracks

private theorem given_ne_nil {values : Option (List GivenSize)} {tracks : List Track}
    (hvalues : values ≠ some []) (h : given values = .ok tracks) : tracks ≠ [] := by
  cases values with
  | some values => exact Track.listOfGiven_ne_nil (mt (congrArg some) hvalues) h
  | none =>
    obtain rfl := pure_eq_ok_iff.mp h
    exact List.cons_ne_nil _ _

private theorem ofGiven_ne_nil {columns rows : Option (List GivenSize)}
    (h : ofGiven columns rows = .ok spec) :
    (columns ≠ some [] → spec.columns ≠ []) ∧ (rows ≠ some [] → spec.rows ≠ []) := by
  rw [ofGiven_eq] at h
  obtain ⟨across, hacross, h⟩ := bind_eq_ok_iff.mp h
  obtain ⟨down, hdown, h⟩ := bind_eq_ok_iff.mp h
  obtain rfl := pure_eq_ok_iff.mp h
  exact ⟨fun hcolumns => given_ne_nil hcolumns hacross, fun hrows => given_ne_nil hrows hdown⟩

/-- An axis for which the empty list is never given has a track. -/
theorem Supplied.ne_nil (h : Supplied filled spec) {axis : Axis} (haxis : filled axis) :
    spec.along axis ≠ [] := by
  induction h with
  | made hcolumns hrows h =>
    cases axis with
    | columns => exact (ofGiven_ne_nil h).1 (hcolumns haxis)
    | rows => exact (ofGiven_ne_nil h).2 (hrows haxis)
  | setTracks _ hvalues h ih =>
    refine change_ne_nil h ih ?_
    rintro rfl tracks
    exact Track.listOfGiven_ne_nil (hvalues haxis)
  | setTrack _ h ih =>
    refine change_ne_nil h ih ?_
    rintro rfl tracks
    exact Track.replace_ne_nil ih
  | insertTrack _ h ih => exact change_ne_nil h ih fun _ _ => Track.insert_ne_nil
  | deleteTrack _ h ih => exact change_ne_nil h ih fun _ _ => Track.delete_ne_nil

end Specification

open Specification (Supplied)

def Edit.Supplies (filled : Axis → Prop) : Edit κ → Prop
  | .setTracks axis values => filled axis → values ≠ []
  | _ => True

namespace Layout

variable {filled : Axis → Prop} {l l' : Layout κ} [DecidableEq κ]

private theorem tracks_add {component : κ} {given : GivenConstraint} {handle : Nat}
    (h : l.add component given = .ok (handle, l')) : l'.tracks = l.tracks := by
  obtain ⟨constraint, -, h⟩ := bind_eq_ok_iff.mp h
  cases pure_eq_ok_iff.mp h
  rfl

private theorem tracks_setConstraint {component : κ} {given : GivenConstraint}
    (h : l.setConstraint component given = .ok l') : l'.tracks = l.tracks := by
  obtain ⟨constraint, -, h⟩ := bind_eq_ok_iff.mp h
  split at h <;> cases pure_eq_ok_iff.mp h <;> rfl

private theorem tracks_removeComponent (l : Layout κ) (component : κ) :
    (l.removeComponent component).tracks = l.tracks := by
  unfold removeComponent
  split
  · rfl
  · exact tracks_removeEntry l _

private theorem apply_supplied {edit : Edit κ} (hedit : edit.Supplies filled)
    (hl : Supplied filled l.tracks) {handle? : Option Nat}
    (h : edit.apply l = .ok (handle?, l')) : Supplied filled l'.tracks := by
  cases edit with
  | add component given =>
    obtain ⟨⟨handle, after⟩, hadd, heq⟩ := bind_eq_ok_iff.mp h
    cases pure_eq_ok_iff.mp heq
    exact tracks_add hadd ▸ hl
  | setConstraint component given =>
    obtain ⟨after, hset, heq⟩ := bind_eq_ok_iff.mp h
    cases pure_eq_ok_iff.mp heq
    exact tracks_setConstraint hset ▸ hl
  | removeComponent component =>
    cases pure_eq_ok_iff.mp h
    exact (tracks_removeComponent l component).symm ▸ hl
  | removeEntry handle =>
    cases pure_eq_ok_iff.mp h
    exact (tracks_removeEntry l handle).symm ▸ hl
  | invalidate =>
    cases pure_eq_ok_iff.mp h
    exact hl
  | setTracks axis values =>
    obtain ⟨after, hset, heq⟩ := bind_eq_ok_iff.mp h
    cases pure_eq_ok_iff.mp heq
    obtain ⟨tracks, htracks, hset⟩ := bind_eq_ok_iff.mp hset
    cases pure_eq_ok_iff.mp hset
    exact .setTracks hl hedit htracks
  | setTrack axis index value =>
    obtain ⟨after, hset, heq⟩ := bind_eq_ok_iff.mp h
    cases pure_eq_ok_iff.mp heq
    obtain ⟨tracks, htracks, hset⟩ := bind_eq_ok_iff.mp hset
    cases pure_eq_ok_iff.mp hset
    exact .setTrack hl htracks
  | insertTrack axis index value =>
    obtain ⟨after, hinsert, heq⟩ := bind_eq_ok_iff.mp h
    cases pure_eq_ok_iff.mp heq
    obtain ⟨tracks, htracks, hinsert⟩ := bind_eq_ok_iff.mp hinsert
    cases pure_eq_ok_iff.mp hinsert
    exact .insertTrack hl htracks
  | deleteTrack axis index =>
    obtain ⟨after, hdelete, heq⟩ := bind_eq_ok_iff.mp h
    cases pure_eq_ok_iff.mp heq
    obtain ⟨tracks, htracks, hdelete⟩ := bind_eq_ok_iff.mp hdelete
    cases pure_eq_ok_iff.mp hdelete
    exact .deleteTrack hl htracks

private theorem leaves_supplied {edit : Edit κ} (hedit : edit.Supplies filled)
    (hl : Supplied filled l.tracks) : Supplied filled (edit.leaves l).tracks := by
  unfold Edit.leaves
  cases happly : edit.apply l with
  | error fault => exact hl
  | ok result => exact apply_supplied hedit hl happly

/-- The layout of a description has the tracks that are given in it. -/
theorem ofDescription_supplied (report : Notice κ → StateM σ Unit) (find : String → Option κ)
    {d : Description} (hcolumns : filled .columns → d.columns ≠ some [])
    (hrows : filled .rows → d.rows ≠ some []) :
    Holds (fun _ => True) (ofDescription report find d) fun l => Supplied filled l.tracks := by
  refine (Holds.calculate fun l h => ?_).bind fun l hl =>
    Holds.foldlM _ (fun l hl item _ => ?_) hl
  · obtain ⟨tracks, htracks, rfl⟩ := made_eq h
    exact .made hcolumns hrows htracks
  · unfold addDescribed
    split
    · exact (Holds.calculate fun p h => tracks_add h).bind fun p hp => .pure (hp ▸ hl)
    · exact Holds.always.bind fun _ _ => .pure hl

end Layout

/-- What acts on a layout by allowed edits alone: what leaves the layout alone, a single edit, such
acts one after the other, and passes with hosts whose callbacks do the same. -/
inductive Governed [DecidableEq κ] (allowed : Edit κ → Prop) : {α : Type} → Act κ σ α → Prop
  | quiet {α : Type} {x : Act κ σ α} (h : ∀ w, (x.run.run w).2.layout = w.layout) :
      Governed allowed x
  | edit {edit : Edit κ} (h : allowed edit) : Governed allowed edit.carryOut
  | bind {α β : Type} {x : Act κ σ α} {f : α → Act κ σ β} (hx : Governed allowed x)
      (hf : ∀ a, Governed allowed (f a)) : Governed allowed (x >>= f)
  | outcome {α : Type} {x : Act κ σ α} (hx : Governed allowed x) :
      Governed allowed (Act.outcome x)
  | resolve {host : Host κ σ} (hsolved : ∀ grid, Governed allowed (host.gridSolved grid))
      (frame : Frame) : Governed allowed (Layout.resolve host frame)
  | arrange {host : Host κ σ} (hsolved : ∀ grid, Governed allowed (host.gridSolved grid))
      (hbounds : ∀ component bounds, Governed allowed (host.setBounds component bounds))
      (frame : Frame) : Governed allowed (Layout.arrange host frame)

/-- Acting by allowed edits keeps what these keep, provided that holding a grid does. -/
theorem Governed.keeps [DecidableEq κ] {allowed : Edit κ → Prop} {P : Layout κ → Prop}
    (hedit : ∀ edit l, allowed edit → P l → P (edit.leaves l))
    (hhold : ∀ l frame grid, P l → P (l.hold frame grid)) {x : Act κ σ α}
    (hx : Governed allowed x) : Holds (World.Has P fun _ => True) x fun _ => True := by
  -- on how the act is made up; what callbacks do in the middle of a pass is a hypothesis
  induction hx with
  | quiet h => exact fun w hw => ⟨⟨(h w).symm ▸ hw.1, trivial⟩, fun _ _ => trivial⟩
  | edit h =>
    intro w hw
    rw [Edit.carryOut_leaves]
    exact ⟨⟨hedit _ _ h hw.1, trivial⟩, fun _ _ => trivial⟩
  | bind _ _ ihx ihf => exact ihx.bind fun a _ => ihf a
  | outcome _ ih => exact ih.outcome
  | @resolve host _ frame ih =>
    exact (Layout.resolve_holds (Host.Keeps.always host) (fun l frame grid _ hl _ _ =>
      hhold l frame grid hl) ih frame).mono fun _ _ => trivial
  | @arrange host _ _ frame ihsolved ihbounds =>
    exact Layout.arrange_holds (Host.Keeps.always host) (fun l frame grid _ hl _ _ =>
      hhold l frame grid hl) ihsolved ihbounds frame

/-- Acting by edits that supply leaves the tracks supplied. -/
theorem Governed.supplied [DecidableEq κ] {filled : Axis → Prop} {x : Act κ σ α}
    (hx : Governed (Edit.Supplies filled) x) {w : World κ σ}
    (hw : Supplied filled w.layout.tracks) :
    Supplied filled (x.run.run w).2.layout.tracks :=
  (hx.keeps (P := fun l => Supplied filled l.tracks)
    (fun _ _ hedit hl => Layout.leaves_supplied hedit hl) (fun _ _ _ hl => hl) w
    ⟨hw, trivial⟩).1.1

/-- Tracks are valid and of one kind, whatever is given for them. The tracks of a layout are
supplied by given values from the start, be it made of values or of a description, and remain so
under whatever acts on it by edits, failing or not, passes included. Each of such tracks is a sizing
or a finite number that is not below zero, is of exactly one kind, and is itself when it is given
for a track; and an axis for which the empty list is never given has at least one. In a line each of
them has the size that the one pass of its kind finds, and with that size the absolute tracks and
those sized by their content count for every length that the line requires. -/
theorem supplied_tracks [DecidableEq κ] (filled : Axis → Prop) :
    (∀ columns rows, (filled .columns → columns ≠ some []) → (filled .rows → rows ≠ some []) →
      ∀ l : Layout κ, Layout.ofGiven columns rows = .ok l → Supplied filled l.tracks) ∧
    (∀ (report : Notice κ → StateM σ Unit) (find : String → Option κ) (d : Description),
      (filled .columns → d.columns ≠ some []) → (filled .rows → d.rows ≠ some []) →
      ∀ s l, ((Layout.ofDescription report find d).run.run s).1 = .ok l →
        Supplied filled l.tracks) ∧
    (∀ {α : Type} {x : Act κ σ α}, Governed (Edit.Supplies filled) x →
      ∀ w, Supplied filled w.layout.tracks → Supplied filled (x.run.run w).2.layout.tracks) ∧
    ∀ spec, Supplied filled spec → ∀ axis,
      (filled axis → spec.along axis ≠ []) ∧
      (∀ t ∈ spec.along axis,
        t.Clean ∧ (∃! kind, t.isOf kind = true) ∧ Track.ofGiven t.given = .ok t) ∧
      ∀ origin length items line, Returns (Line.solve (spec.along axis) origin length items) line →
        ∃ pass, Line.Distributed (spec.along axis) items length line pass := by
  refine ⟨fun columns rows hcolumns hrows l h => ?_, fun report find d hcolumns hrows s l h => ?_,
    fun hx w hw => hx.supplied hw, fun spec hspec axis => ⟨hspec.ne_nil, fun t ht => ?_, ?_⟩⟩
  · obtain ⟨tracks, htracks, rfl⟩ := Layout.made_eq h
    exact .made hcolumns hrows htracks
  · exact (Layout.ofDescription_supplied report find hcolumns hrows s trivial).2 l h
  · have hclean := hspec.clean axis t ht
    exact ⟨hclean, hclean.existsUnique_kind, hclean.ofGiven_given⟩
  · exact fun origin length items line h => Line.exists_distributed (hspec.clean axis) h

private def scraps : List GivenSize :=
  [.number (.float .nan), .number (.int (-2)), .text " Fill ", .boolean true,
    .number (.float .half)]

private def patch : Act Bool Unit (Except Fault (Option Nat)) := do
  let _ ← Edit.carryOut (.insertTrack .columns 0 (.text "12.5"))
  Act.outcome (Edit.carryOut (.deleteTrack .rows 0))

private def quilt : List Track :=
  [.number (.float (.ofRatio 25 2)), .zero, .sizing .preferred, .fill, .zero,
    .number (.float .half)]

private def quiltItems : List (Item Id) := [⟨.one 2, true, fun _ => pure 20⟩]

theorem quilt_tracks :
    (∀ t ∈ quilt, t.Clean ∧ (∃! kind, t.isOf kind = true) ∧ Track.ofGiven t.given = .ok t) ∧
    ∃ pass, Line.Distributed quilt quiltItems 100
      ⟨[13, 0, 20, 33, 0, 34], [0, 13, 13, 33, 66, 66, 100]⟩ pass := by
  obtain ⟨hmade, -, hruns, htracks⟩ :=
    supplied_tracks (κ := Bool) (σ := Unit) fun _ => True
  have hlayout : Layout.ofGiven (κ := Bool) (some scraps) none =
      .ok (Layout.ofTracks ⟨quilt.tail, [.fill]⟩) := by decide +kernel
  have hstart := hmade (some scraps) none (by decide) (by decide) _ hlayout
  have hpatch : Governed (Edit.Supplies fun _ => True) patch :=
    .bind (.edit trivial) fun _ => .outcome (.edit trivial)
  have hcolumns : (patch.run.run ⟨Layout.ofTracks ⟨quilt.tail, [.fill]⟩, ()⟩).2.layout.tracks =
      ⟨quilt, [.fill]⟩ := by decide +kernel
  have hquilt := hruns hpatch ⟨Layout.ofTracks ⟨quilt.tail, [.fill]⟩, ()⟩ hstart
  rw [hcolumns] at hquilt
  obtain ⟨-, hkinds, hlines⟩ := htracks _ hquilt .columns
  exact ⟨hkinds, hlines 0 100 quiltItems _ (by decide +kernel)⟩

end TrackGrid
