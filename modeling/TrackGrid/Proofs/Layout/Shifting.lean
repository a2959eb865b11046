import TrackGrid.Proofs.Constraint.Shifting
import TrackGrid.Proofs.Layout.Table

/-! An inserted track moves every entry with the tracks it covers, and a deleted one is taken out of
every span that covers it. -/

namespace TrackGrid

private theorem PerAxis.along_put {α : Type} (p : PerAxis α) (axis : Axis) (a : α) :
    (p.put axis a).along axis = a := by
  cases axis <;> rfl

theorem PerAxis.across_put {α : Type} (p : PerAxis α) (axis : Axis) (a : α) :
    (p.put axis a).along axis.across = p.along axis.across := by
  cases axis <;> rfl

namespace Track

variable {tracks : List Track} {index : Int} {value : GivenSize} {track : Track}

private theorem insert_eq (h0 : 0 ≤ index) (hle : index ≤ tracks.length)
    (hvalue : ofGiven value = .ok track) :
    insert tracks index value = .ok (tracks.insertIdx index.toNat track) := by
  rw [insert, if_neg (by omega), hvalue]
  rfl

private theorem delete_eq (h0 : 0 ≤ index) (hlt : index < tracks.length)
    (hmore : 1 < tracks.length) :
    delete tracks index = .ok (tracks.eraseIdx index.toNat) := by
  rw [delete, if_neg (by omega), if_neg (by omega)]

private theorem delete_eq_ok {tracks' : List Track} (h : delete tracks index = .ok tracks') :
    0 ≤ index ∧ index < tracks.length ∧ tracks' = tracks.eraseIdx index.toNat := by
  unfold delete at h
  split at h
  · cases h
  · split at h
    · cases h
    · exact ⟨by omega, by omega, (Except.ok.inj h).symm⟩

/-- Insertion moves the tracks at or past the position by one place. -/
theorem getElem?_insertIdx_after (track : Track) (h0 : 0 ≤ index) (t : Nat) :
    (tracks.insertIdx index.toNat track)[(afterInsertion index t).toNat]? = tracks[t]? := by
  rw [List.getElem?_insertIdx, afterInsertion]
  by_cases hlt : (t : Int) < index
  · rw [if_pos hlt, if_pos (by omega), Int.toNat_natCast]
  · rw [if_neg hlt, if_neg (by omega), if_neg (by omega)]
    congr 1

end Track

namespace Layout

variable {κ σ : Type} {l l' : Layout κ} {axis : Axis} {index : Int}

/-- The layout with other tracks along an axis, and with every entry shifted. -/
def withShifted (l : Layout κ) (axis : Axis) (tracks : List Track) (index delta : Int) : Layout κ :=
  (l.putTracks (l.tracks.put axis tracks)).shiftEntries axis index delta

private theorem insertTrack_eq {value : GivenSize} {track : Track} (h0 : 0 ≤ index)
    (hle : index ≤ (l.tracks.along axis).length) (hvalue : Track.ofGiven value = .ok track) :
    l.insertTrack axis index value =
      .ok (l.withShifted axis ((l.tracks.along axis).insertIdx index.toNat track) index 1) := by
  simp only [insertTrack, Specification.insertTrack, Specification.change,
    Track.insert_eq h0 hle hvalue]
  rfl

private theorem deleteTrack_eq (h0 : 0 ≤ index) (hlt : index < (l.tracks.along axis).length)
    (hmore : 1 < (l.tracks.along axis).length) :
    l.deleteTrack axis index =
      .ok (l.withShifted axis ((l.tracks.along axis).eraseIdx index.toNat) index (-1)) := by
  simp only [deleteTrack, Specification.deleteTrack, Specification.change,
    Track.delete_eq h0 hlt hmore]
  rfl

private theorem deleteTrack_eq_ok (h : l.deleteTrack axis index = .ok l') :
    0 ≤ index ∧ index < (l.tracks.along axis).length ∧
      l' = l.withShifted axis ((l.tracks.along axis).eraseIdx index.toNat) index (-1) := by
  obtain ⟨spec, hspec, h⟩ := bind_eq_ok_iff.mp h
  obtain ⟨tracks, htracks, hspec⟩ := bind_eq_ok_iff.mp hspec
  obtain ⟨h0, hlt, rfl⟩ := Track.delete_eq_ok htracks
  obtain rfl := pure_eq_ok_iff.mp hspec
  exact ⟨h0, hlt, (pure_eq_ok_iff.mp h).symm⟩

section
variable (l : Layout κ) (axis : Axis) (tracks : List Track) (index delta : Int)

private theorem along_counts : l.counts.along axis = (l.tracks.along axis).length := by
  cases axis <;> rfl

private theorem along_withShifted :
    (l.withShifted axis tracks index delta).tracks.along axis = tracks :=
  PerAxis.along_put _ _ _

private theorem across_withShifted :
    (l.withShifted axis tracks index delta).tracks.along axis.across = l.tracks.along axis.across :=
  PerAxis.across_put _ _ _

private theorem along_counts_withShifted :
    (l.withShifted axis tracks index delta).counts.along axis = tracks.length := by
  rw [along_counts, along_withShifted]

private theorem across_counts_withShifted :
    (l.withShifted axis tracks index delta).counts.along axis.across =
      l.counts.along axis.across := by
  rw [along_counts, along_counts, across_withShifted]

end

private theorem any_congr_of_mem {α : Type} {xs : List α} {p q : α → Bool}
    (h : ∀ x ∈ xs, p x = q x) :
    xs.any p = xs.any q := by
  rw [Bool.eq_iff_iff, List.any_eq_true, List.any_eq_true]
  exact exists_congr fun x => and_congr_right fun hx => by rw [h x hx]

/-- Moving constraints without changing which of them share a cell. -/
theorem anyMeet_map {f : Constraint → Constraint} {cs : List Constraint}
    (h : ∀ c ∈ cs, ∀ d ∈ cs, (f c).meets (f d) = c.meets d) : anyMeet (cs.map f) = anyMeet cs := by
  induction cs with
  | nil => rfl
  | cons c rest ih =>
    obtain ⟨hfirst, hrest⟩ := List.forall_mem_cons.mp h
    rw [List.map_cons, anyMeet, anyMeet, List.any_map,
      ih fun a ha => (List.forall_mem_cons.mp (hrest a ha)).2]
    congr 1
    exact any_congr_of_mem (List.forall_mem_cons.mp hfirst).2

private theorem constraints_withShifted (l : Layout κ) (axis : Axis) (tracks : List Track)
    (index delta : Int) : (l.withShifted axis tracks index delta).entries.constraints =
      l.entries.constraints.map fun c => c.shift axis index delta := by
  simp only [withShifted, shiftEntries, Entries.constraints, Entries.mapConstraints,
    List.map_map]
  rfl

/-- The entry under a handle is moved. -/
theorem get?_withShifted (hl : l.entries.Faithful) (tracks : List Track) (delta : Int)
    {e : Entry κ} (he : e ∈ l.entries.present) :
    (l.withShifted axis tracks index delta).entries.get? e.handle =
      some { e with constraint := e.constraint.shift axis index delta } :=
  (hl.shift axis index delta).get?_eq_some_iff.mpr
    ⟨List.mem_map.mpr ⟨e, he, rfl⟩, rfl⟩

end Layout

/-- An entry as it is after a track was inserted: under the same handle, for the same component, with
the same alignments and on the same tracks of the other axis. It covers the tracks it did, wherever
they are now, and the new one if it was put between two of them. -/
structure Entry.Follows {κ : Type} (axis : Axis) (index : Int) (old new : Entry κ) : Prop where
  handle : new.handle = old.handle
  component : new.component = old.component
  align : new.constraint.align = old.constraint.align
  across : new.constraint.cells.along axis.across = old.constraint.cells.along axis.across
  covers : ∀ t, (new.constraint.cells.along axis).covers (afterInsertion index t) =
    (old.constraint.cells.along axis).covers t
  inserted : (new.constraint.cells.along axis).covers index =
    ((old.constraint.cells.along axis).covers (index - 1) &&
      (old.constraint.cells.along axis).covers index)

namespace Layout

variable {κ σ : Type} {l l' : Layout κ} {axis : Axis} {index : Int}

private theorem follows_shift {e : Entry κ} (h : e.constraint.Normal) (axis : Axis) (index : Int) :
    e.Follows axis index { e with constraint := e.constraint.shift axis index 1 } where
  handle := rfl
  component := rfl
  align := Constraint.align_shift e.constraint axis index 1
  across := Constraint.across_shift h axis index (by decide)
  covers t := by rw [Constraint.along_shift h axis index (by decide), Interval.covers_shift_one]
  inserted := by rw [Constraint.along_shift h axis index (by decide), Interval.covers_inserted]

/-- Inserting a track moves every placement with its tracks. At any position from the first to the one
behind the last, the insertion of a track that can be made succeeds and moves the tracks at or past
the position by one place. All entries follow in their order, so the same ones lie outside of the
table as before, and the same ones share a cell. -/
theorem insertTrack_follows [DecidableEq κ] (hl : Reachable σ l) {value : GivenSize}
    {track : Track} (h0 : 0 ≤ index) (hle : index ≤ l.counts.along axis)
    (hvalue : Track.ofGiven value = .ok track) :
    ∃ l', l.insertTrack axis index value = .ok l' ∧
      l'.tracks.along axis.across = l.tracks.along axis.across ∧
      (l'.tracks.along axis)[index.toNat]? = some track ∧
      (∀ t : Nat, (l'.tracks.along axis)[(afterInsertion index t).toNat]? =
        (l.tracks.along axis)[t]?) ∧
      List.Forall₂ (fun e e' => e.Follows axis index e' ∧
          e'.constraint.within l'.counts = e.constraint.within l.counts)
        l.entries.present l'.entries.present ∧
      (∀ e ∈ l.entries.present, ∀ f ∈ l.entries.present, ∀ e' f',
        l'.entries.get? e.handle = some e' → l'.entries.get? f.handle = some f' →
          e'.constraint.meets f'.constraint = e.constraint.meets f.constraint) ∧
      l'.hasHidden = l.hasHidden ∧ l'.hasOverlap = l.hasOverlap := by
  have hfaithful := hl.faithful
  have hnormal := hfaithful.normal
  rw [along_counts] at hle
  let tracks' := (l.tracks.along axis).insertIdx index.toNat track
  have hwithin (c : Constraint) (hc : c.Normal) :
      (c.shift axis index 1).within (l.withShifted axis tracks' index 1).counts =
        c.within l.counts := by
    refine Constraint.within_shift_one hc axis h0 ?_ ?_ ?_
    · rw [along_counts]
      exact hle
    · rw [along_counts_withShifted, along_counts, List.length_insertIdx_of_le_length (by omega)]
      rfl
    · exact across_counts_withShifted l axis tracks' index 1
  have hconstraints : ∀ c ∈ l.entries.constraints, c.Normal := by
    intro c hc
    obtain ⟨e, he, rfl⟩ := List.mem_map.mp hc
    exact hnormal e he
  refine ⟨_, insertTrack_eq h0 hle hvalue, across_withShifted l axis tracks' index 1, ?_,
    fun t => ?_, ?_, ?_, ?_, ?_⟩
  · rw [along_withShifted]
    exact List.getElem?_insertIdx_self.trans (if_pos (by omega))
  · rw [along_withShifted]
    exact Track.getElem?_insertIdx_after track h0 t
  · refine List.forall₂_map_right_iff.mpr (List.forall₂_same.mpr fun e he => ?_)
    exact ⟨follows_shift (hnormal e he) axis index, hwithin _ (hnormal e he)⟩
  · intro e he f hf e' f' he' hf'
    rw [get?_withShifted hfaithful _ _ he] at he'
    rw [get?_withShifted hfaithful _ _ hf] at hf'
    obtain rfl := Option.some.inj he'
    obtain rfl := Option.some.inj hf'
    exact Constraint.meets_shift_one (hnormal e he) (hnormal f hf) axis index
  · rw [hasHidden, constraints_withShifted, List.any_map]
    refine any_congr_of_mem fun c hc => ?_
    rw [Function.comp_apply, hwithin c (hconstraints c hc)]
  · rw [hasOverlap, constraints_withShifted]
    exact anyMeet_map fun c hc d hd =>
      Constraint.meets_shift_one (hconstraints c hc) (hconstraints d hd) axis index

private def shelfTracks : Specification :=
  ⟨[.number (.int 10), .number (.int 20), .number (.int 30)], [.fill]⟩

private def shelfEntries : Entries Nat :=
  ((Entries.empty.append 7 (.span ⟨⟨1, 2⟩, ⟨0, 0⟩⟩)).append 8
    (.single ⟨-1, 0⟩ ⟨.leading, .center⟩)).append 9 (.span ⟨⟨0, 1⟩, ⟨0, 0⟩⟩)

private def shelfLayout : Layout Nat := (ofTracks shelfTracks).putEntries shelfEntries

private theorem shelfLayout_reachable : Reachable Unit shelfLayout := by
  have hmade : ofGiven (κ := Nat)
      (some [.number (.int 10), .number (.int 20), .number (.int 30)])
      (some [.sizing .fill]) = .ok (ofTracks shelfTracks) := by decide +kernel
  exact (((Reached.made hmade).append 7 (.span ⟨⟨1, 2⟩, ⟨0, 0⟩⟩) rfl (by decide)).append 8
    (.single ⟨-1, 0⟩ ⟨.leading, .center⟩) rfl (by decide)).append 9
    (.span ⟨⟨0, 1⟩, ⟨0, 0⟩⟩) rfl (by decide)

/-- One component is hidden before the first column, and two share the column that is moved. -/
theorem shelfLayout_follows :
    ∃ l', shelfLayout.insertTrack .columns 1 (.text "fill") = .ok l' ∧
      l'.entries.constraints = [.span ⟨⟨2, 3⟩, ⟨0, 0⟩⟩, .single ⟨-1, 0⟩ ⟨.leading, .center⟩,
        .span ⟨⟨0, 2⟩, ⟨0, 0⟩⟩] ∧
      l'.tracks.columns[1]? = some .fill ∧ l'.hasHidden = true ∧ l'.hasOverlap = true := by
  have hfill : Track.ofGiven (.text "fill") = .ok .fill := by decide +kernel
  obtain ⟨l', hl', -, hnew, -, -, -, hhidden, hoverlap⟩ :=
    insertTrack_follows shelfLayout_reachable (show (0 : Int) ≤ 1 by decide)
      (show (1 : Int) ≤ shelfLayout.counts.along .columns by decide) hfill
  refine ⟨l', hl', ?_, hnew, hhidden.trans (by decide), hoverlap.trans (by decide)⟩
  rw [insertTrack_eq (by decide) (by decide) hfill] at hl'
  obtain rfl := Except.ok.inj hl'
  rfl

/-- Shifting entries in normal form there and back leaves the layout as it was but for its tracks. -/
theorem withShifted_back (hl : l.entries.Faithful) (axis : Axis) (tracks : List Track)
    (index : Int) :
    (l.withShifted axis tracks index 1).withShifted axis (l.tracks.along axis) index (-1) =
      l.invalidate := by
  have htracks : (l.tracks.put axis tracks).put axis (l.tracks.along axis) = l.tracks := by
    cases axis <;> rfl
  have hpresent : (l.entries.present.map fun e =>
      { e with constraint := (e.constraint.shift axis index 1).shift axis index (-1) }) =
        l.entries.present := by
    refine (List.map_congr_left fun e he => ?_).trans (List.map_id _)
    rw [Constraint.shift_back (hl.normal e he)]
    rfl
  simp only [withShifted, shiftEntries, putTracks, Entries.mapConstraints, List.map_map,
    Function.comp_def, htracks, hpresent]
  rfl

/-- Deleting undoes inserting. Along an axis with at least one track, the insertion of a track at any
position from the first to the one behind the last succeeds and so does the deletion of that track.
Together they leave the layout as it was, with all of its tracks, entries, handles, constraints and
alignments, whatever the entries cover and wherever they lie. Only the held grid is now marked as out
of date. -/
theorem insertTrack_undone [DecidableEq κ] (hl : Reachable σ l) {value : GivenSize} {track : Track}
    (hsome : 1 ≤ l.counts.along axis) (h0 : 0 ≤ index) (hle : index ≤ l.counts.along axis)
    (hvalue : Track.ofGiven value = .ok track) :
    ∃ l', l.insertTrack axis index value = .ok l' ∧ l'.deleteTrack axis index = .ok l.invalidate := by
  rw [along_counts] at hsome hle
  refine ⟨_, insertTrack_eq h0 hle hvalue, ?_⟩
  have hlength : ((l.tracks.along axis).insertIdx index.toNat track).length =
      (l.tracks.along axis).length + 1 :=
    List.length_insertIdx_of_le_length (by omega) _
  rw [deleteTrack_eq h0, along_withShifted, List.eraseIdx_insertIdx_self,
    withShifted_back hl.faithful]
  · rw [along_withShifted, hlength]
    omega
  · rw [along_withShifted, hlength]
    omega

/-- A column is inserted within one span and in front of another, beside a hidden component. -/
theorem shelfLayout_undone :
    ∃ l', shelfLayout.insertTrack .columns 1 (.text "fill") = .ok l' ∧
      l'.entries.constraints = [.span ⟨⟨2, 3⟩, ⟨0, 0⟩⟩, .single ⟨-1, 0⟩ ⟨.leading, .center⟩,
        .span ⟨⟨0, 2⟩, ⟨0, 0⟩⟩] ∧
      l'.deleteTrack .columns 1 = .ok shelfLayout := by
  have hfill : Track.ofGiven (.text "fill") = .ok .fill := by decide +kernel
  obtain ⟨l', hl', hback⟩ := insertTrack_undone shelfLayout_reachable
    (show (1 : Int) ≤ shelfLayout.counts.along .columns by decide) (show (0 : Int) ≤ 1 by decide)
    (show (1 : Int) ≤ shelfLayout.counts.along .columns by decide) hfill
  refine ⟨l', hl', ?_, hback⟩
  rw [insertTrack_eq (by decide) (by decide) hfill] at hl'
  obtain rfl := Except.ok.inj hl'
  rfl

/-- Deleting a track takes it out of every span. The span covers what it covered but the deleted
track, wherever that is now, and only if it began with the deleted track it covers besides the track
in front. So it stays within the table, unless it began with the very first track and that was
deleted. -/
theorem deleteTrack_spares [DecidableEq κ] (hl : Reachable σ l)
    (h : l.deleteTrack axis index = .ok l') {e : Entry κ} (he : e ∈ l.entries.present)
    (hspan : (e.constraint.cells.along axis).first < (e.constraint.cells.along axis).last) :
    ∃ e', l'.entries.get? e.handle = some e' ∧ e'.component = e.component ∧
      e'.constraint.cells.along axis.across = e.constraint.cells.along axis.across ∧
      (∀ s, (e'.constraint.cells.along axis).covers s = true ↔
        (index = (e.constraint.cells.along axis).first ∧ s = index - 1) ∨
          ∃ t, t ≠ index ∧ (e.constraint.cells.along axis).covers t = true ∧
            s = afterDeletion index t) ∧
      (∀ t, t ≠ index → (e'.constraint.cells.along axis).covers (afterDeletion index t) = true →
        (e.constraint.cells.along axis).covers t = true ∨
          index = (e.constraint.cells.along axis).first ∧ t = index - 1) ∧
      (e.constraint.within l.counts = true → (e'.constraint.within l'.counts = true ↔
        ¬ (index = 0 ∧ (e.constraint.cells.along axis).first = 0))) := by
  obtain ⟨h0, hlt, rfl⟩ := deleteTrack_eq_ok h
  have hfaithful := hl.faithful
  have hnormal := hfaithful.normal e he
  have hone : (-1 : Int) ≤ -1 := le_rfl
  have halong := Constraint.along_shift hnormal axis index hone
  have hacross := Constraint.across_shift hnormal axis index hone
  refine ⟨_, get?_withShifted hfaithful _ _ he, rfl, hacross, fun s => ?_, fun t ht hcovers => ?_,
    fun hwithin => ?_⟩
  · rw [halong, Interval.covers_shift_neg_iff hspan]
  · rw [halong] at hcovers
    exact Interval.covers_of_covers_shift_neg hspan ht hcovers
  · rw [Constraint.within_eq axis, Bool.and_eq_true] at hwithin ⊢
    have hcount : (((l.tracks.along axis).eraseIdx index.toNat).length : Int) =
        (l.tracks.along axis).length - 1 := by
      rw [List.length_eraseIdx_of_lt (by omega)]
      omega
    rw [along_counts] at hwithin
    rw [halong, hacross, along_counts_withShifted, across_counts_withShifted, hcount,
      Interval.within_shift_neg_iff hspan hwithin.1 h0 hlt, and_iff_left hwithin.2]

/-- The column between is deleted: the span that began with it comes to cover the one in front. -/
theorem shelfLayout_spares :
    ∃ l', shelfLayout.deleteTrack .columns 1 = .ok l' ∧
      l'.entries.get? 2 = some ⟨2, 9, .single ⟨0, 0⟩ Constraint.fullAlign⟩ ∧
      l'.entries.get? 0 = some ⟨0, 7, .span ⟨⟨0, 1⟩, ⟨0, 0⟩⟩⟩ ∧
      (Interval.mk 0 1).covers 0 = true ∧ (Interval.mk 0 1).within 2 = true := by
  have hdelete : shelfLayout.deleteTrack .columns 1 =
      .ok (shelfLayout.withShifted .columns (shelfTracks.columns.eraseIdx 1) 1 (-1)) := rfl
  obtain ⟨e', he', -, -, hcovers, -, hwithin⟩ := deleteTrack_spares shelfLayout_reachable hdelete
    (show ⟨0, 7, .span ⟨⟨1, 2⟩, ⟨0, 0⟩⟩⟩ ∈ shelfEntries.present by decide) (by decide)
  obtain rfl : _ = e' := Option.some.inj he'
  refine ⟨_, hdelete, rfl, rfl, (hcovers 0).mpr (.inl ⟨rfl, rfl⟩), ?_⟩
  have hinside := (hwithin (by decide)).mpr (by decide)
  rw [Constraint.within_eq .columns, Bool.and_eq_true] at hinside
  exact hinside.1

/-- A span does not always lose just the deleted track. -/
theorem shelfLayout_gains_front :
    ¬ ∀ (l l' : Layout Nat) (axis : Axis) (index : Int) (e e' : Entry Nat), Reachable Unit l →
      l.deleteTrack axis index = .ok l' → e ∈ l.entries.present →
      (e.constraint.cells.along axis).first < (e.constraint.cells.along axis).last →
      l'.entries.get? e.handle = some e' →
      ∀ s, (e'.constraint.cells.along axis).covers s = true ↔
        ∃ t, t ≠ index ∧ (e.constraint.cells.along axis).covers t = true ∧
          s = afterDeletion index t := by
  intro h
  have hcovers := h shelfLayout
    (shelfLayout.withShifted .columns (shelfTracks.columns.eraseIdx 1) 1 (-1)) .columns 1
    ⟨0, 7, .span ⟨⟨1, 2⟩, ⟨0, 0⟩⟩⟩ ⟨0, 7, .span ⟨⟨0, 1⟩, ⟨0, 0⟩⟩⟩ shelfLayout_reachable rfl
    (by decide) (by decide) rfl 0
  obtain ⟨t, hne, ht, hback⟩ := hcovers.mp (by decide)
  rw [Interval.covers_iff] at ht
  simp only [Constraint.cells, PerAxis.along] at ht
  unfold afterDeletion at hback
  split at hback <;> omega

end Layout
end TrackGrid
