import TrackGrid.Proofs.Constraint.Normal

/-! Constraints follow the tracks that are inserted and deleted, but a bound at a deleted track
moves to the track in front of it. -/

namespace TrackGrid

/-- Where the track at a position is once a track was inserted at `index`. -/
def afterInsertion (index track : Int) : Int := if track < index then track else track + 1

/-- Where the track at a position is once the one at `index` was deleted. -/
def afterDeletion (index track : Int) : Int := if track < index then track else track - 1

private theorem afterDeletion_inj {index s t : Int} (hs : s ≠ index) (ht : t ≠ index)
    (h : afterDeletion index s = afterDeletion index t) : s = t := by
  unfold afterDeletion at h
  split at h <;> split at h <;> omega

/-- An insertion keeps the order of tracks. -/
theorem afterInsertion_le_iff {index s t : Int} :
    afterInsertion index s ≤ afterInsertion index t ↔ s ≤ t := by
  unfold afterInsertion
  split <;> split <;> omega

/-- Moving back what is at or past the position undoes the insertion. -/
theorem afterInsertion_back (index track : Int) :
    (if index ≤ afterInsertion index track then afterInsertion index track + -1
      else afterInsertion index track) = track := by
  unfold afterInsertion
  by_cases hlt : track < index
  · rw [if_pos hlt, if_neg (by omega)]
  · rw [if_neg hlt, if_pos (by omega)]
    omega

namespace Interval

variable {i : Interval} {index delta count : Int}

theorem covers_iff {track : Int} : i.covers track = true ↔ i.first ≤ track ∧ track ≤ i.last := by
  simp only [covers, Bool.and_eq_true, decide_eq_true_eq]

theorem within_iff : i.within count = true ↔ 0 ≤ i.first ∧ i.first ≤ i.last ∧ i.last < count := by
  simp only [within, Bool.and_eq_true, decide_eq_true_eq, and_assoc]

private theorem ordered_eq (h : i.first ≤ i.last) : i.ordered = i := by
  rw [ordered, max_eq_right h]

private theorem ordered_ordered (i : Interval) : i.ordered.ordered = i.ordered :=
  ordered_eq (le_max_left _ _)

/-- Bounds in order stay in order when they move by no more than one place towards each other. -/
theorem shift_le (h : i.first ≤ i.last) (hd : -1 ≤ delta) :
    (i.shift index delta).first ≤ (i.shift index delta).last := by
  simp only [shift]
  split <;> split <;> omega

/-- Bounds that move like this can be brought in order before or after. -/
theorem ordered_shift_ordered (i : Interval) (index : Int) (hd : -1 ≤ delta) :
    (i.ordered.shift index delta).ordered = (i.shift index delta).ordered := by
  rcases Int.le_total i.first i.last with hle | hge
  · rw [ordered_eq hle]
  · have hback : (shift ⟨i.last, i.first⟩ index delta).first ≤
        (shift ⟨i.last, i.first⟩ index delta).last := shift_le hge hd
    simp only [shift] at hback
    simp only [ordered, shift, max_eq_left hge, max_self, max_eq_left hback]

private theorem shift_one (i : Interval) (index : Int) :
    i.shift index 1 = ⟨afterInsertion index i.first, afterInsertion index i.last⟩ := by
  simp only [shift, afterInsertion, ← Int.not_lt, ite_not]

theorem covers_shift_one (i : Interval) (index track : Int) :
    (i.shift index 1).covers (afterInsertion index track) = i.covers track := by
  rw [Bool.eq_iff_iff, covers_iff, covers_iff, shift_one]
  dsimp only
  rw [afterInsertion_le_iff, afterInsertion_le_iff]

/-- The new track is covered if it was put between two that are. -/
theorem covers_inserted (i : Interval) (index : Int) :
    (i.shift index 1).covers index = (i.covers (index - 1) && i.covers index) := by
  rw [Bool.eq_iff_iff, Bool.and_eq_true, covers_iff, covers_iff, covers_iff]
  simp only [shift]
  split <;> split <;> omega

theorem within_shift_one (h0 : 0 ≤ index) (hle : index ≤ count) :
    (i.shift index 1).within (count + 1) = i.within count := by
  rw [Bool.eq_iff_iff, within_iff, within_iff]
  simp only [shift]
  split <;> split <;> omega

theorem meets_shift_one (i j : Interval) (index : Int) :
    (i.shift index 1).meets (j.shift index 1) = i.meets j := by
  simp only [meets, shift_one, afterInsertion_le_iff]

/-- What a span covers after the deletion: the tracks it covered but the deleted one, and besides the
one in front of them if it was the first that was deleted. -/
theorem covers_shift_neg_iff (h : i.first < i.last) {track : Int} :
    (i.shift index (-1)).covers track = true ↔
      (index = i.first ∧ track = index - 1) ∨
        ∃ t, t ≠ index ∧ i.covers t = true ∧ track = afterDeletion index t := by
  simp only [covers_iff, shift, afterDeletion]
  constructor
  · intro hcovers
    by_cases hfirst : index = i.first ∧ track = index - 1
    · exact .inl hfirst
    · -- the track came from itself or from the next one
      by_cases hlt : track < index
      · exact .inr ⟨track, by omega, by grind, by rw [if_pos hlt]⟩
      · exact .inr ⟨track + 1, by omega, by grind, by rw [if_neg (by omega)]; omega⟩
  · rintro (⟨rfl, rfl⟩ | ⟨t, hne, ⟨hfirst, hlast⟩, rfl⟩)
    · rw [if_pos le_rfl, if_pos h.le]
      omega
    · split <;> split <;> split <;> omega

/-- No span comes to cover a track that it did not cover before, but the one in front of it. -/
theorem covers_of_covers_shift_neg (h : i.first < i.last) {t : Int} (ht : t ≠ index)
    (hcovers : (i.shift index (-1)).covers (afterDeletion index t) = true) :
    i.covers t = true ∨ index = i.first ∧ t = index - 1 := by
  rcases (covers_shift_neg_iff h).mp hcovers with ⟨hfirst, hfront⟩ | ⟨t', ht', hcovers, heq⟩
  · refine .inr ⟨hfirst, ?_⟩
    unfold afterDeletion at hfront
    split at hfront <;> omega
  · rw [afterDeletion_inj ht ht' heq]
    exact .inl hcovers

/-- A span within the tracks leaves them only if it began with the very first one and that was
deleted. -/
theorem within_shift_neg_iff (h : i.first < i.last) (hwithin : i.within count = true)
    (h0 : 0 ≤ index) (hlt : index < count) :
    (i.shift index (-1)).within (count - 1) = true ↔ ¬ (index = 0 ∧ i.first = 0) := by
  rw [within_iff] at hwithin ⊢
  simp only [shift]
  split <;> split <;> omega

/-- The bounds that an insertion moved are just those that the deletion moves back. -/
theorem shift_back (i : Interval) (index : Int) : (i.shift index 1).shift index (-1) = i := by
  rw [shift_one]
  simp only [shift, afterInsertion_back]

end Interval

namespace Constraint

variable {c d : Constraint} {index delta : Int}

/-- Moving bounds by no more than one place towards each other needs no mending of their order. -/
theorem cells_shift (h : c.Normal) (axis : Axis) (index : Int) (hd : -1 ≤ delta) :
    (c.shift axis index delta).cells = c.cells.modify axis fun i => i.shift index delta := by
  rw [shift, cells_ofCells]
  cases axis with
  | columns =>
    exact congrArg₂ PerAxis.mk (Interval.ordered_eq (Interval.shift_le h.columns hd))
      (Interval.ordered_eq h.rows)
  | rows =>
    exact congrArg₂ PerAxis.mk (Interval.ordered_eq h.columns)
      (Interval.ordered_eq (Interval.shift_le h.rows hd))

theorem along_shift (h : c.Normal) (axis : Axis) (index : Int) (hd : -1 ≤ delta) :
    (c.shift axis index delta).cells.along axis = (c.cells.along axis).shift index delta := by
  rw [cells_shift h axis index hd]
  cases axis <;> rfl

theorem across_shift (h : c.Normal) (axis : Axis) (index : Int) (hd : -1 ≤ delta) :
    (c.shift axis index delta).cells.along axis.across = c.cells.along axis.across := by
  rw [cells_shift h axis index hd]
  cases axis <;> rfl

/-- Moving bounds never changes an alignment: those of a single cell move together, and a span has
none to lose. -/
theorem align_shift (c : Constraint) (axis : Axis) (index delta : Int) :
    (c.shift axis index delta).align = c.align := by
  cases c with
  | single cell align =>
    unfold shift ofCells
    dsimp only
    rw [if_pos]
    · rfl
    · cases axis <;> exact ⟨(max_self _).symm, (max_self _).symm⟩
  | span cells =>
    unfold shift ofCells
    dsimp only
    split <;> rfl

/-- Bounds can be moved along one axis before or after those along the other. What decides between a
single cell and a span, and what keeps the alignments, is the same in the end. -/
theorem shift_comm (c : Constraint) (axis : Axis) (i j : Int) {d e : Int} (hd : -1 ≤ d)
    (he : -1 ≤ e) :
    (c.shift axis i d).shift axis.across j e = (c.shift axis.across j e).shift axis i d := by
  refine Normal.ext (shift_normal _ _ _ _) (shift_normal _ _ _ _) ?_ ?_
  · rw [shift, cells_ofCells, shift, cells_ofCells, shift, cells_ofCells, shift, cells_ofCells]
    cases axis with
    | columns =>
      exact congrArg₂ PerAxis.mk
        ((Interval.ordered_ordered _).trans (Interval.ordered_shift_ordered _ i hd).symm)
        ((Interval.ordered_shift_ordered _ j he).trans (Interval.ordered_ordered _).symm)
    | rows =>
      exact congrArg₂ PerAxis.mk
        ((Interval.ordered_shift_ordered _ j he).trans (Interval.ordered_ordered _).symm)
        ((Interval.ordered_ordered _).trans (Interval.ordered_shift_ordered _ i hd).symm)
  · rw [align_shift, align_shift, align_shift, align_shift]

/-- Deleting the inserted track takes a constraint back to what it was. -/
theorem shift_back (h : c.Normal) (axis : Axis) (index : Int) :
    (c.shift axis index 1).shift axis index (-1) = c := by
  have hshifted : (c.shift axis index 1).Normal := shift_normal c axis index 1
  refine Normal.ext (shift_normal _ axis index (-1)) h ?_ ?_
  · rw [cells_shift hshifted axis index le_rfl, cells_shift h axis index (by decide)]
    cases axis with
    | columns => exact congrArg (PerAxis.mk · _) (Interval.shift_back _ index)
    | rows => exact congrArg (PerAxis.mk _) (Interval.shift_back _ index)
  · rw [align_shift, align_shift]

theorem within_eq (axis : Axis) (counts : PerAxis Int) :
    c.within counts = ((c.cells.along axis).within (counts.along axis) &&
      (c.cells.along axis.across).within (counts.along axis.across)) := by
  cases axis with
  | columns => rfl
  | rows => exact Bool.and_comm _ _

private theorem meets_eq (axis : Axis) :
    c.meets d = ((c.cells.along axis).meets (d.cells.along axis) &&
      (c.cells.along axis.across).meets (d.cells.along axis.across)) := by
  cases axis with
  | columns => rfl
  | rows => exact Bool.and_comm _ _

/-- An insertion takes nothing into the table and nothing out of it. -/
theorem within_shift_one (h : c.Normal) (axis : Axis) {counts counts' : PerAxis Int} (h0 : 0 ≤ index)
    (hle : index ≤ counts.along axis) (halong : counts'.along axis = counts.along axis + 1)
    (hacross : counts'.along axis.across = counts.along axis.across) :
    (c.shift axis index 1).within counts' = c.within counts := by
  rw [within_eq axis, within_eq axis, along_shift h axis index (by decide),
    across_shift h axis index (by decide), halong, hacross, Interval.within_shift_one h0 hle]

/-- After an insertion the same constraints share a cell. -/
theorem meets_shift_one (hc : c.Normal) (hd : d.Normal) (axis : Axis) (index : Int) :
    (c.shift axis index 1).meets (d.shift axis index 1) = c.meets d := by
  rw [meets_eq axis, meets_eq axis, along_shift hc axis index (by decide),
    along_shift hd axis index (by decide), across_shift hc axis index (by decide),
    across_shift hd axis index (by decide), Interval.meets_shift_one]

end Constraint
end TrackGrid
