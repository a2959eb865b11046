import TrackGrid.Proofs.Line.Sufficiency
import TrackGrid.Proofs.Outcome
import TrackGrid.Proofs.Placement

/-! Along each axis a component lies between the outer edges of the tracks that it covers, as its
alignment says. -/

namespace TrackGrid

def Rect.along (rect : Rect) : Axis → Stretch
  | .columns => ⟨rect.x, rect.width⟩
  | .rows => ⟨rect.y, rect.height⟩

/-- How a component that prefers an extent lies between two edges by its alignment. -/
structure Stretch.Aligned (place : Stretch) (lead trail : Int) (align : Alignment)
    (preferred : Int) : Prop where
  within : lead ≤ place.start ∧ 0 ≤ place.length ∧ place.start + place.length ≤ trail
  stretched : align = .full ∨ trail - lead ≤ preferred → place = ⟨lead, trail - lead⟩
  extent : align ≠ .full → preferred < trail - lead → place.length = preferred
  leading : align = .leading → place.start = lead
  trailing : align = .trailing → place.start + place.length = trail
  centered : align = .center → ∃ gap, place.start = lead + gap ∧
    (trail = place.start + place.length + gap ∨ trail = place.start + place.length + (gap + 1))

namespace Line

variable {line : Line}

private theorem getElem?_offsets (h : line.Sound) {i : Int} (hi : 0 ≤ i)
    (hle : i ≤ line.sizes.length) :
    line.offsets[i.toNat]? = some (line.edge i) := by
  obtain ⟨a, ha⟩ := exists_startOf h hi hle
  rw [startOf_eq_edge h hi ha] at ha
  exact (itemAt_eq_ok_iff hi).mp ha

/-- The outer edges of an interval of tracks are as far apart as the tracks are long. -/
theorem edge_add_slice (line : Line) {i : Interval} (hfirst : 0 ≤ i.first)
    (hle : i.first ≤ i.last) :
    line.edge (i.last + 1) = line.edge i.first + (i.slice line.sizes).sum := by
  have htake : line.sizes.take (i.last + 1).toNat =
      line.sizes.take i.first.toNat ++ i.slice line.sizes := by
    rw [Interval.slice, ← List.take_add]
    congr 1
    omega
  rw [edge, edge, htake, List.sum_append, Int.add_assoc]

private theorem aligned_full {lead trail : Int} (h : lead ≤ trail) (preferred : Int) :
    Stretch.Aligned ⟨lead, trail - lead⟩ lead trail .full preferred where
  within := by dsimp only; omega
  stretched _ := rfl
  extent hne := absurd rfl hne
  leading := nofun
  trailing := nofun
  centered := nofun

/-- A component of its extent in a cell is aligned in it wherever it stays within the cell, if its
start is where its alignment says. -/
private theorem aligned_of_start {lead size preferred start length : Int} {align : Alignment}
    (hsize : 0 ≤ size) (hpreferred : 0 ≤ preferred)
    (hlength : (if align = .full ∨ size < preferred then size else preferred) = length)
    (hstart : match align with
      | .trailing => start = lead + size - length
      | .center => start = lead + (size - length) / 2
      | _ => start = lead) :
    Stretch.Aligned ⟨start, length⟩ lead (lead + size) align preferred := by
  have hfits : 0 ≤ length ∧ length ≤ size := by
    subst hlength
    split <;> omega
  have hwithin : lead ≤ start ∧ start + length ≤ lead + size := by
    cases align <;> simp only at hstart <;> omega
  refine ⟨⟨hwithin.1, hfits.1, hwithin.2⟩, fun h => ?_, fun hne hlt => ?_, ?_, ?_, ?_⟩
  · have hcovers : length = size := by
      subst hlength
      rcases h with rfl | h
      · rw [if_pos (.inl rfl)]
      · split <;> omega
    rw [show start = lead by omega, show length = lead + size - lead by omega]
  · rw [← hlength, if_neg (by simp only [hne, false_or]; omega)]
  · rintro rfl
    exact hstart
  · rintro rfl
    simp only at hstart ⊢
    omega
  · rintro rfl
    refine ⟨(size - length) / 2, hstart, ?_⟩
    simp only at hstart ⊢
    omega

/-- A component in one cell lies in it by its alignment. -/
theorem placeInCell_aligned (hline : line.Sound) {cell preferred : Int} (hcell : 0 ≤ cell)
    (hpreferred : 0 ≤ preferred) {align : Alignment} {place : Stretch}
    (h : line.placeInCell cell align preferred = .ok place) :
    place.Aligned (line.edge cell) (line.edge (cell + 1)) align preferred := by
  obtain ⟨size, hsize, h⟩ := bind_eq_ok_iff.mp h
  have hedge := edge_succ hcell hsize
  have hnonneg : 0 ≤ size := by
    have := edge_le hline (show cell ≤ cell + 1 by omega)
    omega
  cases align with
  | leading | center | full =>
    obtain ⟨start, hstart, hplace⟩ := bind_eq_ok_iff.mp h
    obtain rfl := pure_eq_ok_iff.mp hplace
    obtain rfl := startOf_eq_edge hline hcell hstart
    rw [hedge]
    exact aligned_of_start hnonneg hpreferred rfl rfl
  | trailing =>
    obtain ⟨stop, hstop, hplace⟩ := bind_eq_ok_iff.mp h
    obtain rfl := pure_eq_ok_iff.mp hplace
    obtain rfl := stopOf_eq_edge hline hcell hstop
    rw [hedge]
    exact aligned_of_start hnonneg hpreferred rfl rfl

end Line

namespace Constraint

variable {grid : Grid} {c : Constraint} {preferred : Size} {rect : Rect}

/-- A component lies between the outer edges of its tracks by its alignment. -/
theorem place_aligned (hgrid : grid.Sound) (hc : c.within grid.counts = true)
    (hpreferred : ∀ axis, 0 ≤ preferred.along axis) (h : c.place grid preferred = .ok rect)
    (axis : Axis) :
    (rect.along axis).Aligned ((grid.along axis).edge (c.cells.along axis).first)
      ((grid.along axis).edge ((c.cells.along axis).last + 1)) (c.align.along axis)
      (preferred.along axis) := by
  obtain ⟨⟨hleft, hright⟩, htop, hbottom⟩ := first_nonneg hc
  obtain ⟨⟨hcolumns, -⟩, hrows, -⟩ := last_lt hc
  cases c with
  | single cell align =>
    obtain ⟨across, hacross, h⟩ := bind_eq_ok_iff.mp h
    obtain ⟨down, hdown, h⟩ := bind_eq_ok_iff.mp h
    obtain rfl := pure_eq_ok_iff.mp h
    cases axis with
    | columns => exact Line.placeInCell_aligned hgrid.1 hleft (hpreferred .columns) hacross
    | rows => exact Line.placeInCell_aligned hgrid.2 htop (hpreferred .rows) hdown
  | span cells =>
    obtain ⟨left, hl, h⟩ := bind_eq_ok_iff.mp h
    obtain ⟨top, ht, h⟩ := bind_eq_ok_iff.mp h
    obtain ⟨right, hr, h⟩ := bind_eq_ok_iff.mp h
    obtain ⟨bottom, hb, h⟩ := bind_eq_ok_iff.mp h
    obtain rfl := pure_eq_ok_iff.mp h
    obtain rfl := Line.startOf_eq_edge hgrid.1 hleft hl
    obtain rfl := Line.startOf_eq_edge hgrid.2 htop ht
    obtain rfl := Line.stopOf_eq_edge hgrid.1 hright hr
    obtain rfl := Line.stopOf_eq_edge hgrid.2 hbottom hb
    cases axis with
    | columns => exact Line.aligned_full (Line.edge_le hgrid.1 (by omega)) _
    | rows => exact Line.aligned_full (Line.edge_le hgrid.2 (by omega)) _

/-- A place that does not depend on the preferred size. -/
theorem place_eq_of_not_needsPreferred (hc : c.needsPreferred = false) (grid : Grid)
    (preferred other : Size) : c.place grid preferred = c.place grid other := by
  cases c with
  | span cells => rfl
  | single cell align =>
    obtain ⟨columns, rows⟩ := align
    simp only [needsPreferred, ne_eq, Bool.or_eq_false_iff, decide_eq_false_iff_not, not_not] at hc
    obtain ⟨rfl, rfl⟩ := hc
    simp only [place, Line.placeInCell, true_or, if_true]

end Constraint

namespace Layout

variable {κ σ τ : Type} {host : Host κ σ} {kept : σ → Prop} {grid : Grid} {c : Constraint}

private theorem boundsOn_gives {component : κ} {preferred : Size}
    (hsize : Gives kept (host.preferredSize component) (.ok (some preferred))) (grid : Grid)
    (c : Constraint) : Gives kept (boundsOn host grid c component) (c.place grid preferred) := by
  unfold boundsOn
  cases hc : c.needsPreferred with
  | true =>
    rw [if_pos rfl]
    exact hsize.bind_ok (.calculate _)
  | false =>
    rw [if_neg (by simp), c.place_eq_of_not_needsPreferred hc grid preferred Size.zero]
    exact .calculate _

/-- A component that prefers a size of no negative extent has bounds under every constraint within
a grid that was solved. Along each axis they lie between the edges of the first and of the last
track of the constraint, which are as far apart as its tracks are long. A span covers all of them,
as does a component that is aligned to the full cell or prefers to be as long; otherwise the
component has its preferred extent, and it begins at the leading edge, ends at the trailing one, or
leaves a gap in front that is the gap behind or one less. -/
theorem boundsOn_aligned {tracks : PerAxis (List Track)} {origin length : PerAxis Int}
    {items : PerAxis (List (Item (StateM τ)))} {t : τ}
    (hgrid : ((Grid.solve tracks origin length items).run.run t).1 = .ok grid)
    (hc : c.within grid.counts = true) {component : κ} {preferred : Size}
    (hsize : Gives kept (host.preferredSize component) (.ok (some preferred)))
    (hpreferred : ∀ axis, 0 ≤ preferred.along axis) :
    ∃ rect, Gives kept (boundsOn host grid c component) (.ok rect) ∧
      ∀ axis, ∃ lead trail,
        (grid.along axis).offsets[(c.cells.along axis).first.toNat]? = some lead ∧
        (grid.along axis).offsets[(c.cells.along axis).last.toNat + 1]? = some trail ∧
        trail = lead + ((c.cells.along axis).slice (grid.along axis).sizes).sum ∧
        (rect.along axis).Aligned lead trail (c.align.along axis) (preferred.along axis) := by
  have hsound : grid.Sound := (Grid.solve_sound (P := fun _ => True) (fun _ _ _ => .always)
    (fun _ _ _ => .always) tracks origin length t trivial).2 grid hgrid
  obtain ⟨rect, hrect⟩ := Constraint.exists_place hsound hc preferred
  have hbounds := boundsOn_gives hsize grid c
  rw [hrect] at hbounds
  refine ⟨rect, hbounds, fun axis => ?_⟩
  have hline : (grid.along axis).Sound := by
    cases axis with
    | columns => exact hsound.1
    | rows => exact hsound.2
  obtain ⟨hfirst, hle, hlast⟩ : 0 ≤ (c.cells.along axis).first ∧
      (c.cells.along axis).first ≤ (c.cells.along axis).last ∧
      (c.cells.along axis).last < (grid.along axis).sizes.length := by
    obtain ⟨⟨hleft, -⟩, htop, -⟩ := Constraint.first_nonneg hc
    obtain ⟨hcolumns, hrows⟩ := Constraint.last_lt hc
    cases axis with
    | columns => exact ⟨hleft, hcolumns⟩
    | rows => exact ⟨htop, hrows⟩
  have htrail := Line.getElem?_offsets hline (show 0 ≤ (c.cells.along axis).last + 1 by omega)
    (by omega)
  rw [show ((c.cells.along axis).last + 1).toNat = (c.cells.along axis).last.toNat + 1 by omega]
    at htrail
  exact ⟨_, _, Line.getElem?_offsets hline hfirst (by omega), htrail,
    Line.edge_add_slice _ hfirst hle,
    Constraint.place_aligned hsound hc hpreferred hrect axis⟩

private def frieze : PerAxis (List Track) := ⟨[.number (.int 10), .fill, .fill], [.fill]⟩

private def friezeGrid : Grid := ⟨⟨[10, 10, 11], [3, 13, 23, 34]⟩, ⟨[20], [0, 20]⟩⟩

private def friezeHost : Host Unit Unit where
  preferredSize _ := pure (some ⟨4, 50⟩)
  minimumSize _ := pure none
  setBounds _ _ := pure ()
  gridSolved _ := pure ()
  report _ := pure ()

/-- Four pixels in the middle of eleven, in a row that is not as high as the component would be. -/
theorem frieze_aligned :
    ∃ rect, Gives (fun _ => True)
      (boundsOn friezeHost friezeGrid (.single ⟨2, 0⟩ ⟨.center, .trailing⟩) ()) (.ok rect) ∧
      (rect.along .columns).Aligned 23 34 .center 4 ∧ rect.along .rows = ⟨0, 20⟩ := by
  have hgrid : ((Grid.solve frieze ⟨3, 0⟩ ⟨31, 20⟩
      (⟨[], []⟩ : PerAxis (List (Item (StateM Unit))))).run.run ()).1 = .ok friezeGrid := by
    decide +kernel
  have hwithin : (Constraint.single ⟨2, 0⟩ ⟨.center, .trailing⟩).within friezeGrid.counts =
      true := by decide
  have hsize : Gives (fun _ => True) (friezeHost.preferredSize ()) (.ok (some ⟨4, 50⟩)) := .pure _
  have hpreferred : ∀ axis, 0 ≤ (⟨4, 50⟩ : Size).along axis := by
    intro axis
    cases axis <;> decide
  obtain ⟨rect, hrect, haligned⟩ := boundsOn_aligned hgrid hwithin hsize hpreferred
  refine ⟨rect, hrect, ?_, ?_⟩
  · obtain ⟨lead, trail, hlead, htrail, -, hplace⟩ := haligned .columns
    cases hlead
    cases htrail
    exact hplace
  · obtain ⟨lead, trail, hlead, htrail, -, hplace⟩ := haligned .rows
    cases hlead
    cases htrail
    exact hplace.stretched (.inr (by decide))

end Layout

end TrackGrid
