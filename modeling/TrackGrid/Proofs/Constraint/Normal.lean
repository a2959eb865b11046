import Mathlib.Order.MinMax
import TrackGrid.Constraint
import TrackGrid.Proofs.Effect
import TrackGrid.Proofs.Text.Numeral

/-! The normal form of constraints, which `ofCells` brings everything into. What is given, shifted
or read from a text is normal. -/

namespace TrackGrid

private theorem Interval.one_first {i : Interval} (h : i.first = i.last) : one i.first = i := by
  cases i
  cases h
  rfl

namespace Constraint

/-- Bounds in order on both axes, and a single cell exactly where one cell is covered. -/
structure Normal (c : Constraint) : Prop where
  columns : c.cells.columns.first ≤ c.cells.columns.last
  rows : c.cells.rows.first ≤ c.cells.rows.last
  single : c.isSingle = true ↔
    c.cells.columns.first = c.cells.columns.last ∧ c.cells.rows.first = c.cells.rows.last

/-- Bounds of no more digits than are written. -/
structure Writable (c : Constraint) : Prop where
  left : Number.Writable c.cells.columns.first
  top : Number.Writable c.cells.rows.first
  right : Number.Writable c.cells.columns.last
  bottom : Number.Writable c.cells.rows.last

instance (c : Constraint) : Decidable c.Normal :=
  decidable_of_iff
    (c.cells.columns.first ≤ c.cells.columns.last ∧ c.cells.rows.first ≤ c.cells.rows.last ∧
      (c.isSingle = true ↔ c.cells.columns.first = c.cells.columns.last ∧
        c.cells.rows.first = c.cells.rows.last))
    ⟨fun ⟨hcolumns, hrows, hsingle⟩ => ⟨hcolumns, hrows, hsingle⟩,
      fun h => ⟨h.columns, h.rows, h.single⟩⟩

instance (c : Constraint) : Decidable c.Writable :=
  decidable_of_iff
    (Number.Writable c.cells.columns.first ∧ Number.Writable c.cells.rows.first ∧
      Number.Writable c.cells.columns.last ∧ Number.Writable c.cells.rows.last)
    ⟨fun ⟨hleft, htop, hright, hbottom⟩ => ⟨hleft, htop, hright, hbottom⟩,
      fun h => ⟨h.left, h.top, h.right, h.bottom⟩⟩

variable {c : Constraint}

/-- The cells of a normal form are those given, with their bounds in order. -/
theorem cells_ofCells (cells : PerAxis Interval) (align : PerAxis Alignment) :
    (ofCells cells align).cells = cells.map Interval.ordered := by
  unfold ofCells
  dsimp only
  split
  · rename_i hone
    exact congrArg₂ PerAxis.mk (Interval.one_first hone.1) (Interval.one_first hone.2)
  · rfl

private theorem isSingle_ofCells (cells : PerAxis Interval) (align : PerAxis Alignment) :
    (ofCells cells align).isSingle = true ↔
      (cells.map Interval.ordered).columns.first = (cells.map Interval.ordered).columns.last ∧
        (cells.map Interval.ordered).rows.first = (cells.map Interval.ordered).rows.last := by
  unfold ofCells
  dsimp only
  split
  · rename_i hone
    exact iff_of_true rfl hone
  · rename_i hmore
    exact iff_of_false Bool.false_ne_true hmore

private theorem ofCells_normal (cells : PerAxis Interval) (align : PerAxis Alignment) :
    (ofCells cells align).Normal := by
  constructor
  · rw [cells_ofCells]
    exact le_max_left _ _
  · rw [cells_ofCells]
    exact le_max_left _ _
  · rw [cells_ofCells]
    exact isSingle_ofCells cells align

private theorem normalize_normal (c : Constraint) : c.normalize.Normal := ofCells_normal _ _

theorem shift_normal (c : Constraint) (axis : Axis) (index delta : Int) :
    (c.shift axis index delta).Normal :=
  ofCells_normal _ _

theorem Normal.normalize_eq (h : c.Normal) : c.normalize = c := by
  have hordered : c.cells.map Interval.ordered = c.cells := by
    simp only [PerAxis.map, Interval.ordered, max_eq_right h.columns, max_eq_right h.rows]
  unfold normalize ofCells
  rw [hordered]
  cases c with
  | single cell align =>
    exact if_pos ⟨rfl, rfl⟩
  | span cells =>
    refine if_neg fun hone => ?_
    cases h.single.mpr hone

theorem normalize_single (cell : PerAxis Int) (align : PerAxis Alignment) :
    (single cell align).normalize = single cell align :=
  Normal.normalize_eq ⟨le_rfl, le_rfl, iff_of_true rfl ⟨rfl, rfl⟩⟩

/-- A normal form is told by its cells and its alignment. -/
theorem Normal.ext {d : Constraint} (hc : c.Normal) (hd : d.Normal) (hcells : c.cells = d.cells)
    (halign : c.align = d.align) : c = d := by
  rw [← hc.normalize_eq, ← hd.normalize_eq, normalize, normalize, hcells, halign]

theorem ofFields_normal {fields : List (List Char)} (h : ofFields fields = .ok c) : c.Normal := by
  obtain ⟨values, -, h⟩ := bind_eq_ok_iff.mp h
  obtain rfl := pure_eq_ok_iff.mp h
  exact ofCells_normal _ _

theorem ofGiven_normal {given : GivenConstraint} (h : ofGiven given = .ok c) : c.Normal := by
  cases given with
  | text t => exact ofFields_normal h
  | constraint d =>
    obtain rfl := Except.ok.inj h
    exact normalize_normal d
  | absent => cases h
  | other kind => cases h

/-- Bringing bounds in order makes none longer. -/
theorem ofCells_writable {cells : PerAxis Interval} {align : PerAxis Alignment}
    (hleft : Number.Writable cells.columns.first) (htop : Number.Writable cells.rows.first)
    (hright : Number.Writable cells.columns.last) (hbottom : Number.Writable cells.rows.last) :
    (ofCells cells align).Writable := by
  have hmax {m n : Int} (hm : Number.Writable m) (hn : Number.Writable n) :
      Number.Writable (max m n) := by
    rcases max_choice m n with h | h
    · rwa [h]
    · rwa [h]
  constructor <;> rw [cells_ofCells]
  · exact hleft
  · exact htop
  · exact hmax hleft hright
  · exact hmax htop hbottom

end Constraint
end TrackGrid
