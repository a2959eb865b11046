import TrackGrid.Layout.Pass
import TrackGrid.Proofs.Line.Conservation

/-! Whatever its alignment and however small the tracks are, a component stays within the cells it
is placed in. -/

namespace TrackGrid

theorem itemAt_eq_ok_iff {α : Type} {xs : List α} {index : Int} {x : α} (hi : 0 ≤ index) :
    itemAt xs index = .ok x ↔ xs[index.toNat]? = some x := by
  simp only [itemAt, if_neg (show ¬ index < 0 by omega)]
  cases xs[index.toNat]? <;> simp

namespace Line

/-- A line whose edges are running sums of sizes that are not below zero. -/
def Sound (line : Line) : Prop :=
  ∃ origin sizes, line = ofSizes origin sizes ∧ ∀ size ∈ sizes, 0 ≤ size

/-- Where the tracks in front of a position end. -/
def edge (line : Line) (i : Int) : Int := line.origin + (line.sizes.take i.toNat).sum

variable {line : Line} {i j a : Int}

theorem edge_le (h : line.Sound) (hij : i ≤ j) : line.edge i ≤ line.edge j := by
  obtain ⟨origin, sizes, rfl, hsizes⟩ := h
  have := sum_take_le hsizes (Int.toNat_le_toNat hij)
  simp only [edge, ofSizes]
  omega

theorem startOf_eq_edge (h : line.Sound) (hi : 0 ≤ i) (ha : line.startOf i = .ok a) :
    a = line.edge i := by
  obtain ⟨origin, sizes, rfl, -⟩ := h
  have hget : (edges origin sizes)[i.toNat]? = some a := (itemAt_eq_ok_iff hi).mp ha
  obtain ⟨hlt, -⟩ := List.getElem?_eq_some_iff.mp hget
  rw [length_edges] at hlt
  rw [getElem?_edges (by omega)] at hget
  rw [edge, origin_ofSizes]
  exact (Option.some.inj hget).symm

theorem stopOf_eq_edge (h : line.Sound) (hi : 0 ≤ i) (ha : line.stopOf i = .ok a) :
    a = line.edge (i + 1) :=
  startOf_eq_edge h (by omega) ha

theorem edge_succ (hi : 0 ≤ i) (ha : itemAt line.sizes i = .ok a) :
    line.edge (i + 1) = line.edge i + a := by
  have hget := (itemAt_eq_ok_iff hi).mp ha
  rw [edge, edge, show (i + 1).toNat = i.toNat + 1 by omega, List.take_add_one, hget,
    List.sum_append, Option.toList_some, List.sum_singleton, Int.add_assoc]

theorem exists_startOf (h : line.Sound) (hi : 0 ≤ i) (hle : i ≤ line.sizes.length) :
    ∃ a, line.startOf i = .ok a := by
  obtain ⟨origin, sizes, rfl, -⟩ := h
  have hlength : i.toNat ≤ sizes.length := by
    simp only [ofSizes] at hle
    omega
  exact ⟨_, (itemAt_eq_ok_iff hi).mpr (getElem?_edges hlength)⟩

private theorem exists_stopOf (h : line.Sound) (hi : 0 ≤ i) (hlt : i < line.sizes.length) :
    ∃ a, line.stopOf i = .ok a :=
  exists_startOf h (by omega) (by omega)

/-- A component can be placed in any cell of a line. -/
theorem exists_placeInCell (h : line.Sound) (hi : 0 ≤ i) (hlt : i < line.sizes.length)
    (align : Alignment) (preferred : Int) :
    ∃ place, line.placeInCell i align preferred = .ok place := by
  have hnat : i.toNat < line.sizes.length := by omega
  have hsize : itemAt line.sizes i = .ok line.sizes[i.toNat] :=
    (itemAt_eq_ok_iff hi).mpr (List.getElem?_eq_getElem hnat)
  obtain ⟨start, hstart⟩ := exists_startOf h hi hlt.le
  obtain ⟨stop, hstop⟩ := exists_stopOf h hi hlt
  cases align with
  | leading | center | full =>
    exact ⟨_, bind_eq_ok_iff.mpr ⟨_, hsize, bind_eq_ok_iff.mpr ⟨start, hstart, rfl⟩⟩⟩
  | trailing =>
    exact ⟨_, bind_eq_ok_iff.mpr ⟨_, hsize, bind_eq_ok_iff.mpr ⟨stop, hstop, rfl⟩⟩⟩

end Line

def Stretch.Contains (s : Stretch) (x : Int) : Prop := s.start ≤ x ∧ x < s.start + s.length

def Rect.Contains (rect : Rect) (x y : Int) : Prop :=
  (rect.x ≤ x ∧ x < rect.x + rect.width) ∧ rect.y ≤ y ∧ y < rect.y + rect.height

namespace Line

variable {line : Line}

/-- A place in one cell does not leave the cell. -/
theorem placeInCell_within (hline : line.Sound) {cell preferred x : Int} {align : Alignment}
    {place : Stretch} (hcell : 0 ≤ cell) (h : line.placeInCell cell align preferred = .ok place)
    (hx : place.Contains x) : line.edge cell ≤ x ∧ x < line.edge (cell + 1) := by
  obtain ⟨size, hsize, h⟩ := bind_eq_ok_iff.mp h
  have hedge := edge_succ hcell hsize
  obtain ⟨hlow, hhigh⟩ := hx
  cases align with
  | leading | center | full =>
    obtain ⟨start, hstart, hplace⟩ := bind_eq_ok_iff.mp h
    cases pure_eq_ok_iff.mp hplace
    have := startOf_eq_edge hline hcell hstart
    grind
  | trailing =>
    obtain ⟨stop, hstop, hplace⟩ := bind_eq_ok_iff.mp h
    cases pure_eq_ok_iff.mp hplace
    have := stopOf_eq_edge hline hcell hstop
    grind

end Line

def Grid.Sound (grid : Grid) : Prop := grid.columns.Sound ∧ grid.rows.Sound

section
variable {σ : Type} {P : σ → Prop}

theorem Line.solve_sound {items : List (Item (StateM σ))}
    (hitems : ∀ item ∈ items, ∀ kind, Holds P (item.extent kind) fun _ => True)
    (tracks : List Track) (origin length : Int) :
    Holds P (Line.solve tracks origin length items) Line.Sound :=
  (Line.solve_passes hitems tracks origin length).mono fun _ ⟨p, hp⟩ =>
    ⟨origin, _, hp, (p.sizes_only length).nonneg⟩

theorem Grid.solve_sound {items : PerAxis (List (Item (StateM σ)))}
    (hcolumns : ∀ item ∈ items.columns, ∀ kind, Holds P (item.extent kind) fun _ => True)
    (hrows : ∀ item ∈ items.rows, ∀ kind, Holds P (item.extent kind) fun _ => True)
    (tracks : PerAxis (List Track)) (origin length : PerAxis Int) :
    Holds P (Grid.solve tracks origin length items) Grid.Sound := by
  refine (Line.solve_sound hcolumns _ _ _).bind fun columns hsound => ?_
  exact (Line.solve_sound hrows _ _ _).bind fun rows hsound' => .pure ⟨hsound, hsound'⟩

/-- A grid has a size for each of the tracks it was solved for. -/
theorem Grid.counts_of_solve {items : PerAxis (List (Item (StateM σ)))}
    {tracks : PerAxis (List Track)} {origin length : PerAxis Int} {s : σ} {grid : Grid}
    (h : ((Grid.solve tracks origin length items).run.run s).1 = .ok grid) :
    grid.counts = tracks.map fun tracks => (tracks.length : Int) := by
  have hline (tracks : List Track) (origin length : Int) (items : List (Item (StateM σ))) :
      Holds (fun _ => True) (Line.solve tracks origin length items) fun line =>
        (line.sizes.length : Int) = tracks.length :=
    (Line.solve_passes (fun _ _ _ => .always) tracks origin length).mono fun _ ⟨p, hp⟩ => by
      rw [hp]
      exact congrArg Nat.cast (p.sizes_only length).length_eq
  have hgrid : Holds (fun _ => True) (Grid.solve tracks origin length items) fun grid =>
      grid.counts = tracks.map fun tracks => (tracks.length : Int) := by
    refine (hline _ _ _ _).bind fun columns hcolumns => ?_
    exact (hline _ _ _ _).bind fun rows hrows => .pure (congrArg₂ PerAxis.mk hcolumns hrows)
  exact (hgrid s trivial).2 grid h

end

namespace Constraint

variable {grid : Grid} {c d : Constraint} {preferred other : Size} {r q : Rect} {x y : Int}

/-- The pixels of the cells of a constraint. -/
def Reaches (grid : Grid) (c : Constraint) (x y : Int) : Prop :=
  (grid.columns.edge c.cells.columns.first ≤ x ∧ x < grid.columns.edge (c.cells.columns.last + 1)) ∧
    grid.rows.edge c.cells.rows.first ≤ y ∧ y < grid.rows.edge (c.cells.rows.last + 1)

theorem first_nonneg {counts : PerAxis Int} (h : c.within counts = true) :
    (0 ≤ c.cells.columns.first ∧ 0 ≤ c.cells.columns.last) ∧
      0 ≤ c.cells.rows.first ∧ 0 ≤ c.cells.rows.last := by
  simp only [within, Interval.within, Bool.and_eq_true, decide_eq_true_eq] at h
  omega

/-- A component stays within the cells it is placed in. -/
theorem place_within {counts : PerAxis Int} (hgrid : grid.Sound) (hc : c.within counts = true)
    (h : c.place grid preferred = .ok r) (hr : r.Contains x y) : c.Reaches grid x y := by
  obtain ⟨⟨hleft, hright⟩, htop, hbottom⟩ := first_nonneg hc
  cases c with
  | single cell align =>
    obtain ⟨across, hacross, h⟩ := bind_eq_ok_iff.mp h
    obtain ⟨down, hdown, h⟩ := bind_eq_ok_iff.mp h
    cases pure_eq_ok_iff.mp h
    exact ⟨Line.placeInCell_within hgrid.1 hleft hacross hr.1,
      Line.placeInCell_within hgrid.2 htop hdown hr.2⟩
  | span cells =>
    obtain ⟨left, hl, h⟩ := bind_eq_ok_iff.mp h
    obtain ⟨top, ht, h⟩ := bind_eq_ok_iff.mp h
    obtain ⟨right, hrt, h⟩ := bind_eq_ok_iff.mp h
    obtain ⟨bottom, hb, h⟩ := bind_eq_ok_iff.mp h
    cases pure_eq_ok_iff.mp h
    obtain ⟨⟨hx, hx'⟩, hy, hy'⟩ := hr
    obtain rfl := Line.startOf_eq_edge hgrid.1 hleft hl
    obtain rfl := Line.startOf_eq_edge hgrid.2 htop ht
    obtain rfl := Line.stopOf_eq_edge hgrid.1 hright hrt
    obtain rfl := Line.stopOf_eq_edge hgrid.2 hbottom hb
    simp only [Rect.ofStretches] at hx hx' hy hy'
    exact ⟨⟨hx, by omega⟩, hy, by omega⟩

theorem last_lt (h : c.within grid.counts = true) :
    (c.cells.columns.first ≤ c.cells.columns.last ∧
      c.cells.columns.last < grid.columns.sizes.length) ∧
    c.cells.rows.first ≤ c.cells.rows.last ∧ c.cells.rows.last < grid.rows.sizes.length := by
  simp only [within, Interval.within, Bool.and_eq_true, decide_eq_true_eq] at h
  obtain ⟨⟨⟨-, hcolumns⟩, hcolumn⟩, ⟨-, hrows⟩, hrow⟩ := h
  exact ⟨⟨hcolumns, hcolumn⟩, hrows, hrow⟩

/-- Any component within the cells of a grid can be placed. -/
theorem exists_place (hgrid : grid.Sound) (hc : c.within grid.counts = true) (preferred : Size) :
    ∃ r, c.place grid preferred = .ok r := by
  obtain ⟨⟨hleft, hright⟩, htop, hbottom⟩ := first_nonneg hc
  obtain ⟨⟨hcolumns, hcolumn⟩, hrows, hrow⟩ := last_lt hc
  cases c with
  | single cell align =>
    obtain ⟨across, hacross⟩ :=
      Line.exists_placeInCell hgrid.1 hleft hcolumn align.columns preferred.width
    obtain ⟨down, hdown⟩ := Line.exists_placeInCell hgrid.2 htop hrow align.rows preferred.height
    exact ⟨_, bind_eq_ok_iff.mpr ⟨across, hacross, bind_eq_ok_iff.mpr ⟨down, hdown, rfl⟩⟩⟩
  | span cells =>
    obtain ⟨left, hl⟩ := Line.exists_startOf hgrid.1 hleft (hcolumns.trans hcolumn.le)
    obtain ⟨top, ht⟩ := Line.exists_startOf hgrid.2 htop (hrows.trans hrow.le)
    obtain ⟨right, hrt⟩ := Line.exists_stopOf hgrid.1 hright hcolumn
    obtain ⟨bottom, hb⟩ := Line.exists_stopOf hgrid.2 hbottom hrow
    exact ⟨_, bind_eq_ok_iff.mpr ⟨left, hl, bind_eq_ok_iff.mpr ⟨top, ht, bind_eq_ok_iff.mpr
      ⟨right, hrt, bind_eq_ok_iff.mpr ⟨bottom, hb, rfl⟩⟩⟩⟩⟩

/-- Intervals that share no track share no pixel. -/
theorem meets_of_edges {line : Line} {i j : Interval} (hline : line.Sound)
    (hi : line.edge i.first ≤ x ∧ x < line.edge (i.last + 1))
    (hj : line.edge j.first ≤ x ∧ x < line.edge (j.last + 1)) : i.meets j = true := by
  simp only [Interval.meets, Bool.and_eq_true, decide_eq_true_eq]
  constructor
  · by_contra hlt
    have := Line.edge_le hline (show j.last + 1 ≤ i.first by omega)
    omega
  · by_contra hlt
    have := Line.edge_le hline (show i.last + 1 ≤ j.first by omega)
    omega

theorem meets_of_reaches (hgrid : grid.Sound) (hc : c.Reaches grid x y) (hd : d.Reaches grid x y) :
    c.meets d = true := by
  rw [meets, meets_of_edges hgrid.1 hc.1 hd.1, meets_of_edges hgrid.2 hc.2 hd.2]
  rfl

end Constraint

end TrackGrid
