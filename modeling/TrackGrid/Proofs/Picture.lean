import Mathlib.Data.List.Induction
import Mathlib.Data.List.Pairwise
import TrackGrid.Picture
import TrackGrid.Proofs.Placement

/-! A pixel of a picture shows the cell between whose edges it lies, and no block reaches beyond the
picture. -/

namespace TrackGrid

namespace Line

/-- One edge more than tracks, and the edges in order. -/
structure Ordered (line : Line) : Prop where
  length : line.offsets.length = line.sizes.length + 1
  sorted : line.offsets.Pairwise (· ≤ ·)

/-- Whether a position lies between the two edges of a track. -/
def Covers (line : Line) (track : Nat) (position : Int) : Prop :=
  ∃ start stop, line.offsets[track]? = some start ∧ line.offsets[track + 1]? = some stop ∧
    start ≤ position ∧ position < stop

/-- Whether a position lies between the outer edges. -/
def Reaches (line : Line) (position : Int) : Prop :=
  ∃ first last, line.offsets.head? = some first ∧ line.offsets.getLast? = some last ∧
    first ≤ position ∧ position < last

variable {line : Line} {i j : Nat} {a b position : Int}

theorem Sound.ordered (h : line.Sound) : line.Ordered := by
  obtain ⟨origin, sizes, rfl, hsizes⟩ := h
  exact ⟨length_edges origin sizes, pairwise_edges origin hsizes⟩

private theorem Ordered.getElem?_edge (h : line.Ordered) (hi : i ≤ line.sizes.length) :
    line.offsets[i]? = some (line.offsets.getD i 0) := by
  rw [List.getD_eq_getElem?_getD, List.getElem?_eq_getElem (by rw [h.length]; omega),
    Option.getD_some]

theorem Ordered.edge_le (h : line.Ordered) (hij : i ≤ j) (ha : line.offsets[i]? = some a)
    (hb : line.offsets[j]? = some b) : a ≤ b := by
  obtain ⟨hi, rfl⟩ := List.getElem?_eq_some_iff.mp ha
  obtain ⟨hj, rfl⟩ := List.getElem?_eq_some_iff.mp hb
  exact h.sorted.rel_get_of_le (a := ⟨i, hi⟩) (b := ⟨j, hj⟩) hij

/-- A position lies in one track at most. -/
theorem Ordered.covers_unique (h : line.Ordered) (hi : line.Covers i position)
    (hj : line.Covers j position) : i = j := by
  have hle {s t : Nat} (hs : line.Covers s position) (ht : line.Covers t position) : t ≤ s := by
    obtain ⟨-, stop, -, hstop, -, hbelow⟩ := hs
    obtain ⟨start, -, hstart, -, habove, -⟩ := ht
    by_contra hlt
    have := h.edge_le (Nat.succ_le_of_lt (Nat.lt_of_not_le hlt)) hstop hstart
    omega
  exact Nat.le_antisymm (hle hj hi) (hle hi hj)

/-- Between the outer edges of a list of edges there are two neighbours with the position between
them, whatever their order. -/
private theorem exists_neighbours {edges : List Int} (ha : a ≤ position)
    (hlast : (a :: edges).getLast? = some b) (hb : position < b) :
    ∃ i start stop, (a :: edges)[i]? = some start ∧ (a :: edges)[i + 1]? = some stop ∧
      start ≤ position ∧ position < stop := by
  induction edges generalizing a with
  | nil =>
    obtain rfl : a = b := by simpa using hlast
    omega
  | cons c edges ih =>
    by_cases hc : position < c
    · exact ⟨0, a, c, rfl, rfl, ha, hc⟩
    · rw [List.getLast?_cons_cons] at hlast
      obtain ⟨i, start, stop, hstart, hstop, hbetween⟩ := ih (Int.not_lt.mp hc) hlast
      exact ⟨i + 1, start, stop, hstart, hstop, hbetween⟩

/-- The tracks leave no gap between the outer edges. -/
theorem Ordered.exists_covers_iff (h : line.Ordered) :
    (∃ track, line.Covers track position) ↔ line.Reaches position := by
  constructor
  · rintro ⟨track, start, stop, hstart, hstop, habove, hbelow⟩
    have hne : line.offsets ≠ [] := List.ne_nil_of_mem (List.mem_of_getElem? hstart)
    have hlast := List.getLast?_eq_some_getLast hne
    have hhead := List.head?_eq_some_head hne
    refine ⟨_, _, hhead, hlast, ?_, ?_⟩
    · rw [List.head?_eq_getElem?] at hhead
      exact (h.edge_le (Nat.zero_le track) hhead hstart).trans habove
    · rw [List.getLast?_eq_getElem?] at hlast
      obtain ⟨hlt, -⟩ := List.getElem?_eq_some_iff.mp hstop
      exact hbelow.trans_le (h.edge_le (by omega) hstop hlast)
  · rintro ⟨first, last, hfirst, hlast, habove, hbelow⟩
    obtain ⟨rest, hedges⟩ := List.head?_eq_some_iff.mp hfirst
    rw [hedges] at hlast
    obtain ⟨track, start, stop, hstart, hstop, hbetween⟩ :=
      exists_neighbours habove hlast hbelow
    exact ⟨track, start, stop, by rw [hedges]; exact hstart, by rw [hedges]; exact hstop, hbetween⟩

end Line

namespace Band

private theorem has_iff {band : Band} {position : Nat} :
    band.has position = true ↔ band.start ≤ position ∧ (position : Int) < band.stop := by
  simp only [has, Bool.and_eq_true, decide_eq_true_eq]

/-- Clipping takes away no position in the picture. -/
theorem has_clip {band : Band} {extent position : Nat} (h : position < extent) :
    (band.clip extent).has position = band.has position := by
  rw [Bool.eq_iff_iff, has_iff, has_iff]
  simp only [clip]
  omega

/-- Clipping leaves no position outside of the picture. -/
theorem clip_within (band : Band) (extent : Nat) :
    0 ≤ (band.clip extent).start ∧ (band.clip extent).stop ≤ extent :=
  ⟨le_max_right _ _, min_le_right _ _⟩

private theorem start_lt_stop {band : Band} {position : Nat} (h : band.has position = true) :
    band.start < band.stop :=
  (has_iff.mp h).1.trans_lt (has_iff.mp h).2

end Band

private theorem Block.isProper_iff {block : Block} : block.isProper = true ↔
    block.down.start < block.down.stop ∧ block.across.start < block.across.stop := by
  simp only [isProper, Bool.and_eq_true, decide_eq_true_eq]

structure Block.Within (block : Block) (width height : Nat) : Prop where
  top : 0 ≤ block.down.start
  down : block.down.start < block.down.stop
  bottom : block.down.stop ≤ height
  left : 0 ≤ block.across.start
  across : block.across.start < block.across.stop
  right : block.across.stop ≤ width

namespace Picture

structure Sized (picture : Picture) (w h : Nat) : Prop where
  width : picture.width = w
  height : picture.height = h
  rows : ∀ row ∈ picture.rows, row.length = w

variable {picture : Picture} {width height x y : Nat}

private theorem rows_blank (width height : Nat) :
    (blank width height).rows = List.replicate height (List.replicate width none) := by
  cases height <;> rfl

private theorem blank_sized (width height : Nat) : (blank width height).Sized width height where
  width := rfl
  height := by rw [Picture.height, rows_blank, List.length_replicate]
  rows row hrow := by
    rw [rows_blank] at hrow
    rw [List.eq_of_mem_replicate hrow, List.length_replicate]

private theorem pixel_blank (hx : x < width) (hy : y < height) :
    (blank width height).pixel x y = none := by
  simp [pixel, rows_blank, hx, hy]

theorem Sized.paint (h : picture.Sized width height) (block : Block) :
    (picture.paint block).Sized width height where
  width := h.width
  height := by rw [Picture.height, Picture.paint, List.length_mapIdx]; exact h.height
  rows row hrow := by
    obtain ⟨y, hy, rfl⟩ := List.mem_mapIdx.mp hrow
    have hlength := h.rows _ (List.getElem_mem hy)
    split
    · rw [paintRow, List.length_mapIdx, hlength]
    · exact hlength

/-- A block covers what was seen at its pixels and leaves the others alone. -/
theorem pixel_paint (h : picture.Sized width height) (hx : x < width) (hy : y < height)
    (block : Block) : (picture.paint block).pixel x y =
      if block.has x y then some block.cell else picture.pixel x y := by
  obtain ⟨row, hrow⟩ : ∃ row, picture.rows[y]? = some row :=
    ⟨_, List.getElem?_eq_getElem (hy.trans_eq h.height.symm)⟩
  have hlength := h.rows row (List.mem_of_getElem? hrow)
  obtain ⟨seen, hseen⟩ : ∃ seen, row[x]? = some seen :=
    ⟨_, List.getElem?_eq_getElem (hx.trans_eq hlength.symm)⟩
  simp only [pixel, paint, List.getElem?_mapIdx, hrow, Option.map_some, Option.bind_some, Block.has]
  cases hdown : block.down.has y with
  | false => rfl
  | true =>
    simp only [if_true, paintRow, List.getElem?_mapIdx, hseen, Option.map_some, Bool.true_and]
    cases block.across.has x <;> rfl

/-- Painting blocks one after the other keeps the size, and of the blocks that have a pixel the last
one is seen there. -/
theorem foldl_paint (h : picture.Sized width height) (blocks : List Block) :
    (blocks.foldl paint picture).Sized width height ∧ ∀ x y, x < width → y < height →
      (blocks.foldl paint picture).pixel x y =
        ((blocks.reverse.find? (·.has x y)).map Block.cell).or (picture.pixel x y) := by
  induction blocks using List.reverseRecOn with
  | nil => exact ⟨h, fun _ _ _ _ => rfl⟩
  | append_singleton blocks block ih =>
    obtain ⟨hsized, hpixel⟩ := ih
    rw [List.foldl_concat]
    refine ⟨hsized.paint block, fun x y hx hy => ?_⟩
    rw [pixel_paint hsized hx hy, hpixel x y hx hy, List.reverse_append, List.reverse_singleton,
      List.singleton_append, List.find?_cons]
    cases block.has x y <;> rfl

def bandOf (line : Line) (track : Nat) : Band :=
  ⟨line.offsets.getD track 0, line.offsets.getD (track + 1) 0⟩

def blockOf (grid : Grid) (size : Size) (cell : Cell) : Block :=
  ⟨(bandOf grid.rows cell.row).clip size.height.toNat,
    (bandOf grid.columns cell.column).clip size.width.toNat, cell⟩

private theorem bands_eq {line : Line} (h : line.Ordered) (extent : Nat) :
    bands line extent =
      .ok ((List.range line.sizes.length).map fun track => (bandOf line track).clip extent) := by
  refine mapM_eq_ok_iff.mpr (List.forall₂_map_right_iff.mpr (List.forall₂_same.mpr fun track ht => ?_))
  have hlt := List.mem_range.mp ht
  have hedge (i : Nat) (hi : i ≤ line.sizes.length) :
      itemAt line.offsets i = .ok (line.offsets.getD i 0) :=
    (itemAt_eq_ok_iff (Int.natCast_nonneg i)).mpr (h.getElem?_edge hi)
  exact bind_eq_ok_iff.mpr ⟨_, hedge track hlt.le, bind_eq_ok_iff.mpr ⟨_, hedge (track + 1) hlt, rfl⟩⟩

theorem covers_iff {line : Line} (h : line.Ordered) {track position : Nat} :
    line.Covers track position ↔
      track < line.sizes.length ∧ (bandOf line track).has position = true := by
  rw [Band.has_iff, bandOf]
  constructor
  · rintro ⟨start, stop, hstart, hstop, hbetween⟩
    obtain ⟨hlt, -⟩ := List.getElem?_eq_some_iff.mp hstop
    rw [h.length] at hlt
    rw [List.getD_eq_getElem?_getD, List.getD_eq_getElem?_getD, hstart, hstop]
    exact ⟨by omega, hbetween⟩
  · rintro ⟨hlt, hbetween⟩
    exact ⟨_, _, h.getElem?_edge hlt.le, h.getElem?_edge hlt, hbetween⟩

private theorem zipIdx_map_range {α : Type} (f : Nat → α) (n : Nat) :
    ((List.range n).map f).zipIdx = (List.range n).map fun i => (f i, i) := by
  refine List.ext_getElem (by simp) fun i _ _ => ?_
  simp

private theorem ofGrid_eq {grid : Grid} {size : Size} {bs : List Block}
    (h : blocks grid size = .ok bs) :
    ofGrid grid size = .ok (bs.foldl paint (blank size.width.toNat size.height.toNat)) := by
  rw [ofGrid, h]
  rfl

section
variable {grid : Grid} (hcolumns : grid.columns.Ordered) (hrows : grid.rows.Ordered) (size : Size)
include hcolumns hrows

private theorem blocks_eq : blocks grid size =
    .ok (((List.range grid.rows.sizes.length).flatMap fun row =>
      (List.range grid.columns.sizes.length).map fun column =>
        blockOf grid size ⟨row, column⟩).filter Block.isProper) := by
  refine bind_eq_ok_iff.mpr ⟨_, bands_eq hrows _, ?_⟩
  split
  · -- without rows the columns are not even looked at
    rename_i hnone
    have hcount : grid.rows.sizes.length = 0 := by simpa using hnone
    rw [hcount]
    rfl
  · refine bind_eq_ok_iff.mpr ⟨_, bands_eq hcolumns _, ?_⟩
    dsimp only
    rw [zipIdx_map_range, zipIdx_map_range]
    simp only [List.flatMap_map, List.map_map]
    rfl

private theorem mem_blocks {bs : List Block} (h : blocks grid size = .ok bs) {block : Block} :
    block ∈ bs ↔ block.isProper = true ∧ block.cell.row < grid.rows.sizes.length ∧
      block.cell.column < grid.columns.sizes.length ∧ block = blockOf grid size block.cell := by
  rw [blocks_eq hcolumns hrows] at h
  obtain rfl := Except.ok.inj h
  simp only [List.mem_filter, List.mem_flatMap, List.mem_map, List.mem_range]
  constructor
  · rintro ⟨⟨row, hrow, column, hcolumn, rfl⟩, hproper⟩
    exact ⟨hproper, hrow, hcolumn, rfl⟩
  · rintro ⟨hproper, hrow, hcolumn, heq⟩
    exact ⟨⟨_, hrow, _, hcolumn, heq.symm⟩, hproper⟩

private theorem blocks_within {bs : List Block} (h : blocks grid size = .ok bs) :
    ∀ block ∈ bs, block.Within size.width.toNat size.height.toNat := by
  intro block hblock
  obtain ⟨hproper, -, -, heq⟩ := (mem_blocks hcolumns hrows size h).mp hblock
  rw [Block.isProper_iff] at hproper
  rw [heq] at hproper ⊢
  obtain ⟨htop, hbottom⟩ := Band.clip_within (bandOf grid.rows block.cell.row) size.height.toNat
  obtain ⟨hleft, hright⟩ := Band.clip_within (bandOf grid.columns block.cell.column) size.width.toNat
  exact ⟨htop, hproper.1, hbottom, hleft, hproper.2, hright⟩

variable {x y : Nat} (hx : x < size.width.toNat) (hy : y < size.height.toNat)
include hx hy

/-- Among the blocks that are painted there is one with a pixel of the picture just for each cell
that covers it. -/
theorem exists_block_iff {bs : List Block} (h : blocks grid size = .ok bs) (cell : Cell) :
    (∃ block ∈ bs, block.has x y = true ∧ block.cell = cell) ↔
      grid.rows.Covers cell.row y ∧ grid.columns.Covers cell.column x := by
  rw [covers_iff hrows, covers_iff hcolumns]
  constructor
  · rintro ⟨block, hblock, hhas, rfl⟩
    obtain ⟨-, hrow, hcolumn, heq⟩ := (mem_blocks hcolumns hrows size h).mp hblock
    rw [heq] at hhas
    simp only [Block.has, blockOf, Band.has_clip hx, Band.has_clip hy, Bool.and_eq_true] at hhas
    exact ⟨⟨hrow, hhas.1⟩, hcolumn, hhas.2⟩
  · rintro ⟨⟨hrow, hdown⟩, hcolumn, hacross⟩
    rw [← Band.has_clip hy] at hdown
    rw [← Band.has_clip hx] at hacross
    refine ⟨blockOf grid size cell, (mem_blocks hcolumns hrows size h).mpr ⟨?_, hrow, hcolumn, rfl⟩,
      ?_, rfl⟩
    · exact Block.isProper_iff.mpr ⟨Band.start_lt_stop hdown, Band.start_lt_stop hacross⟩
    · simp only [Block.has, blockOf, hdown, hacross, Bool.and_self]

private theorem pixel_eq_some_iff {bs : List Block} (h : blocks grid size = .ok bs) (cell : Cell) :
    (bs.foldl paint (blank size.width.toNat size.height.toNat)).pixel x y = some cell ↔
      grid.rows.Covers cell.row y ∧ grid.columns.Covers cell.column x := by
  obtain ⟨-, hpixel⟩ := foldl_paint (blank_sized size.width.toNat size.height.toNat) bs
  rw [hpixel x y hx hy, pixel_blank hx hy, Option.or_none, Option.map_eq_some_iff]
  have hblock := exists_block_iff hcolumns hrows size hx hy h
  constructor
  · rintro ⟨block, hfind, hcell⟩
    have hhas := List.find?_some hfind
    exact (hblock cell).mp
      ⟨block, List.mem_reverse.mp (List.mem_of_find?_eq_some hfind), hhas, hcell⟩
  · intro hcovers
    obtain ⟨block, hmem, hhas, -⟩ := (hblock cell).mpr hcovers
    obtain ⟨seen, hseen⟩ : ∃ seen, bs.reverse.find? (·.has x y) = some seen :=
      Option.isSome_iff_exists.mp (List.find?_isSome.mpr ⟨block, List.mem_reverse.mpr hmem, hhas⟩)
    -- whichever block is seen, it is of the one cell that covers the pixel
    have hhas' := List.find?_some hseen
    obtain ⟨hrow, hcolumn⟩ := (hblock seen.cell).mp
      ⟨seen, List.mem_reverse.mp (List.mem_of_find?_eq_some hseen), hhas', rfl⟩
    refine ⟨seen, hseen, ?_⟩
    have hrow' := hrows.covers_unique hrow hcovers.1
    have hcolumn' := hcolumns.covers_unique hcolumn hcovers.2
    cases hcell : seen.cell
    rw [hcell] at hrow' hcolumn'
    dsimp only at hrow' hcolumn'
    rw [hrow', hcolumn']

end

/-- A picture of a grid shows each pixel in the color of its own cell. Let both lines have one edge
more than tracks and their edges in order, wherever they begin and end, and let the picture have any
size. Then each block that is painted lies in the picture, a pixel is opaque just between the outer
edges, and the cell that it shows is the one between whose edges it lies. Once there is room for the
picture and the seed of its colors is taken, it is drawn so. -/
theorem ofGrid_shows {grid : Grid} (hcolumns : grid.columns.Ordered) (hrows : grid.rows.Ordered)
    (size : Size) : ∃ bs picture, blocks grid size = .ok bs ∧
      bs.foldl paint (blank size.width.toNat size.height.toNat) = picture ∧
      ofGrid grid size = .ok picture ∧
      (∀ prepare seed, prepare size seed = .ok () → draw prepare grid size seed = .ok picture) ∧
      (∀ block ∈ bs, block.Within size.width.toNat size.height.toNat) ∧
      picture.Sized size.width.toNat size.height.toNat ∧
      ∀ x y : Nat, x < size.width.toNat → y < size.height.toNat →
        ((picture.pixel x y).isSome ↔ grid.rows.Reaches y ∧ grid.columns.Reaches x) ∧
        ∀ cell, picture.pixel x y = some cell ↔
          grid.rows.Covers cell.row y ∧ grid.columns.Covers cell.column x := by
  have hblocks := blocks_eq hcolumns hrows size
  have hpicture := ofGrid_eq hblocks
  refine ⟨_, _, hblocks, rfl, hpicture, fun prepare seed hprepare => ?_,
    blocks_within hcolumns hrows size hblocks, (foldl_paint (blank_sized _ _) _).1,
    fun x y hx hy => ⟨?_, pixel_eq_some_iff hcolumns hrows size hx hy hblocks⟩⟩
  · rw [draw, hprepare]
    exact hpicture
  · have hpixel := pixel_eq_some_iff hcolumns hrows size hx hy hblocks
    rw [← hrows.exists_covers_iff, ← hcolumns.exists_covers_iff, Option.isSome_iff_exists]
    constructor
    · rintro ⟨cell, hcell⟩
      obtain ⟨hrow, hcolumn⟩ := (hpixel cell).mp hcell
      exact ⟨⟨_, hrow⟩, _, hcolumn⟩
    · rintro ⟨⟨row, hrow⟩, column, hcolumn⟩
      exact ⟨⟨row, column⟩, (hpixel ⟨row, column⟩).mpr ⟨hrow, hcolumn⟩⟩

/-- Tracks that begin in front of the picture, one without pixels, and one that ends behind it. -/
private def tiles : Grid := ⟨.ofSizes (-3) [5, 0, 7], .ofSizes 1 [1, 4]⟩

theorem tiles_show : tiles.columns.Ordered ∧ tiles.rows.Ordered ∧ ∃ picture,
    ofGrid tiles ⟨4, 3⟩ = .ok picture ∧
    picture.rows = [[none, none, none, none],
      [some ⟨0, 0⟩, some ⟨0, 0⟩, some ⟨0, 2⟩, some ⟨0, 2⟩],
      [some ⟨1, 0⟩, some ⟨1, 0⟩, some ⟨1, 2⟩, some ⟨1, 2⟩]] ∧
    tiles.columns.Covers 2 3 ∧ ¬ tiles.rows.Reaches 0 := by
  have hcolumns : tiles.columns.Ordered := Line.Sound.ordered ⟨-3, [5, 0, 7], rfl, by decide⟩
  have hrows : tiles.rows.Ordered := Line.Sound.ordered ⟨1, [1, 4], rfl, by decide⟩
  obtain ⟨_, picture, -, -, hpicture, -, -, -, hpixel⟩ := ofGrid_shows hcolumns hrows ⟨4, 3⟩
  have hrun : ofGrid tiles ⟨4, 3⟩ = .ok ⟨4, [[none, none, none, none],
      [some ⟨0, 0⟩, some ⟨0, 0⟩, some ⟨0, 2⟩, some ⟨0, 2⟩],
      [some ⟨1, 0⟩, some ⟨1, 0⟩, some ⟨1, 2⟩, some ⟨1, 2⟩]]⟩ := by decide +kernel
  obtain rfl := Except.ok.inj (hpicture.symm.trans hrun)
  refine ⟨hcolumns, hrows, _, hrun, rfl, ?_, fun hreaches => ?_⟩
  · exact ((hpixel 3 1 (by decide) (by decide)).2 ⟨0, 2⟩).mp rfl |>.2
  · have hcolumn : tiles.columns.Reaches 0 := ⟨-3, 9, rfl, rfl, by decide, by decide⟩
    cases (hpixel 0 0 (by decide) (by decide)).1.mpr ⟨hreaches, hcolumn⟩

end Picture
end TrackGrid
