import TrackGrid.Proofs.Line.Sufficiency
import TrackGrid.Proofs.Track.Kind

/-! Each pass of the solver gives sizes to the tracks of one kind and no others. -/

namespace TrackGrid
namespace Line

variable {tracks : List Track} {items : List (Item Id)} {length : Int}

/-- The sizes that the passes find for the tracks of their kinds. -/
structure Passed (tracks : List Track) (items : List (Item Id)) (length : Int)
    (pass : Track.Kind → List Int) : Prop where
  absolute : absoluteSizes tracks = .ok (pass .absolute)
  content : Returns (contentSizes tracks items) (pass .content)
  relative : relativeSizes
    (max (length - total (pass .absolute) - total (pass .content)) 0) tracks = .ok (pass .relative)
  fill : fillSizes (max (length - total (pass .absolute) - total (pass .content) -
    total (pass .relative)) 0) tracks = pass .fill

def together (pass : Track.Kind → List Int) : List Int :=
  addSizes (addSizes (pass .absolute) (pass .content)) (addSizes (pass .relative) (pass .fill))

/-- A line is made up of what its passes find. -/
theorem solve_iff_passed {origin : Int} {line : Line} :
    Returns (solve tracks origin length items) line ↔
      ∃ pass, Passed tracks items length pass ∧ ofSizes origin (together pass) = line := by
  constructor
  · intro h
    obtain ⟨absolute, ha, h⟩ := Returns.bind_iff.mp h
    obtain ⟨content, hc, h⟩ := Returns.bind_iff.mp h
    obtain ⟨relative, hr, h⟩ := Returns.bind_iff.mp h
    exact ⟨Track.Kind.pick absolute relative content _, ⟨ha, hc, hr, rfl⟩, Returns.pure_iff.mp h⟩
  · rintro ⟨pass, h, rfl⟩
    refine Returns.bind_iff.mpr ⟨_, h.absolute, Returns.bind_iff.mpr ⟨_, h.content, ?_⟩⟩
    refine Returns.bind_iff.mpr ⟨_, h.relative, ?_⟩
    rw [h.fill]
    exact Returns.pure_iff.mpr rfl

namespace Passed

variable {pass : Track.Kind → List Int}

/-- A pass leaves the tracks of the other kinds without a size. -/
theorem zero (h : Passed tracks items length pass) (kind : Track.Kind) :
    List.Forall₂ (fun t size => t.isOf kind = false → size = 0) tracks (pass kind) := by
  have honly {other : Track → Bool} {xs : List Int} (hsame : ∀ t, other t = t.isOf kind)
      (hxs : Only other tracks xs) :
      List.Forall₂ (fun t size => t.isOf kind = false → size = 0) tracks xs :=
    hxs.imp fun t size hsize hkind => hsize.2 ((hsame t).trans hkind)
  cases kind with
  | absolute => exact honly (fun _ => rfl) (absoluteSizes_only h.absolute)
  | relative =>
    exact honly Track.fraction?_isSome (relativeSizes_only (le_max_right _ _) h.relative)
  | fill =>
    rw [← h.fill]
    exact honly (fun _ => rfl) (fillSizes_only (le_max_right _ _) tracks)
  | content =>
    refine forall₂_zipIdx_iff.mp ((Returns.mapM_iff.mp h.content).imp fun p size hsize hkind => ?_)
    replace hkind : p.1.isContent = false := hkind
    simp only [hkind, Bool.false_eq_true, if_false] at hsize
    exact (Returns.pure_iff.mp hsize).symm

theorem getElem? (h : Passed tracks items length pass) {i : Nat} {t : Track}
    (ht : tracks[i]? = some t) (kind : Track.Kind) :
    ∃ size, (pass kind)[i]? = some size ∧ (t.isOf kind = false → size = 0) := by
  obtain ⟨hi, rfl⟩ := List.getElem?_eq_some_iff.mp ht
  have hi' : i < (pass kind).length := (h.zero kind).length_eq ▸ hi
  exact ⟨_, List.getElem?_eq_getElem hi', List.Forall₂.get (h.zero kind) hi hi'⟩

/-- A clean track has the size that the pass of its kind finds. -/
theorem size_eq (h : Passed tracks items length pass) {i : Nat} {t : Track}
    (ht : tracks[i]? = some t) (hclean : t.Clean) {kind : Track.Kind} (hkind : t.isOf kind = true) :
    (together pass)[i]? = (pass kind)[i]? ∧
      ∀ other, other ≠ kind → (pass other)[i]? = some 0 := by
  have hother : ∀ other, other ≠ kind → (pass other)[i]? = some 0 := by
    intro other hne
    obtain ⟨size, hsize, hzero⟩ := h.getElem? ht other
    rw [hsize, hzero (by rw [hclean.isOf_eq hkind, decide_eq_false hne])]
  refine ⟨?_, hother⟩
  obtain ⟨size, hsize, -⟩ := h.getElem? ht kind
  cases kind <;>
    simp [together, addSizes, List.getElem?_zipWith, hsize, hother]

/-- The fixed sizes of the required length are what the first two passes find. -/
theorem fixed_eq (h : Passed tracks items length pass) {cs : List Contribution}
    (hcs : Returns (contributions tracks items) cs) :
    cs.map Contribution.fixed = addSizes (pass .absolute) (pass .content) := by
  obtain ⟨absolute, content, ha, hc, hfixed⟩ := passes_of_contributions (Returns.mapM_iff.mp hcs)
  have hcontent : Returns (contentSizes tracks items) content := Returns.mapM_iff.mpr hc
  have habsolute := Except.ok.inj (ha.symm.trans h.absolute)
  have hsame := Except.ok.inj (hcontent.symm.trans h.content)
  rw [hfixed, habsolute, hsame]

end Passed

/-- Tracks with a size of their own take no share, and all others do. -/
theorem share_eq_none_iff {share : Binary64} {t : Track} {index : Nat} {c : Contribution}
    (h : Returns (contribution share items t index) c) (hclean : t.Clean) {kind : Track.Kind}
    (hkind : t.isOf kind = true) :
    c.share = none ↔ kind = .absolute ∨ kind = .content := by
  have habsolute : t.isAbsolute = decide (.absolute = kind) := hclean.isOf_eq hkind .absolute
  have hcontent : t.isContent = decide (.content = kind) := hclean.isOf_eq hkind .content
  have hfill : t.isFill = decide (.fill = kind) := hclean.isOf_eq hkind .fill
  simp only [contribution, habsolute, hcontent, hfill, decide_eq_true_eq] at h
  cases kind with
  | absolute =>
    rw [if_pos rfl] at h
    obtain ⟨pixels, -, hc⟩ := Returns.bind_iff.mp h
    obtain rfl := Returns.pure_iff.mp hc
    simp
  | content =>
    rw [if_neg (by decide), if_pos rfl] at h
    obtain ⟨extent, -, hc⟩ := Returns.bind_iff.mp h
    obtain rfl := Returns.pure_iff.mp hc
    simp
  | fill =>
    rw [if_neg (by decide), if_neg (by decide), if_pos rfl] at h
    obtain rfl := Returns.pure_iff.mp h
    simp
  | relative =>
    rw [if_neg (by decide), if_neg (by decide), if_neg (by decide)] at h
    obtain rfl := Returns.pure_iff.mp h
    have hsome : t.fraction?.isSome = true := (Track.fraction?_isSome t).trans hkind
    simpa using Option.isSome_iff_ne_none.mp hsome

/-- What the required length counts for each track is what the passes of a line find for it, if the
track has a size of its own. -/
theorem Passed.counted {pass : Track.Kind → List Int} (h : Passed tracks items length pass)
    {cs : List Contribution} (hcs : Returns (contributions tracks items) cs) {i : Nat} {t : Track}
    (ht : tracks[i]? = some t) (hclean : t.Clean) {kind : Track.Kind} (hkind : t.isOf kind = true) :
    ∃ c, cs[i]? = some c ∧ (c.share = none ↔ kind = .absolute ∨ kind = .content) ∧
      (c.share = none → (pass kind)[i]? = some c.fixed) := by
  obtain ⟨hi, rfl⟩ := List.getElem?_eq_some_iff.mp ht
  have hall := Returns.mapM_iff.mp hcs
  have hi' : i < cs.length := by
    rw [← hall.length_eq, List.length_zipIdx]
    exact hi
  have hcontribution := List.Forall₂.get hall (by rwa [List.length_zipIdx]) hi'
  simp only [List.get_eq_getElem, List.getElem_zipIdx] at hcontribution
  have hshare := share_eq_none_iff hcontribution hclean hkind
  refine ⟨cs[i], List.getElem?_eq_getElem hi', hshare, fun hnone => ?_⟩
  have hfixed := congrArg (·[i]?) (h.fixed_eq hcs)
  simp only [List.getElem?_map, List.getElem?_eq_getElem hi', Option.map_some] at hfixed
  rw [hfixed]
  have hother := (h.size_eq ht hclean hkind).2
  obtain ⟨size, hsize, -⟩ := h.getElem? ht kind
  rcases hshare.mp hnone with rfl | rfl <;>
    simp [addSizes, List.getElem?_zipWith, hsize, hother]

/-- A line in which each track has the size that the one pass of its kind finds, and in which tracks
with a size of their own have the size that they count with when a length is required. -/
structure Distributed (tracks : List Track) (items : List (Item Id)) (length : Int) (line : Line)
    (pass : Track.Kind → List Int) : Prop where
  passed : Passed tracks items length pass
  size : ∀ (i : Nat) (t : Track) (kind : Track.Kind), tracks[i]? = some t → t.isOf kind = true →
    line.sizes[i]? = (pass kind)[i]? ∧ ∀ other ≠ kind, (pass other)[i]? = some 0
  counted : ∀ sizing length', Returns (required tracks items sizing) length' →
    ∃ cs room, Returns (contributions tracks items) cs ∧
      length' = room + (cs.map Contribution.fixed).sum ∧ 0 ≤ room ∧
      ∀ (i : Nat) (t : Track) (kind : Track.Kind), tracks[i]? = some t → t.isOf kind = true →
        ∃ c, cs[i]? = some c ∧ (c.share = none ↔ kind = .absolute ∨ kind = .content) ∧
          (c.share = none → line.sizes[i]? = some c.fixed)

/-- Lines of clean tracks are distributed. -/
theorem exists_distributed (hclean : ∀ t ∈ tracks, t.Clean) {origin : Int} {line : Line}
    (h : Returns (solve tracks origin length items) line) :
    ∃ pass, Distributed tracks items length line pass := by
  obtain ⟨pass, hpassed, rfl⟩ := solve_iff_passed.mp h
  have hsize {i : Nat} {t : Track} (ht : tracks[i]? = some t) {kind : Track.Kind}
      (hkind : t.isOf kind = true) :=
    hpassed.size_eq ht (hclean t (List.mem_of_getElem? ht)) hkind
  refine ⟨pass, hpassed, fun i t kind ht hkind => hsize ht hkind, fun sizing length' h' => ?_⟩
  obtain ⟨cs, room, hcs, hlength, hroom, -, -⟩ := required_parts h'
  refine ⟨cs, room, hcs, hlength, hroom, fun i t kind ht hkind => ?_⟩
  obtain ⟨c, hc, hshare, hcounted⟩ :=
    hpassed.counted hcs ht (hclean t (List.mem_of_getElem? ht)) hkind
  exact ⟨c, hc, hshare, fun hnone => (hsize ht hkind).1.trans (hcounted hnone)⟩

end Line
end TrackGrid
