import TrackGrid.Proofs.Line.Conservation
import TrackGrid.Proofs.Track.Clean

/-! Laying out clean tracks in a space that is not too long does not fail, provided that asking for
the extents does not. -/

namespace TrackGrid
namespace Line

variable {σ : Type} {tracks : List Track}

theorem exists_absoluteSizes (h : ∀ t ∈ tracks, t.Clean) :
    ∃ sizes, absoluteSizes tracks = .ok sizes := by
  refine exists_mapM_iff.mpr fun t ht => ?_
  cases ha : t.isAbsolute with
  | false => exact ⟨0, rfl⟩
  | true =>
    cases t with
    | sizing => cases ha
    | number x => exact Track.exists_pixels (h _ ht).1 ha

/-- The largest base of which fractions are taken here, in quanta. -/
private def widest : Nat := 2 ^ 52 * Binary64.unit

private theorem widest_representable : Binary64.Representable widest := by decide +kernel

private theorem exists_ofInt {base : Int} (hb : 0 ≤ base) (hle : base ≤ 2 ^ 52) :
    ∃ x, Binary64.ofInt base = .ok x := by
  obtain ⟨n, rfl⟩ := Int.eq_ofNat_of_zero_le hb
  have hn : n ≤ 2 ^ 52 := by exact_mod_cast hle
  exact Binary64.ofInt_truncate widest_representable (Nat.mul_le_mul_right _ hn)

private theorem exists_share {track : Track} {fraction x : Binary64} {room : Int}
    (hf : track.fraction? = some fraction) (hroom : 0 ≤ room) (hx : Binary64.ofInt room = .ok x) :
    ∃ size, share fraction room = .ok size := by
  obtain ⟨p, hp, rfl, -, hlt⟩ := Track.fraction?_eq_some hf
  obtain ⟨q, hq, rfl⟩ := Binary64.exists_finite_of_ofInt hroom hx
  rw [share_eq hx]
  exact Binary64.exists_roundHalfUp_mul hp hq hlt

theorem exists_relativeSizes {room : Int} {x : Binary64} (hroom : 0 ≤ room)
    (hx : Binary64.ofInt room = .ok x) (tracks : List Track) :
    ∃ relative, relativeSizes room tracks = .ok relative := by
  refine exists_mapM_iff.mpr fun track _ => ?_
  cases hf : track.fraction? with
  | none => exact ⟨0, rfl⟩
  | some fraction => exact exists_share hf hroom hx

section
variable {P : σ → Prop} {items : List (Item (StateM σ))}
  (hkeeps : ∀ item ∈ items, ∀ kind, Holds P (item.extent kind) fun _ => True)
  (hitems : ∀ item ∈ items, ∀ kind, Finishes P (item.extent kind))
include hkeeps hitems

private theorem largestExtent_finishes (kind : Sizing) (index : Int) :
    Finishes P (largestExtent kind index items) := by
  refine Finishes.foldlM _ (fun best item hitem => ?_) (fun best item hitem => ?_) 0
  · exact (hkeeps item (List.mem_filter.mp hitem).1 kind).bind fun _ _ => .pure trivial
  · have hmem := (List.mem_filter.mp hitem).1
    exact (hitems item hmem kind).bind (hkeeps item hmem kind) fun _ _ => .pure _

private theorem contentSizes_finishes (tracks : List Track) :
    Finishes P (contentSizes tracks items) := by
  refine Finishes.mapM _ (fun p _ => ?_) fun p _ => ?_
  · change Holds P (if p.1.isContent = true then contentExtent p.1 p.2 items else pure 0) _
    split
    · exact (contentExtent_nonneg hkeeps p.1 p.2).mono fun _ _ => trivial
    · exact .pure trivial
  · change Finishes P (if p.1.isContent = true then contentExtent p.1 p.2 items else pure 0)
    split
    · rename_i hc
      rcases p with ⟨_ | _, index⟩
      · exact largestExtent_finishes hkeeps hitems _ index
      · cases hc
    · exact .pure 0

theorem solve_finishes (htracks : ∀ t ∈ tracks, t.Clean) (origin : Int) {length : Int}
    (hlength : length ≤ 2 ^ 52) : Finishes P (solve tracks origin length items) := by
  refine Finishes.bind (.calculate (exists_absoluteSizes htracks))
    (Holds.calculate fun absolute ha => absoluteSizes_only ha) fun absolute ha => ?_
  refine Finishes.bind (contentSizes_finishes hkeeps hitems tracks)
    (contentSizes_only hkeeps tracks) fun content hc => ?_
  have habsolute := List.sum_nonneg ha.nonneg
  have hcontent := List.sum_nonneg hc.nonneg
  have hbase : max (length - total absolute - total content) 0 ≤ 2 ^ 52 := by
    rw [total_eq_sum, total_eq_sum]
    omega
  obtain ⟨x, hx⟩ := exists_ofInt (le_max_right _ _) hbase
  exact Finishes.bind (Q := fun _ => True)
    (.calculate (exists_relativeSizes (le_max_right _ _) hx tracks))
    (Holds.calculate fun _ _ => trivial) fun _ _ => .pure _

end
end Line
end TrackGrid
