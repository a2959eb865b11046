import Mathlib.Algebra.Order.BigOperators.Group.List
import Mathlib.Algebra.Order.Ring.Int
import Mathlib.Data.List.Forall2
import TrackGrid.Line
import TrackGrid.Proofs.Track

/-! Sizes of tracks and the edges between them, which are running sums of the sizes. -/

namespace TrackGrid
namespace Line

private theorem edges_eq_scanl (origin : Int) (sizes : List Int) :
    edges origin sizes = sizes.scanl (· + ·) origin := by
  induction sizes generalizing origin with
  | nil => rfl
  | cons size rest ih => rw [edges, ih, List.scanl_cons]

private theorem foldl_add_eq (origin : Int) (sizes : List Int) :
    sizes.foldl (· + ·) origin = origin + sizes.sum := by
  induction sizes generalizing origin with
  | nil => simp
  | cons size rest ih => rw [List.foldl_cons, ih, List.sum_cons, Int.add_assoc]

@[simp] theorem length_edges (origin : Int) (sizes : List Int) :
    (edges origin sizes).length = sizes.length + 1 := by
  rw [edges_eq_scanl, List.length_scanl]

/-- An edge is the origin and the sizes in front of it. -/
theorem getElem?_edges {origin : Int} {sizes : List Int} {i : Nat} (hi : i ≤ sizes.length) :
    (edges origin sizes)[i]? = some (origin + (sizes.take i).sum) := by
  rw [edges_eq_scanl, List.getElem?_scanl, if_pos hi, foldl_add_eq]

theorem exists_edge {origin size : Int} {sizes : List Int} {i : Nat} (h : sizes[i]? = some size) :
    ∃ edge, (edges origin sizes)[i]? = some edge ∧
      (edges origin sizes)[i + 1]? = some (edge + size) := by
  obtain ⟨hi, -⟩ := List.getElem?_eq_some_iff.mp h
  refine ⟨_, getElem?_edges hi.le, ?_⟩
  rw [getElem?_edges hi, List.take_add_one, h, List.sum_append, Option.toList_some,
    List.sum_singleton, Int.add_assoc]

theorem sum_take_le {sizes : List Int} (h : ∀ size ∈ sizes, 0 ≤ size) {i j : Nat} (hij : i ≤ j) :
    (sizes.take i).sum ≤ (sizes.take j).sum := by
  obtain ⟨k, rfl⟩ := Nat.exists_eq_add_of_le hij
  rw [List.take_add, List.sum_append]
  have : 0 ≤ ((sizes.drop i).take k).sum :=
    List.sum_nonneg fun size hs => h size (List.mem_of_mem_drop (List.mem_of_mem_take hs))
  omega

theorem pairwise_edges (origin : Int) {sizes : List Int} (h : ∀ size ∈ sizes, 0 ≤ size) :
    (edges origin sizes).Pairwise (· ≤ ·) := by
  rw [List.pairwise_iff_getElem]
  intro i j hi hj hij
  rw [length_edges] at hi hj
  have hedge (k : Nat) (hk : k < (edges origin sizes).length) :
      (edges origin sizes)[k] = origin + (sizes.take k).sum := by
    rw [List.getElem_eq_iff, getElem?_edges (by rw [length_edges] at hk; omega)]
  rw [hedge, hedge]
  have := sum_take_le h hij.le
  omega

@[simp] theorem origin_ofSizes (origin : Int) (sizes : List Int) :
    (ofSizes origin sizes).origin = origin := by
  cases sizes <;> rfl

theorem length_ofSizes (origin : Int) (sizes : List Int) :
    (ofSizes origin sizes).length = sizes.sum := by
  have hlast : (edges origin sizes).getLastD 0 = origin + sizes.sum := by
    rw [← foldl_add_eq, edges_eq_scanl, List.getLastD_eq_getLast?, List.getLast?_scanl,
      Option.getD_some]
  rw [length, origin_ofSizes, ofSizes, hlast]
  omega

theorem total_eq_sum (sizes : List Int) : total sizes = sizes.sum := rfl

theorem sum_addSizes {xs ys : List Int} (h : xs.length = ys.length) :
    (addSizes xs ys).sum = xs.sum + ys.sum := by
  induction xs generalizing ys with
  | nil => cases ys <;> simp_all [addSizes]
  | cons x xs ih =>
    cases ys with
    | nil => simp at h
    | cons y ys =>
      have := ih (Nat.succ.inj h)
      simp only [addSizes, List.zipWith_cons_cons, List.sum_cons] at this ⊢
      omega

/-- Sizes of tracks that are not below zero, and zero for tracks that are not of the kind. -/
def Only (kind : Track → Bool) : List Track → List Int → Prop :=
  List.Forall₂ fun track size => 0 ≤ size ∧ (kind track = false → size = 0)

def sizesOf (kind : Track → Bool) (tracks : List Track) (sizes : List Int) : List Int :=
  ((tracks.zip sizes).filter fun p => kind p.1).map Prod.snd

/-- What holds of tracks with their places, but does not depend on the places. -/
theorem forall₂_zipIdx_iff {R : Track → Int → Prop} {tracks : List Track} {sizes : List Int} :
    List.Forall₂ (fun p size => R p.1 size) tracks.zipIdx sizes ↔
      List.Forall₂ R tracks sizes := by
  have h := List.forall₂_map_left_iff (f := Prod.fst) (R := R) (l := tracks.zipIdx) (u := sizes)
  rw [List.zipIdx_map_fst] at h
  exact h.symm

variable {kind : Track → Bool} {tracks : List Track} {xs ys : List Int}

theorem Only.length_eq (h : Only kind tracks xs) : xs.length = tracks.length :=
  (List.Forall₂.length_eq h).symm

theorem Only.nonneg (h : Only kind tracks xs) : ∀ x ∈ xs, 0 ≤ x := by
  induction h with
  | nil => simp
  | cons hx _ ih => simpa using ⟨hx.1, ih⟩

theorem Only.mono {other : Track → Bool} (h : Only kind tracks xs)
    (hk : ∀ track, kind track = true → other track = true) : Only other tracks xs := by
  refine List.Forall₂.imp (fun track size hs => ⟨hs.1, fun ho => hs.2 ?_⟩) h
  by_contra hne
  rw [hk track (by simpa using hne)] at ho
  cases ho

theorem Only.add (hx : Only kind tracks xs) (hy : Only kind tracks ys) :
    Only kind tracks (addSizes xs ys) := by
  induction hx generalizing ys with
  | nil => cases hy; exact .nil
  | cons hx _ ih =>
    cases hy with
    | cons hy hys =>
      refine .cons ⟨Int.add_nonneg hx.1 hy.1, fun hk => ?_⟩ (ih hys)
      simp [hx.2 hk, hy.2 hk]

theorem Only.sizesOf_addSizes (hx : Only (fun t => !kind t) tracks xs)
    (hy : ys.length = tracks.length) :
    sizesOf kind tracks (addSizes xs ys) = sizesOf kind tracks ys := by
  induction hx generalizing ys with
  | nil => cases ys <;> simp_all [addSizes, sizesOf]
  | @cons track x tracks xs hx hxs ih =>
    cases ys with
    | nil => simp at hy
    | cons y ys =>
      have htail := ih (Nat.succ.inj hy)
      cases hk : kind track with
      | false => simpa [sizesOf, addSizes, hk] using htail
      | true =>
        have hzero : x = 0 := hx.2 (by simp [hk])
        simpa [sizesOf, addSizes, hk, hzero] using htail

theorem Only.sum_sizesOf (h : Only kind tracks xs) : (sizesOf kind tracks xs).sum = xs.sum := by
  induction h with
  | nil => rfl
  | @cons track x tracks xs hx hxs ih =>
    cases hk : kind track with
    | false => simpa [sizesOf, hk, hx.2 hk] using ih
    | true => simpa [sizesOf, hk] using ih

theorem Only.getElem?_eq_zero (h : Only kind tracks xs) {i : Nat} {track : Track}
    (htrack : tracks[i]? = some track) (hother : kind track = false) : xs[i]? = some 0 := by
  obtain ⟨hi, rfl⟩ := List.getElem?_eq_some_iff.mp htrack
  have hi' : i < xs.length := h.length_eq ▸ hi
  have hsize : xs[i] = 0 := (List.Forall₂.get h hi hi').2 hother
  rw [List.getElem?_eq_getElem hi', hsize]

/-- The sizes of the other tracks do not matter. -/
theorem sizesOf_congr (hx : xs.length = tracks.length) (hy : ys.length = tracks.length)
    (h : ∀ (i : Nat) t, tracks[i]? = some t → kind t = true → xs[i]? = ys[i]?) :
    sizesOf kind tracks xs = sizesOf kind tracks ys := by
  induction tracks generalizing xs ys with
  | nil => rfl
  | cons track tracks ih =>
    obtain ⟨x, xs, rfl⟩ := List.exists_cons_of_length_eq_add_one hx
    obtain ⟨y, ys, rfl⟩ := List.exists_cons_of_length_eq_add_one hy
    have htail := ih (Nat.succ.inj hx) (Nat.succ.inj hy) fun i => h (i + 1)
    cases hk : kind track with
    | false => simpa [sizesOf, hk] using htail
    | true =>
      obtain rfl := Option.some.inj (h 0 track rfl hk)
      simpa [sizesOf, hk] using htail

theorem sizesOf_eq_nil (h : ∀ t ∈ tracks, kind t = false) (xs : List Int) :
    sizesOf kind tracks xs = [] := by
  simp only [sizesOf, List.map_eq_nil_iff, List.filter_eq_nil_iff]
  intro p hp
  simp [h p.1 (List.of_mem_zip hp).1]

theorem sum_sizesOf_add (kind : Track → Bool) (h : xs.length = tracks.length) :
    (sizesOf kind tracks xs).sum + (sizesOf (fun t => !kind t) tracks xs).sum = xs.sum := by
  induction tracks generalizing xs with
  | nil => cases xs <;> simp_all [sizesOf]
  | cons track tracks ih =>
    cases xs with
    | nil => simp at h
    | cons x xs =>
      have := ih (Nat.succ.inj h)
      simp only [sizesOf] at this
      cases hk : kind track <;>
        simp only [sizesOf, List.zip_cons_cons, List.filter_cons, hk, Bool.not_true, Bool.not_false,
          Bool.false_eq_true, if_true, if_false, List.map_cons, List.sum_cons] <;>
        omega

end Line
end TrackGrid
