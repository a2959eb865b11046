import TrackGrid.Proofs.Effect
import TrackGrid.Proofs.Line.Sizes

/-! Laying out a line neither loses nor creates pixels. -/

namespace TrackGrid
namespace Line

variable {σ : Type} {tracks : List Track} {xs : List Int}

theorem absoluteSizes_only (h : absoluteSizes tracks = .ok xs) :
    Only Track.isAbsolute tracks xs := by
  refine List.Forall₂.imp (fun track size hs => ?_) (mapM_eq_ok_iff.mp h)
  cases ha : track.isAbsolute with
  | true =>
    rw [ha, if_pos rfl] at hs
    exact ⟨Track.pixels_nonneg ha hs, fun hf => nomatch hf⟩
  | false =>
    rw [ha, if_neg (by simp)] at hs
    cases hs
    exact ⟨le_rfl, fun _ => rfl⟩

theorem share_eq {fraction x : Binary64} {base : Int} (hx : Binary64.ofInt base = .ok x) :
    share fraction base = (fraction * x).roundHalfUp := by
  simp only [share, hx, bind, Except.bind]

private theorem share_nonneg {track : Track} {fraction : Binary64} {base size : Int}
    (hf : track.fraction? = some fraction) (hb : 0 ≤ base) (h : share fraction base = .ok size) :
    0 ≤ size := by
  obtain ⟨p, hp, rfl, -, -⟩ := Track.fraction?_eq_some hf
  cases hx : Binary64.ofInt base with
  | error => simp [share, hx, bind, Except.bind] at h
  | ok x =>
    obtain ⟨q, hq, rfl⟩ := Binary64.exists_finite_of_ofInt hb hx
    rw [share_eq hx, Binary64.mul_finite] at h
    exact Binary64.roundHalfUp_nonneg (Binary64.ofQuotient_nonneg _ _) h

theorem relativeSizes_only {base : Int} (hb : 0 ≤ base) (h : relativeSizes base tracks = .ok xs) :
    Only (fun t => t.fraction?.isSome) tracks xs := by
  refine List.Forall₂.imp (fun track size hs => ?_) (mapM_eq_ok_iff.mp h)
  cases hf : track.fraction? with
  | none =>
    rw [hf] at hs
    cases hs
    exact ⟨le_rfl, fun _ => rfl⟩
  | some fraction =>
    rw [hf] at hs
    exact ⟨share_nonneg hf hb hs, fun hn => by simp [hf] at hn⟩

section
variable {P : σ → Prop} {items : List (Item (StateM σ))}
  (hitems : ∀ item ∈ items, ∀ kind, Holds P (item.extent kind) fun _ => True)
include hitems

private theorem largestExtent_nonneg (kind : Sizing) (index : Int) :
    Holds P (largestExtent kind index items) (0 ≤ ·) := by
  refine Holds.foldlM _ (fun best hbest item hitem => ?_) le_rfl
  refine (hitems item (List.mem_filter.mp hitem).1 kind).bind fun extent _ => ?_
  exact .pure (le_max_of_le_left hbest)

theorem contentExtent_nonneg (track : Track) (index : Int) :
    Holds P (contentExtent track index items) (0 ≤ ·) := by
  cases track with
  | sizing kind => exact largestExtent_nonneg hitems kind index
  | number => exact .throw _

theorem contentSizes_only (tracks : List Track) :
    Holds P (contentSizes tracks items) (Only Track.isContent tracks) := by
  refine Holds.mono (Holds.mapM (T := fun p size => 0 ≤ size ∧ (p.1.isContent = false → size = 0))
    _ fun p _ => ?_) fun _ hsizes => forall₂_zipIdx_iff.mp hsizes
  change Holds _ (if p.1.isContent = true then contentExtent p.1 p.2 items else pure 0) _
  split
  · rename_i hc
    exact (contentExtent_nonneg hitems p.1 p.2).mono fun size hs =>
      ⟨hs, fun hf => by simp [hc] at hf⟩
  · exact .pure ⟨le_rfl, fun _ => rfl⟩

end

private theorem dealFill_only {part remainder : Int} (hp : 0 ≤ part) (hr : 0 ≤ remainder)
    (tracks : List Track) : Only Track.isFill tracks (dealFill part remainder tracks) := by
  induction tracks with
  | nil => exact .nil
  | cons track rest ih =>
    refine .cons ⟨?_, fun hf => by simp [hf]⟩ ih
    split
    · split <;> omega
    · exact le_rfl

/-- All fill tracks receive the same part, and the last one the remainder too. -/
theorem sizesOf_dealFill (part remainder : Int) {tracks : List Track}
    (h : tracks.any Track.isFill = true) :
    sizesOf Track.isFill tracks (dealFill part remainder tracks) =
      List.replicate (tracks.countP Track.isFill - 1) part ++ [part + remainder] := by
  induction tracks with
  | nil => cases h
  | cons track rest ih =>
    cases hrest : rest.any Track.isFill with
    | true =>
      have htail := ih hrest
      have hpos : 0 < rest.countP Track.isFill := by
        rw [List.countP_pos_iff]
        simpa using hrest
      cases ht : track.isFill with
      | false => simpa [sizesOf, dealFill, ht] using htail
      | true =>
        rw [List.countP_cons_of_pos ht, Nat.add_sub_cancel]
        rw [← Nat.sub_add_cancel hpos, List.replicate_succ, List.cons_append, ← htail]
        simp [sizesOf, dealFill, ht, hrest]
    | false =>
      have ht : track.isFill = true := by simpa [hrest] using h
      have hnone : ∀ t ∈ rest, t.isFill = false := by simpa using hrest
      have hzero : rest.countP Track.isFill = 0 := by
        rw [List.countP_eq_zero]
        simpa using hnone
      have hempty := sizesOf_eq_nil hnone (dealFill part remainder rest)
      rw [List.countP_cons_of_pos ht, hzero]
      simpa [sizesOf, dealFill, ht, hrest] using hempty

theorem fillSizes_only {rest : Int} (h : 0 ≤ rest) (tracks : List Track) :
    Only Track.isFill tracks (fillSizes rest tracks) := by
  refine dealFill_only (Int.ediv_nonneg h (Int.natCast_nonneg _)) ?_ tracks
  rcases Nat.eq_zero_or_pos (tracks.countP Track.isFill) with h0 | hpos
  · rw [h0, Int.natCast_zero, Int.emod_zero]
    exact h
  · exact Int.emod_nonneg _ (by omega)

/-- The fill tracks share all of what is left over. -/
theorem sum_fillSizes {rest : Int} (hr : 0 ≤ rest) (h : tracks.any Track.isFill = true) :
    (fillSizes rest tracks).sum = rest := by
  have hpos : 0 < tracks.countP Track.isFill := by
    rw [List.countP_pos_iff]
    simpa using h
  rw [← (fillSizes_only hr tracks).sum_sizesOf, fillSizes, sizesOf_dealFill _ _ h, List.sum_append,
    List.sum_replicate_int, List.sum_singleton, Int.natCast_sub hpos, Int.sub_mul]
  have := Int.mul_ediv_add_emod rest (tracks.countP Track.isFill)
  omega

private theorem Only.not_isFill {kind : Track → Bool} (h : Only kind tracks xs)
    (hk : kind .fill = false) : Only (fun t => !t.isFill) tracks xs := by
  refine h.mono fun track ht => ?_
  cases hf : track.isFill with
  | false => rfl
  | true =>
    rw [Track.isFill_iff.mp hf, hk] at ht
    cases ht

/-- The sizes that the passes in front of the last one give, which leave the fill tracks out. -/
structure Passes (tracks : List Track) where
  before : List Int
  relative : List Int
  before_only : Only (fun t => !t.isFill) tracks before
  relative_only : Only (fun t => !t.isFill) tracks relative

namespace Passes

variable (p : Passes tracks) (length : Int)

def rest : Int := max (length - p.before.sum - p.relative.sum) 0

def sizes : List Int := addSizes p.before (addSizes p.relative (fillSizes (p.rest length) tracks))

private theorem rest_nonneg : 0 ≤ p.rest length := le_max_right _ _

private theorem fill_only : Only Track.isFill tracks (fillSizes (p.rest length) tracks) :=
  fillSizes_only (p.rest_nonneg length) tracks

private theorem length_relative_fill :
    (addSizes p.relative (fillSizes (p.rest length) tracks)).length = tracks.length := by
  simp [addSizes, p.relative_only.length_eq, (p.fill_only length).length_eq]

theorem sizes_only : Only (fun _ => true) tracks (p.sizes length) := by
  have hall {kind : Track → Bool} {xs : List Int} (h : Only kind tracks xs) :
      Only (fun _ => true) tracks xs := h.mono fun _ _ => rfl
  exact (hall p.before_only).add ((hall p.relative_only).add (hall (p.fill_only length)))

theorem sizesOf_isFill : sizesOf Track.isFill tracks (p.sizes length) =
    sizesOf Track.isFill tracks (fillSizes (p.rest length) tracks) := by
  rw [sizes, p.before_only.sizesOf_addSizes (p.length_relative_fill length),
    p.relative_only.sizesOf_addSizes (p.fill_only length).length_eq]

private theorem sum_sizes : (p.sizes length).sum =
    p.before.sum + p.relative.sum + (fillSizes (p.rest length) tracks).sum := by
  rw [sizes, sum_addSizes (p.before_only.length_eq.trans (p.length_relative_fill length).symm),
    sum_addSizes (p.relative_only.length_eq.trans (p.fill_only length).length_eq.symm),
    Int.add_assoc]

private theorem sum_others : (sizesOf (fun t => !t.isFill) tracks (p.sizes length)).sum =
    p.before.sum + p.relative.sum := by
  have hsplit := sum_sizesOf_add Track.isFill (p.sizes_only length).length_eq
  rw [p.sizesOf_isFill, (p.fill_only length).sum_sizesOf, p.sum_sizes] at hsplit
  omega

end Passes

/-- Laying out a line keeps what asking for the extents keeps. -/
theorem solve_passes {P : σ → Prop} {items : List (Item (StateM σ))}
    (hitems : ∀ item ∈ items, ∀ kind, Holds P (item.extent kind) fun _ => True)
    (tracks : List Track) (origin length : Int) :
    Holds P (solve tracks origin length items) fun line =>
      ∃ p : Passes tracks, line = ofSizes origin (p.sizes length) := by
  refine Holds.bind (Holds.calculate fun absolute ha => absoluteSizes_only ha) fun absolute ha => ?_
  refine Holds.bind (contentSizes_only hitems tracks) fun content hc => ?_
  refine Holds.bind (Holds.calculate fun relative hr => relativeSizes_only (le_max_right _ _) hr)
    fun relative hr => ?_
  have hbefore := (ha.not_isFill rfl).add (hc.not_isFill rfl)
  have hlength : absolute.length = content.length := ha.length_eq.trans hc.length_eq.symm
  refine .pure ⟨⟨_, relative, hbefore, hr.not_isFill rfl⟩, ?_⟩
  simp only [Passes.sizes, Passes.rest, total_eq_sum, sum_addSizes hlength, Int.sub_sub]

/-- Laying out a line conserves its length. There is one size for each track, none below zero; the
edges follow each other from the origin in steps of the sizes; and if there is a fill track, the
sizes add up to the length or to the other tracks, whichever is more, where all fill tracks are
equal but the last one, which is longer by less than their number. -/
theorem solve_conserves {tracks : List Track} {origin length : Int}
    {items : List (Item (StateM σ))} {s t : σ} {line : Line}
    (h : (solve tracks origin length items).run.run s = (.ok line, t)) :
    line.sizes.length = tracks.length ∧ (∀ size ∈ line.sizes, 0 ≤ size) ∧
    line.offsets.length = line.sizes.length + 1 ∧ line.origin = origin ∧
    (∀ i size, line.sizes[i]? = some size →
      ∃ edge, line.offsets[i]? = some edge ∧ line.offsets[i + 1]? = some (edge + size)) ∧
    line.offsets.Pairwise (· ≤ ·) ∧ line.length = line.sizes.sum ∧
    (tracks.any Track.isFill = true →
      line.sizes.sum = max length (sizesOf (fun t => !t.isFill) tracks line.sizes).sum ∧
      ∃ part extra : Int, 0 ≤ extra ∧ extra < tracks.countP Track.isFill ∧
        sizesOf Track.isFill tracks line.sizes =
          List.replicate (tracks.countP Track.isFill - 1) part ++ [part + extra]) := by
  obtain ⟨p, rfl⟩ := (solve_passes (fun _ _ _ => Holds.always) tracks origin length s trivial).2
    line (by rw [h])
  have hnonneg := (p.sizes_only length).nonneg
  refine ⟨(p.sizes_only length).length_eq, hnonneg, length_edges _ _, origin_ofSizes _ _,
    fun i size hsize => exists_edge hsize, pairwise_edges _ hnonneg, length_ofSizes _ _,
    fun hfill => ⟨?_, ?_⟩⟩
  · change (p.sizes length).sum = max length (sizesOf _ tracks (p.sizes length)).sum
    rw [p.sum_others, p.sum_sizes, sum_fillSizes (p.rest_nonneg length) hfill, Passes.rest]
    omega
  · have hpos : 0 < tracks.countP Track.isFill := by
      rw [List.countP_pos_iff]
      simpa using hfill
    refine ⟨p.rest length / tracks.countP Track.isFill, p.rest length % tracks.countP Track.isFill,
      Int.emod_nonneg _ (by omega), Int.emod_lt_of_pos _ (by omega), ?_⟩
    exact (p.sizesOf_isFill length).trans (sizesOf_dealFill _ _ hfill)

private def fiveTracks : List Track :=
  [.number (.int 10), .sizing .preferred, .number (.float .half), .fill, .fill]

theorem fiveTracks_conserve :
    sizesOf Track.isFill fiveTracks [10, 7, 17, 8, 9] = [8, 9] ∧
    ([10, 7, 17, 8, 9] : List Int).sum =
      max 51 (sizesOf (fun t => !t.isFill) fiveTracks [10, 7, 17, 8, 9]).sum := by
  have hrun : (solve fiveTracks 3 51
      [(⟨.one 1, true, fun _ => pure 7⟩ : Item (StateM Unit))]).run.run () =
        (.ok ⟨[10, 7, 17, 8, 9], [3, 13, 20, 37, 45, 54]⟩, ()) := by
    change @Eq (Except Fault Line × Unit) _ _
    decide +kernel
  obtain ⟨-, -, -, -, -, -, -, hfill⟩ := solve_conserves hrun
  exact ⟨by decide, (hfill (by decide)).1⟩

end Line
end TrackGrid
