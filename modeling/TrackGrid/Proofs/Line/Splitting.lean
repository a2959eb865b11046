import TrackGrid.Proofs.Line.Shares
import TrackGrid.Proofs.Number.Summation

/-! By which share a need in fill tracks is scaled up. Whether relative tracks take everything is
told by the computed sum of their fractions. -/

namespace TrackGrid
namespace Line

variable {tracks : List Track} {i : Interval}

def fractions (tracks : List Track) : List Binary64 := tracks.filterMap Track.fraction?

def exactSum (tracks : List Track) : Nat := ((fractions tracks).map Binary64.magnitude).sum

/-- The sum of the fractions as it is computed, in quanta. -/
def computedSum (tracks : List Track) : Nat := (sumShares (fractions tracks)).magnitude

private theorem fractions_proper {x : Binary64} (h : x ∈ fractions tracks) :
    ∃ q hr, x = .finite false q hr ∧ 0 < q ∧ q < Binary64.unit := by
  obtain ⟨t, -, ht⟩ := List.mem_filterMap.mp h
  exact Track.fraction?_eq_some ht

private theorem fractions_share {x : Binary64} (h : x ∈ fractions tracks) : x.Share := by
  obtain ⟨q, hr, rfl, -, hlt⟩ := fractions_proper h
  exact ⟨rfl, hlt.le⟩

/-- The sum of shares is a finite number that none of them exceeds. -/
theorem sumShares_eq {xs : List Binary64} (h : ∀ x ∈ xs, x.Share) :
    ∃ hr, sumShares xs = .finite false (Binary64.addUp 0 (xs.map Binary64.magnitude)) hr := by
  rw [sumShares, Binary64.zero_eq]
  exact Binary64.foldl_add_shares _ (Nat.zero_le _) h

theorem magnitude_le_sumShares {xs : List Binary64} (h : ∀ x ∈ xs, x.Share) {x : Binary64}
    (hx : x ∈ xs) : x.magnitude ≤ (sumShares xs).magnitude := by
  obtain ⟨hr, heq⟩ := sumShares_eq h
  rw [heq]
  refine Binary64.le_addUp (by decide +kernel) (Nat.zero_le _) (fun q hq => ?_)
    (List.mem_map_of_mem hx)
  obtain ⟨y, hy, rfl⟩ := List.mem_map.mp hq
  obtain ⟨q, hr, rfl, hle⟩ := (h y hy).eq_finite
  exact ⟨hr, hle⟩

private theorem sumShares_fractions (tracks : List Track) :
    ∃ hr, sumShares (fractions tracks) = .finite false (computedSum tracks) hr := by
  obtain ⟨hr, heq⟩ := sumShares_eq fun _ => fractions_share
  have hsum : computedSum tracks =
      Binary64.addUp 0 ((fractions tracks).map Binary64.magnitude) := by
    rw [computedSum, heq]
    rfl
  rw [hsum]
  exact ⟨hr, heq⟩

/-- Fractions that add up to one are computed to do so if there are at most three of them, or if they
exceed one by half a step of the numbers below it for each of them but three. -/
theorem unit_le_computedSum
    (h : Binary64.unit + ((fractions tracks).length - 3) * Binary64.slack ≤ exactSum tracks) :
    Binary64.unit ≤ computedSum tracks := by
  obtain ⟨hr, heq⟩ := sumShares_eq fun _ => fractions_share
  rw [computedSum, heq]
  refine Binary64.unit_le_addUp (fun q hq => ?_) (by rwa [List.length_map])
  obtain ⟨x, hx, rfl⟩ := List.mem_map.mp hq
  obtain ⟨q, hr, rfl, -, hlt⟩ := fractions_proper hx
  exact ⟨hr, hlt⟩

private theorem fillShare_eq (tracks : List Track) :
    fillShare tracks = Binary64.ofQuotient false (Binary64.unit - computedSum tracks) 1 /
      Binary64.ofRatio (tracks.countP Track.isFill) 1 := by
  obtain ⟨hr, heq⟩ := sumShares_fractions tracks
  have hleft := Binary64.one_sub_clamped hr
  rw [← heq] at hleft
  rw [← hleft]
  rfl

/-- Fill tracks receive a share that is nothing if the fractions are computed to take everything, and
more than nothing otherwise. -/
theorem fillShare_cases (hfill : 0 < tracks.countP Track.isFill) :
    (fillShare tracks).Share ∧
      (Binary64.unit ≤ computedSum tracks → fillShare tracks = .zero) ∧
      (computedSum tracks < Binary64.unit → tracks.length ≤ largestIndex →
        Binary64.leastPart ≤ (fillShare tracks).magnitude) := by
  have hunit : Binary64.Representable Binary64.unit := by decide +kernel
  have hleft : Binary64.nearest (Binary64.unit - computedSum tracks) 1 ≤ Binary64.unit :=
    Binary64.nearest_le_of_representable Nat.one_pos hunit (by rw [Nat.one_mul]; exact Nat.sub_le _ _)
  obtain ⟨hr, heq⟩ := Binary64.ofQuotient_eq false (hleft.trans_lt hunit.2)
  rw [fillShare_eq, heq]
  obtain ⟨hshare, hzero, hpos⟩ := Binary64.share_div_count hr hleft hfill
  refine ⟨hshare, fun hfull => hzero ?_, fun hshort hfew => hpos ?_ ?_⟩
  · rw [Nat.sub_eq_zero_of_le hfull]
    decide +kernel
  · exact (List.countP_le_length).trans hfew
  · obtain ⟨hcomputed, -⟩ := sumShares_fractions tracks
    have hslack := Binary64.add_slack_lt_of_nearest_lt (Binary64.nearest_one hcomputed ▸ hshort)
    have hrepresentable : Binary64.Representable Binary64.slack := by decide +kernel
    exact Binary64.le_nearest_of_representable Nat.one_pos hrepresentable (by omega)

/-- All that the tracks of an interval take are shares. -/
theorem shares_share {x : Binary64} (h : x ∈ shares tracks i) : x.Share := by
  obtain ⟨t, ht, htake⟩ := List.mem_filterMap.mp h
  rw [shareOf?] at htake
  split at htake
  · obtain rfl := Option.some.inj htake
    exact (fillShare_cases (List.countP_pos_iff.mpr ⟨t, i.mem_of_mem_slice ht, ‹_›⟩)).1
  · exact fractions_share (List.mem_filterMap.mpr ⟨t, i.mem_of_mem_slice ht, htake⟩)

/-- A need is scaled up by the sum of the shares as soon as one of them is more than nothing. -/
theorem scale_of_pos {x : Binary64} (hx : x ∈ shares tracks i) (hpos : 0 < x.magnitude) :
    scale tracks i = sumShares (shares tracks i) := by
  have hsum := magnitude_le_sumShares (fun _ => shares_share) hx
  obtain ⟨hr, heq⟩ := sumShares_eq fun _ => shares_share
  rw [scale]
  rw [heq] at hsum ⊢
  have hne : Binary64.addUp 0 ((shares tracks i).map Binary64.magnitude) ≠ 0 :=
    (hpos.trans_le hsum).ne'
  rw [Number.le_zero_finite, decide_eq_false hne]
  rfl

private theorem shares_fill (h : ∀ t ∈ i.slice tracks, t.isRelative = false) :
    shares tracks i =
      List.replicate ((i.slice tracks).countP Track.isFill) (fillShare tracks) := by
  rw [shares]
  generalize fillShare tracks = share
  generalize i.slice tracks = ts at h
  induction ts with
  | nil => rfl
  | cons t ts ih =>
    obtain ⟨ht, hts⟩ := List.forall_mem_cons.mp h
    have hfraction : t.fraction? = none := by
      rw [← Option.not_isSome_iff_eq_none, Track.fraction?_isSome, ht]
      decide
    cases hfill : t.isFill with
    | true =>
      rw [List.filterMap_cons_some (by rw [shareOf?, hfill, if_pos rfl]), ih hts,
        List.countP_cons_of_pos hfill, List.replicate_succ]
    | false =>
      rw [List.filterMap_cons_none (by rw [shareOf?, hfill, if_neg (by decide), hfraction]),
        ih hts, List.countP_cons_of_neg (by simp [hfill])]

private theorem sumShares_zeros (n : Nat) : sumShares (List.replicate n .zero) = .zero := by
  have hadd : Binary64.zero + Binary64.zero = .zero := by decide +kernel
  induction n with
  | zero => rfl
  | succ n ih =>
    rw [List.replicate_succ, sumShares, List.foldl_cons, hadd]
    exact ih

/-- The needs of items that cover fill tracks and no relative one are scaled up by an equal part for
each track, if the fractions are computed to take everything. -/
theorem scale_of_full (hrelative : ∀ t ∈ i.slice tracks, t.isRelative = false)
    (hfill : 0 < (i.slice tracks).countP Track.isFill)
    (h : Binary64.unit ≤ computedSum tracks) :
    scale tracks i = Binary64.ofRatio ((i.slice tracks).countP Track.isFill)
      (tracks.countP Track.takesShare) := by
  have hsome : 0 < tracks.countP Track.isFill := hfill.trans_le (i.slice_sublist tracks).countP_le
  have hnothing : (Number.float (sumShares (List.replicate ((i.slice tracks).countP Track.isFill)
      Binary64.zero))).le (.int 0) = true := by
    rw [sumShares_zeros]
    decide +kernel
  rw [scale, shares_fill hrelative, (fillShare_cases hsome).2.1 h, if_pos hnothing,
    List.length_replicate]

/-- Otherwise they are scaled up by what their fill tracks receive, which is more than nothing. -/
theorem scale_of_short (hrelative : ∀ t ∈ i.slice tracks, t.isRelative = false)
    (hfill : 0 < (i.slice tracks).countP Track.isFill)
    (h : computedSum tracks < Binary64.unit) (hfew : tracks.length ≤ largestIndex) :
    0 < (fillShare tracks).magnitude ∧
      scale tracks i = sumShares
        (List.replicate ((i.slice tracks).countP Track.isFill) (fillShare tracks)) := by
  have hsome : 0 < tracks.countP Track.isFill := hfill.trans_le (i.slice_sublist tracks).countP_le
  obtain ⟨hshare, -, hpart⟩ := fillShare_cases hsome
  have hpos : 0 < (fillShare tracks).magnitude :=
    Nat.lt_of_lt_of_le (by decide +kernel) (hpart h hfew)
  refine ⟨hpos, ?_⟩
  have hmem : fillShare tracks ∈ shares tracks i := by
    rw [shares_fill hrelative]
    exact List.mem_replicate.mpr ⟨hfill.ne', rfl⟩
  rw [scale_of_pos hmem hpos, shares_fill hrelative]

/-- What the required length is scaled by. It is the fixed sizes and the largest of the needs of the
items inside of the tracks that cover a track with a share, each scaled up by the share of the tracks
that it covers. An item that covers fill tracks and no relative one is among them, and its share is an
equal part for each track if the fractions of the relative tracks are computed to add up to one, else
what its fill tracks receive, which is more than nothing. Fractions that add up to one are computed to
do so if there are at most three of them, or if they exceed one by half a step of the numbers below it
for each of them but three. -/
theorem required_splits {σ : Type} {kept : σ → Prop} {items : List (Item (StateM σ))}
    {extent : Item (StateM σ) → Sizing → Int}
    (hitems : ∀ item ∈ items, ∀ kind, Gives kept (item.extent kind) (.ok (extent item kind)))
    {tracks : List Track} {absolute : List Int} (ha : absoluteSizes tracks = .ok absolute)
    (kind : Sizing) :
    Gives kept (required tracks items kind) (do
      let needs ← (demanding tracks items).mapM fun item =>
        scaledBy (scale tracks item.tracks)
          (beyond (extent · kind) (fixedSizes extent absolute tracks items) item)
      return needs.foldl max 0 + (fixedSizes extent absolute tracks items).sum) ∧
    (∀ item ∈ items, item.inside tracks.length = true →
      (∀ t ∈ item.tracks.slice tracks, t.isRelative = false) →
      0 < (item.tracks.slice tracks).countP Track.isFill →
      item ∈ demanding tracks items ∧
      (Binary64.unit ≤ computedSum tracks →
        scale tracks item.tracks =
          Binary64.ofRatio ((item.tracks.slice tracks).countP Track.isFill)
            (tracks.countP Track.takesShare)) ∧
      (computedSum tracks < Binary64.unit → tracks.length ≤ largestIndex →
        0 < (fillShare tracks).magnitude ∧
        scale tracks item.tracks = sumShares
          (List.replicate ((item.tracks.slice tracks).countP Track.isFill) (fillShare tracks)))) ∧
    (Binary64.unit + ((fractions tracks).length - 3) * Binary64.slack ≤ exactSum tracks →
      Binary64.unit ≤ computedSum tracks) := by
  refine ⟨requiredOf_eq ha extent items kind ▸ required_gives hitems tracks kind,
    fun item hitem hinside hrelative hfill => ⟨?_, scale_of_full hrelative hfill,
      scale_of_short hrelative hfill⟩, unit_le_computedSum⟩
  obtain ⟨t, ht, hfills⟩ := List.countP_pos_iff.mp hfill
  refine List.mem_filter.mpr ⟨List.mem_filter.mpr ⟨hitem, hinside⟩, ?_⟩
  exact List.any_eq_true.mpr ⟨t, ht, by rw [Track.takesShare, hfills, Bool.or_true]⟩

private def halvedTracks : List Track :=
  [.number (.float .half), .number (.float .half), .fill]

private def thirdItem : Item (StateM Unit) := ⟨.one 2, true, fun _ => pure 7⟩

/-- Two halves leave nothing for the fill track, so its item is scaled by a third. -/
theorem halvedTracks_split :
    Gives (fun _ => True) (required halvedTracks [thirdItem] .preferred) (.ok 21) := by
  have hextent : ∀ item ∈ [thirdItem], ∀ kind,
      Gives (fun _ => True) (item.extent kind) (.ok 7) := by
    intro item hitem kind
    obtain rfl := List.mem_singleton.mp hitem
    exact .pure 7
  have ha : absoluteSizes halvedTracks = .ok [0, 0, 0] := by decide +kernel
  obtain ⟨hlength, hscale, -⟩ := required_splits hextent ha .preferred
  obtain ⟨-, hsplit, -⟩ :=
    hscale thirdItem (List.mem_singleton_self _) (by decide) (by decide +kernel) (by decide)
  have hdemanding : demanding halvedTracks [thirdItem] = [thirdItem] := by
    rw [demanding, List.filter_cons_of_pos (by decide), List.filter_nil,
      List.filter_cons_of_pos (by decide +kernel), List.filter_nil]
  rw [hdemanding, List.mapM_cons, hsplit (by decide +kernel)] at hlength
  have hthird : scaledBy (Binary64.ofRatio ((thirdItem.tracks.slice halvedTracks).countP Track.isFill)
      (halvedTracks.countP Track.takesShare)) (beyond (fun _ => 7)
        (fixedSizes (fun _ _ => 7) [0, 0, 0] halvedTracks [thirdItem]) thirdItem) = .ok 21 := by
    decide +kernel
  rw [hthird] at hlength
  exact hlength

private def tenthTracks : List Track :=
  List.replicate 10 (.number (.float (Binary64.ofRatio 1 10))) ++ [.fill]

private def lastItem : Item Id := ⟨.one 10, true, fun _ => pure 40⟩

/-- Ten tenths add up to more than one, but are computed to less, and what seems to be left for the
fill track blows up the need of its item, of which an equal part would be 440. -/
theorem tenthTracks_blown_up :
    Binary64.unit ≤ exactSum tenthTracks ∧
    Returns (required tenthTracks [lastItem] .preferred) 360287970189639680 ∧
    scaledBy (Binary64.ofRatio ((lastItem.tracks.slice tenthTracks).countP Track.isFill)
      (tenthTracks.countP Track.takesShare)) 40 = .ok 440 := by
  refine ⟨?_, ?_, ?_⟩ <;> decide +kernel

end Line
end TrackGrid
