import TrackGrid.Proofs.Line.Extents
import TrackGrid.Proofs.Line.Sufficiency
import TrackGrid.Proofs.Number.Value

/-! A line gives a track of an absolute value its pixels, a half rounded upwards, and a required
length counts as many for it. -/

namespace TrackGrid

variable {m : Type → Type} {σ : Type}

namespace Track

variable {x : Number} {v : ℚ}

private theorem isAbsolute_iff (hv : x.value? = some v) :
    (number x).isAbsolute = true ↔ v = 0 ∨ 1 ≤ v := by
  have hint (n : Int) : (Number.int n).value? = some (n : ℚ) := rfl
  rw [isAbsolute, Bool.or_eq_true, Number.le_iff (hint 1) hv, Number.same, Bool.and_eq_true,
    Number.le_iff hv (hint 0), Number.le_iff (hint 0) hv, ← le_antisymm_iff, or_comm]
  norm_cast

/-- The pixels of an absolute value are exact. -/
theorem pixels_eq_floor (hv : x.value? = some v) (hrange : v = 0 ∨ 1 ≤ v ∧ v ≤ 2 ^ 52) :
    (number x).pixels = .ok ⌊v + 1 / 2⌋ := by
  have habs : |v| ≤ 2 ^ 52 := by
    rcases hrange with rfl | ⟨hlow, hhigh⟩
    · norm_num
    · rwa [abs_of_nonneg (zero_le_one.trans hlow)]
  obtain ⟨y, hy, hyv⟩ := Number.exists_toBinary64 hv habs
  rw [pixels, hy]
  exact Binary64.roundHalfUp_value hyv hrange

end Track

/-- The item with its extent relieved of the size of a track that it covers. -/
def Item.relieved [Monad m] (item : Item m) (track : Nat) (size : Int) : Item m :=
  if item.tracks.covers track then
    { item with extent := fun kind => do return (← item.extent kind) - size }
  else item

namespace Item

variable [Monad m] (item : Item m) (track : Nat) (size : Int)

@[simp] theorem tracks_relieved : (item.relieved track size).tracks = item.tracks := by
  unfold relieved
  split <;> rfl

@[simp] theorem single_relieved : (item.relieved track size).single = item.single := by
  unfold relieved
  split <;> rfl

/-- An item that occupies another track alone is not relieved of anything. -/
theorem relieved_of_sitsIn {item : Item m} {track index : Nat} (h : item.sitsIn index = true)
    (hne : index ≠ track) (size : Int) : item.relieved track size = item := by
  simp only [sitsIn, Bool.and_eq_true, beq_iff_eq] at h
  have hcovers : item.tracks.covers track = false := by
    simp only [Interval.covers, Bool.and_eq_false_iff, decide_eq_false_iff_not]
    omega
  rw [relieved, hcovers]
  rfl

end Item

/-- What the content gives a track does not depend on the others. -/
theorem contentExtent_relieved [Monad m] {track index : Nat} (hne : index ≠ track) (t : Track)
    (items : List (Item m)) (size : Int) :
    contentExtent t index (items.map (·.relieved track size)) = contentExtent t index items := by
  have hsits : ((·.sitsIn (index : Int)) ∘ (·.relieved track size) : Item m → Bool) =
      (·.sitsIn (index : Int)) := by
    funext item
    simp only [Function.comp_apply, Item.sitsIn, Item.tracks_relieved, Item.single_relieved]
  have hfilter : (items.map (·.relieved track size)).filter (·.sitsIn index) =
      items.filter (·.sitsIn index) := by
    rw [List.filter_map, hsits]
    refine (List.map_congr_left fun item hitem => ?_).trans (List.map_id _)
    exact Item.relieved_of_sitsIn (List.mem_filter.mp hitem).2 hne size
  cases t with
  | sizing kind => rw [contentExtent, contentExtent, largestExtent, largestExtent, hfilter]
  | number => rfl

section
variable {xs : List Int} {k : Nat} {x : Int}

private theorem sum_set_zero (hx : xs[k]? = some x) : xs.sum = x + (xs.set k 0).sum := by
  induction xs generalizing k with
  | nil => cases hx
  | cons y ys ih =>
    cases k with
    | zero =>
      obtain rfl := Option.some.inj hx
      rw [List.set_cons_zero, List.sum_cons, List.sum_cons, Int.zero_add]
    | succ k => rw [List.set_cons_succ, List.sum_cons, List.sum_cons, ih hx, Int.add_left_comm]

private theorem Interval.sum_slice_set_zero {i : Interval} (hfirst : 0 ≤ i.first)
    (hx : xs[k]? = some x) :
    (i.slice xs).sum = (if i.covers k then x else 0) + (i.slice (xs.set k 0)).sum := by
  simp only [slice, List.drop_set, covers, Bool.and_eq_true, decide_eq_true_eq]
  by_cases hbefore : k < i.first.toNat
  · rw [if_pos hbefore, if_neg (by omega), Int.zero_add]
  · rw [if_neg hbefore, List.take_set]
    by_cases hafter : i.last < k
    · rw [if_neg (by omega), Int.zero_add, List.set_eq_of_length_le]
      rw [List.length_take]
      omega
    · rw [if_pos (by omega)]
      refine sum_set_zero ?_
      rw [List.getElem?_take_of_lt (by omega), List.getElem?_drop,
        show i.first.toNat + (k - i.first.toNat) = k by omega, hx]

private theorem map_set_of_eq {α β : Type} {f : α → β} {ys : List α} {a b : α}
    (ha : ys[k]? = some a)
    (hf : f b = f a) : (ys.set k b).map f = ys.map f := by
  obtain ⟨hk, rfl⟩ := List.getElem?_eq_some_iff.mp ha
  have hk' : k < (ys.map f).length := by rwa [List.length_map]
  rw [List.map_set, hf, ← List.getElem_map f, List.set_getElem_self]
  exact hk'

end

namespace Line

section
variable [Monad m]

/-- The room beyond the fixed sizes that the items inside of the tracks ask for. -/
def roomBy (items : List (Item m)) (count : Nat) (kind : Sizing) (cs : List Contribution) :
    ExceptT Fault m Int :=
  (items.filter (·.inside count)).foldlM
    (fun longest item => return max longest ((← itemNeed cs kind item).getD longest)) 0

def requiredBy (items : List (Item m)) (count : Nat) (kind : Sizing) (cs : List Contribution) :
    ExceptT Fault m Int := do
  return (← roomBy items count kind cs) + total (cs.map Contribution.fixed)

private theorem required_eq (tracks : List Track) (items : List (Item m)) (kind : Sizing) :
    required tracks items kind =
      tracks.zipIdx.mapM (fun p => contribution (fillShare tracks) items p.1 p.2) >>=
        requiredBy items tracks.length kind := rfl

variable [LawfulMonad m] {cs : List Contribution} {k : Nat} {size : Int}

/-- What an item asks of the tracks with a share does not depend on whether a size is counted, or its
extent is relieved of it. -/
theorem itemNeed_relieved (hk : cs[k]? = some ⟨size, none⟩) {item : Item m}
    (hfirst : 0 ≤ item.tracks.first) (kind : Sizing) :
    itemNeed cs kind item = itemNeed (cs.set k ⟨0, none⟩) kind (item.relieved k size) := by
  have hshare : (cs.set k ⟨0, none⟩).map Contribution.share = cs.map Contribution.share :=
    map_set_of_eq hk rfl
  have hshares : (spanned (cs.set k ⟨0, none⟩) item.tracks).filterMap Contribution.share =
      (spanned cs item.tracks).filterMap Contribution.share := by
    have hslice (cs : List Contribution) : (spanned cs item.tracks).filterMap Contribution.share =
        (item.tracks.slice (cs.map Contribution.share)).filterMap id := by
      rw [Interval.slice, ← List.map_drop, ← List.map_take, List.filterMap_map]
      rfl
    rw [hslice, hslice, hshare]
  have htakers : (cs.set k ⟨0, none⟩).countP (·.share.isSome) = cs.countP (·.share.isSome) := by
    have hcount (cs : List Contribution) :
        cs.countP (·.share.isSome) = (cs.map Contribution.share).countP Option.isSome := by
      rw [List.countP_map]
      rfl
    rw [hcount, hcount, hshare]
  have hfixed : total ((spanned cs item.tracks).map Contribution.fixed) =
      (if item.tracks.covers k then size else 0) +
        total ((spanned (cs.set k ⟨0, none⟩) item.tracks).map Contribution.fixed) := by
    have hslice (cs : List Contribution) : (spanned cs item.tracks).map Contribution.fixed =
        item.tracks.slice (cs.map Contribution.fixed) := by
      rw [spanned, List.map_take, List.map_drop, Interval.slice]
    have hsize : (cs.map Contribution.fixed)[k]? = some size := by
      rw [List.getElem?_map, hk]
      rfl
    rw [hslice, hslice, List.map_set, total_eq_sum, total_eq_sum]
    exact Interval.sum_slice_set_zero hfirst hsize
  simp only [itemNeed, Item.tracks_relieved, hshares, htakers, hfixed]
  cases hcovers : item.tracks.covers k with
  | false => simp only [Item.relieved, hcovers, Bool.false_eq_true, if_false, Int.zero_add]
  | true =>
    simp only [Item.relieved, hcovers, if_true, bind_assoc, pure_bind, Int.sub_sub]

private theorem roomBy_relieved (hk : cs[k]? = some ⟨size, none⟩) (items : List (Item m))
    (count : Nat)
    (kind : Sizing) :
    roomBy items count kind cs =
      roomBy (items.map (·.relieved k size)) count kind (cs.set k ⟨0, none⟩) := by
  have hinside : ((·.inside count) ∘ (·.relieved k size) : Item m → Bool) = (·.inside count) := by
    funext item
    simp only [Function.comp_apply, Item.inside, Item.tracks_relieved]
  rw [roomBy, roomBy, List.filter_map, hinside, List.foldlM_map]
  refine foldlM_congr (fun longest item hitem => ?_) 0
  have hfirst := (List.mem_filter.mp hitem).2
  simp only [Item.inside, Bool.and_eq_true, decide_eq_true_eq] at hfirst
  rw [itemNeed_relieved hk hfirst.1]

/-- A size that is counted makes the required length longer by exactly as much. -/
theorem requiredBy_relieved (hk : cs[k]? = some ⟨size, none⟩) (items : List (Item m)) (count : Nat)
    (kind : Sizing) :
    requiredBy items count kind cs = do
      return size + (← requiredBy (items.map (·.relieved k size)) count kind
        (cs.set k ⟨0, none⟩)) := by
  have hsize : (cs.map Contribution.fixed)[k]? = some size := by
    rw [List.getElem?_map, hk]
    rfl
  have htotal : total (cs.map Contribution.fixed) =
      size + total ((cs.set k ⟨0, none⟩).map Contribution.fixed) := by
    rw [List.map_set, total_eq_sum, total_eq_sum]
    exact sum_set_zero hsize
  simp only [requiredBy, roomBy_relieved hk, htotal, bind_assoc, pure_bind, Int.add_left_comm]

/-- The share of the fill tracks does not depend on absolute tracks. -/
theorem fillShare_set {tracks : List Track} {track : Track} (htrack : tracks[k]? = some track)
    (hkind : track.isAbsolute = true) : fillShare (tracks.set k .zero) = fillShare tracks := by
  have hzero : Track.zero.isAbsolute = true := by decide +kernel
  have hfractions : (tracks.set k .zero).filterMap Track.fraction? =
      tracks.filterMap Track.fraction? := by
    have hmap (ts : List Track) :
        ts.filterMap Track.fraction? = (ts.map Track.fraction?).filterMap id := by
      rw [List.filterMap_map]
      rfl
    rw [hmap, hmap, map_set_of_eq htrack]
    rw [Track.fraction?_of_isAbsolute hzero, Track.fraction?_of_isAbsolute hkind]
  have hfills : (tracks.set k .zero).countP Track.isFill = tracks.countP Track.isFill := by
    have hmap (ts : List Track) : ts.countP Track.isFill = (ts.map Track.isFill).countP id := by
      rw [List.countP_map]
      rfl
    rw [hmap, hmap, map_set_of_eq htrack]
    cases track with
    | sizing => cases hkind
    | number => rfl
  rw [fillShare, fillShare, hfractions, hfills]

private theorem zipIdx_set {α : Type} (xs : List α) (k : Nat) (x : α) :
    (xs.set k x).zipIdx = xs.zipIdx.set k (x, k) := by
  refine List.ext_getElem? fun j => ?_
  by_cases hj : k = j
  · subst hj
    by_cases hlt : k < xs.length <;> simp [hlt]
  · simp [List.getElem?_zipIdx, List.getElem?_set_ne hj]

/-- A required length counts the pixels of an absolute track. -/
theorem required_relieved {tracks : List Track} {track : Track} (htrack : tracks[k]? = some track)
    (hkind : track.isAbsolute = true) (hpixels : track.pixels = .ok size) (items : List (Item m))
    (kind : Sizing) :
    required tracks items kind = do
      return size + (← required (tracks.set k .zero) (items.map (·.relieved k size)) kind) := by
  have hcontribution {t : Track} {pixels : Int} (share : Binary64) (others : List (Item m))
      (ht : t.isAbsolute = true) (hp : t.pixels = .ok pixels) :
      contribution share others t k = pure ⟨pixels, none⟩ := by
    rw [contribution, if_pos ht, hp]
    exact pure_bind pixels _
  have hzero : Track.zero.isAbsolute = true ∧ Track.zero.pixels = .ok 0 := by decide +kernel
  have hsame : ∀ (j : Nat) (p : Track × Nat), tracks.zipIdx[j]? = some p → j ≠ k →
      contribution (fillShare tracks) items p.1 p.2 =
        contribution (fillShare tracks) (items.map (·.relieved k size)) p.1 p.2 := by
    rintro j ⟨t, index⟩ hp hne
    obtain rfl : j = index := by
      simp only [List.getElem?_zipIdx, Option.map_eq_some_iff, Prod.mk.injEq, Nat.zero_add] at hp
      obtain ⟨_, -, -, hindex⟩ := hp
      exact hindex
    simp only [contribution, contentExtent_relieved hne]
  have hmember : tracks.zipIdx[k]? = some (track, k) := by
    rw [List.getElem?_zipIdx, htrack, Nat.zero_add]
    rfl
  rw [required_eq, required_eq, fillShare_set htrack hkind, List.length_set, zipIdx_set, bind_assoc]
  refine mapM_exchange hmember (hcontribution _ _ hkind hpixels)
    (hcontribution _ _ hzero.1 hzero.2) hsame fun cs hcs => ?_
  exact requiredBy_relieved hcs items tracks.length kind

end

/-- A track of an absolute value, zero or from one to 2 ^ 52, is `⌊v + 1 / 2⌋` pixels long in every
line that is returned, which is `v` itself if that is an integer, and counts as many for the required
length. The required length is the same as without them, with the items that cover the track relieved
of them, and it fails where that one fails. -/
theorem absolute_exact {tracks : List Track} {i : Nat} {x : Number} {v : ℚ}
    (hi : tracks[i]? = some (.number x)) (hv : x.value? = some v)
    (hrange : v = 0 ∨ 1 ≤ v ∧ v ≤ 2 ^ 52) (items : List (Item (StateM σ))) :
    (∀ (origin length : Int) (s t : σ) (line : Line),
      (solve tracks origin length items).run.run s = (.ok line, t) →
        line.sizes[i]? = some ⌊v + 1 / 2⌋) ∧
    (∀ kind, required tracks items kind = do
      return ⌊v + 1 / 2⌋ +
        (← required (tracks.set i .zero) (items.map (·.relieved i ⌊v + 1 / 2⌋)) kind)) ∧
    ∀ n : Int, v = n → ⌊v + 1 / 2⌋ = n := by
  have hkind : (Track.number x).isAbsolute = true :=
    (Track.isAbsolute_iff hv).mpr (hrange.imp_right And.left)
  have hpixels := Track.pixels_eq_floor hv hrange
  refine ⟨fun origin length s t line h => ?_, required_relieved hi hkind hpixels items, ?_⟩
  · obtain ⟨content, -, hcontent, hsolved⟩ := exists_solved h
    exact getElem?_solved_absolute hcontent hsolved hi hkind hpixels
  · rintro n rfl
    rw [Int.floor_intCast_add, add_eq_left]
    norm_num

private def roundedTracks : List Track :=
  [.number (.float (Binary64.ofRatio 5 2)), .fill, .sizing .preferred]

private def roundedItems : List (Item (StateM Unit)) :=
  [⟨⟨0, 1⟩, false, fun _ => pure 20⟩, ⟨.one 2, true, fun _ => pure 7⟩]

/-- Two and a half pixels are three, also where the length is negative, and the item that spans the
track asks for three pixels less of the fill track. -/
theorem roundedTracks_exact :
    (solve roundedTracks 1 (-7) roundedItems).run.run () =
      (.ok ⟨[3, 0, 7], [1, 4, 4, 11]⟩, ()) ∧
    ([3, 0, 7] : List Int)[0]? = some ⌊(5 / 2 : ℚ) + 1 / 2⌋ ∧
    required roundedTracks roundedItems .preferred = (do
      return ⌊(5 / 2 : ℚ) + 1 / 2⌋ + (← required (roundedTracks.set 0 .zero)
        (roundedItems.map (·.relieved 0 ⌊(5 / 2 : ℚ) + 1 / 2⌋)) .preferred)) := by
  have hrun : (solve roundedTracks 1 (-7) roundedItems).run.run () =
      (.ok ⟨[3, 0, 7], [1, 4, 4, 11]⟩, ()) := by
    change @Eq (Except Fault Line × Unit) _ _
    decide +kernel
  have hvalue : (Number.float (Binary64.ofRatio 5 2)).value? = some (5 / 2) := by decide +kernel
  have htrack : roundedTracks[0]? = some (.number (.float (Binary64.ofRatio 5 2))) := rfl
  obtain ⟨hsize, hrequired, -⟩ :=
    absolute_exact htrack hvalue (.inr ⟨by norm_num, by norm_num⟩) roundedItems
  exact ⟨hrun, hsize 1 (-7) () () _ hrun, hrequired .preferred⟩

/-- The required length of the three tracks is 27, of which the fill track takes 17. -/
example : (required roundedTracks roundedItems .preferred).run.run () = (.ok 27, ()) := by
  change @Eq (Except Fault Int × Unit) _ _
  decide +kernel

end Line
end TrackGrid
