import TrackGrid.Proofs.Line.Extents
import TrackGrid.Proofs.Line.Sufficiency
import TrackGrid.Proofs.Track.Kind

/-! What the required length comes to, in terms of the tracks and the extents alone. -/

namespace TrackGrid

def Track.takesShare (t : Track) : Bool := t.isRelative || t.isFill

namespace Line

variable {m : Type → Type} {tracks : List Track}

/-- The share that a track takes of the room beyond the fixed sizes, if it takes one. -/
def shareOf? (fillShare : Binary64) (t : Track) : Option Binary64 :=
  if t.isFill then some fillShare else t.fraction?

theorem shareOf?_isSome (fillShare : Binary64) (t : Track) :
    (shareOf? fillShare t).isSome = t.takesShare := by
  rw [shareOf?, Track.takesShare, ← Track.fraction?_isSome]
  cases t.isFill <;> simp

def shares (tracks : List Track) (i : Interval) : List Binary64 :=
  (i.slice tracks).filterMap (shareOf? (fillShare tracks))

/-- The share by which a need in the tracks of an interval is scaled up: the sum of theirs or, where
that is nothing, an equal part for each of them. -/
def scale (tracks : List Track) (i : Interval) : Binary64 :=
  if (Number.float (sumShares (shares tracks i))).le (.int 0) then
    Binary64.ofRatio (shares tracks i).length (tracks.countP Track.takesShare)
  else sumShares (shares tracks i)

def scaledBy (share : Binary64) (need : Int) : Except Fault Int := do
  ((← Binary64.ofInt need) / share).roundHalfUp

/-- The sizes of the tracks that have one of their own, zero for the others. -/
def fixedSizes (extent : Item m → Sizing → Int) (absolute : List Int) (tracks : List Track)
    (items : List (Item m)) : List Int :=
  addSizes absolute (contents extent tracks items)

def beyond (extent : Item m → Int) (fixed : List Int) (item : Item m) : Int :=
  extent item - (item.tracks.slice fixed).sum

/-- The items inside of the tracks that cover a track with a share. -/
def demanding (tracks : List Track) (items : List (Item m)) : List (Item m) :=
  (items.filter (·.inside tracks.length)).filter fun item =>
    (item.tracks.slice tracks).any Track.takesShare

section
variable {extent : Item m → Sizing → Int} {items : List (Item m)} {absolute : List Int}
  {share : Binary64}

private theorem contributionOf_sized {track : Track} {pixels : Int}
    (hpixels : (if track.isAbsolute then track.pixels else pure 0) = .ok pixels) (index : Nat) :
    contributionOf extent share items track index =
      .ok ⟨pixels + contentOf extent track index items, shareOf? share track⟩ := by
  have hsize {size size' : Int} {taken : Option Binary64} (heq : size = size') :
      (Except.ok ⟨size, taken⟩ : Except Fault Contribution) = .ok ⟨size', taken⟩ := by rw [heq]
  unfold contributionOf
  obtain (_ | _ | _) | x := track
  · cases hpixels
    rfl
  · cases hpixels
    exact hsize (Int.zero_add _).symm
  · cases hpixels
    exact hsize (Int.zero_add _).symm
  · cases ha : (Track.number x).isAbsolute with
    | true =>
      rw [if_pos ha] at hpixels
      rw [if_pos rfl, hpixels, shareOf?, Track.fraction?_of_isAbsolute ha]
      exact hsize (Int.add_zero _).symm
    | false =>
      rw [if_neg (by simp [ha])] at hpixels
      cases hpixels
      exact hsize (Int.add_zero _).symm

/-- What tracks contribute: their fixed sizes and the shares that they take. -/
theorem contributionsOf_eq (ha : absoluteSizes tracks = .ok absolute)
    (extent : Item m → Sizing → Int) (share : Binary64) (items : List (Item m)) (n : Nat) :
    ∃ cs, (tracks.zipIdx n).mapM (fun (track, index) =>
        contributionOf extent share items track index) = .ok cs ∧
      cs.map Contribution.fixed = addSizes absolute
        ((tracks.zipIdx n).map fun (track, index) => contentOf extent track index items) ∧
      cs.map Contribution.share = tracks.map (shareOf? share) := by
  simp only [absoluteSizes, mapM_eq_ok_iff] at ha ⊢
  induction tracks generalizing n absolute with
  | nil =>
    cases ha
    exact ⟨[], .nil, rfl, rfl⟩
  | cons track rest ih =>
    obtain ⟨pixels, absolute, hpixels, habsolute, rfl⟩ := List.forall₂_cons_left_iff.mp ha
    obtain ⟨cs, hcs, hfixed, hshare⟩ := ih (n + 1) habsolute
    refine ⟨_ :: cs, .cons (contributionOf_sized hpixels n) hcs, ?_, ?_⟩
    · rw [List.map_cons, hfixed]
      rfl
    · rw [List.map_cons, List.map_cons, hshare]

private theorem shares_eq_nil_iff (i : Interval) :
    shares tracks i = [] ↔ (i.slice tracks).any Track.takesShare = false := by
  simp only [shares, List.filterMap_eq_nil_iff, List.any_eq_false, ← Option.not_isSome_iff_eq_none,
    shareOf?_isSome]

private theorem needOf_eq {fixed : List Int} {cs : List Contribution}
    (hfixed : cs.map Contribution.fixed = fixed)
    (hshare : cs.map Contribution.share = tracks.map (shareOf? (fillShare tracks)))
    (need : Item m → Int) (item : Item m) :
    needOf need cs item =
      if (item.tracks.slice tracks).any Track.takesShare then
        return some (← scaledBy (scale tracks item.tracks) (beyond need fixed item))
      else return none := by
  have hneed : need item - total ((spanned cs item.tracks).map Contribution.fixed) =
      beyond need fixed item := by
    rw [beyond, ← hfixed]
    simp only [total_eq_sum, spanned, Interval.slice, List.map_take, List.map_drop]
  have hshares : (spanned cs item.tracks).filterMap Contribution.share =
      shares tracks item.tracks := by
    have hslice : (spanned cs item.tracks).map Contribution.share =
        (item.tracks.slice tracks).map (shareOf? (fillShare tracks)) := by
      simp only [spanned, Interval.slice, List.map_take, List.map_drop, hshare]
    calc
      (spanned cs item.tracks).filterMap Contribution.share
        = ((spanned cs item.tracks).map Contribution.share).filterMap id := by
        rw [List.filterMap_map]
        rfl
      _ = shares tracks item.tracks := by
        rw [hslice, List.filterMap_map]
        rfl
  have htakers : cs.countP (·.share.isSome) = tracks.countP Track.takesShare := by
    have hcount := congrArg (List.countP Option.isSome) hshare
    simp only [List.countP_map, Function.comp_def, shareOf?_isSome] at hcount
    exact hcount
  simp only [needOf, hneed, hshares, htakers]
  cases hany : (item.tracks.slice tracks).any Track.takesShare with
  | false =>
    rw [(shares_eq_nil_iff item.tracks).mpr hany]
    rfl
  | true =>
    rw [if_neg (by simp [shares_eq_nil_iff, hany])]
    rfl

private theorem foldlM_max_eq {ι : Type} {need : ι → Except Fault (Option Int)}
    {value : ι → Except Fault Int} {counts : ι → Bool}
    (hneed : ∀ x, need x = if counts x then return some (← value x) else return none)
    (xs : List ι) (a : Int) :
    xs.foldlM (fun longest x => do return max longest ((← need x).getD longest)) a = do
      return ((← (xs.filter counts).mapM value).foldl max a) := by
  induction xs generalizing a with
  | nil => rfl
  | cons x xs ih =>
    rw [List.foldlM_cons, hneed]
    cases hc : counts x with
    | false =>
      rw [List.filter_cons_of_neg (by simp [hc]), ← ih]
      change xs.foldlM _ (max a a) = _
      rw [max_self]
    | true =>
      rw [List.filter_cons_of_pos hc, List.mapM_cons]
      cases hvalue : value x with
      | error fault => rfl
      | ok k =>
        change xs.foldlM _ (max a k) = _
        rw [ih]
        cases (xs.filter counts).mapM value <;> rfl

/-- The required length is the fixed sizes and the largest of the needs beyond them, each scaled up
by the share of the tracks that the item covers. -/
theorem requiredOf_eq (ha : absoluteSizes tracks = .ok absolute)
    (extent : Item m → Sizing → Int) (items : List (Item m)) (kind : Sizing) :
    requiredOf extent tracks items kind = do
      let needs ← (demanding tracks items).mapM fun item =>
        scaledBy (scale tracks item.tracks)
          (beyond (extent · kind) (fixedSizes extent absolute tracks items) item)
      return needs.foldl max 0 + (fixedSizes extent absolute tracks items).sum := by
  obtain ⟨cs, hcs, hfixed, hshare⟩ :=
    contributionsOf_eq ha extent (fillShare tracks) items 0
  have hfold := foldlM_max_eq (needOf_eq hfixed hshare (extent · kind))
    (items.filter (·.inside tracks.length)) 0
  have hparts : requiredOf extent tracks items kind = do
      let scaled ← (items.filter (·.inside tracks.length)).foldlM (fun longest item => do
        return max longest ((← needOf (extent · kind) cs item).getD longest)) 0
      return scaled + total (cs.map Contribution.fixed) := by
    rw [requiredOf, hcs]
    rfl
  rw [hparts, hfold, hfixed, total_eq_sum, demanding, fixedSizes, contents]
  simp only [bind_assoc, pure_bind]

end
end Line
end TrackGrid
