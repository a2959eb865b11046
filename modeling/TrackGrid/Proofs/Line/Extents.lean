import TrackGrid.Proofs.Line.Conservation
import TrackGrid.Proofs.Outcome

/-! Lines of items whose extents are known: what solving and the required length come to is told
without asking anyone. -/

namespace TrackGrid
namespace Line

variable {σ : Type} {m : Type → Type}

/-- The largest of the extents of the items that occupy a track alone, or zero. -/
def largest (extent : Item m → Int) (index : Int) (items : List (Item m)) : Int :=
  (items.filter (·.sitsIn index)).foldl (fun best item => max best (extent item)) 0

theorem foldl_max_le_iff {ι : Type} {f : ι → Int} {xs : List ι} {a bound : Int} :
    xs.foldl (fun best x => max best (f x)) a ≤ bound ↔ a ≤ bound ∧ ∀ x ∈ xs, f x ≤ bound := by
  induction xs generalizing a with
  | nil => simp
  | cons x xs ih =>
    rw [List.foldl_cons, ih, max_le_iff, List.forall_mem_cons, and_assoc]

theorem largest_le_iff {extent : Item m → Int} {index bound : Int} {items : List (Item m)} :
    largest extent index items ≤ bound ↔
      0 ≤ bound ∧ ∀ item ∈ items, item.sitsIn index = true → extent item ≤ bound := by
  simp only [largest, foldl_max_le_iff, List.mem_filter, and_imp]

/-- The size that its content gives a track, zero for tracks that take none from it. -/
def contentOf (extent : Item m → Sizing → Int) (track : Track) (index : Int)
    (items : List (Item m)) : Int :=
  match track with
  | .sizing .fill | .number _ => 0
  | .sizing kind => largest (extent · kind) index items

def contents (extent : Item m → Sizing → Int) (tracks : List Track) (items : List (Item m)) :
    List Int :=
  tracks.zipIdx.map fun (track, index) => contentOf extent track index items

theorem contents_only (extent : Item m → Sizing → Int) (tracks : List Track)
    (items : List (Item m)) : Only Track.isContent tracks (contents extent tracks items) := by
  have hnonneg (track : Track) (index : Int) : 0 ≤ contentOf extent track index items ∧
      (track.isContent = false → contentOf extent track index items = 0) := by
    have hlargest (kind : Sizing) : 0 ≤ largest (extent · kind) index items :=
      (largest_le_iff.mp le_rfl).1
    obtain (_ | _ | _) | _ := track
    · exact ⟨le_rfl, fun _ => rfl⟩
    · exact ⟨hlargest .preferred, fun h => nomatch h⟩
    · exact ⟨hlargest .minimum, fun h => nomatch h⟩
    · exact ⟨le_rfl, fun _ => rfl⟩
  refine forall₂_zipIdx_iff.mp ?_
  rw [contents, List.forall₂_map_right_iff, List.forall₂_same]
  exact fun p _ => hnonneg p.1 p.2

/-- Items give the tracks the same content if they come to the same largest extents. -/
theorem contents_eq_iff {extent : Item m → Sizing → Int} {tracks : List Track}
    {items others : List (Item m)} :
    contents extent tracks items = contents extent tracks others ↔
      ∀ (index : Nat) (kind : Sizing), tracks[index]? = some (.sizing kind) → kind ≠ .fill →
        largest (extent · kind) index items = largest (extent · kind) index others := by
  rw [contents, contents, List.map_inj_left]
  constructor
  · intro h index kind htrack hkind
    have hcontent := h (.sizing kind, index) (List.mem_zipIdx_iff_getElem?.mpr htrack)
    cases kind with
    | fill => exact absurd rfl hkind
    | preferred => exact hcontent
    | minimum => exact hcontent
  · rintro h ⟨track, index⟩ hmem
    have htrack := List.mem_zipIdx_iff_getElem?.mp hmem
    obtain (_ | _ | _) | _ := track
    · rfl
    · exact h index .preferred htrack (by decide)
    · exact h index .minimum htrack (by decide)
    · rfl

/-- The line that tracks come to with content of the given sizes. -/
def solved (tracks : List Track) (origin length : Int) (content : List Int) :
    Except Fault Line := do
  let absolute ← absoluteSizes tracks
  let left := length - total absolute - total content
  let relative ← relativeSizes (max left 0) tracks
  let fill := fillSizes (max (left - total relative) 0) tracks
  return ofSizes origin (addSizes (addSizes absolute content) (addSizes relative fill))

/-- The passes that make up a line, and which tracks they give a size to. -/
theorem exists_passes {tracks : List Track} {origin length : Int} {content : List Int} {line : Line}
    (h : solved tracks origin length content = .ok line) :
    ∃ absolute relative fill, absoluteSizes tracks = .ok absolute ∧
      relativeSizes (max (length - absolute.sum - content.sum) 0) tracks = .ok relative ∧
      Only Track.isAbsolute tracks absolute ∧
      Only (fun track => track.fraction?.isSome) tracks relative ∧ Only Track.isFill tracks fill ∧
      line.sizes = addSizes (addSizes absolute content) (addSizes relative fill) := by
  obtain ⟨absolute, habsolute, h⟩ := bind_eq_ok_iff.mp h
  obtain ⟨relative, hrelative, h⟩ := bind_eq_ok_iff.mp h
  obtain rfl := pure_eq_ok_iff.mp h
  exact ⟨absolute, relative, _, habsolute, hrelative, absoluteSizes_only habsolute,
    relativeSizes_only (le_max_right _ _) hrelative, fillSizes_only (le_max_right _ _) tracks, rfl⟩

/-- A line that is returned is one of content of some sizes. -/
theorem exists_solved {tracks : List Track} {origin length : Int} {items : List (Item (StateM σ))}
    {s t : σ} {line : Line} (h : (solve tracks origin length items).run.run s = (.ok line, t)) :
    ∃ content, (contentSizes tracks items).run.run s = (.ok content, t) ∧
      Only Track.isContent tracks content ∧ solved tracks origin length content = .ok line := by
  have honly : Holds (fun _ => True) (contentSizes tracks items) (Only Track.isContent tracks) :=
    contentSizes_only (fun _ _ _ => Holds.always) tracks
  obtain ⟨absolute, u, habsolute, h⟩ := run_bind_eq_ok_iff.mp h
  obtain ⟨hpixels, (rfl : s = u)⟩ := Prod.ext_iff.mp habsolute
  obtain ⟨content, u, hcontent, h⟩ := run_bind_eq_ok_iff.mp h
  obtain ⟨relative, t', hrelative, h⟩ := run_bind_eq_ok_iff.mp h
  obtain ⟨hshares, (rfl : u = t')⟩ := Prod.ext_iff.mp hrelative
  obtain ⟨hline, (rfl : u = t)⟩ := Prod.ext_iff.mp h
  have hkinds : Only Track.isContent tracks content := (honly s trivial).2 content (by rw [hcontent])
  refine ⟨content, hcontent, hkinds, ?_⟩
  exact bind_eq_ok_iff.mpr ⟨absolute, hpixels, bind_eq_ok_iff.mpr ⟨relative, hshares, hline⟩⟩

section
variable {tracks : List Track} {origin length : Int} {content : List Int} {line : Line}

/-- No other track than a content track takes any size from the content. -/
theorem getElem?_solved (hcontent : content.length = tracks.length)
    (h : solved tracks origin length content = .ok line) {i : Nat} {track : Track}
    (htrack : tracks[i]? = some track) (hkind : track.isContent = true) :
    line.sizes[i]? = content[i]? := by
  obtain ⟨absolute, relative, fill, -, -, habsolute, hrelative, hfill, hsizes⟩ := exists_passes h
  have hsizing : track.isAbsolute = false ∧ track.fraction?.isSome = false ∧
      track.isFill = false := by
    obtain (_ | _ | _) | _ := track
    · cases hkind
    · exact ⟨rfl, rfl, rfl⟩
    · exact ⟨rfl, rfl, rfl⟩
    · cases hkind
  have hi : i < content.length := hcontent ▸ (List.getElem?_eq_some_iff.mp htrack).1
  simp only [hsizes, addSizes, List.getElem?_zipWith,
    habsolute.getElem?_eq_zero htrack hsizing.1, hrelative.getElem?_eq_zero htrack hsizing.2.1,
    hfill.getElem?_eq_zero htrack hsizing.2.2, List.getElem?_eq_getElem hi, Int.zero_add,
    Int.add_zero]

/-- No other track than an absolute track takes any pixels. -/
theorem getElem?_solved_absolute (hcontent : Only Track.isContent tracks content)
    (h : solved tracks origin length content = .ok line) {i : Nat} {track : Track}
    (htrack : tracks[i]? = some track) (hkind : track.isAbsolute = true) {pixels : Int}
    (hpixels : track.pixels = .ok pixels) : line.sizes[i]? = some pixels := by
  obtain ⟨absolute, relative, fill, hpass, -, -, hrelative, hfill, hsizes⟩ := exists_passes h
  have hsome : absolute[i]? = some pixels := by
    obtain ⟨hi, rfl⟩ := List.getElem?_eq_some_iff.mp htrack
    have hall := mapM_eq_ok_iff.mp hpass
    have hi' : i < absolute.length := hall.length_eq ▸ hi
    have hsize := List.Forall₂.get hall hi hi'
    simp only [List.get_eq_getElem, hkind, if_true, hpixels, Except.ok.injEq] at hsize
    rw [List.getElem?_eq_getElem hi', hsize]
  have hsized : track.fraction?.isSome = false ∧ track.isFill = false := by
    rw [Track.fraction?_of_isAbsolute hkind]
    cases track with
    | sizing s => cases hkind
    | number x => exact ⟨rfl, rfl⟩
  simp only [hsizes, addSizes, List.getElem?_zipWith, hsome,
    hcontent.getElem?_eq_zero htrack (Track.isContent_of_isAbsolute hkind),
    hrelative.getElem?_eq_zero htrack hsized.1, hfill.getElem?_eq_zero htrack hsized.2,
    Int.add_zero]

/-- No other track than a relative track takes a share of the base. -/
theorem getElem?_solved_relative (hcontent : Only Track.isContent tracks content)
    (h : solved tracks origin length content = .ok line) {absolute : List Int}
    (ha : absoluteSizes tracks = .ok absolute) {i : Nat} {track : Track}
    (htrack : tracks[i]? = some track) {fraction : Binary64}
    (hfraction : track.fraction? = some fraction) :
    ∃ size, share fraction (max (length - absolute.sum - content.sum) 0) = .ok size ∧
      line.sizes[i]? = some size := by
  obtain ⟨absolute', relative, fill, ha', hpass, habsolute, -, hfill, hsizes⟩ := exists_passes h
  obtain rfl := Except.ok.inj (ha.symm.trans ha')
  obtain ⟨size, hshare, hsome⟩ : ∃ size,
      share fraction (max (length - absolute.sum - content.sum) 0) = .ok size ∧
        relative[i]? = some size := by
    obtain ⟨hi, rfl⟩ := List.getElem?_eq_some_iff.mp htrack
    have hall := mapM_eq_ok_iff.mp hpass
    have hi' : i < relative.length := hall.length_eq ▸ hi
    have hsize := List.Forall₂.get hall hi hi'
    simp only [List.get_eq_getElem, hfraction] at hsize
    exact ⟨_, hsize, List.getElem?_eq_getElem hi'⟩
  have hrelative : track.isAbsolute = false ∧ track.isContent = false ∧ track.isFill = false := by
    cases track with
    | sizing s => cases hfraction
    | number x =>
      refine ⟨?_, rfl, rfl⟩
      rw [Bool.eq_false_iff]
      intro hkind
      rw [Track.fraction?_of_isAbsolute hkind] at hfraction
      cases hfraction
  refine ⟨size, hshare, ?_⟩
  simp only [hsizes, addSizes, List.getElem?_zipWith, hsome,
    habsolute.getElem?_eq_zero htrack hrelative.1, hcontent.getElem?_eq_zero htrack hrelative.2.1,
    hfill.getElem?_eq_zero htrack hrelative.2.2, Int.zero_add, Int.add_zero]

end

/-- Lines of the same tracks are the same only if the content is. -/
theorem solved_injective {tracks : List Track} {origin length : Int} {xs ys : List Int}
    (hx : Only Track.isContent tracks xs) (hy : Only Track.isContent tracks ys) {line : Line}
    (h : solved tracks origin length xs = .ok line)
    (h' : solved tracks origin length ys = .ok line) : xs = ys := by
  refine List.ext_getElem (hx.length_eq.trans hy.length_eq.symm) fun i hi hi' => ?_
  have htracks : i < tracks.length := hx.length_eq ▸ hi
  cases hkind : tracks[i].isContent with
  | true =>
    have htrack := List.getElem?_eq_getElem htracks
    have heq := (getElem?_solved hx.length_eq h htrack hkind).symm.trans
      (getElem?_solved hy.length_eq h' htrack hkind)
    rwa [List.getElem?_eq_getElem hi, List.getElem?_eq_getElem hi', Option.some.injEq] at heq
  | false =>
    have hzero := (List.Forall₂.get hx htracks hi).2 hkind
    have hzero' := (List.Forall₂.get hy htracks hi').2 hkind
    exact hzero.trans hzero'.symm

def contributionOf (extent : Item m → Sizing → Int) (fillShare : Binary64) (items : List (Item m))
    (track : Track) (index : Nat) : Except Fault Contribution := do
  if track.isAbsolute then
    return ⟨← track.pixels, none⟩
  else if track.isContent then
    return ⟨contentOf extent track index items, none⟩
  else if track.isFill then
    return ⟨0, some fillShare⟩
  else
    return ⟨0, track.fraction?⟩

def needOf (extent : Item m → Int) (contributions : List Contribution) (item : Item m) :
    Except Fault (Option Int) := do
  let spanned := spanned contributions item.tracks
  let need := extent item - total (spanned.map Contribution.fixed)
  let shares := spanned.filterMap Contribution.share
  if shares.isEmpty then return none
  else return some (← scaledNeed need shares (contributions.countP (·.share.isSome)))

def requiredOf (extent : Item m → Sizing → Int) (tracks : List Track) (items : List (Item m))
    (kind : Sizing) : Except Fault Int := do
  let contributions ← tracks.zipIdx.mapM fun (track, index) =>
    contributionOf extent (fillShare tracks) items track index
  let scaled ← (items.filter (·.inside tracks.length)).foldlM
    (fun longest item => do
      return max longest ((← needOf (extent · kind) contributions item).getD longest)) 0
  return scaled + total (contributions.map Contribution.fixed)

section
variable {P : σ → Prop} {items : List (Item (StateM σ))} {extent : Item (StateM σ) → Sizing → Int}
  (hitems : ∀ item ∈ items, ∀ kind, Gives P (item.extent kind) (.ok (extent item kind)))
include hitems

private theorem largestExtent_gives (kind : Sizing) (index : Int) :
    Gives P (largestExtent kind index items) (.ok (largest (extent · kind) index items)) := by
  have hfold (xs : List (Item (StateM σ)))
      (hxs : ∀ item ∈ xs, Gives P (item.extent kind) (.ok (extent item kind))) (a : Int) :
      Gives P (xs.foldlM (fun best item => return max best (← item.extent kind)) a)
        (.ok (xs.foldl (fun best item => max best (extent item kind)) a)) := by
    induction xs generalizing a with
    | nil => exact .pure a
    | cons x xs ih =>
      rw [List.foldlM_cons, List.foldl_cons]
      refine Gives.bind_ok ?_ (ih (fun y hy => hxs y (by simp [hy])) _)
      exact (hxs x (by simp)).bind_ok (.pure _)
  exact hfold _ (fun item hitem => hitems item (List.mem_filter.mp hitem).1 kind) 0

private theorem contentExtent_gives {track : Track} (h : track.isContent = true) (index : Int) :
    Gives P (contentExtent track index items) (.ok (contentOf extent track index items)) := by
  obtain (_ | _ | _) | _ := track
  · cases h
  · exact largestExtent_gives hitems .preferred index
  · exact largestExtent_gives hitems .minimum index
  · cases h

private theorem contentSizes_gives (tracks : List Track) :
    Gives P (contentSizes tracks items) (.ok (contents extent tracks items)) := by
  have hpure : (.ok (contents extent tracks items) : Except Fault (List Int)) =
      tracks.zipIdx.mapM fun p => .ok (contentOf extent p.1 p.2 items) := by
    rw [contents]
    induction tracks.zipIdx with
    | nil => rfl
    | cons p ps ih =>
      rw [List.mapM_cons, ← ih]
      rfl
  rw [hpure]
  refine Gives.mapM _ fun p _ => ?_
  change Gives P (if p.1.isContent = true then contentExtent p.1 p.2 items else pure 0) _
  split
  · exact contentExtent_gives hitems ‹_› p.2
  · have hzero : contentOf extent p.1 p.2 items = 0 := by
      obtain ⟨(_ | _ | _) | _, _⟩ := p <;> first | rfl | contradiction
    rw [hzero]
    exact .pure 0

/-- Solving a line of items whose extents are known. -/
theorem solve_gives (tracks : List Track) (origin length : Int) :
    Gives P (solve tracks origin length items)
      (solved tracks origin length (contents extent tracks items)) := by
  refine (Gives.calculate _).bind fun absolute => ?_
  refine (contentSizes_gives hitems tracks).bind_ok ?_
  exact (Gives.calculate _).bind fun relative => .pure _

private theorem contribution_gives (share : Binary64) (track : Track) (index : Nat) :
    Gives P (contribution share items track index)
      (contributionOf extent share items track index) := by
  unfold contribution contributionOf
  split
  · exact (Gives.calculate _).bind fun _ => .pure _
  · split
    · exact (contentExtent_gives hitems ‹_› index).bind_ok (.pure _)
    · split <;> exact .pure _

private theorem itemNeed_gives (contributions : List Contribution) (kind : Sizing)
    {item : Item (StateM σ)}
    (hitem : item ∈ items) :
    Gives P (itemNeed contributions kind item) (needOf (extent · kind) contributions item) := by
  refine (hitems item hitem kind).bind_ok ?_
  unfold needOf
  dsimp only
  split
  · exact .pure none
  · exact (Gives.calculate _).bind fun _ => .pure _

/-- The length that a line of items whose extents are known requires. -/
theorem required_gives (tracks : List Track) (kind : Sizing) :
    Gives P (required tracks items kind) (requiredOf extent tracks items kind) := by
  refine (Gives.mapM _ fun p _ => contribution_gives hitems _ p.1 p.2).bind fun contributions => ?_
  refine Gives.bind (Gives.foldlM _ (fun longest item hitem => ?_) 0) fun scaled => .pure _
  exact (itemNeed_gives hitems contributions kind (List.mem_filter.mp hitem).1).bind fun _ =>
    .pure _

end

section
variable {extent : Item m → Sizing → Int} {items others : List (Item m)}

private theorem largest_congr (h : ∀ item, item ∈ items ↔ item ∈ others) (kind : Sizing)
    (index : Int) :
    largest (extent · kind) index items = largest (extent · kind) index others :=
  eq_of_forall_ge_iff fun bound => by simp only [largest_le_iff, h]

/-- The content of tracks depends only on which items there are. -/
theorem contents_congr (h : ∀ item, item ∈ items ↔ item ∈ others) (tracks : List Track) :
    contents extent tracks items = contents extent tracks others :=
  contents_eq_iff.mpr fun index kind _ _ => largest_congr h kind index

/-- The required length is the same in any order of the items, but for which failure comes first. -/
theorem requiredOf_perm (h : items.Perm others) (tracks : List Track) (kind : Sizing) :
    Matches (· = ·) (requiredOf extent tracks items kind)
      (requiredOf extent tracks others kind) := by
  have hcontributions (p : Track × Nat) :
      contributionOf extent (fillShare tracks) items p.1 p.2 =
        contributionOf extent (fillShare tracks) others p.1 p.2 := by
    obtain ⟨(_ | _ | _) | _, index⟩ := p <;>
      simp only [contributionOf, contentOf, largest_congr fun _ => h.mem_iff]
  unfold requiredOf
  simp only [hcontributions]
  refine Matches.bind (.of_eq rfl) fun contributions _ heq => ?_
  subst heq
  refine Matches.bind (Matches.foldlM_perm (fun longest x y => ?_) (h.filter _) 0)
    fun scaled _ heq => .of_eq (by rw [heq])
  -- two needs in either order, of which each may fail
  rcases needOf (extent · kind) contributions x with fault | need <;>
    rcases needOf (extent · kind) contributions y with fault' | need'
  · exact .faults _ _
  · exact .faults _ _
  · exact .faults _ _
  · refine .results ?_
    cases need <;> cases need' <;> simp only [Option.getD_none, Option.getD_some] <;> omega

end
end Line
end TrackGrid
