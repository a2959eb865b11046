import TrackGrid.Proofs.Line.Shares
import TrackGrid.Proofs.Number.Whole

/-! With one fill track and no relative one, the required length is the least that gives every item
its extent. -/

namespace TrackGrid
namespace Line

variable {σ : Type} {m : Type → Type} {tracks : List Track} {f : Nat}

/-- Tracks of which one shares the space left over and all others have a size of their own. -/
structure OneFill (tracks : List Track) (f : Nat) : Prop where
  fill : tracks[f]? = some .fill
  others : ∀ i track, tracks[i]? = some track → i ≠ f →
    track.isAbsolute = true ∨ track.isContent = true

private theorem filter_eq_singleton {α : Type} {p : α → Bool} {xs : List α} {i : Nat} {x : α}
    (hx : xs[i]? = some x) (hp : p x = true)
    (hothers : ∀ j y, xs[j]? = some y → j ≠ i → p y = false) : xs.filter p = [x] := by
  induction xs generalizing i with
  | nil => cases hx
  | cons y ys ih =>
    cases i with
    | zero =>
      obtain rfl := Option.some.inj hx
      have hrest : ys.filter p = [] := by
        rw [List.filter_eq_nil_iff]
        intro z hz
        obtain ⟨j, hj⟩ := List.getElem?_of_mem hz
        simp [hothers (j + 1) z hj (by omega)]
      rw [List.filter_cons_of_pos hp, hrest]
    | succ i =>
      have hfirst : p y = false := hothers 0 y rfl (by omega)
      rw [List.filter_cons_of_neg (by simp [hfirst])]
      exact ih hx fun j z hz hne => hothers (j + 1) z hz (by omega)

private theorem getElem?_slice {α : Type} (i : Interval) (xs : List α) (k : Nat) :
    (i.slice xs)[k]? =
      if k < (i.last + 1 - i.first).toNat then xs[i.first.toNat + k]? else none := by
  rw [Interval.slice, List.getElem?_take, List.getElem?_drop]

namespace OneFill

variable (h : OneFill tracks f)
include h

theorem isFill_iff {i : Nat} {track : Track} (htrack : tracks[i]? = some track) :
    track.isFill = true ↔ i = f := by
  constructor
  · intro hfill
    by_contra hne
    obtain rfl := Track.isFill_iff.mp hfill
    rcases h.others i _ htrack hne with ha | hc
    · cases ha
    · cases hc
  · rintro rfl
    rw [h.fill] at htrack
    obtain rfl := Option.some.inj htrack
    rfl

private theorem kinds {track : Track} (htrack : track ∈ tracks) :
    track.isFill = true ∨ track.isAbsolute = true ∨ track.isContent = true := by
  obtain ⟨i, hi⟩ := List.getElem?_of_mem htrack
  by_cases hf : i = f
  · exact .inl ((h.isFill_iff hi).mpr hf)
  · exact .inr (h.others i track hi hf)

private theorem fraction?_eq_none {track : Track} (htrack : track ∈ tracks) :
    track.fraction? = none := by
  rcases h.kinds htrack with hf | ha | hc
  · rw [Track.isFill_iff.mp hf]
    rfl
  · exact Track.fraction?_of_isAbsolute ha
  · exact Track.fraction?_of_isContent hc

private theorem countP_isFill : tracks.countP Track.isFill = 1 := by
  have hfilter : tracks.filter Track.isFill = [.fill] := by
    refine filter_eq_singleton h.fill rfl fun j track htrack hne => ?_
    exact Bool.eq_false_iff.mpr (mt (h.isFill_iff htrack).mp hne)
  rw [List.countP_eq_length_filter, hfilter]
  rfl

/-- Among the tracks of an interval that covers the fill track it is the only one. -/
theorem filter_slice {i : Interval} (hfirst : 0 ≤ i.first) (hcovers : i.covers f = true) :
    (i.slice tracks).filter Track.isFill = [.fill] := by
  simp only [Interval.covers, Bool.and_eq_true, decide_eq_true_eq] at hcovers
  have hfill : (i.slice tracks)[f - i.first.toNat]? = some .fill := by
    rw [getElem?_slice, if_pos (by omega), show i.first.toNat + (f - i.first.toNat) = f by omega]
    exact h.fill
  refine filter_eq_singleton hfill rfl fun j track htrack hne => ?_
  rw [getElem?_slice, Option.ite_none_right_eq_some] at htrack
  exact Bool.eq_false_iff.mpr (mt (h.isFill_iff htrack.2).mp (by omega))

private theorem filter_slice_eq_nil {i : Interval} (hfirst : 0 ≤ i.first)
    (hcovers : i.covers f = false) :
    (i.slice tracks).filter Track.isFill = [] := by
  simp only [Interval.covers, Bool.and_eq_false_iff, decide_eq_false_iff_not] at hcovers
  rw [List.filter_eq_nil_iff]
  intro track htrack
  obtain ⟨k, hk⟩ := List.getElem?_of_mem htrack
  rw [getElem?_slice, Option.ite_none_right_eq_some] at hk
  exact mt (h.isFill_iff hk.2).mp (by omega)

/-- The fill track receives all of the remaining space. -/
theorem fillShare_eq : fillShare tracks = Binary64.one := by
  have hfractions : tracks.filterMap Track.fraction? = [] := by
    rw [List.filterMap_eq_nil_iff]
    exact fun track => h.fraction?_eq_none
  rw [fillShare, hfractions, h.countP_isFill]
  decide +kernel

end OneFill

/-- The sizes of tracks of which the fill track takes a room beyond the fixed sizes. -/
def filled (tracks : List Track) (fixed : List Int) (room : Int) : List Int :=
  addSizes fixed (addSizes (tracks.map fun _ => 0) (fillSizes room tracks))

namespace OneFill

variable (h : OneFill tracks f)
include h

private theorem relativeSizes_eq (base : Int) :
    relativeSizes base tracks = .ok (tracks.map fun _ => 0) := by
  rw [relativeSizes, mapM_eq_ok_iff, List.forall₂_map_right_iff, List.forall₂_same]
  intro track htrack
  rw [h.fraction?_eq_none htrack]
  rfl

/-- What is left of a length that is not below the fixed sizes goes to the fill track. -/
theorem solved_eq {absolute content : List Int} (ha : absoluteSizes tracks = .ok absolute)
    (hc : content.length = tracks.length) (origin : Int) {room : Int} (hroom : 0 ≤ room) :
    solved tracks origin (room + (addSizes absolute content).sum) content =
      .ok (ofSizes origin (filled tracks (addSizes absolute content) room)) := by
  have hlength : absolute.length = content.length := (absoluteSizes_only ha).length_eq.trans hc.symm
  have hleft : room + (addSizes absolute content).sum - total absolute - total content = room := by
    rw [sum_addSizes hlength, total_eq_sum, total_eq_sum]
    omega
  have hzero : total (tracks.map fun _ => 0) = 0 := by
    rw [total_eq_sum]
    simp
  refine bind_eq_ok_iff.mpr ⟨absolute, ha, bind_eq_ok_iff.mpr ⟨_, h.relativeSizes_eq _, ?_⟩⟩
  dsimp only
  rw [hleft, hzero, Int.sub_zero, max_eq_left hroom]
  rfl

private theorem sum_filled {fixed : List Int} (hf : fixed.length = tracks.length) {room : Int}
    (hroom : 0 ≤ room) : (filled tracks fixed room).sum = fixed.sum + room := by
  have hfill : tracks.any Track.isFill = true :=
    List.any_eq_true.mpr ⟨_, List.mem_of_getElem? h.fill, rfl⟩
  have hlength := (fillSizes_only hroom tracks).length_eq
  rw [filled, sum_addSizes (by simp [addSizes, hf, hlength]), sum_addSizes (by simp [hlength]),
    sum_fillSizes hroom hfill]
  simp

/-- An interval that covers the fill track has the whole room. -/
theorem sum_slice_filled {fixed : List Int} (hf : fixed.length = tracks.length) {room : Int}
    (hroom : 0 ≤ room) {i : Interval} (hfirst : 0 ≤ i.first) (hcovers : i.covers f = true) :
    (i.slice (filled tracks fixed room)).sum = (i.slice fixed).sum + room := by
  have hslice : (i.slice tracks).countP Track.isFill = 1 := by
    rw [List.countP_eq_length_filter, h.filter_slice hfirst hcovers]
    rfl
  have hzeros : (i.slice (tracks.map fun _ => (0 : Int))).sum = 0 := by
    simp [Interval.slice]
  have hroom' : max (room - (tracks.map fun _ => (0 : Int)).sum) 0 = room := by
    simp [hroom]
  have hsum := sum_slice_solved room hf (tracks.length_map fun _ => (0 : Int)) hfirst
  rw [taken, hroom', h.countP_isFill, hslice, hzeros] at hsum
  rw [filled, hsum]
  simp

end OneFill

def covering (items : List (Item m)) (tracks : List Track) (track : Int) : List (Item m) :=
  (items.filter (·.inside tracks.length)).filter (·.tracks.covers track)

/-- The room that the most demanding items need beyond the fixed sizes. -/
def longest (extent : Item m → Int) (fixed : List Int) (items : List (Item m)) : Int :=
  items.foldl (fun room item => max room (beyond extent fixed item)) 0

namespace OneFill

variable (h : OneFill tracks f)
include h

private theorem takesShare_eq {track : Track} (htrack : track ∈ tracks) :
    track.takesShare = track.isFill := by
  rw [Track.takesShare, ← Track.fraction?_isSome, h.fraction?_eq_none htrack]
  rfl

private theorem any_takesShare {i : Interval} (hfirst : 0 ≤ i.first) :
    (i.slice tracks).any Track.takesShare = i.covers f := by
  cases hcovers : i.covers f with
  | true =>
    have hfill : .fill ∈ (i.slice tracks).filter Track.isFill := by
      rw [h.filter_slice hfirst hcovers]
      exact List.mem_singleton_self _
    exact List.any_eq_true.mpr ⟨_, (List.mem_filter.mp hfill).1, rfl⟩
  | false =>
    refine List.any_eq_false.mpr fun track htrack => ?_
    rw [h.takesShare_eq (i.mem_of_mem_slice htrack)]
    exact List.filter_eq_nil_iff.mp (h.filter_slice_eq_nil hfirst hcovers) track htrack

private theorem demanding_eq (items : List (Item m)) :
    demanding tracks items = covering items tracks f := by
  refine List.filter_congr fun item hitem => h.any_takesShare ?_
  have hinside := (List.mem_filter.mp hitem).2
  simp only [Item.inside, Bool.and_eq_true, decide_eq_true_eq] at hinside
  exact hinside.1

/-- In tracks that cover the fill track a need is scaled by one. -/
theorem scale_eq {i : Interval} (hfirst : 0 ≤ i.first) (hcovers : i.covers f = true) :
    scale tracks i = .one := by
  have hshares : shares tracks i = [.one] := calc
    shares tracks i
      = (i.slice tracks).filterMap fun track => if track.isFill then some .one else none := by
      rw [shares, h.fillShare_eq]
      refine List.filterMap_congr fun track htrack => ?_
      rw [shareOf?, h.fraction?_eq_none (i.mem_of_mem_slice htrack)]
    _ = ((i.slice tracks).filter Track.isFill).filterMap fun _ => some .one :=
      List.filterMap_filter.symm
    _ = [.one] := by
      rw [h.filter_slice hfirst hcovers]
      rfl
  have hsum : sumShares [.one] = .one := by decide +kernel
  have hpositive : (Number.float Binary64.one).le (.int 0) = false := by decide +kernel
  rw [scale, hshares, hsum, hpositive]
  rfl

end OneFill

/-- A need that is scaled by one is asked for as it is, if it is above zero. -/
private theorem scaledBy_one {need : Int} (hneed : need.natAbs ≤ 2 ^ 52) :
    ∃ k, scaledBy .one need = .ok k ∧ max k 0 = max need 0 := by
  obtain ⟨x, k, hx, hk, hmax⟩ := Binary64.roundHalfUp_div_one (hneed.trans (by decide +kernel))
  exact ⟨k, bind_eq_ok_iff.mpr ⟨x, hx, hk⟩, hmax⟩

private theorem foldl_max_of_forall₂ {ι : Type} {value : ι → Int} {xs : List ι} {ks : List Int}
    (h : List.Forall₂ (fun x k => max k 0 = max (value x) 0) xs ks) {a : Int} (ha : 0 ≤ a) :
    ks.foldl max a = xs.foldl (fun longest x => max longest (value x)) a := by
  induction h generalizing a with
  | nil => rfl
  | @cons x k xs ks hmax _ ih =>
    have hbest : max a k = max a (value x) := by omega
    rw [List.foldl_cons, List.foldl_cons, ← hbest]
    exact ih (ha.trans (le_max_left a k))

/-- The fixed sizes and what the most demanding item needs beyond them. -/
theorem OneFill.requiredOf_eq (h : OneFill tracks f) {absolute : List Int}
    (ha : absoluteSizes tracks = .ok absolute) {extent : Item m → Sizing → Int}
    {items : List (Item m)} {kind : Sizing}
    (hneed : ∀ item ∈ covering items tracks f,
      (beyond (extent · kind) (fixedSizes extent absolute tracks items) item).natAbs ≤ 2 ^ 52) :
    requiredOf extent tracks items kind = .ok (longest (extent · kind)
      (fixedSizes extent absolute tracks items) (covering items tracks f) +
        (fixedSizes extent absolute tracks items).sum) := by
  have hscaled : ∀ item ∈ covering items tracks f, ∃ k, scaledBy (scale tracks item.tracks)
      (beyond (extent · kind) (fixedSizes extent absolute tracks items) item) = .ok k ∧
        max k 0 = max (beyond (extent · kind) (fixedSizes extent absolute tracks items) item) 0 := by
    intro item hitem
    obtain ⟨hinside, hcovers⟩ := List.mem_filter.mp hitem
    have hfirst := (List.mem_filter.mp hinside).2
    simp only [Item.inside, Bool.and_eq_true, decide_eq_true_eq] at hfirst
    rw [h.scale_eq hfirst.1 hcovers]
    exact scaledBy_one (hneed item hitem)
  have hfound : ∃ ks, (covering items tracks f).mapM (fun item => scaledBy (scale tracks item.tracks)
      (beyond (extent · kind) (fixedSizes extent absolute tracks items) item)) = .ok ks := by
    refine exists_mapM_iff.mpr fun item hitem => ?_
    obtain ⟨k, hk, -⟩ := hscaled item hitem
    exact ⟨k, hk⟩
  obtain ⟨ks, hks⟩ := hfound
  have hmax : List.Forall₂ (fun item k => max k 0 =
      max (beyond (extent · kind) (fixedSizes extent absolute tracks items) item) 0)
        (covering items tracks f) ks := by
    refine ((List.forall₂_and_left _ _).mpr ⟨hscaled, mapM_eq_ok_iff.mp hks⟩).imp ?_
    rintro item k ⟨⟨k', hk', hmax⟩, hk⟩
    rwa [Except.ok.inj (hk'.symm.trans hk)] at hmax
  rw [Line.requiredOf_eq ha, h.demanding_eq, hks, longest, ← foldl_max_of_forall₂ hmax le_rfl]
  rfl

private theorem longest_nonneg (extent : Item m → Int) (fixed : List Int) (items : List (Item m)) :
    0 ≤ longest extent fixed items :=
  (foldl_max_le_iff.mp le_rfl).1

private theorem beyond_le_longest {extent : Item m → Int} {fixed : List Int} {items : List (Item m)}
    {item : Item m} (hitem : item ∈ items) :
    beyond extent fixed item ≤ longest extent fixed items :=
  (foldl_max_le_iff.mp le_rfl).2 item hitem

/-- Less room than the longest is too little for one of the items. -/
theorem exists_lt_beyond {extent : Item m → Int} {fixed : List Int} {items : List (Item m)}
    {room : Int} (hroom : 0 ≤ room) (h : room < longest extent fixed items) :
    ∃ item ∈ items, room < beyond extent fixed item := by
  by_contra! hall
  exact absurd (foldl_max_le_iff.mpr ⟨hroom, hall⟩) h.not_ge

/-- With one fill track and no relative one, the required length is the fixed sizes and the most
that an item inside of the tracks needs beyond them for the fill track that it covers. Laid out in
it, the line is exactly as long and every such item has its extent; in a shorter length, in which
the fixed sizes still have their place, one of the items does not. The absolute tracks are only
asked to have a size at all, as clean ones do (`exists_absoluteSizes`). -/
theorem required_exact {kept : σ → Prop} {items : List (Item (StateM σ))}
    {extent : Item (StateM σ) → Sizing → Int}
    (hitems : ∀ item ∈ items, ∀ kind, Gives kept (item.extent kind) (.ok (extent item kind)))
    {tracks : List Track} {f : Nat} (h : OneFill tracks f) {absolute : List Int}
    (ha : absoluteSizes tracks = .ok absolute) {kind : Sizing}
    (hneed : ∀ item ∈ covering items tracks f,
      (beyond (extent · kind) (fixedSizes extent absolute tracks items) item).natAbs ≤ 2 ^ 52)
    (origin : Int) :
    ∃ length, Gives kept (required tracks items kind) (.ok length) ∧
      length = longest (extent · kind) (fixedSizes extent absolute tracks items)
        (covering items tracks f) + (fixedSizes extent absolute tracks items).sum ∧
      (∃ line, Gives kept (solve tracks origin length items) (.ok line) ∧ line.length = length ∧
        ∀ item ∈ covering items tracks f,
          extent item kind ≤ (item.tracks.slice line.sizes).sum) ∧
      ∀ shorter < length, (fixedSizes extent absolute tracks items).sum ≤ shorter →
        ∃ line, Gives kept (solve tracks origin shorter items) (.ok line) ∧
          ∃ item ∈ covering items tracks f,
            (item.tracks.slice line.sizes).sum < extent item kind := by
  have hcontent := (contents_only extent tracks items).length_eq
  have hlength : (fixedSizes extent absolute tracks items).length = tracks.length := by
    simp [fixedSizes, addSizes, (absoluteSizes_only ha).length_eq, hcontent]
  generalize hfixed : fixedSizes extent absolute tracks items = fixed at hneed hlength ⊢
  have hsolve {room : Int} (hroom : 0 ≤ room) :
      Gives kept (solve tracks origin (room + fixed.sum) items)
        (.ok (ofSizes origin (filled tracks fixed room))) := by
    subst hfixed
    have hsolved := h.solved_eq ha hcontent origin hroom
    exact hsolved ▸ solve_gives hitems tracks origin _
  have hslice {room : Int} (hroom : 0 ≤ room) {item : Item (StateM σ)}
      (hitem : item ∈ covering items tracks f) :
      (item.tracks.slice (filled tracks fixed room)).sum =
        (item.tracks.slice fixed).sum + room := by
    obtain ⟨hinside, hcovers⟩ := List.mem_filter.mp hitem
    have hfirst := (List.mem_filter.mp hinside).2
    simp only [Item.inside, Bool.and_eq_true, decide_eq_true_eq] at hfirst
    exact h.sum_slice_filled hlength hroom hfirst.1 hcovers
  have hnonneg := longest_nonneg (extent · kind) fixed (covering items tracks f)
  refine ⟨_, ?_, rfl, ⟨_, hsolve hnonneg, ?_, fun item hitem => ?_⟩, fun shorter hlt hle => ?_⟩
  · subst hfixed
    exact h.requiredOf_eq ha hneed ▸ required_gives hitems tracks kind
  · rw [length_ofSizes, h.sum_filled hlength hnonneg, Int.add_comm]
  · have hbeyond : beyond (extent · kind) fixed item ≤ longest (extent · kind) fixed _ :=
      beyond_le_longest hitem
    change _ ≤ (item.tracks.slice (filled _ _ _)).sum
    rw [hslice hnonneg hitem]
    rw [beyond] at hbeyond
    omega
  · have hroom : 0 ≤ shorter - fixed.sum := by omega
    obtain ⟨item, hitem, hbeyond⟩ := exists_lt_beyond hroom (Int.sub_lt_iff.mpr hlt)
    have hline := hsolve hroom
    rw [Int.sub_add_cancel] at hline
    refine ⟨_, hline, item, hitem, ?_⟩
    change (item.tracks.slice (filled _ _ _)).sum < _
    rw [hslice hroom hitem]
    rw [beyond] at hbeyond
    omega

private def formTracks : List Track :=
  [.number (.int 10), .sizing .preferred, .fill, .number (.int 6)]

private def formItems : List (Item (StateM Unit)) :=
  [⟨.one 1, true, fun kind => pure (if kind = .preferred then 30 else 12)⟩,
    ⟨⟨1, 2⟩, false, fun kind => pure (if kind = .preferred then 70 else 50)⟩,
    ⟨.one 2, true, fun _ => pure 25⟩, ⟨⟨2, 7⟩, false, fun _ => pure 500⟩]

private def answer (item : Item (StateM Unit)) (kind : Sizing) : Int :=
  match (item.extent kind).run.run () with
  | (.ok extent, _) => extent
  | (.error _, _) => 0

private theorem formTracks_oneFill : OneFill formTracks 2 := by
  refine ⟨rfl, fun i track htrack hne => ?_⟩
  rcases i with _ | _ | _ | _ | i
  · cases htrack
    exact .inl (by decide +kernel)
  · cases htrack
    exact .inr rfl
  · contradiction
  · cases htrack
    exact .inl (by decide +kernel)
  · cases htrack

private theorem formItems_answer : ∀ item ∈ formItems, ∀ kind,
    Gives (fun _ => True) (item.extent kind) (.ok (answer item kind)) := by
  simp only [formItems, List.forall_mem_cons]
  exact ⟨fun _ _ _ => ⟨rfl, trivial⟩, fun _ _ _ => ⟨rfl, trivial⟩, fun _ _ _ => ⟨rfl, trivial⟩,
    fun _ _ _ => ⟨rfl, trivial⟩, List.forall_mem_nil _⟩

theorem formTracks_exact :
    ∃ line, Gives (fun _ => True) (solve formTracks 3 71 formItems) (.ok line) ∧
      line.length = 71 ∧ ∀ item ∈ covering formItems formTracks 2,
        answer item .minimum ≤ (item.tracks.slice line.sizes).sum := by
  have hneed : ∀ item ∈ covering formItems formTracks 2,
      (beyond (answer · .minimum) (fixedSizes answer [10, 0, 0, 6] formTracks formItems)
        item).natAbs ≤ 2 ^ 52 := by
    decide +kernel
  obtain ⟨length, -, hlength, hline, -⟩ :=
    required_exact formItems_answer formTracks_oneFill (by decide +kernel) hneed 3
  obtain rfl : length = 71 := hlength.trans (by decide +kernel)
  exact hline

end Line
end TrackGrid
