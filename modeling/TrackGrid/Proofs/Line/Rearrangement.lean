import Mathlib.Data.List.FinRange
import Mathlib.Logic.Equiv.Fin.Rotate
import TrackGrid.Proofs.Line.Kinds

/-! The kind of a track decides its size, not its place; only the pixels that a division leaves over
go to the fill track that is last. -/

namespace TrackGrid

variable {α β γ : Type} {n : Nat}

def rearrange (xs : List α) (e : Equiv.Perm (Fin xs.length)) : List α :=
  List.ofFn fun i => xs[e.symm i]

/-- The entries of `xs` stand in `ys` at the places that a permutation sends them to. -/
structure Rearranged (e : Equiv.Perm (Fin n)) (xs ys : List α) : Prop where
  length_left : xs.length = n
  length_right : ys.length = n
  entry : ∀ i : Fin n, ys[(e i : Nat)]? = xs[(i : Nat)]?

private theorem rearrange_rearranged (xs : List α) (e : Equiv.Perm (Fin xs.length)) :
    Rearranged e xs (rearrange xs e) := by
  refine ⟨rfl, List.length_ofFn, fun i => ?_⟩
  simp [rearrange]

namespace Rearranged

variable {e : Equiv.Perm (Fin n)} {xs ys : List α}

private theorem perm (h : Rearranged e xs ys) : xs.Perm ys := by
  obtain ⟨rfl, hlength, hentry⟩ := h
  have hmoved : (fun i : Fin xs.length => xs[(i : Nat)]) =
      (fun i : Fin xs.length => ys[(i : Nat)]) ∘ e := by
    funext i
    have hsame := hentry i
    rw [List.getElem?_eq_getElem i.isLt, List.getElem?_eq_getElem (by omega),
      Option.some.injEq] at hsame
    exact hsame.symm
  have hright : List.ofFn (fun i : Fin xs.length => ys[(i : Nat)]) = ys :=
    List.ext_getElem (by simp [hlength]) fun i hi hi' => by simp
  have hperm := Equiv.Perm.ofFn_comp_perm e fun i : Fin xs.length => ys[(i : Nat)]
  rwa [← hmoved, List.ofFn_getElem, hright] at hperm

/-- What is in relation to a list is so in another order too. -/
theorem exists_forall₂ {R : α → β → Prop} {S : γ → β → Prop} {zs : List γ} {as : List β}
    (e : Equiv.Perm (Fin n)) (hxs : xs.length = n) (hzs : zs.length = n)
    (hstep : ∀ i : Fin n, ∀ x z, xs[(i : Nat)]? = some x → zs[(e i : Nat)]? = some z →
      ∀ a, R x a → S z a)
    (h : List.Forall₂ R xs as) : ∃ bs, Rearranged e as bs ∧ List.Forall₂ S zs bs := by
  obtain rfl : as.length = n := h.length_eq.symm.trans hxs
  have hbs := rearrange_rearranged as e
  refine ⟨_, hbs, List.forall₂_iff_get.mpr ⟨hzs.trans hbs.length_right.symm, fun j hj hj' => ?_⟩⟩
  obtain ⟨i, hi⟩ := e.surjective ⟨j, by omega⟩
  have hplace : (e i : Nat) = j := congrArg Fin.val hi
  have hentry := hbs.entry i
  rw [hplace, List.getElem?_eq_getElem hj', List.getElem?_eq_getElem i.isLt,
    Option.some.injEq] at hentry
  have hi' : (i : Nat) < xs.length := by omega
  have hrelated := List.Forall₂.get h hi' i.isLt
  simp only [List.get_eq_getElem, ← hentry] at hrelated
  refine hstep i _ _ (List.getElem?_eq_getElem hi') ?_ _ hrelated
  rw [hplace]
  exact List.getElem?_eq_getElem hj

end Rearranged

variable {m : Type → Type}

namespace Item

/-- The place that a permutation sends a track to; there are no tracks elsewhere to be sent. -/
def sent (e : Equiv.Perm (Fin n)) (index : Int) : Int :=
  if h : 0 ≤ index ∧ index < n then (e ⟨index.toNat, by omega⟩ : Nat) else index

/-- The item at the place that a permutation sends its tracks to, if it occupies a single cell. -/
def moved (e : Equiv.Perm (Fin n)) (item : Item m) : Item m :=
  if item.single then
    { item with tracks := ⟨sent e item.tracks.first, sent e item.tracks.last⟩ }
  else item

def occupies (count : Nat) (item : Item m) : Bool :=
  item.single && item.tracks.first == item.tracks.last && item.inside count

private theorem sent_eq_iff (e : Equiv.Perm (Fin n)) (i : Fin n) {index : Int} :
    sent e index = (e i : Nat) ↔ index = (i : Nat) := by
  unfold sent
  split
  · rw [Nat.cast_inj, Fin.val_inj, e.injective.eq_iff, Fin.ext_iff]
    dsimp only
    omega
  · have := (e i).isLt
    have := i.isLt
    omega

@[simp] theorem extent_moved (e : Equiv.Perm (Fin n)) (item : Item m) :
    (item.moved e).extent = item.extent := by
  unfold moved
  split <;> rfl

private theorem sitsIn_moved (e : Equiv.Perm (Fin n)) (i : Fin n) (item : Item m) :
    (item.moved e).sitsIn (e i : Nat) = item.sitsIn (i : Nat) := by
  cases hsingle : item.single with
  | false => simp [moved, sitsIn, hsingle]
  | true => simp [moved, sitsIn, hsingle, Bool.beq_eq_decide_eq, sent_eq_iff]

private theorem occupies_of_sitsIn {item : Item m} {index count : Nat}
    (h : item.sitsIn index = true)
    (hindex : index < count) : item.occupies count = true := by
  simp only [sitsIn, Bool.and_eq_true, beq_iff_eq] at h
  obtain ⟨⟨hsingle, hfirst⟩, hlast⟩ := h
  simp only [occupies, inside, hsingle, hfirst, hlast, beq_self_eq_true, Bool.true_and,
    Bool.and_eq_true, decide_eq_true_eq]
  omega

end Item

section
variable [Monad m] {items others : List (Item m)}

/-- The items in a track are those that were in it before it moved. -/
theorem largestExtent_moved (kind : Sizing) (e : Equiv.Perm (Fin n)) (i : Fin n) :
    largestExtent kind (e i : Nat) (items.map (·.moved e)) =
      largestExtent kind (i : Nat) items := by
  have hsame : ((·.sitsIn ((e i : Nat) : Int)) ∘ (Item.moved e) : Item m → Bool) =
      (·.sitsIn ((i : Nat) : Int)) := by
    funext item
    exact item.sitsIn_moved e i
  rw [largestExtent, List.filter_map, hsame, List.foldlM_map]
  simp only [Item.extent_moved]
  rfl

private theorem contentExtent_moved (track : Track) (e : Equiv.Perm (Fin n)) (i : Fin n) :
    contentExtent track (e i : Nat) (items.map (·.moved e)) =
      contentExtent track (i : Nat) items := by
  cases track with
  | sizing kind => exact largestExtent_moved kind e i
  | number => rfl

/-- Only items that occupy one of the tracks alone count. -/
theorem contentExtent_congr {count index : Nat} (track : Track) (hindex : index < count)
    (h : others.filter (·.occupies count) = items.filter (·.occupies count)) :
    contentExtent track index others = contentExtent track index items := by
  have hfilter (xs : List (Item m)) :
      xs.filter (·.sitsIn index) = (xs.filter (·.occupies count)).filter (·.sitsIn index) := by
    rw [List.filter_filter]
    refine List.filter_congr fun item _ => ?_
    cases hsits : item.sitsIn index with
    | false => rfl
    | true => rw [item.occupies_of_sitsIn hsits hindex, Bool.true_and]
  cases track with
  | sizing kind => simp only [contentExtent, largestExtent, hfilter others, hfilter items, h]
  | number => rfl

end

namespace Line

variable {tracks tracks' : List Track} {items others : List (Item Id)} {length : Int}
  {pass : Track.Kind → List Int} {e : Equiv.Perm (Fin n)}

private theorem total_rearranged {xs ys : List Int} (h : Rearranged e xs ys) :
    total ys = total xs :=
  h.perm.sum_eq.symm

/-- Sizes that are found track by track. -/
theorem exists_mapM_rearranged {f : Track → Except Fault Int} {sizes : List Int}
    (htracks : Rearranged e tracks tracks') (h : tracks.mapM f = .ok sizes) :
    ∃ sizes', Rearranged e sizes sizes' ∧ tracks'.mapM f = .ok sizes' := by
  simp only [mapM_eq_ok_iff] at h ⊢
  refine Rearranged.exists_forall₂ e htracks.length_left htracks.length_right ?_ h
  intro i t t' ht ht' size hsize
  rw [htracks.entry, ht, Option.some.injEq] at ht'
  rwa [← ht']

private theorem exists_contentSizes_rearranged {sizes : List Int}
    (htracks : Rearranged e tracks tracks')
    (h : Returns (contentSizes tracks items) sizes) :
    ∃ sizes', Rearranged e sizes sizes' ∧
      Returns (contentSizes tracks' (items.map (·.moved e))) sizes' := by
  simp only [contentSizes, Returns.mapM_iff] at h ⊢
  refine Rearranged.exists_forall₂ e (List.length_zipIdx.trans htracks.length_left)
    (List.length_zipIdx.trans htracks.length_right) ?_ h
  rintro i ⟨t, index⟩ ⟨t', index'⟩ ht ht' size hsize
  simp only [List.getElem?_zipIdx, htracks.entry, Option.map_eq_some_iff, Prod.mk.injEq,
    Nat.zero_add] at ht ht'
  obtain ⟨t, ht, rfl, rfl⟩ := ht
  obtain ⟨t', ht', rfl, rfl⟩ := ht'
  obtain rfl := Option.some.inj (ht.symm.trans ht')
  simpa only [contentExtent_moved] using hsize

/-- The fill tracks are handed the same room in another order, and all other tracks the same size
as before. -/
theorem Passed.exists_rearranged (h : Passed tracks items length pass)
    (htracks : Rearranged e tracks tracks') :
    ∃ pass' rest, Passed tracks' (items.map (·.moved e)) length pass' ∧
      (∀ kind ≠ .fill, Rearranged e (pass kind) (pass' kind)) ∧
      0 ≤ rest ∧ fillSizes rest tracks = pass .fill ∧ fillSizes rest tracks' = pass' .fill := by
  obtain ⟨absolute, habsolute, ha⟩ := exists_mapM_rearranged htracks h.absolute
  obtain ⟨content, hcontent, hc⟩ := exists_contentSizes_rearranged htracks h.content
  obtain ⟨relative, hrelative, hr⟩ := exists_mapM_rearranged htracks h.relative
  -- the later passes see the sizes of the earlier ones as totals only
  have hta := total_rearranged habsolute
  have htc := total_rearranged hcontent
  have htr := total_rearranged hrelative
  have hfill := h.fill
  rw [← hta, ← htc] at hr hfill
  rw [← htr] at hfill
  refine ⟨Track.Kind.pick absolute relative content _, _, ⟨ha, hc, hr, rfl⟩, ?_, le_max_right _ _,
    hfill, rfl⟩
  intro kind hkind
  cases kind with
  | absolute => exact habsolute
  | relative => exact hrelative
  | content => exact hcontent
  | fill => exact absurd rfl hkind

def EvenFill (tracks : List Track) (sizes : List Int) (part : Int) : Prop :=
  ∀ i k : Nat, i < k → tracks[i]? = some .fill → tracks[k]? = some .fill → sizes[i]? = some part

private theorem dealFill_even (part remainder : Int) (tracks : List Track) :
    EvenFill tracks (dealFill part remainder tracks) part := by
  induction tracks with
  | nil =>
    intro i k _ hi
    cases hi
  | cons track rest ih =>
    intro i k hik hi hk
    obtain ⟨k, rfl⟩ := Nat.exists_eq_add_of_lt (Nat.zero_lt_of_lt hik)
    rw [Nat.zero_add, List.getElem?_cons_succ] at hk
    cases i with
    | zero =>
      obtain rfl := Option.some.inj hi
      have hlater : rest.any Track.isFill = true :=
        List.any_eq_true.mpr ⟨_, List.mem_of_getElem? hk, rfl⟩
      simp [dealFill, hlater, show Track.fill.isFill = true from rfl]
    | succ i => exact ih i k (by omega) hi hk

/-- The fill tracks share all of what is left over, if there are any. -/
theorem sum_fillSizes_eq {rest : Int} (hrest : 0 ≤ rest) (tracks : List Track) :
    (fillSizes rest tracks).sum = if tracks.any Track.isFill then rest else 0 := by
  cases hfill : tracks.any Track.isFill with
  | true => exact sum_fillSizes hrest hfill
  | false =>
    rw [List.any_eq_false] at hfill
    rw [← (fillSizes_only hrest tracks).sum_sizesOf,
      sizesOf_eq_nil fun t ht => by simpa using hfill t ht]
    rfl

theorem Passed.sizesOf_isFill (h : Passed tracks items length pass) :
    sizesOf Track.isFill tracks (together pass) = sizesOf Track.isFill tracks (pass .fill) := by
  have hlength (kind : Track.Kind) : (pass kind).length = tracks.length :=
    (h.zero kind).length_eq.symm
  refine sizesOf_congr ?_ (hlength .fill) fun i t ht hfill => ?_
  · simp [together, addSizes, hlength]
  · obtain rfl := Track.isFill_iff.mp hfill
    exact (h.size_eq ht trivial (show Track.fill.isOf .fill = true from hfill)).1

private theorem Passed.sum_fill (h : Passed tracks items length pass) {rest : Int}
    (hrest : 0 ≤ rest)
    (hfill : fillSizes rest tracks = pass .fill) :
    (sizesOf Track.isFill tracks (together pass)).sum =
      if tracks.any Track.isFill then rest else 0 := by
  rw [h.sizesOf_isFill, ← hfill, (fillSizes_only hrest tracks).sum_sizesOf, sum_fillSizes_eq hrest]

theorem Passed.even (h : Passed tracks items length pass) {rest : Int}
    (hfill : fillSizes rest tracks = pass .fill) :
    EvenFill tracks (together pass) (rest / tracks.countP Track.isFill) := by
  intro i k hik hi hk
  rw [(h.size_eq hi trivial (show Track.fill.isOf .fill = true from rfl)).1, ← hfill]
  exact dealFill_even _ _ tracks i k hik hi hk

/-- Items that do not occupy one of the tracks alone make no difference. -/
theorem solve_congr {m : Type → Type} [Monad m] [LawfulMonad m] {items others : List (Item m)}
    (h : others.filter (·.occupies tracks.length) = items.filter (·.occupies tracks.length))
    (origin length : Int) : solve tracks origin length others = solve tracks origin length items := by
  have hcontent : contentSizes tracks others = contentSizes tracks items := by
    refine mapM_congr fun p hp => ?_
    obtain ⟨hindex, -⟩ := List.getElem?_eq_some_iff.mp (List.mem_zipIdx_iff_getElem?.mp hp)
    simp only [contentExtent_congr p.1 hindex h]
  rw [solve, solve, hcontent]

/-- The part of the fill tracks that each of them but the last one takes. -/
def commonPart (tracks : List Track) (sizes : List Int) : Int :=
  (sizesOf Track.isFill tracks sizes).sum / tracks.countP Track.isFill

/-- The same tracks in another order have the same sizes as before, at the places that they are
moved to. This is so for all tracks but fill tracks, which take the same room together, each of them
the same part of it but for the one that is last. -/
structure SameSizes (e : Equiv.Perm (Fin n)) (tracks tracks' : List Track)
    (sizes sizes' : List Int) : Prop where
  others : ∀ (i : Fin n) (t : Track), tracks[(i : Nat)]? = some t → t.isFill = false →
    ∃ size, sizes[(i : Nat)]? = some size ∧ sizes'[(e i : Nat)]? = some size
  room : (sizesOf Track.isFill tracks' sizes').sum = (sizesOf Track.isFill tracks sizes).sum
  before : EvenFill tracks sizes (commonPart tracks sizes)
  after : EvenFill tracks' sizes' (commonPart tracks sizes)

private theorem Passed.commonPart_eq (h : Passed tracks items length pass) {rest : Int}
    (hrest : 0 ≤ rest)
    (hfill : fillSizes rest tracks = pass .fill) :
    commonPart tracks (together pass) = rest / tracks.countP Track.isFill := by
  rw [commonPart, h.sum_fill hrest hfill]
  split
  · rfl
  · rename_i hnone
    have hcount : tracks.countP Track.isFill = 0 := by
      rw [List.countP_eq_zero]
      simpa using hnone
    rw [hcount, Int.natCast_zero, Int.ediv_zero, Int.ediv_zero]

private theorem Passed.size_rearranged (h : Passed tracks items length pass)
    {items' : List (Item Id)} {pass' : Track.Kind → List Int}
    (h' : Passed tracks' items' length pass') (htracks : Rearranged e tracks tracks')
    (hothers : ∀ kind ≠ .fill, Rearranged e (pass kind) (pass' kind)) {i : Fin n} {t : Track}
    (ht : tracks[(i : Nat)]? = some t) (hkind : t.isFill = false) :
    ∃ size, (together pass)[(i : Nat)]? = some size ∧ (together pass')[(e i : Nat)]? = some size := by
  have hsame (kind : Track.Kind) :
      ∃ size, (pass kind)[(i : Nat)]? = some size ∧ (pass' kind)[(e i : Nat)]? = some size := by
    obtain ⟨size, hsize, hzero⟩ := h.getElem? ht kind
    refine ⟨size, hsize, ?_⟩
    by_cases hfill : kind = .fill
    · subst hfill
      obtain ⟨size', hsize', hzero'⟩ := h'.getElem? ((htracks.entry i).trans ht) .fill
      rw [hsize', hzero hkind, hzero' hkind]
    · rw [(hothers kind hfill).entry, hsize]
  obtain ⟨absolute, ha, ha'⟩ := hsame .absolute
  obtain ⟨content, hc, hc'⟩ := hsame .content
  obtain ⟨relative, hr, hr'⟩ := hsame .relative
  obtain ⟨fill, hf, hf'⟩ := hsame .fill
  refine ⟨absolute + content + (relative + fill), ?_, ?_⟩
  · simp [together, addSizes, List.getElem?_zipWith, ha, hc, hr, hf]
  · simp [together, addSizes, List.getElem?_zipWith, ha', hc', hr', hf']

private theorem Passed.exists_sameSizes (h : Passed tracks items length pass)
    (htracks : Rearranged e tracks tracks') :
    ∃ pass', Passed tracks' (items.map (·.moved e)) length pass' ∧
      SameSizes e tracks tracks' (together pass) (together pass') := by
  obtain ⟨pass', rest, h', hothers, hrest, hfill, hfill'⟩ := h.exists_rearranged htracks
  refine ⟨pass', h', ⟨fun i t ht hkind => ?_, ?_, ?_, ?_⟩⟩
  · exact h.size_rearranged h' htracks hothers ht hkind
  · rw [h'.sum_fill hrest hfill', h.sum_fill hrest hfill, htracks.perm.any_eq]
  · rw [h.commonPart_eq hrest hfill]
    exact h.even hfill
  · rw [h.commonPart_eq hrest hfill, htracks.perm.countP_eq]
    exact h'.even hfill'

/-- The kind of a track decides its size, not its place. If the tracks of a line and the items of a
single cell in them are moved by a permutation, the line has the same sizes in the other order.
Items of more than one cell, and those that are not in exactly one of the tracks, never have a say
in this: a line is the same with any others in their place. -/
theorem solve_rearranged {tracks : List Track} {items : List (Item Id)} (origin length : Int) :
    (∀ line, Returns (solve tracks origin length items) line →
      ∀ e : Equiv.Perm (Fin tracks.length), ∃ line',
        Returns (solve (rearrange tracks e) origin length (items.map (·.moved e))) line' ∧
        SameSizes e tracks (rearrange tracks e) line.sizes line'.sizes) ∧
    ∀ others : List (Item Id),
      others.filter (·.occupies tracks.length) = items.filter (·.occupies tracks.length) →
      solve tracks origin length others = solve tracks origin length items := by
  refine ⟨fun line h e => ?_, fun others hsame => solve_congr hsame origin length⟩
  obtain ⟨pass, hpass, rfl⟩ := solve_iff_passed.mp h
  obtain ⟨pass', hpass', hsizes⟩ := hpass.exists_sameSizes (rearrange_rearranged tracks e)
  exact ⟨_, solve_iff_passed.mpr ⟨pass', hpass', rfl⟩, hsizes⟩

private def ringTracks : List Track :=
  [.number (.int 10), .fill, .sizing .preferred, .number (.float .half), .fill]

private def ringItems : List (Item Id) :=
  [⟨.one 2, true, fun _ => pure 7⟩, ⟨⟨0, 4⟩, false, fun _ => pure 500⟩,
    ⟨.one 9, true, fun _ => throw .wrongTrackKind⟩]

private def rotation : Equiv.Perm (Fin ringTracks.length) := finRotate _

theorem ringTracks_rotated :
    (∃ line', Returns (solve (rearrange ringTracks rotation) 3 51
        (ringItems.map (·.moved rotation))) line' ∧
      SameSizes rotation ringTracks (rearrange ringTracks rotation) [10, 8, 7, 17, 9]
        line'.sizes) ∧
    solve ringTracks 3 51 (ringItems.take 1) = solve ringTracks 3 51 ringItems := by
  have hline : Returns (solve ringTracks 3 51 ringItems)
      ⟨[10, 8, 7, 17, 9], [3, 13, 21, 28, 45, 54]⟩ := by
    decide +kernel
  obtain ⟨hmoved, hothers⟩ := @solve_rearranged ringTracks ringItems 3 51
  exact ⟨hmoved _ hline rotation, hothers (ringItems.take 1) rfl⟩

example : Returns (solve (rearrange ringTracks rotation) 3 51
    (ringItems.map (·.moved rotation))) ⟨[8, 10, 9, 7, 17], [3, 11, 21, 30, 37, 54]⟩ := by
  decide +kernel

end Line
end TrackGrid
