import TrackGrid.Proofs.Line.Splitting
import TrackGrid.Proofs.Number.Range

/-! When a length can be required: just if no need is so large for its share that the quotient is
infinite. -/

namespace TrackGrid

def Track.atMost (bound : Int) : Track → Bool
  | .sizing _ => true
  | .number x => x.le (.int bound)

namespace Line

variable {m : Type → Type} {tracks : List Track} {i : Interval}

/-- Whether a need can be divided by a share: as a number it is less than so many times the share as
there are integers in the range of floating-point numbers. -/
def Scalable (share : Binary64) (need : Int) : Prop :=
  Binary64.nearest (need.natAbs * Binary64.unit) 1 < share.magnitude * Binary64.intLimit

instance (share : Binary64) (need : Int) : Decidable (Scalable share need) :=
  inferInstanceAs (Decidable (_ < _))

section
variable {q : Nat} {hq : Binary64.Representable q} {need : Int}

private theorem exists_scaledBy (hneed : need.natAbs < Binary64.intLimit)
    (h : Scalable (.finite false q hq) need) :
    ∃ k, scaledBy (.finite false q hq) need = .ok k := by
  obtain ⟨negative, hr, hx⟩ := Binary64.ofInt_of_natAbs_lt hneed
  have hquotient : ∃ k, (.finite negative _ hr / .finite false q hq : Binary64).roundHalfUp = .ok k :=
    Binary64.exists_roundHalfUp_div h
  obtain ⟨k, hk⟩ := hquotient
  exact ⟨k, bind_eq_ok_iff.mpr ⟨_, hx, hk⟩⟩

private theorem scaledBy_of_not_scalable (hneed : need.natAbs < Binary64.intLimit) (hpos : 0 < q)
    (h : ¬ Scalable (.finite false q hq) need) :
    scaledBy (.finite false q hq) need = .error .infiniteInteger := by
  obtain ⟨negative, hr, hx⟩ := Binary64.ofInt_of_natAbs_lt hneed
  rw [scaledBy, hx]
  exact Binary64.roundHalfUp_div_of_le hpos (Nat.le_of_not_lt h)

end

/-- Tracks that share the room receive something of it. -/
theorem scale_finite (h : (i.slice tracks).any Track.takesShare = true)
    (hfew : tracks.length ≤ largestIndex) :
    ∃ q hq, scale tracks i = .finite false q hq ∧ 0 < q := by
  have hlength : (shares tracks i).length = (i.slice tracks).countP Track.takesShare := by
    rw [shares, List.length_filterMap_eq_countP]
    simp only [shareOf?_isSome]
  have hsome : 0 < (shares tracks i).length := by
    rw [hlength, List.countP_pos_iff]
    exact List.any_eq_true.mp h
  have htakers : (shares tracks i).length ≤ tracks.countP Track.takesShare :=
    hlength ▸ (i.slice_sublist tracks).countP_le
  obtain ⟨hr, heq⟩ := sumShares_eq fun x (hx : x ∈ shares tracks i) => shares_share hx
  by_cases hsum : Binary64.addUp 0 ((shares tracks i).map Binary64.magnitude) = 0
  · obtain ⟨hshare, hpart⟩ := Binary64.ofRatio_share hsome htakers
    obtain ⟨q, hq, hratio, -⟩ := hshare.eq_finite
    refine ⟨q, hq, ?_, ?_⟩
    · rw [scale, heq, Number.le_zero_finite, decide_eq_true hsum, if_pos rfl, hratio]
    · have hleast := hpart (List.countP_le_length.trans hfew)
      rw [hratio] at hleast
      exact Nat.lt_of_lt_of_le (by decide +kernel) hleast
  · refine ⟨_, hr, ?_, Nat.pos_of_ne_zero hsum⟩
    rw [scale, heq, Number.le_zero_finite, decide_eq_false hsum]
    rfl

/-- Clean tracks, no more of them than a list can have, and none of more than 2 ^ 31 pixels. -/
structure Moderate (tracks : List Track) : Prop where
  clean : ∀ t ∈ tracks, t.Clean
  few : tracks.length ≤ largestIndex
  small : ∀ t ∈ tracks, t.atMost (2 ^ 31) = true

private theorem quanta?_le_of_le {x : Number} {y : Binary64} {p : Int} {n : Nat}
    (hn : n ≤ Binary64.widest) (h : x.le (.int n) = true) (hy : x.toBinary64 = .ok y)
    (hp : y.quanta? = some p) : p ≤ n * Binary64.unit := by
  have hunit : (0 : Int) < Binary64.unit := by exact_mod_cast Binary64.unit_pos
  obtain k | x := x
  · have hk : k ≤ n := by
      simp only [Number.le, Number.position, Position.le, decide_eq_true_eq] at h
      exact Int.le_of_mul_le_mul_right h hunit
    have hround : Binary64.rounded 1 (n * Binary64.unit) = n * Binary64.unit := by
      have hr := Binary64.rounded_of_signed Nat.one_pos false (n * Binary64.unit)
      rw [Binary64.nearest_one (Binary64.representable_whole hn)] at hr
      simpa [Binary64.signed] using hr
    rw [Binary64.quanta?_ofInt hy, Option.some.injEq] at hp
    rw [← hp, ← hround]
    exact Binary64.rounded_mono Nat.one_pos (Int.mul_le_mul_of_nonneg_right hk hunit.le)
  · obtain rfl := Except.ok.inj hy
    cases x with
    | finite negative q hq =>
      obtain rfl := Option.some.inj hp
      simpa [Number.le, Number.position, Position.le] using h
    | infinite | nan => cases hp

/-- A number of at most so many pixels is rounded to no more. -/
theorem pixels_le {x : Number} {n : Nat} {k : Int} (hn : n ≤ Binary64.widest)
    (h : x.le (.int n) = true) (hk : (Track.number x).pixels = .ok k) : k ≤ n := by
  obtain ⟨y, hy, hk⟩ := bind_eq_ok_iff.mp hk
  obtain ⟨p, hp, -⟩ := Binary64.roundHalfUp_eq hk
  have hle : p ≤ Binary64.signed false (n * Binary64.unit) := by
    simpa [Binary64.signed] using quanta?_le_of_le hn h hy hp
  exact Binary64.roundHalfUp_mono hp rfl hle hk (Binary64.roundHalfUp_natCast hn)

private theorem absoluteSizes_le (h : Moderate tracks) {absolute : List Int}
    (ha : absoluteSizes tracks = .ok absolute) : ∀ size ∈ absolute, size ≤ 2 ^ 31 := by
  refine forall_of_mapM_eq_ok ha fun t ht size hsize => ?_
  cases habsolute : t.isAbsolute with
  | false =>
    rw [if_neg (by simp [habsolute])] at hsize
    obtain rfl := pure_eq_ok_iff.mp hsize
    decide
  | true =>
    rw [if_pos habsolute] at hsize
    cases t with
    | sizing => cases habsolute
    | number x => exact pixels_le (n := 2 ^ 31) (by decide +kernel) (h.small _ ht) hsize

section
variable {extent : Item m → Sizing → Int} {items : List (Item m)}
  (hextents : ∀ item ∈ items, ∀ kind, 0 ≤ extent item kind ∧ extent item kind ≤ 2 ^ 31)
include hextents

private theorem contents_le : ∀ size ∈ contents extent tracks items, size ≤ 2 ^ 31 := by
  have hlargest (kind : Sizing) (index : Int) : largest (extent · kind) index items ≤ 2 ^ 31 :=
    largest_le_iff.mpr ⟨by decide, fun item hitem _ => (hextents item hitem kind).2⟩
  intro size hsize
  obtain ⟨⟨t, index⟩, -, rfl⟩ := List.mem_map.mp hsize
  have hzero : (0 : Int) ≤ 2 ^ 31 := by decide
  obtain (_ | _ | _) | _ := t
  · exact hzero
  · exact hlargest .preferred index
  · exact hlargest .minimum index
  · exact hzero

private def needLimit : Nat := Nat.pow 2 95

/-- Extents and sizes of a few pixels do not add up to a large need. -/
private theorem beyond_le (h : Moderate tracks) {absolute : List Int}
    (ha : absoluteSizes tracks = .ok absolute) {item : Item m} (hitem : item ∈ items)
    (kind : Sizing) :
    (beyond (extent · kind) (fixedSizes extent absolute tracks items) item).natAbs ≤ needLimit := by
  have habsolute := absoluteSizes_only ha
  have hcontent := contents_only extent tracks items
  have hnonneg : ∀ size ∈ fixedSizes extent absolute tracks items, 0 ≤ size := by
    have hany {kind : Track → Bool} {xs : List Int} (hxs : Only kind tracks xs) :
        Only (fun _ => true) tracks xs := hxs.mono fun _ _ => rfl
    exact ((hany habsolute).add (hany hcontent)).nonneg
  have hslice := item.tracks.slice_sublist (fixedSizes extent absolute tracks items)
  have hlow : 0 ≤ (item.tracks.slice (fixedSizes extent absolute tracks items)).sum :=
    List.sum_nonneg fun size hsize => hnonneg size (hslice.subset hsize)
  have hhigh : (item.tracks.slice (fixedSizes extent absolute tracks items)).sum ≤
      tracks.length * 2 ^ 31 + tracks.length * 2 ^ 31 := by
    have hcontents : ∀ size ∈ contents extent tracks items, size ≤ 2 ^ 31 := contents_le hextents
    have hsums := List.sum_le_card_nsmul _ _ (absoluteSizes_le h ha)
    have hsums' := List.sum_le_card_nsmul _ _ hcontents
    rw [habsolute.length_eq, nsmul_eq_mul] at hsums
    rw [hcontent.length_eq, nsmul_eq_mul] at hsums'
    calc
      _ ≤ (fixedSizes extent absolute tracks items).sum := hslice.sum_le_sum hnonneg
      _ = absolute.sum + (contents extent tracks items).sum :=
        sum_addSizes (habsolute.length_eq.trans hcontent.length_eq.symm)
      _ ≤ _ := Int.add_le_add hsums hsums'
  have hextent := hextents item hitem kind
  have hfew : (tracks.length : Int) ≤ 9223372036854775807 := by exact_mod_cast h.few
  have hlimit : (needLimit : Int) = 2 ^ 95 := by decide +kernel
  rw [beyond]
  omega

end

def AllScalable (extent : Item m → Sizing → Int) (tracks : List Track) (items : List (Item m))
    (kind : Sizing) : Prop :=
  ∃ absolute, absoluteSizes tracks = .ok absolute ∧ ∀ item ∈ demanding tracks items,
    Scalable (scale tracks item.tracks)
      (beyond (extent · kind) (fixedSizes extent absolute tracks items) item)

/-- No fraction of a relative track is below 2 ^ -900. -/
def Coarse (tracks : List Track) : Prop := ∀ x ∈ fractions tracks, Nat.pow 2 174 ≤ x.magnitude

instance (tracks : List Track) : Decidable (Coarse tracks) :=
  inferInstanceAs (Decidable (∀ x ∈ fractions tracks, _))

/-- Then no share is tiny: what is left for fill tracks is either nothing or by far more. -/
private theorem coarse_scale (hcoarse : Coarse tracks) (hfew : tracks.length ≤ largestIndex)
    (h : (i.slice tracks).any Track.takesShare = true) :
    Nat.pow 2 174 ≤ (scale tracks i).magnitude := by
  have hleast : Nat.pow 2 174 ≤ Binary64.leastPart := by decide +kernel
  have hlarge {x : Binary64} (hx : x ∈ shares tracks i) (hle : Nat.pow 2 174 ≤ x.magnitude) :
      Nat.pow 2 174 ≤ (scale tracks i).magnitude := by
    rw [scale_of_pos hx (Nat.lt_of_lt_of_le (by decide +kernel) hle)]
    exact hle.trans (magnitude_le_sumShares (fun _ => shares_share) hx)
  by_cases hrelative : ∃ t ∈ i.slice tracks, t.isRelative = true
  · obtain ⟨t, ht, htrue⟩ := hrelative
    obtain ⟨x, hx⟩ := Option.isSome_iff_exists.mp ((Track.fraction?_isSome t).trans htrue)
    refine hlarge (List.mem_filterMap.mpr ⟨t, ht, ?_⟩)
      (hcoarse x (List.mem_filterMap.mpr ⟨t, i.mem_of_mem_slice ht, hx⟩))
    have hfill : t.isFill = false := by
      rw [Bool.eq_false_iff]
      intro hfill
      rw [Track.isFill_iff.mp hfill] at hx
      cases hx
    rw [shareOf?, hfill]
    exact hx
  · have hnone : ∀ t ∈ i.slice tracks, t.isRelative = false := fun t ht =>
      Bool.eq_false_iff.mpr fun htrue => hrelative ⟨t, ht, htrue⟩
    obtain ⟨t, ht, htake⟩ := List.any_eq_true.mp h
    have hfill : t.isFill = true := by
      rwa [Track.takesShare, hnone t ht, Bool.false_or] at htake
    have hslice : 0 < (i.slice tracks).countP Track.isFill := List.countP_pos_iff.mpr ⟨t, ht, hfill⟩
    rcases lt_or_ge (computedSum tracks) Binary64.unit with hshort | hfull
    · have hsome := hslice.trans_le (i.slice_sublist tracks).countP_le
      have hmem : fillShare tracks ∈ shares tracks i :=
        List.mem_filterMap.mpr ⟨t, ht, by rw [shareOf?, hfill, if_pos rfl]⟩
      exact hlarge hmem (hleast.trans ((fillShare_cases hsome).2.2 hshort hfew))
    · have htakers : (i.slice tracks).countP Track.isFill ≤ tracks.countP Track.takesShare :=
        (i.slice_sublist tracks).countP_le.trans (List.countP_mono_left fun t _ hfill => by
          rw [Track.takesShare, hfill, Bool.or_true])
      rw [scale_of_full hnone hslice hfull]
      exact hleast.trans ((Binary64.ofRatio_share hslice htakers).2
        (List.countP_le_length.trans hfew))

private theorem scalable_of_large {share : Binary64} (hshare : Nat.pow 2 174 ≤ share.magnitude)
    {need : Int} (hneed : need.natAbs ≤ needLimit) : Scalable share need := by
  have hlimit : Binary64.Representable (needLimit * Binary64.unit) := by decide +kernel
  calc
    Binary64.nearest (need.natAbs * Binary64.unit) 1 ≤ needLimit * Binary64.unit := by
      refine Binary64.nearest_le_of_representable Nat.one_pos hlimit ?_
      rw [Nat.one_mul]
      exact Nat.mul_le_mul_right _ hneed
    _ < Nat.pow 2 174 * Binary64.intLimit := by decide +kernel
    _ ≤ share.magnitude * Binary64.intLimit := Nat.mul_le_mul_right _ hshare

section
variable {extent : Item m → Sizing → Int} {items : List (Item m)}
  (hextents : ∀ item ∈ items, ∀ kind, 0 ≤ extent item kind ∧ extent item kind ≤ 2 ^ 31)
  (h : Moderate tracks) (kind : Sizing)
include hextents h

theorem allScalable_of_coarse (hcoarse : Coarse tracks) : AllScalable extent tracks items kind := by
  obtain ⟨absolute, ha⟩ := exists_absoluteSizes h.clean
  refine ⟨absolute, ha, fun item hitem => ?_⟩
  obtain ⟨hinside, htakes⟩ := List.mem_filter.mp hitem
  exact scalable_of_large (coarse_scale hcoarse h.few htakes)
    (beyond_le hextents h ha (List.mem_filter.mp hinside).1 kind)

private theorem scaledBy_demanded {absolute : List Int} (ha : absoluteSizes tracks = .ok absolute)
    {item : Item m} (hitem : item ∈ demanding tracks items) :
    (Scalable (scale tracks item.tracks)
        (beyond (extent · kind) (fixedSizes extent absolute tracks items) item) →
      ∃ k, scaledBy (scale tracks item.tracks)
        (beyond (extent · kind) (fixedSizes extent absolute tracks items) item) = .ok k) ∧
    (¬ Scalable (scale tracks item.tracks)
        (beyond (extent · kind) (fixedSizes extent absolute tracks items) item) →
      scaledBy (scale tracks item.tracks)
        (beyond (extent · kind) (fixedSizes extent absolute tracks items) item) =
          .error .infiniteInteger) := by
  obtain ⟨hinside, htakes⟩ := List.mem_filter.mp hitem
  have hneed := beyond_le hextents h ha (List.mem_filter.mp hinside).1 kind
  have hlimit : needLimit < Binary64.intLimit := by decide +kernel
  obtain ⟨q, hq, heq, hpos⟩ := scale_finite htakes h.few
  rw [heq]
  exact ⟨exists_scaledBy (hneed.trans_lt hlimit),
    scaledBy_of_not_scalable (hneed.trans_lt hlimit) hpos⟩

/-- The required length is found just if all needs can be divided by their shares. -/
theorem requiredOf_finite :
    (AllScalable extent tracks items kind →
      ∃ length, requiredOf extent tracks items kind = .ok length) ∧
    (¬ AllScalable extent tracks items kind →
      requiredOf extent tracks items kind = .error .infiniteInteger) := by
  constructor
  · rintro ⟨absolute, ha, hall⟩
    obtain ⟨needs, hneeds⟩ := exists_mapM_iff.mpr fun item hitem =>
      (scaledBy_demanded hextents h kind ha hitem).1 (hall item hitem)
    rw [requiredOf_eq ha, hneeds]
    exact ⟨_, rfl⟩
  · intro hnot
    obtain ⟨absolute, ha⟩ := exists_absoluteSizes h.clean
    have hexists : ∃ item ∈ demanding tracks items, ¬ Scalable (scale tracks item.tracks)
        (beyond (extent · kind) (fixedSizes extent absolute tracks items) item) := by
      by_contra! hall
      exact hnot ⟨absolute, ha, hall⟩
    rw [requiredOf_eq ha, mapM_eq_error
      (fun item hitem => (scaledBy_demanded hextents h kind ha hitem).1)
      (fun item hitem => (scaledBy_demanded hextents h kind ha hitem).2) hexists]
    rfl

end

end Line
end TrackGrid
