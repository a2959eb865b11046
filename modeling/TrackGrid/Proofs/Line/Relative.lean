import TrackGrid.Proofs.Line.Extents
import TrackGrid.Proofs.Number.Value
import TrackGrid.Proofs.Track.Kind

/-! All relative tracks take their fraction of one base, within little more than half a pixel of the
exact fraction. -/

namespace TrackGrid

variable {σ : Type}

namespace Track

def value? : Track → Option ℚ
  | .sizing _ => none
  | .number x => x.value?

/-- A relative track has a value between zero and one, the fraction that it takes. -/
theorem exists_fraction {t : Track} (h : t.isRelative = true) :
    ∃ p hp, t.fraction? = some (.finite false p hp) ∧ 0 < p ∧ p < Binary64.unit ∧
      t.value? = some ((p : ℚ) / Binary64.unit) := by
  obtain ⟨x, hx⟩ := Option.isSome_iff_exists.mp ((fraction?_isSome t).trans h)
  obtain ⟨p, hp, rfl, hpos, hlt⟩ := fraction?_eq_some hx
  refine ⟨p, hp, hx, hpos, hlt, ?_⟩
  obtain _ | (_ | y) := t
  · cases hx
  · cases hx
  · simp only [fraction?, Option.ite_none_right_eq_some, Option.some.injEq] at hx
    obtain ⟨-, rfl⟩ := hx
    rfl

def isFixed (t : Track) : Bool := t.isAbsolute || t.isContent

end Track

namespace Line

section
variable {p : Nat} {hp : Binary64.Representable p}

private theorem share_eq_nearest {b : Nat} {size : Int}
    (h : share (.finite false p hp) b = .ok size) :
    size = (Binary64.nearest (Binary64.nearest (p * Binary64.nearest (b * Binary64.unit) 1)
      Binary64.unit + Binary64.halfUnit) 1 / Binary64.unit : Nat) := by
  obtain ⟨x, hx, hround⟩ := bind_eq_ok_iff.mp h
  obtain ⟨hr, rfl⟩ := Binary64.ofInt_eq hx
  exact Binary64.roundHalfUp_mul_eq hround

/-- A share of a larger base is not smaller. -/
theorem share_mono {base base' size size' : Int} (hbase : 0 ≤ base) (hle : base ≤ base')
    (h : share (.finite false p hp) base = .ok size)
    (h' : share (.finite false p hp) base' = .ok size') : size ≤ size' := by
  obtain ⟨b, rfl⟩ := Int.eq_ofNat_of_zero_le hbase
  obtain ⟨b', rfl⟩ := Int.eq_ofNat_of_zero_le (hbase.trans hle)
  rw [share_eq_nearest h, share_eq_nearest h', Int.ofNat_le]
  have hnumber : Binary64.nearest (b * Binary64.unit) 1 ≤ Binary64.nearest (b' * Binary64.unit) 1 :=
    Binary64.nearest_mono Nat.one_pos (Nat.mul_le_mul_right _ (Int.ofNat_le.mp hle))
  have hproduct := Binary64.nearest_mono Binary64.unit_pos (Nat.mul_le_mul_left p hnumber)
  have hsum := Binary64.nearest_mono Nat.one_pos (Nat.add_le_add_right hproduct Binary64.halfUnit)
  exact Nat.div_le_div_right hsum

/-- A share of a base of at most 2 ^ 32 is near the exact fraction. -/
theorem share_near {base size : Int} (hlt : p < Binary64.unit) (hbase : 0 ≤ base)
    (hle : base ≤ 2 ^ 32) (h : share (.finite false p hp) base = .ok size) :
    |(size : ℚ) - (p : ℚ) / Binary64.unit * base| ≤ 1 / 2 + 1 / 2 ^ 20 := by
  obtain ⟨b, rfl⟩ := Int.eq_ofNat_of_zero_le hbase
  have hb : b ≤ Nat.pow 2 32 := by exact_mod_cast hle
  have hwhole : b ≤ Binary64.widest := hb.trans (by decide +kernel)
  have hexact : Binary64.nearest (p * Binary64.nearest (b * Binary64.unit) 1) Binary64.unit =
      Binary64.nearest (p * b) 1 := by
    have hscaled := Binary64.nearest_mul_mul Binary64.unit_pos (p * b) 1
    rw [Nat.mul_one] at hscaled
    rw [Binary64.nearest_one (Binary64.representable_whole hwhole), ← hscaled]
    congr 1
    ring
  have hnear := Binary64.rounded_fraction_near hlt.le hb
  rw [share_eq_nearest h, hexact]
  exact_mod_cast hnear

end

/-- The base of the relative tracks: what the tracks with a size of their own leave of a length. -/
def base (tracks : List Track) (length : Int) (sizes : List Int) : Int :=
  max (length - (sizesOf Track.isFixed tracks sizes).sum) 0

/-- The base that is found before there is a line is that of the line. -/
theorem base_eq {tracks : List Track} {length : Int} {absolute content relative fill : List Int}
    (habsolute : Only Track.isAbsolute tracks absolute)
    (hcontent : Only Track.isContent tracks content)
    (hrelative : Only (fun t => t.fraction?.isSome) tracks relative)
    (hfill : Only Track.isFill tracks fill) :
    base tracks length (addSizes (addSizes absolute content) (addSizes relative fill)) =
      max (length - absolute.sum - content.sum) 0 := by
  have hfixed : Only Track.isFixed tracks (addSizes absolute content) :=
    (habsolute.mono fun t ht => by rw [Track.isFixed, ht, Bool.true_or]).add
      (hcontent.mono fun t ht => by rw [Track.isFixed, ht, Bool.or_true])
  have hothers : Only (fun t => !t.isFixed) tracks (addSizes relative fill) := by
    refine (hrelative.mono fun t ht => ?_).add (hfill.mono fun t ht => ?_)
    · obtain _ | x := t
      · cases ht
      · rw [Track.fraction?_isSome] at ht
        have hkind : (Track.number x).isAbsolute = false := by
          rw [Bool.eq_false_iff]
          intro ha
          rw [Track.isRelative_of_isAbsolute ha] at ht
          cases ht
        rw [Track.isFixed, hkind]
        rfl
    · rw [Track.isFill_iff.mp ht]
      rfl
  have hcomm : addSizes (addSizes absolute content) (addSizes relative fill) =
      addSizes (addSizes relative fill) (addSizes absolute content) :=
    List.zipWith_comm_of_comm Int.add_comm
  rw [base, hcomm, hothers.sizesOf_addSizes hfixed.length_eq, hfixed.sum_sizesOf,
    sum_addSizes (habsolute.length_eq.trans hcontent.length_eq.symm), Int.sub_sub]

/-- A relative track takes its share of the base of the line. -/
theorem exists_share_of_base {tracks : List Track} {origin length : Int} {content : List Int}
    {line : Line} (hcontent : Only Track.isContent tracks content)
    (h : solved tracks origin length content = .ok line) {i : Nat} {track : Track}
    (htrack : tracks[i]? = some track) {fraction : Binary64}
    (hfraction : track.fraction? = some fraction) :
    ∃ size, line.sizes[i]? = some size ∧
      share fraction (base tracks length line.sizes) = .ok size := by
  obtain ⟨absolute, relative, fill, ha, -, habsolute, hrelative, hfill, hsizes⟩ := exists_passes h
  obtain ⟨size, hshare, hsize⟩ := getElem?_solved_relative hcontent h ha htrack hfraction
  refine ⟨size, hsize, ?_⟩
  rw [hsizes, base_eq habsolute hcontent hrelative hfill]
  exact hshare

private theorem base_le {tracks : List Track} {sizes : List Int} (hsizes : ∀ size ∈ sizes, 0 ≤ size)
    (length : Int) : base tracks length sizes ≤ max length 0 := by
  have hsum : 0 ≤ (sizesOf Track.isFixed tracks sizes).sum := by
    refine List.sum_nonneg fun size hsize => hsizes size ?_
    obtain ⟨p, hp, rfl⟩ := List.mem_map.mp hsize
    exact (List.of_mem_zip (List.mem_filter.mp hp).1).2
  rw [base]
  omega

/-- Sizes that are near the fractions of one base do not exceed it by more, if the fractions add up to
no more than one. -/
theorem sum_shares_le {base slack : ℚ} (hbase : 0 ≤ base) {chosen : List (Track × Int)}
    (h : ∀ p ∈ chosen, ∃ f, p.1.value? = some f ∧ |(p.2 : ℚ) - f * base| ≤ slack)
    (hsum : (chosen.filterMap (·.1.value?)).sum ≤ 1) :
    (((chosen.map Prod.snd).sum : Int) : ℚ) ≤ base + chosen.length * slack := by
  have hle : (((chosen.map Prod.snd).sum : Int) : ℚ) ≤
      (chosen.filterMap (·.1.value?)).sum * base + chosen.length * slack := by
    clear hsum
    induction chosen with
    | nil => simp
    | cons p rest ih =>
      obtain ⟨⟨f, hf, hnear⟩, hrest⟩ := List.forall_mem_cons.mp h
      have htail := ih hrest
      have hfirst := (abs_le.mp hnear).2
      have hfractions : (p :: rest).filterMap (·.1.value?) = f :: rest.filterMap (·.1.value?) :=
        List.filterMap_cons_some hf
      rw [hfractions, List.map_cons, List.sum_cons, List.sum_cons, List.length_cons, Int.cast_add,
        Nat.cast_add_one]
      linarith
  have hbound := mul_le_mul_of_nonneg_right hsum hbase
  linarith

/-- Items that repeat what they answer give the same content each time. -/
theorem exists_contentSizes_gives {kept : σ → Prop} {items : List (Item (StateM σ))}
    (hitems : ∀ item ∈ items, ∀ kind, ∃ answer, Gives kept (item.extent kind) answer)
    (tracks : List Track) : ∃ answer, Gives kept (contentSizes tracks items) answer := by
  choose! answer hanswer using hitems
  have hextent (p : Track × Nat) : ∃ size, Gives kept
      (if p.1.isContent then contentExtent p.1 p.2 items else pure 0) size := by
    obtain ⟨kind | x, index⟩ := p
    · have hlargest : ∃ size, Gives kept (largestExtent kind index items) size :=
        ⟨_, Gives.foldlM _ (fun best item hitem =>
          (hanswer item (List.mem_filter.mp hitem).1 kind).bind fun extent => .pure _) 0⟩
      cases kind with
      | fill => exact ⟨_, .pure 0⟩
      | preferred | minimum => exact hlargest
    · exact ⟨_, .pure 0⟩
  choose size hsize using hextent
  exact ⟨_, Gives.mapM _ fun p _ => hsize p⟩

section
variable {tracks : List Track} {items : List (Item (StateM σ))} {origin length : Int} {s t : σ}
  {line : Line}

private theorem relative_near (h : (solve tracks origin length items).run.run s = (.ok line, t))
    (hlength : length ≤ 2 ^ 32) {i : Nat} {track : Track} (htrack : tracks[i]? = some track)
    (hkind : track.isRelative = true) :
    ∃ (f : ℚ) (size : Int), track.value? = some f ∧ 0 < f ∧ f < 1 ∧ line.sizes[i]? = some size ∧
      |(size : ℚ) - f * base tracks length line.sizes| ≤ 1 / 2 + 1 / 2 ^ 20 := by
  obtain ⟨content, -, hcontent, hsolved⟩ := exists_solved h
  obtain ⟨p, hp, hfraction, hpos, hlt, hvalue⟩ := Track.exists_fraction hkind
  obtain ⟨size, hsize, hshare⟩ := exists_share_of_base hcontent hsolved htrack hfraction
  have hbound : base tracks length line.sizes ≤ 2 ^ 32 :=
    (base_le (solve_conserves h).2.1 length).trans (max_le hlength (by norm_num))
  have hunit := Binary64.unit_pos_rat
  refine ⟨_, size, hvalue, div_pos (by exact_mod_cast hpos) hunit, ?_, hsize,
    share_near hlt (le_max_right _ _) hbound hshare⟩
  rw [div_lt_one hunit]
  exact_mod_cast hlt

/-- With the same content, the base of a longer line is not smaller. -/
theorem relative_grows {kept : σ → Prop} (hs : kept s)
    (hitems : ∀ item ∈ items, ∀ kind, ∃ answer, Gives kept (item.extent kind) answer)
    (h : (solve tracks origin length items).run.run s = (.ok line, t)) {origin' length' : Int}
    {s' t' : σ} {line' : Line} (hs' : kept s') (hle : length ≤ length')
    (h' : (solve tracks origin' length' items).run.run s' = (.ok line', t')) {i : Nat}
    {track : Track} (htrack : tracks[i]? = some track) (hkind : track.isRelative = true) :
    ∃ size size', line.sizes[i]? = some size ∧ line'.sizes[i]? = some size' ∧ size ≤ size' := by
  obtain ⟨content, hasked, hcontent, hsolved⟩ := exists_solved h
  obtain ⟨content', hasked', -, hsolved'⟩ := exists_solved h'
  have hsame : content = content' := by
    obtain ⟨answer, hanswer⟩ := exists_contentSizes_gives hitems tracks
    have hfirst := (hanswer s hs).1
    have hsecond := (hanswer s' hs').1
    rw [hasked] at hfirst
    rw [hasked'] at hsecond
    exact Except.ok.inj (hfirst.trans hsecond.symm)
  subst hsame
  obtain ⟨absolute, -, -, ha, -⟩ := exists_passes hsolved
  obtain ⟨p, hp, hfraction, -⟩ := Track.exists_fraction hkind
  obtain ⟨size, hshare, hsize⟩ := getElem?_solved_relative hcontent hsolved ha htrack hfraction
  obtain ⟨size', hshare', hsize'⟩ := getElem?_solved_relative hcontent hsolved' ha htrack hfraction
  refine ⟨size, size', hsize, hsize', share_mono (le_max_right _ _) ?_ hshare hshare'⟩
  exact max_le_max (Int.sub_le_sub_right (Int.sub_le_sub_right hle _) _) le_rfl

/-- Relative tracks take their fraction of one base, what the tracks with a size of their own leave of
the length. In a length of at most 2 ^ 32 each of them is within 1 / 2 + 1 / 2 ^ 20 of its exact
fraction, and any of them whose fractions add up to no more than one exceed the base together by no
more than that for each. In a larger length, with items that repeat what they answer, none of them is
smaller. -/
theorem relative_shares (h : (solve tracks origin length items).run.run s = (.ok line, t)) :
    (length ≤ 2 ^ 32 →
      (∀ (i : Nat) (track : Track), tracks[i]? = some track → track.isRelative = true →
        ∃ (f : ℚ) (size : Int), track.value? = some f ∧ 0 < f ∧ f < 1 ∧ line.sizes[i]? = some size ∧
          |(size : ℚ) - f * base tracks length line.sizes| ≤ 1 / 2 + 1 / 2 ^ 20) ∧
      ∀ chosen : List (Track × Int),
        chosen.Sublist ((tracks.zip line.sizes).filter (·.1.isRelative)) →
        (chosen.filterMap (·.1.value?)).sum ≤ 1 →
        (((chosen.map Prod.snd).sum : Int) : ℚ) ≤
          base tracks length line.sizes + chosen.length * (1 / 2 + 1 / 2 ^ 20)) ∧
    ∀ kept : σ → Prop, kept s →
      (∀ item ∈ items, ∀ kind, ∃ answer, Gives kept (item.extent kind) answer) →
      ∀ (origin' length' : Int) (s' t' : σ) (line' : Line), kept s' → length ≤ length' →
        (solve tracks origin' length' items).run.run s' = (.ok line', t') →
        ∀ (i : Nat) (track : Track), tracks[i]? = some track → track.isRelative = true →
          ∃ size size', line.sizes[i]? = some size ∧ line'.sizes[i]? = some size' ∧
            size ≤ size' := by
  refine ⟨fun hlength => ⟨fun i track htrack hkind => relative_near h hlength htrack hkind, ?_⟩, ?_⟩
  · intro chosen hchosen hsum
    have hbase : 0 ≤ base tracks length line.sizes := le_max_right _ _
    refine sum_shares_le (by exact_mod_cast hbase) (fun p hmem => ?_) hsum
    obtain ⟨hzip, hkind⟩ := List.mem_filter.mp (hchosen.subset hmem)
    obtain ⟨i, hi⟩ := List.getElem?_of_mem hzip
    obtain ⟨htrack, hp⟩ := List.getElem?_zip_eq_some.mp hi
    obtain ⟨f, size, hvalue, -, -, hsize, hnear⟩ := relative_near h hlength htrack hkind
    obtain rfl := Option.some.inj (hsize.symm.trans hp)
    exact ⟨f, hvalue, hnear⟩
  · intro kept hs hitems origin' length' s' t' line' hs' hle h' i track htrack hkind
    exact relative_grows hs hitems h hs' hle h' htrack hkind

end

private def quarter : Track := .number (.float (Binary64.ofRatio 1 4))

private def quarterTracks : List Track :=
  [.number (.int 10), quarter, .sizing .preferred, .number (.float .half), .fill]

private def quarterItems : List (Item (StateM Unit)) := [⟨.one 2, true, fun _ => pure 7⟩]

private def quarterSizes : List Int := [10, 9, 7, 17, 8]

private def quarterSizesLonger : List Int := [10, 11, 7, 22, 10]

private theorem quarterTracks_solved :
    (solve quarterTracks 0 51 quarterItems).run.run () = (.ok (ofSizes 0 quarterSizes), ()) ∧
    (solve quarterTracks 0 60 quarterItems).run.run () = (.ok (ofSizes 0 quarterSizesLonger), ()) := by
  change @Eq (Except Fault Line × Unit) _ _ ∧ @Eq (Except Fault Line × Unit) _ _
  decide +kernel

/-- A quarter and a half of 34 pixels are 9 and 17, and of nine pixels more they are 11 and 22. -/
theorem quarterTracks_share :
    base quarterTracks 51 quarterSizes = 34 ∧
    |((9 : Int) : ℚ) - 1 / 4 * ((34 : Int) : ℚ)| ≤ 1 / 2 + 1 / 2 ^ 20 ∧
    (([9, 17].sum : Int) : ℚ) ≤ ((34 : Int) : ℚ) + (2 : Nat) * (1 / 2 + 1 / 2 ^ 20) ∧
    ∃ size size', quarterSizes[1]? = some size ∧ quarterSizesLonger[1]? = some size' ∧
      size ≤ size' := by
  have hbase : base quarterTracks 51 quarterSizes = 34 := by decide +kernel
  have hsizes : (ofSizes 0 quarterSizes).sizes = quarterSizes := rfl
  have hquarter : quarterTracks[1]? = some quarter := rfl
  have hkind : quarter.isRelative = true := by decide +kernel
  have hpairs : (quarterTracks.zip quarterSizes).filter (·.1.isRelative) =
      [(quarter, 9), (.number (.float .half), 17)] := by
    decide +kernel
  have hfractions : [(quarter, (9 : Int)), (.number (.float .half), 17)].filterMap (·.1.value?) =
      [1 / 4, 1 / 2] := by
    decide +kernel
  have hrepeat : ∀ item ∈ quarterItems, ∀ kind,
      ∃ answer, Gives (fun _ => True) (item.extent kind) answer := by
    intro item hitem kind
    obtain rfl := List.mem_singleton.mp hitem
    exact ⟨_, .pure 7⟩
  obtain ⟨hshares, hgrows⟩ := relative_shares quarterTracks_solved.1
  obtain ⟨hnear, htogether⟩ := hshares (by norm_num)
  refine ⟨hbase, ?_, ?_, ?_⟩
  · obtain ⟨f, size, hvalue, -, -, hsize, hdiff⟩ := hnear 1 quarter hquarter hkind
    obtain rfl : f = 1 / 4 := Option.some.inj (hvalue.symm.trans (by decide +kernel))
    obtain rfl := Option.some.inj hsize
    rwa [hsizes, hbase] at hdiff
  · have hsum := htogether _ (List.Sublist.refl _)
    rw [hsizes, hpairs, hfractions, hbase] at hsum
    exact hsum (by norm_num)
  · exact hgrows (fun _ => True) trivial hrepeat 0 60 () () _ trivial (by norm_num)
      quarterTracks_solved.2 1 quarter hquarter hkind

end Line
end TrackGrid
