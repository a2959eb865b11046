import TrackGrid.Proofs.Number.Whole

/-! Sums of shares, added from left to right with one rounding after each. What is lost of a sum
below one depends on how many shares there are. -/

namespace TrackGrid

namespace Number

private theorem lt_zero_of_nonneg {x : Binary64} (h : x.Nonneg) :
    (float x).lt (.int 0) = false := by
  cases x with
  | nan => rfl
  | infinite negative =>
    obtain rfl : negative = false := h
    rfl
  | finite negative q hq =>
    have hq : 0 ≤ Binary64.signed negative q := h
    simp [lt, le, position, Position.le, hq]

theorem le_zero_finite {q : Nat} {hq : Binary64.Representable q} :
    (float (.finite false q hq)).le (.int 0) = decide (q = 0) := by
  simp [le, position, Position.le, Binary64.signed]

end Number

namespace Binary64

def magnitude : Binary64 → Nat
  | .finite _ q _ => q
  | _ => 0

/-- From zero to one and without a sign, as shares are. -/
def Share : Binary64 → Prop
  | .finite negative q _ => negative = false ∧ q ≤ unit
  | _ => False

theorem Share.eq_finite {x : Binary64} (h : x.Share) :
    ∃ q hr, x = .finite false q hr ∧ q ≤ unit := by
  cases x with
  | infinite | nan => cases h
  | finite negative q hr =>
    obtain ⟨rfl, hq⟩ := h
    exact ⟨q, hr, rfl, hq⟩

theorem zero_eq : zero = .finite false 0 (by decide +kernel) := by decide +kernel

private theorem ofQuotient_zero : ofQuotient false 0 1 = zero := by decide +kernel

private theorem zero_share : zero.Share := by
  rw [zero_eq]
  exact ⟨rfl, Nat.zero_le _⟩

theorem le_nearest_of_representable {num den m : Nat} (hden : 0 < den) (hm : Representable m)
    (h : den * m ≤ num) : m ≤ nearest num den := by
  rw [← nearest_mul hden hm]
  exact nearest_mono hden h

/-- A sum of shares that no further share changes, 2 ^ 53 in quanta. -/
def ceiling : Nat := Nat.pow 2 53 * unit

private theorem ceiling_representable : Representable ceiling := by decide +kernel

private theorem nearest_ceiling : nearest (ceiling + unit) 1 = ceiling := by decide +kernel

/-- A magnitude and further ones, added from left to right. -/
def addUp (a : Nat) (qs : List Nat) : Nat := qs.foldl (fun sum q => nearest (sum + q) 1) a

section
variable {a : Nat}

private theorem nearest_add_le {q : Nat} (hle : a ≤ ceiling) (hq : q ≤ unit) :
    nearest (a + q) 1 ≤ ceiling :=
  nearest_ceiling ▸ nearest_mono Nat.one_pos (Nat.add_le_add hle hq)

private theorem representable_of_le {num : Nat} (h : nearest num 1 ≤ ceiling) :
    Representable (nearest num 1) :=
  ⟨nearest_mod_spacing num 1, h.trans_lt ceiling_representable.2⟩

private theorem le_nearest_add (ha : Representable a) (q : Nat) : a ≤ nearest (a + q) 1 :=
  le_nearest_of_representable Nat.one_pos ha (by rw [Nat.one_mul]; exact Nat.le_add_right a q)

/-- Adding up shares keeps within the finite numbers and does not make a sum smaller. -/
theorem addUp_bounds (ha : Representable a) (hle : a ≤ ceiling) {qs : List Nat}
    (hqs : ∀ q ∈ qs, q ≤ unit) :
    Representable (addUp a qs) ∧ a ≤ addUp a qs ∧ addUp a qs ≤ ceiling := by
  induction qs generalizing a with
  | nil => exact ⟨ha, le_rfl, hle⟩
  | cons q qs ih =>
    obtain ⟨hq, hqs⟩ := List.forall_mem_cons.mp hqs
    have hnext := nearest_add_le hle hq
    obtain ⟨hr, hge, hbound⟩ := ih (representable_of_le hnext) hnext hqs
    exact ⟨hr, (le_nearest_add ha q).trans hge, hbound⟩

/-- No share is larger than a sum that it was added to. -/
theorem le_addUp (ha : Representable a) (hle : a ≤ ceiling) {qs : List Nat}
    (hqs : ∀ q ∈ qs, Representable q ∧ q ≤ unit) {q : Nat} (hq : q ∈ qs) : q ≤ addUp a qs := by
  induction qs generalizing a with
  | nil => cases hq
  | cons p qs ih =>
    obtain ⟨⟨hp, hunit⟩, hrest⟩ := List.forall_mem_cons.mp hqs
    have hnext := nearest_add_le hle hunit
    rcases List.mem_cons.mp hq with rfl | hq
    · calc
        q ≤ nearest (a + q) 1 := le_nearest_of_representable Nat.one_pos hp (by omega)
        _ ≤ addUp a (q :: qs) :=
          (addUp_bounds (representable_of_le hnext) hnext fun p hp => (hrest p hp).2).2.1
    · exact ih (representable_of_le hnext) hnext hrest hq

/-- The sum of shares is the sum of their magnitudes, rounded at each step. -/
theorem foldl_add_shares (ha : Representable a) (hle : a ≤ ceiling) {xs : List Binary64}
    (hxs : ∀ x ∈ xs, x.Share) :
    ∃ hr, xs.foldl (· + ·) (.finite false a ha) =
      .finite false (addUp a (xs.map magnitude)) hr := by
  induction xs generalizing a with
  | nil => exact ⟨ha, rfl⟩
  | cons x xs ih =>
    obtain ⟨hx, hrest⟩ := List.forall_mem_cons.mp hxs
    obtain ⟨q, hq, rfl, hunit⟩ := hx.eq_finite
    have hnext := nearest_add_le hle hunit
    have hadd : finite false a ha + finite false q hq =
        .finite false (nearest (a + q) 1) (representable_of_le hnext) :=
      (ofQuanta_natCast _).trans (ofQuotient_of_eq false rfl _)
    rw [List.foldl_cons, hadd]
    exact ih (representable_of_le hnext) hnext hrest

end

/-- Half of the distance of the numbers just below one, in quanta. -/
def slack : Nat := Nat.pow 2 1020

private theorem le_nearest_add_slack {p : Nat} (h : p < unit) : p ≤ nearest p 1 + slack := by
  have hstep : spacing p ≤ 2 * slack := by
    rw [show 2 * slack = spacing (unit - 1) by decide +kernel]
    exact spacing_mono (Nat.le_sub_one_of_lt h)
  have hnear := (nearest_near p).1
  omega

/-- What is rounded to less than one is by more than the slack below it: half-way up the rounding
goes to one, which is even. -/
theorem add_slack_lt_of_nearest_lt {p : Nat} (h : nearest p 1 < unit) : p + slack < unit := by
  by_contra hle
  have hhalf : nearest (unit - slack) 1 = unit := by decide +kernel
  have hmono := nearest_mono Nat.one_pos (show unit - slack ≤ p by omega)
  omega

/-- A sum that comes out below one has lost at most the slack at each step, and less at the last. -/
private theorem sum_lt_of_addUp_lt {a exact steps q : Nat} {qs : List Nat} (ha : Representable a)
    (hle : a ≤ ceiling) (hqs : ∀ q' ∈ q :: qs, q' ≤ unit) (hexact : exact ≤ a + steps * slack)
    (h : addUp a (q :: qs) < unit) :
    exact + (q :: qs).sum + slack < unit + (steps + qs.length) * slack := by
  induction qs generalizing a exact steps q with
  | nil =>
    have hlast := add_slack_lt_of_nearest_lt h
    rw [List.sum_singleton, List.length_nil, Nat.add_zero]
    omega
  | cons q' qs ih =>
    obtain ⟨hq, hrest⟩ := List.forall_mem_cons.mp hqs
    have hnext := nearest_add_le hle hq
    have hbelow : nearest (a + q) 1 < unit :=
      (addUp_bounds (representable_of_le hnext) hnext hrest).2.1.trans_lt h
    have hloss : a + q ≤ nearest (a + q) 1 + slack :=
      le_nearest_add_slack ((Nat.le_add_right _ _).trans_lt (add_slack_lt_of_nearest_lt hbelow))
    have hsteps : exact + q ≤ nearest (a + q) 1 + (steps + 1) * slack := by
      rw [Nat.succ_mul]
      omega
    have htail := ih (representable_of_le hnext) hnext hrest hsteps h
    rw [List.sum_cons, ← Nat.add_assoc exact q, List.length_cons, Nat.add_comm qs.length 1,
      ← Nat.add_assoc steps 1]
    exact htail

/-- Proper fractions that add up to one by enough are also computed to add up to one. Up to three of
them need nothing beyond one. -/
theorem unit_le_addUp {qs : List Nat} (hqs : ∀ q ∈ qs, Representable q ∧ q < unit)
    (h : unit + (qs.length - 3) * slack ≤ qs.sum) : unit ≤ addUp 0 qs := by
  rcases qs with _ | ⟨q, _ | ⟨q', rest⟩⟩
  · have hzero : unit ≤ [].sum := (Nat.le_add_right _ _).trans h
    exact absurd unit_pos (Nat.not_lt.mpr hzero)
  · have hone : unit ≤ [q].sum := (Nat.le_add_right _ _).trans h
    rw [List.sum_singleton] at hone
    exact absurd (hqs q List.mem_cons_self).2 (Nat.not_lt.mpr hone)
  · obtain ⟨⟨hq, hlt⟩, hrest⟩ := List.forall_mem_cons.mp hqs
    have hfirst : addUp 0 (q :: q' :: rest) = addUp q (q' :: rest) := by
      rw [addUp, List.foldl_cons, Nat.zero_add, nearest_one hq]
      rfl
    have hceiling : q ≤ ceiling := hlt.le.trans (by decide +kernel)
    rw [hfirst]
    by_contra hbelow
    have hexact : q ≤ q + 0 * slack := Nat.le_add_right _ _
    have hsum := sum_lt_of_addUp_lt hq hceiling (fun p hp => (hrest p hp).2.le) hexact
      (Nat.lt_of_not_le hbelow)
    rw [Nat.zero_add, ← List.sum_cons] at hsum
    have hlength : (q :: q' :: rest).length - 3 = rest.length - 1 := rfl
    rw [hlength] at h
    rcases Nat.eq_zero_or_pos rest.length with hzero | hpos
    · rw [hzero, Nat.zero_mul] at hsum
      rw [hzero, Nat.zero_sub, Nat.zero_mul] at h
      omega
    · obtain ⟨n, hn⟩ := Nat.exists_eq_add_of_lt hpos
      rw [hn, Nat.zero_add, Nat.add_sub_cancel] at h
      rw [hn, Nat.zero_add, Nat.succ_mul] at hsum
      omega

/-- Of four fractions that add up to one, two can be lost one after the other. -/
example : [halfUnit, slack, slack, halfUnit - 2 * slack].sum = unit ∧
    addUp 0 [halfUnit, slack, slack, halfUnit - 2 * slack] < unit := by
  decide +kernel

/-- What is left of one, or nothing. -/
theorem one_sub_clamped {s : Nat} (hs : Representable s) :
    (if (Number.float (one - finite false s hs)).lt (.int 0) then zero
      else one - finite false s hs) = ofQuotient false (unit - s) 1 := by
  have hsub : one - finite false s hs = ofQuanta false (unit - s) := by
    rw [one_eq]
    rfl
  rw [hsub]
  rcases Nat.le_total s unit with hle | hle
  · have hquanta : ((unit : Int) - s) = ((unit - s : Nat) : Int) := by omega
    rw [hquanta, ofQuanta_natCast, Number.lt_zero_of_nonneg (ofQuotient_nonneg _ _)]
    rfl
  · rw [Nat.sub_eq_zero_of_le hle, ofQuotient_zero]
    rcases hle.lt_or_eq with hlt | rfl
    · have hquanta : ofQuanta false (unit - s) = ofQuotient true (s - unit) 1 := by
        have hneg : (unit : Int) - s < 0 := by omega
        rw [ofQuanta, if_neg hneg.ne, decide_eq_true hneg,
          show ((unit : Int) - s).natAbs = s - unit by omega]
      have hpos : 0 < nearest (s - unit) 1 := by
        have hone : Representable 1 := by decide +kernel
        exact le_nearest_of_representable Nat.one_pos hone (by omega)
      have hlow : (Number.float (ofQuotient true (s - unit) 1)).lt (.int 0) = true := by
        unfold ofQuotient
        split
        · simp only [Number.lt, Number.le, Number.position, Position.le, signed, if_true,
            Int.zero_mul, Bool.and_eq_true, decide_eq_true_eq, Bool.not_eq_true',
            decide_eq_false_iff_not]
          omega
        · rfl
      rw [hquanta, hlow, if_pos rfl]
    · rw [Int.sub_self]
      decide +kernel

/-- What any count that a list can have leaves of the slack, in quanta. -/
def leastPart : Nat := Nat.pow 2 957

/-- A count as a number: not below one, and infinite only if no list can have it. -/
private theorem ofRatio_count {count : Nat} (h : 0 < count) :
    (∃ c hc, ofRatio count 1 = .finite false c hc ∧ unit ≤ c ∧
      (count ≤ largestIndex → c * leastPart ≤ slack * unit)) ∨
    largestIndex < count ∧ ofRatio count 1 = .infinite false := by
  have hmany : Representable (Nat.pow 2 63 * unit) := by decide +kernel
  have hfew (hlist : count ≤ largestIndex) : nearest (count * unit) 1 ≤ Nat.pow 2 63 * unit := by
    refine nearest_le_of_representable Nat.one_pos hmany ?_
    rw [Nat.one_mul]
    exact Nat.mul_le_mul_right unit (hlist.trans (by decide +kernel))
  by_cases hlt : nearest (count * unit) 1 < limit
  · obtain ⟨hr, heq⟩ := ofQuotient_eq false hlt
    refine .inl ⟨_, hr, heq, ?_, fun hlist => ?_⟩
    · have hunit : Representable unit := by decide +kernel
      exact le_nearest_of_representable Nat.one_pos hunit (Nat.mul_le_mul_right unit h)
    · have hparts : Nat.pow 2 63 * unit * leastPart = slack * unit := by decide +kernel
      exact (Nat.mul_le_mul_right leastPart (hfew hlist)).trans_eq hparts
  · exact .inr ⟨Nat.lt_of_not_le fun hlist => hlt ((hfew hlist).trans_lt hmany.2),
      ofQuotient_infinite hlt⟩

/-- An equal part of a share is a share. Counts that lists can have leave something of it. -/
theorem share_div_count {q : Nat} (hq : Representable q) (hle : q ≤ unit) {count : Nat}
    (hcount : 0 < count) :
    (finite false q hq / ofRatio count 1).Share ∧
      (q = 0 → finite false q hq / ofRatio count 1 = zero) ∧
      (count ≤ largestIndex → slack ≤ q →
        leastPart ≤ (finite false q hq / ofRatio count 1).magnitude) := by
  rcases ofRatio_count hcount with ⟨c, hc, heq, hge, hfew⟩ | ⟨hmany, heq⟩
  · have hpos : 0 < c := unit_pos.trans_le hge
    have hbound : nearest (q * unit) c ≤ q :=
      nearest_le_of_representable hpos hq (by rw [Nat.mul_comm]; exact Nat.mul_le_mul_right q hge)
    obtain ⟨hr, hquotient⟩ := ofQuotient_eq false (hbound.trans_lt hq.2)
    have hdiv : finite false q hq / ofRatio count 1 = .finite false (nearest (q * unit) c) hr := by
      rw [heq, ← hquotient]
      change div _ _ = _
      simp only [div, if_neg hpos.ne', bne_self_eq_false]
    rw [hdiv]
    refine ⟨⟨rfl, hbound.trans hle⟩, fun hzero => ?_, fun hlist hlarge => ?_⟩
    · subst hzero
      have hnearest : nearest (0 * unit) c = 0 := Nat.le_zero.mp hbound
      simp only [hnearest, zero_eq]
    · have hpart : Representable leastPart := by decide +kernel
      exact le_nearest_of_representable hpos hpart
        ((hfew hlist).trans (Nat.mul_le_mul_right unit hlarge))
  · have hdiv : finite false q hq / ofRatio count 1 = zero := by
      rw [heq]
      exact ofQuotient_zero
    rw [hdiv]
    exact ⟨zero_share, fun _ => rfl, fun hlist _ => absurd hlist (Nat.not_le.mpr hmany)⟩

/-- A part of a count is a share, and something if lists can have the count. -/
theorem ofRatio_share {num den : Nat} (hnum : 0 < num) (hle : num ≤ den) :
    (ofRatio num den).Share ∧ (den ≤ largestIndex → leastPart ≤ (ofRatio num den).magnitude) := by
  have hden : 0 < den := hnum.trans_le hle
  have hunit : Representable unit := by decide +kernel
  have hbound : nearest (num * unit) den ≤ unit :=
    nearest_le_of_representable hden hunit (Nat.mul_le_mul_right unit hle)
  obtain ⟨hr, heq⟩ := ofQuotient_eq false (hbound.trans_lt hunit.2)
  rw [ofRatio, heq]
  refine ⟨⟨rfl, hbound⟩, fun hlist => ?_⟩
  have hpart : Representable leastPart := by decide +kernel
  refine le_nearest_of_representable hden hpart ?_
  calc
    den * leastPart ≤ largestIndex * leastPart := Nat.mul_le_mul_right _ hlist
    _ ≤ unit := by decide +kernel
    _ ≤ num * unit := Nat.le_mul_of_pos_left unit hnum

end Binary64
end TrackGrid
