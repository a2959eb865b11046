import Mathlib.Data.Rat.Floor
import TrackGrid.Proofs.Number.Range

/-! Exact values. From one up to 2 ^ 52 the rounding of the sum with one half leads to no other
integer. -/

namespace TrackGrid

namespace Binary64

def value? (x : Binary64) : Option ℚ := x.quanta?.map fun q => q / unit

theorem unit_pos_rat : (0 : ℚ) < unit := by exact_mod_cast unit_pos

private theorem halfUnit_rat : (halfUnit : ℚ) = 1 / 2 * unit := by
  have hunit : (unit : ℚ) = 2 * halfUnit := by exact_mod_cast unit_eq
  rw [hunit]
  ring

/-- A value in quanta. -/
theorem exists_quanta {x : Binary64} {v : ℚ} (h : x.value? = some v) :
    ∃ negative q hr, x = .finite negative q hr ∧ v = signed negative q / unit := by
  cases x with
  | infinite | nan => cases h
  | finite negative q hr => exact ⟨negative, q, hr, rfl, (Option.some.inj h).symm⟩

private theorem widest_eq : widest = 2 ^ 52 := by rw [widest, Nat.pow_eq]

private theorem nearest_of_spacing_dvd {n : Nat} (h : spacing n ∣ n) : nearest n 1 = n := by
  apply Nat.le_antisymm
  · exact nearest_le_of_dvd Nat.one_pos (by rwa [Nat.div_one]) (Nat.one_mul n).ge
  · exact le_nearest_of_dvd Nat.one_pos (by rwa [Nat.div_one]) (Nat.one_mul n).le

private theorem exists_unit_eq_pow : ∃ e, unit = 2 ^ e := ⟨1074, by decide +kernel⟩

private theorem spacing_below_widest : spacing (widest * unit - 1) = halfUnit := by decide +kernel

private theorem nearest_widest : nearest (widest * unit + halfUnit) 1 = widest * unit := by
  decide +kernel

/-- Where a half carries a magnitude from one on over a power of two, the sum is rounded, but the
power is whole and the sum stays within a half of it. -/
private theorem nearest_add_half_of_log2_lt {q : Nat} (hlow : unit ≤ q)
    (hstep : spacing (q + halfUnit) ∣ halfUnit) (hlog : q.log2 < (q + halfUnit).log2) :
    nearest (q + halfUnit) 1 / unit = (q + halfUnit) / unit := by
  have hq : q ≠ 0 := (unit_pos.trans_le hlow).ne'
  have hsum : q + halfUnit ≠ 0 := by omega
  obtain ⟨k, hk⟩ : unit ∣ 2 ^ (q + halfUnit).log2 := by
    obtain ⟨e, he⟩ := exists_unit_eq_pow
    rw [he]
    refine Nat.pow_dvd_pow 2 ((Nat.le_log2 hsum).mpr ?_)
    rw [← he]
    exact hlow.trans (Nat.le_add_right q halfUnit)
  have hbelow : q < unit * k := by
    rw [← hk]
    exact (Nat.log2_lt hq).mp hlog
  have habove : unit * k ≤ q + halfUnit := by
    rw [← hk]
    exact Nat.log2_self_le hsum
  have hpower : spacing (q + halfUnit) ∣ unit * k := by
    rw [← hk, spacing_eq]
    exact Nat.pow_dvd_pow 2 (by omega)
  have hnear : unit * k ≤ nearest (q + halfUnit) 1 :=
    le_nearest_of_dvd Nat.one_pos (by rwa [Nat.div_one]) (by rwa [Nat.one_mul])
  have hnear' : nearest (q + halfUnit) 1 ≤ unit * k + halfUnit :=
    nearest_le_of_dvd Nat.one_pos (by rw [Nat.div_one]; exact hpower.add hstep) (by omega)
  have hquotient {n : Nat} (hge : unit * k ≤ n) (hle : n ≤ unit * k + halfUnit) : n / unit = k := by
    have hpos := unit_pos
    have hhalf := unit_eq
    refine Nat.div_eq_of_lt_le (by rwa [Nat.mul_comm]) ?_
    rw [Nat.add_one_mul, Nat.mul_comm]
    omega
  rw [hquotient hnear hnear', hquotient habove (by omega)]

/-- Rounding the sum with one half leads to no other integer. -/
theorem nearest_add_half_div {q : Nat} (hq : Representable q) (hlow : unit ≤ q)
    (hhigh : q ≤ widest * unit) : nearest (q + halfUnit) 1 / unit = (q + halfUnit) / unit := by
  rcases Nat.lt_or_ge (q + halfUnit) (widest * unit) with hlt | hge
  · have hstep : spacing (q + halfUnit) ∣ halfUnit := by
      have hdvd := spacing_dvd_spacing (Nat.le_sub_one_of_lt hlt)
      rwa [spacing_below_widest] at hdvd
    rcases (log2_mono (Nat.le_add_right q halfUnit)).lt_or_eq with hlog | hlog
    · exact nearest_add_half_of_log2_lt hlow hstep hlog
    · have hsame : spacing (q + halfUnit) = spacing q := by rw [spacing_eq, spacing_eq, hlog]
      have hdvd : spacing (q + halfUnit) ∣ q := by
        rw [hsame]
        exact hq.spacing_dvd
      rw [nearest_of_spacing_dvd (hdvd.add hstep)]
  · -- at the very end the half is a tie that goes down to the even neighbour
    have hnear : nearest (q + halfUnit) 1 = widest * unit := by
      apply Nat.le_antisymm
      · exact nearest_widest ▸ nearest_mono Nat.one_pos (Nat.add_le_add_right hhigh halfUnit)
      · exact nearest_one (representable_whole le_rfl) ▸ nearest_mono Nat.one_pos hge
    have hpos := unit_pos
    have hhalf := unit_eq
    have hquotient : (q + halfUnit) / unit = widest := by
      refine Nat.div_eq_of_lt_le hge ?_
      rw [Nat.add_one_mul]
      omega
    rw [hnear, hquotient, Nat.mul_div_cancel _ unit_pos]

/-- The largest number below one half is nearer to zero, but the sum is rounded to one. -/
example : Representable (halfUnit - Nat.pow 2 1020) ∧
    nearest (halfUnit - Nat.pow 2 1020 + halfUnit) 1 = unit := by
  decide +kernel

private theorem roundHalfUp_eq_nearest {q : Nat} (h : Representable q) :
    (finite false q h).roundHalfUp = .ok ((nearest (q + halfUnit) 1 / unit : Nat) : Int) := by
  obtain ⟨n, hn⟩ := roundHalfUp_finite h
  obtain ⟨p, hp, hsize⟩ := roundHalfUp_eq hn
  obtain rfl : (q : Int) = p := Option.some.inj hp
  have hrounded : rounded 1 ((q : Int) + halfUnit) = (nearest (q + halfUnit) 1 : Nat) :=
    rounded_of_signed Nat.one_pos false (q + halfUnit)
  rw [hn, hsize, hrounded, Int.natCast_ediv, Int.tdiv_eq_ediv_of_nonneg (Int.natCast_nonneg _)]

private theorem floor_add_half (q : Nat) :
    ⌊(q : ℚ) / unit + 1 / 2⌋ = ((q + halfUnit) / unit : Nat) := by
  have hsum : (q : ℚ) / unit + 1 / 2 = ((q + halfUnit : Nat) : ℚ) / (unit : Nat) := by
    rw [Nat.cast_add, add_div, halfUnit_rat, mul_div_cancel_right₀ _ unit_pos_rat.ne']
  rw [hsum, Rat.floor_natCast_div_natCast]
  rfl

private theorem roundHalfUp_zero (negative : Bool) (hr : Representable 0) :
    (finite negative 0 hr).roundHalfUp = .ok 0 := by
  have hzero : (finite false 0 hr).roundHalfUp = .ok 0 := by
    rw [roundHalfUp_eq_nearest, Nat.zero_add]
    decide +kernel
  cases negative with
  | false => exact hzero
  | true =>
    -- the half is added to either zero alike
    rw [← hzero, roundHalfUp, roundHalfUp, half_eq_finite]
    rfl

/-- At zero and from one to 2 ^ 52, a number is rounded to the integer nearest to its value, a half
upwards. -/
theorem roundHalfUp_value {x : Binary64} {v : ℚ} (hv : x.value? = some v)
    (hrange : v = 0 ∨ 1 ≤ v ∧ v ≤ 2 ^ 52) : x.roundHalfUp = .ok ⌊v + 1 / 2⌋ := by
  obtain ⟨negative, q, hr, rfl, hquanta⟩ := exists_quanta hv
  have hpos := unit_pos_rat
  rcases hrange with hzero | ⟨hlow, hhigh⟩
  · have hq : q = 0 := by
      have hsigned : (signed negative q : ℚ) = 0 := by
        rw [hquanta, div_eq_zero_iff] at hzero
        exact hzero.resolve_right hpos.ne'
      have hsigned' : signed negative q = 0 := by exact_mod_cast hsigned
      cases negative <;> simp only [signed] at hsigned' <;> omega
    have hfloor : ⌊v + 1 / 2⌋ = 0 := by
      rw [hzero]
      norm_num
    subst hq
    rw [hfloor, roundHalfUp_zero]
  · have hunit := unit_pos
    rw [hquanta, le_div_iff₀ hpos, one_mul] at hlow
    have hone : (unit : Int) ≤ signed negative q := by exact_mod_cast hlow
    cases negative with
    | true =>
      simp only [signed, if_true] at hone
      omega
    | false =>
      have hvalue : v = (q : ℚ) / unit := hquanta
      have hwidest : q ≤ widest * unit := by
        rw [hvalue, div_le_iff₀ hpos] at hhigh
        rw [widest_eq]
        exact_mod_cast hhigh
      rw [roundHalfUp_eq_nearest, nearest_add_half_div hr (Int.ofNat_le.mp hone) hwidest, hvalue,
        floor_add_half]

section
variable {p q b : Nat} {hp : Representable p} {hq : Representable q}

theorem roundHalfUp_mul_eq {n : Int} (h : (finite false p hp * finite false q hq).roundHalfUp = .ok n) :
    n = (nearest (nearest (p * q) unit + halfUnit) 1 / unit : Nat) := by
  rw [mul_finite, bne_self_eq_false] at h
  by_cases hlt : nearest (p * q) unit < limit
  · obtain ⟨hr, heq⟩ := ofQuotient_eq false hlt
    rw [heq, roundHalfUp_eq_nearest] at h
    exact (Except.ok.inj h).symm
  · rw [ofQuotient_infinite hlt, infinite_roundHalfUp] at h
    cases h

/-- By how much the two roundings of a fraction of at most 2 ^ 32 may miss it, in quanta. -/
def margin : Nat := Nat.pow 2 1054

private theorem spacing_widest_fraction : spacing (Nat.pow 2 32 * unit + halfUnit) = margin := by
  decide +kernel

/-- A fraction of an integer, and the sum of it and one half, are rounded by little. -/
theorem fraction_near (hle : p ≤ unit) (hb : b ≤ Nat.pow 2 32) :
    p * b + halfUnit ≤ nearest (nearest (p * b) 1 + halfUnit) 1 + margin ∧
      nearest (nearest (p * b) 1 + halfUnit) 1 ≤ p * b + halfUnit + margin := by
  have hproduct : p * b ≤ 1 * (Nat.pow 2 32 * unit) := by
    rw [Nat.one_mul, Nat.mul_comm (Nat.pow 2 32)]
    exact Nat.mul_le_mul hle hb
  have htop : Representable (Nat.pow 2 32 * unit) := representable_whole (by decide)
  have hrounded : nearest (p * b) 1 ≤ Nat.pow 2 32 * unit :=
    nearest_le_of_representable Nat.one_pos htop hproduct
  have hstep {n : Nat} (h : n ≤ Nat.pow 2 32 * unit + halfUnit) : spacing n ≤ margin :=
    spacing_widest_fraction ▸ spacing_mono h
  have hspacing := hstep (n := p * b) (by omega)
  have hspacing' := hstep (Nat.add_le_add_right hrounded halfUnit)
  obtain ⟨hlow, hhigh⟩ := nearest_near (p * b)
  obtain ⟨hlow', hhigh'⟩ := nearest_near (nearest (p * b) 1 + halfUnit)
  omega

/-- So it is rounded to an integer that is little more than one half away. -/
theorem rounded_fraction_near (hle : p ≤ unit) (hb : b ≤ Nat.pow 2 32) :
    |((nearest (nearest (p * b) 1 + halfUnit) 1 / unit : Nat) : ℚ) - (p : ℚ) / unit * b| ≤
      1 / 2 + 1 / 2 ^ 20 := by
  obtain ⟨hlow, hhigh⟩ := fraction_near hle hb
  generalize nearest (nearest (p * b) 1 + halfUnit) 1 = sum at hlow hhigh ⊢
  have hpos := unit_pos_rat
  have hmargin : (margin : ℚ) = 1 / 2 ^ 20 * unit := by
    have hunit : unit = 2 ^ 20 * margin := by decide +kernel
    have hunit' : (unit : ℚ) = 2 ^ 20 * margin := by exact_mod_cast hunit
    rw [hunit']
    ring
  have hfloor : ((sum / unit : Nat) : ℚ) * unit ≤ sum := by exact_mod_cast Nat.div_mul_le_self sum unit
  have hceil : (sum : ℚ) < (((sum / unit : Nat) : ℚ) + 1) * unit := by
    exact_mod_cast Nat.lt_mul_of_div_lt (Nat.lt_succ_self (sum / unit)) unit_pos
  have hlow' : (p : ℚ) * b + halfUnit ≤ sum + margin := by exact_mod_cast hlow
  have hhigh' : (sum : ℚ) ≤ p * b + halfUnit + margin := by exact_mod_cast hhigh
  rw [halfUnit_rat, hmargin] at hlow' hhigh'
  have hfraction : (p : ℚ) / unit * b * unit = p * b := by
    rw [div_mul_eq_mul_div, div_mul_cancel₀ _ hpos.ne']
  rw [abs_le]
  constructor
  · refine le_of_mul_le_mul_right ?_ hpos
    linarith
  · refine le_of_mul_le_mul_right ?_ hpos
    linarith

end

end Binary64

namespace Number

def value? : Number → Option ℚ
  | .int n => some n
  | .float x => x.value?

private theorem exists_position_of_value {x : Number} {v : ℚ} (h : x.value? = some v) :
    ∃ p : Int, x.position = .at p ∧ (p : ℚ) = v * Binary64.unit := by
  cases x with
  | int n =>
    obtain rfl := Option.some.inj h
    exact ⟨_, rfl, by push_cast; rfl⟩
  | float x =>
    obtain ⟨negative, q, hr, rfl, rfl⟩ := Binary64.exists_quanta h
    exact ⟨_, rfl, (div_mul_cancel₀ _ Binary64.unit_pos_rat.ne').symm⟩

/-- Numbers compare as their values do. -/
theorem le_iff {x y : Number} {v w : ℚ} (hx : x.value? = some v) (hy : y.value? = some w) :
    x.le y = true ↔ v ≤ w := by
  obtain ⟨p, hp, hpv⟩ := exists_position_of_value hx
  obtain ⟨q, hq, hqw⟩ := exists_position_of_value hy
  have hle : x.le y = decide (p ≤ q) := by
    rw [le, hp, hq]
    rfl
  rw [hle, decide_eq_true_iff, ← Int.cast_le (R := ℚ), hpv, hqw,
    mul_le_mul_iff_left₀ Binary64.unit_pos_rat]

/-- Integers of few enough bits, and all finite floating-point numbers, keep their value as
floating-point numbers. -/
theorem exists_toBinary64 {x : Number} {v : ℚ} (h : x.value? = some v) (hrange : |v| ≤ 2 ^ 52) :
    ∃ y, x.toBinary64 = .ok y ∧ y.value? = some v := by
  cases x with
  | float x => exact ⟨x, rfl, h⟩
  | int n =>
    obtain rfl := Option.some.inj h
    have hwhole : n.natAbs ≤ Binary64.widest := by
      rw [← Int.cast_abs, ← Int.natCast_natAbs] at hrange
      rw [Binary64.widest_eq]
      exact_mod_cast hrange
    refine ⟨_, Binary64.ofInt_whole hwhole, congrArg some ?_⟩
    rw [Binary64.signed_mul, Binary64.signed_natAbs, Int.cast_mul]
    exact mul_div_cancel_right₀ _ Binary64.unit_pos_rat.ne'

end Number
end TrackGrid
