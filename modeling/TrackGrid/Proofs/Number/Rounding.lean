import Mathlib.Algebra.Order.Ring.Nat
import TrackGrid.Number

/-! Rounding of floating-point numbers: `nearest` does not pass a magnitude that is a multiple of
the spacing. -/

namespace TrackGrid
namespace Binary64

theorem spacing_eq (q : Nat) : spacing q = 2 ^ (q.log2 + 1 - 53) := by rw [spacing, Nat.pow_eq]

theorem spacing_pos (q : Nat) : 0 < spacing q := by
  rw [spacing_eq]
  exact Nat.two_pow_pos _

theorem log2_mono {p q : Nat} (h : p ≤ q) : p.log2 ≤ q.log2 := by
  rcases Nat.eq_zero_or_pos p with rfl | hp
  · simp
  · have hq : q ≠ 0 := by omega
    exact (Nat.le_log2 hq).mpr ((Nat.log2_self_le hp.ne').trans h)

/-- Smaller magnitudes lie no further apart, and the finer grid contains the coarser one. -/
theorem spacing_dvd_spacing {p q : Nat} (h : p ≤ q) : spacing p ∣ spacing q := by
  rw [spacing_eq, spacing_eq]
  exact Nat.pow_dvd_pow 2 (by have := log2_mono h; omega)

theorem spacing_mono {p q : Nat} (h : p ≤ q) : spacing p ≤ spacing q :=
  Nat.le_of_dvd (spacing_pos q) (spacing_dvd_spacing h)

theorem Representable.spacing_dvd {q : Nat} (h : Representable q) : spacing q ∣ q :=
  Nat.dvd_of_mod_eq_zero h.1

theorem nearest_le_of_dvd {num den m : Nat} (hden : 0 < den) (hm : spacing (num / den) ∣ m)
    (h : num ≤ den * m) : nearest num den ≤ m := by
  obtain ⟨k, rfl⟩ := hm
  have hwide : 0 < den * spacing (num / den) := Nat.mul_pos hden (spacing_pos _)
  have hle : num ≤ den * spacing (num / den) * k := by rwa [Nat.mul_assoc]
  have hdiv := Nat.div_add_mod num (den * spacing (num / den))
  have hlow : num / (den * spacing (num / den)) ≤ k := Nat.div_le_of_le_mul hle
  simp only [nearest]
  rw [Nat.mul_comm (spacing _) k]
  refine Nat.mul_le_mul_right _ ?_
  split
  · exact hlow
  · rename_i hup
    rcases hlow.lt_or_eq with hlt | heq
    · exact hlt
    -- at the multiple itself nothing is left to round up
    · rw [heq] at hdiv
      have hrest : num % (den * spacing (num / den)) = 0 := by omega
      exact absurd (Or.inl (by omega)) hup

theorem nearest_le_of_representable {num den m : Nat} (hden : 0 < den) (hm : Representable m)
    (h : num ≤ den * m) : nearest num den ≤ m :=
  nearest_le_of_dvd hden
    ((spacing_dvd_spacing (Nat.div_le_of_le_mul h)).trans hm.spacing_dvd) h

private theorem Representable.exists_mul {q e : Nat} (h : Representable q) (hle : 2 ^ (e + 52) ≤ q)
    (hlt : q < 2 ^ (e + 53)) : ∃ k < 2 ^ 53, q = k * 2 ^ e := by
  have hne : q ≠ 0 := (Nat.lt_of_lt_of_le (Nat.two_pow_pos _) hle).ne'
  have hlog : q.log2 = e + 52 := by
    have hup := (Nat.log2_lt hne).mpr hlt
    have hlow := (Nat.le_log2 hne).mpr hle
    omega
  obtain ⟨k, hk⟩ := h.spacing_dvd
  rw [spacing_eq, hlog, show e + 52 + 1 - 53 = e by omega] at hk
  refine ⟨k, ?_, by rw [hk, Nat.mul_comm]⟩
  rw [hk, Nat.pow_add] at hlt
  exact Nat.lt_of_mul_lt_mul_left hlt

/-- The largest finite magnitude, of 53 significant bits. -/
def largest : Nat := (2 ^ 53 - 1) * 2 ^ 2045

theorem largest_representable : Representable largest := by decide +kernel

private theorem half_eq :
    half = .finite false (Nat.pow 2 1073) (by decide +kernel) := by decide +kernel

private theorem le_of_add_le {q low step top : Nat} (hq : top < q + step) (h : low + step ≤ top) :
    low ≤ q := by omega

/-- A magnitude that a half could carry beyond the largest one is the largest one itself. -/
theorem Representable.eq_largest {q : Nat} (h : Representable q)
    (hq : largest < q + Nat.pow 2 1073) : q = largest := by
  have htop : 2 ^ (2045 + 52) ≤ q := le_of_add_le hq (by decide +kernel)
  have hpow : Nat.pow 2 1073 ≤ 2 ^ 2045 := by decide +kernel
  have hhalf : largest < q + 2 ^ 2045 := Nat.lt_of_lt_of_le hq (Nat.add_le_add_left hpow q)
  have hlimit : limit = 2 ^ (2045 + 53) := by decide +kernel
  have hlt : q < 2 ^ (2045 + 53) := by rw [← hlimit]; exact h.2
  obtain ⟨k, hk, heq⟩ := h.exists_mul htop hlt
  rw [heq, ← Nat.succ_mul] at hhalf
  have hlow : 2 ^ 53 - 1 < k + 1 := Nat.lt_of_mul_lt_mul_right hhalf
  rw [heq, largest, show k = 2 ^ 53 - 1 by omega]

/-- Adding a half to a finite magnitude does not leave the finite ones. -/
theorem nearest_add_half_lt_limit {q : Nat} (h : Representable q) :
    nearest (q + Nat.pow 2 1073) 1 < limit := by
  rcases Nat.lt_or_ge largest (q + Nat.pow 2 1073) with hlt | hle
  · rw [h.eq_largest hlt]
    decide +kernel
  · have := nearest_le_of_representable Nat.one_pos largest_representable
      (by rwa [Nat.one_mul] : q + Nat.pow 2 1073 ≤ 1 * largest)
    exact Nat.lt_of_le_of_lt this largest_representable.2

/-- Zero or above. The negative zero is among them. -/
def Nonneg : Binary64 → Prop
  | .finite negative q _ => 0 ≤ signed negative q
  | .infinite negative => negative = false
  | .nan => False

theorem ofQuotient_nonneg (num den : Nat) : (ofQuotient false num den).Nonneg := by
  unfold ofQuotient
  split
  · exact Int.natCast_nonneg _
  · rfl

theorem ofQuotient_eq (negative : Bool) {num den : Nat} (h : nearest num den < limit) :
    ∃ hr, ofQuotient negative num den = .finite negative (nearest num den) hr :=
  ⟨_, dif_pos h⟩

theorem ofQuotient_infinite {negative : Bool} {num den : Nat} (h : ¬ nearest num den < limit) :
    ofQuotient negative num den = .infinite negative :=
  dif_neg h

theorem ofQuanta_natCast (n : Nat) : ofQuanta false n = ofQuotient false n 1 := by
  have hneg : decide ((n : Int) < 0) = false := by simp
  simp only [ofQuanta, hneg, Int.natAbs_natCast, ite_self]

theorem mul_finite (s t : Bool) (p q : Nat) (hp : Representable p) (hq : Representable q) :
    finite s p hp * finite t q hq = ofQuotient (s != t) (p * q) unit := rfl

private theorem truncate_nonneg {x : Binary64} {n : Int} (hx : x.Nonneg) (h : x.truncate = .ok n) :
    0 ≤ n := by
  cases x with
  | nan => cases h
  | infinite => cases h
  | finite negative q hr =>
    cases h
    cases negative with
    | false => exact Int.natCast_nonneg _
    | true =>
      have hq : q = 0 := by simpa [Nonneg, signed] using hx
      simp [hq, signed]

private theorem add_half_nonneg {x : Binary64} (hx : x.Nonneg) : (x + half).Nonneg := by
  rw [half_eq]
  cases x with
  | nan => exact hx
  | infinite negative => exact hx
  | finite negative q hr =>
    have hsum : 0 ≤ signed negative q + signed false (Nat.pow 2 1073) :=
      Int.add_nonneg hx (Int.natCast_nonneg _)
    obtain ⟨n, hn⟩ := Int.eq_ofNat_of_zero_le hsum
    change (ofQuanta (negative && false) (signed negative q + signed false _)).Nonneg
    rw [hn, Bool.and_false, ofQuanta_natCast]
    exact ofQuotient_nonneg n 1

theorem roundHalfUp_nonneg {x : Binary64} {n : Int} (hx : x.Nonneg) (h : x.roundHalfUp = .ok n) :
    0 ≤ n :=
  truncate_nonneg (add_half_nonneg hx) h

/-- A finite number without a sign can be rounded to an integer. -/
theorem roundHalfUp_finite {q : Nat} (h : Representable q) :
    ∃ n, (finite false q h).roundHalfUp = .ok n := by
  obtain ⟨hr, heq⟩ := ofQuotient_eq false (nearest_add_half_lt_limit h)
  have hadd : finite false q h + half = ofQuotient false (q + Nat.pow 2 1073) 1 := by
    rw [half_eq, ← ofQuanta_natCast]
    rfl
  rw [roundHalfUp, hadd, heq]
  exact ⟨_, rfl⟩

/-- A zero with a sign is rounded as the one without. -/
theorem exists_roundHalfUp {negative : Bool} {q : Nat} {h : Representable q}
    (hx : (finite negative q h).Nonneg) : ∃ n, (finite negative q h).roundHalfUp = .ok n := by
  cases negative with
  | false => exact roundHalfUp_finite h
  | true =>
    obtain rfl : q = 0 := by simpa [Nonneg, signed] using hx
    have hsame : (finite true 0 h).roundHalfUp = (finite false 0 h).roundHalfUp := by
      rw [roundHalfUp, roundHalfUp, half_eq]
      rfl
    rw [hsame]
    exact roundHalfUp_finite h

private theorem ofInt_of_lt {n : Nat} (h : nearest (n * unit) 1 < limit) :
    ∃ hr, ofInt n = .ok (.finite false (nearest (n * unit) 1) hr) := by
  obtain ⟨hr, heq⟩ := ofQuotient_eq false h
  refine ⟨hr, ?_⟩
  rw [ofInt, ← Int.natCast_mul, ofQuanta_natCast, heq]

theorem ofInt_eq {n : Nat} {x : Binary64} (h : ofInt n = .ok x) :
    ∃ hr, x = .finite false (nearest (n * unit) 1) hr := by
  by_cases hlt : nearest (n * unit) 1 < limit
  · obtain ⟨hr, heq⟩ := ofInt_of_lt hlt
    rw [heq] at h
    exact ⟨hr, (Except.ok.inj h).symm⟩
  · rw [ofInt, ← Int.natCast_mul, ofQuanta_natCast, ofQuotient_infinite hlt] at h
    cases h

theorem ofInt_truncate {q n : Nat} (h : Representable q) (hn : n * unit ≤ q) :
    ∃ x, ofInt n = .ok x := by
  have hle : nearest (n * unit) 1 ≤ q :=
    nearest_le_of_representable Nat.one_pos h (by rwa [Nat.one_mul])
  obtain ⟨hr, heq⟩ := ofInt_of_lt (Nat.lt_of_le_of_lt hle h.2)
  exact ⟨_, heq⟩

/-- An integer that a number was rounded to can be made a number again. -/
theorem exists_ofInt_of_roundHalfUp {x : Binary64} {n : Int} (hn : 0 ≤ n)
    (h : x.roundHalfUp = .ok n) : ∃ y, ofInt n = .ok y := by
  unfold roundHalfUp at h
  cases hx : x + half with
  | nan => simp [hx, truncate] at h
  | infinite => simp [hx, truncate] at h
  | finite negative q hq =>
    rw [hx] at h
    obtain rfl : signed negative (q / unit) = n := Except.ok.inj h
    cases negative with
    | false => exact ofInt_truncate hq (Nat.div_mul_le_self q unit)
    | true =>
      have hzero : q / unit = 0 := by
        generalize q / unit = k at hn ⊢
        simp only [signed, if_true] at hn
        omega
      rw [hzero]
      exact ofInt_truncate hq (by simp)

/-- A fraction of a finite number can be taken and rounded. -/
theorem exists_roundHalfUp_mul {p q : Nat} (hp : Representable p) (hq : Representable q)
    (h : p < unit) : ∃ n, (finite false p hp * finite false q hq).roundHalfUp = .ok n := by
  have hunit : 0 < unit := by omega
  have hle : nearest (p * q) unit ≤ q :=
    nearest_le_of_representable hunit hq (Nat.mul_le_mul_right q h.le)
  obtain ⟨hr, heq⟩ := ofQuotient_eq false (Nat.lt_of_le_of_lt hle hq.2)
  rw [mul_finite, bne_self_eq_false, heq]
  exact roundHalfUp_finite hr

theorem exists_finite_of_ofInt {n : Int} {x : Binary64} (hn : 0 ≤ n) (h : ofInt n = .ok x) :
    ∃ q hq, x = .finite false q hq := by
  obtain ⟨k, rfl⟩ := Int.eq_ofNat_of_zero_le hn
  obtain ⟨hq, hx⟩ := ofInt_eq h
  exact ⟨_, hq, hx⟩

theorem ofInt_nonneg {n : Int} {x : Binary64} (hn : 0 ≤ n) (h : ofInt n = .ok x) : x.Nonneg := by
  obtain ⟨q, hq, rfl⟩ := exists_finite_of_ofInt hn h
  exact Int.natCast_nonneg q

end Binary64
end TrackGrid
