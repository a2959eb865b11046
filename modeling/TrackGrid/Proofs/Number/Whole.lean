import TrackGrid.Proofs.Number.Order

/-! An integer of few enough bits is a floating-point number, and rounding gives it back. -/

namespace TrackGrid
namespace Binary64

def widest : Nat := Nat.pow 2 52

theorem unit_pos : 0 < unit := by decide +kernel

theorem unit_eq : unit = 2 * halfUnit := by decide +kernel

/-- Few enough halves can be represented. -/
theorem representable_halves {m : Nat} (h : m ≤ 2 * widest) : Representable (m * halfUnit) := by
  constructor
  · obtain ⟨e, he⟩ : ∃ e, halfUnit = Nat.pow 2 e := ⟨1073, by decide +kernel⟩
    rw [he]
    exact mul_pow_mod_spacing e (h.trans (by decide +kernel))
  · have hle : m * halfUnit ≤ 2 * widest * halfUnit := Nat.mul_le_mul_right _ h
    exact hle.trans_lt (by decide +kernel)

theorem representable_whole {m : Nat} (h : m ≤ widest) : Representable (m * unit) := by
  have heq : m * unit = 2 * m * halfUnit := by rw [unit_eq, ← Nat.mul_assoc, Nat.mul_comm m 2]
  rw [heq]
  exact representable_halves (Nat.mul_le_mul_left 2 h)

theorem nearest_one {q : Nat} (h : Representable q) : nearest q 1 = q := by
  have heq := nearest_mul Nat.one_pos h
  rwa [Nat.one_mul] at heq

/-- A magnitude that can be represented is the number it is counted as. -/
theorem ofQuotient_of_eq (negative : Bool) {num den q : Nat} (h : nearest num den = q)
    (hq : Representable q) : ofQuotient negative num den = .finite negative q hq := by
  subst h
  obtain ⟨_, heq⟩ := ofQuotient_eq negative hq.2
  exact heq

/-- An integer of few enough bits is a floating-point number. -/
theorem ofInt_whole {n : Int} (h : n.natAbs ≤ widest) :
    ofInt n = .ok (.finite (decide (n < 0)) (n.natAbs * unit) (representable_whole h)) := by
  have habs : (n * unit).natAbs = n.natAbs * unit := by
    rw [Int.natAbs_mul, Int.natAbs_natCast]
  have hunit : (0 : Int) < unit := by exact_mod_cast unit_pos
  have hsign : (if n * (unit : Int) = 0 then false else decide (n * (unit : Int) < 0)) =
      decide (n < 0) := by
    rcases lt_trichotomy n 0 with hn | rfl | hn
    · have hneg := Int.mul_neg_of_neg_of_pos hn hunit
      simp [hneg, hn, hneg.ne]
    · simp
    · have hpos := Int.mul_pos hn hunit
      simp [hpos.ne', not_lt.mpr hpos.le, not_lt.mpr hn.le]
  have hquanta : ofQuanta false (n * unit) =
      .finite (decide (n < 0)) (n.natAbs * unit) (representable_whole h) := by
    unfold ofQuanta
    rw [hsign, habs]
    exact ofQuotient_of_eq _ (nearest_one (representable_whole h)) _
  rw [ofInt, hquanta]

theorem one_eq : one = .finite false unit (by decide +kernel) := by decide +kernel

theorem div_one (negative : Bool) {q : Nat} (h : Representable q) :
    finite negative q h / one = finite negative q h := by
  have hnearest : nearest (q * unit) unit = q := by
    rw [Nat.mul_comm]
    exact nearest_mul unit_pos h
  rw [one_eq]
  change div _ _ = _
  simp only [div, if_neg unit_pos.ne', Bool.bne_false]
  exact ofQuotient_of_eq negative hnearest h

theorem half_eq_finite : half = .finite false halfUnit (by decide +kernel) := by decide +kernel

/-- Every finite number can be rounded to an integer. -/
theorem exists_roundHalfUp_finite (negative : Bool) {q : Nat} (h : Representable q) :
    ∃ n, (finite negative q h).roundHalfUp = .ok n := by
  cases negative with
  | false => exact roundHalfUp_finite h
  | true =>
    -- the half is taken away from the magnitude, or the magnitude from the half
    have hbound : nearest (signed true q + halfUnit).natAbs 1 < limit := by
      rcases Nat.le_total halfUnit q with hle | hle
      · have hq : (signed true q + halfUnit).natAbs ≤ 1 * q := by
          simp only [signed, if_true]
          omega
        exact (nearest_le_of_representable Nat.one_pos h hq).trans_lt h.2
      · have hhalf : Representable halfUnit := by decide +kernel
        have hq : (signed true q + halfUnit).natAbs ≤ 1 * halfUnit := by
          simp only [signed, if_true]
          omega
        exact (nearest_le_of_representable Nat.one_pos hhalf hq).trans_lt hhalf.2
    have hadd : finite true q h + half = ofQuanta false (signed true q + halfUnit) := by
      rw [half_eq_finite]
      rfl
    obtain ⟨hr, heq⟩ := ofQuotient_eq (if signed true q + (halfUnit : Int) = 0 then false
      else decide (signed true q + (halfUnit : Int) < 0)) hbound
    rw [roundHalfUp, hadd, ofQuanta, heq]
    exact ⟨_, rfl⟩

/-- Rounding an integer that is not below zero gives it back. -/
theorem roundHalfUp_natCast {n : Nat} (h : n ≤ widest) :
    (finite false (n * unit) (representable_whole h)).roundHalfUp = .ok n := by
  rcases h.lt_or_eq with hlt | rfl
  · have hsum : n * unit + halfUnit = (2 * n + 1) * halfUnit := by
      rw [unit_eq, Nat.add_mul, Nat.one_mul, Nat.mul_comm 2 n, Nat.mul_assoc]
    have hr : Representable (n * unit + halfUnit) := by
      rw [hsum]
      exact representable_halves (by omega)
    have hadd : finite false (n * unit) (representable_whole h) + half =
        finite false (n * unit + halfUnit) hr := by
      rw [half_eq_finite]
      exact (ofQuanta_natCast _).trans (ofQuotient_of_eq false (nearest_one hr) hr)
    have hdiv : (n * unit + halfUnit) / unit = n := by
      rw [Nat.mul_comm, Nat.mul_add_div unit_pos, Nat.div_eq_of_lt (by decide +kernel),
        Nat.add_zero]
    rw [roundHalfUp, hadd, truncate, hdiv]
    rfl
  · have hwidest : (finite false (widest * unit) (representable_whole le_rfl)).roundHalfUp =
        .ok (widest : Int) := by decide +kernel
    exact hwidest

/-- Rounding an integer divided by one changes nothing about how far it is above zero. -/
theorem roundHalfUp_div_one {n : Int} (h : n.natAbs ≤ widest) :
    ∃ x k, ofInt n = .ok x ∧ (x / one).roundHalfUp = .ok k ∧ max k 0 = max n 0 := by
  have hx := ofInt_whole h
  obtain ⟨k, hk⟩ := exists_roundHalfUp_finite (decide (n < 0)) (representable_whole h)
  refine ⟨_, k, hx, by rw [div_one, hk], ?_⟩
  rcases lt_or_ge n 0 with hn | hn
  · have hzero : (finite false (0 * unit) (representable_whole (Nat.zero_le _)) / one).roundHalfUp =
        .ok 0 := by
      rw [div_one]
      exact roundHalfUp_natCast (Nat.zero_le _)
    have hle : k ≤ 0 := roundHalfUp_div_mono (y := one) (by rw [one_eq]; exact Int.natCast_nonneg _)
      hn.le hx (ofInt_whole (n := 0) (Nat.zero_le _)) (by rw [div_one, hk]) hzero
    omega
  · obtain ⟨m, rfl⟩ := Int.eq_ofNat_of_zero_le hn
    have hm : m ≤ widest := by simpa using h
    have hsign : decide ((m : Int) < 0) = false := by simp
    simp only [hsign, Int.natAbs_natCast] at hk
    rw [roundHalfUp_natCast hm] at hk
    rw [Except.ok.inj hk]

end Binary64
end TrackGrid
