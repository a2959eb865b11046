import TrackGrid.Proofs.Number.Rounding
import TrackGrid.Track

/-! A fill track is of no other kind, pixels are not below zero, and fractions lie between zero and
one. -/

namespace TrackGrid
namespace Track

theorem isFill_iff {t : Track} : t.isFill = true ↔ t = fill := by
  cases t with
  | sizing s => cases s <;> simp [isFill, fill]
  | number => simp [isFill, fill]

theorem isContent_of_isAbsolute {t : Track} (h : t.isAbsolute = true) : t.isContent = false := by
  cases t with
  | sizing => cases h
  | number => rfl

theorem isRelative_of_isAbsolute {t : Track} (h : t.isAbsolute = true) : t.isRelative = false := by
  cases t with
  | sizing => rfl
  | number x =>
    simp only [isAbsolute, Number.same, Bool.or_eq_true, Bool.and_eq_true] at h
    simp only [isRelative, Number.lt, Bool.and_eq_false_iff, Bool.not_eq_false']
    rcases h with hone | hzero
    · exact .inr (.inr hone)
    · exact .inl (.inr hzero.1)

theorem fraction?_of_isAbsolute {t : Track} (h : t.isAbsolute = true) : t.fraction? = none := by
  obtain _ | (_ | x) := t
  · rfl
  · rfl
  · rw [fraction?, isRelative_of_isAbsolute h]
    rfl

theorem fraction?_of_isContent {t : Track} (h : t.isContent = true) : t.fraction? = none := by
  cases t with
  | sizing => rfl
  | number => cases h

private theorem int_nonneg_of_isAbsolute {n : Int} (h : (number (.int n)).isAbsolute = true) :
    0 ≤ n := by
  have hunit : (0 : Int) < Binary64.unit := by decide +kernel
  simp only [isAbsolute, Number.le, Number.same, Number.position, Position.le, Bool.or_eq_true,
    Bool.and_eq_true, decide_eq_true_eq, Int.one_mul, Int.zero_mul] at h
  have hpos : 0 ≤ n * Binary64.unit := by omega
  exact Int.le_of_mul_le_mul_right (by rwa [Int.zero_mul]) hunit

private theorem float_nonneg_of_isAbsolute {x : Binary64}
    (h : (number (.float x)).isAbsolute = true) : x.Nonneg := by
  cases x with
  | nan => simp [isAbsolute, Number.le, Number.same, Number.position, Position.le] at h
  | infinite negative =>
    cases negative with
    | false => rfl
    | true => simp [isAbsolute, Number.le, Number.same, Number.position, Position.le] at h
  | finite negative q hr =>
    simp only [isAbsolute, Number.le, Number.same, Number.position, Position.le, Bool.or_eq_true,
      Bool.and_eq_true, decide_eq_true_eq, Int.one_mul, Int.zero_mul] at h
    change 0 ≤ Binary64.signed negative q
    omega

/-- An absolute track never takes pixels away. -/
theorem pixels_nonneg {t : Track} {n : Int} (ha : t.isAbsolute = true) (h : t.pixels = .ok n) :
    0 ≤ n := by
  cases t with
  | sizing => cases ha
  | number x =>
    cases x with
    | float x => exact Binary64.roundHalfUp_nonneg (float_nonneg_of_isAbsolute ha) h
    | int m =>
      cases hx : Binary64.ofInt m with
      | error => simp [pixels, Number.toBinary64, hx, bind, Except.bind] at h
      | ok x =>
        simp only [pixels, Number.toBinary64, hx, bind, Except.bind] at h
        exact Binary64.roundHalfUp_nonneg
          (Binary64.ofInt_nonneg (int_nonneg_of_isAbsolute ha) hx) h

/-- The pixels of an absolute track of a finite number can be counted. -/
theorem exists_pixels {x : Number} (hfinite : x.isFinite = .ok true)
    (ha : (number x).isAbsolute = true) : ∃ n, (number x).pixels = .ok n := by
  cases x with
  | float x =>
    have hnonneg := float_nonneg_of_isAbsolute ha
    cases x with
    | finite negative q hr => exact Binary64.exists_roundHalfUp hnonneg
    | infinite | nan => cases hfinite
  | int m =>
    cases hx : Binary64.ofInt m with
    | error => simp [Number.isFinite, Number.toBinary64, hx, bind, Except.bind] at hfinite
    | ok x =>
      obtain ⟨q, hq, rfl⟩ :=
        Binary64.exists_finite_of_ofInt (int_nonneg_of_isAbsolute ha) hx
      simp only [pixels, Number.toBinary64, hx, bind, Except.bind]
      exact Binary64.roundHalfUp_finite hq

/-- A fraction is a finite number without a sign that lies strictly between zero and one. -/
theorem fraction?_eq_some {t : Track} {x : Binary64} (h : t.fraction? = some x) :
    ∃ q hr, x = .finite false q hr ∧ 0 < q ∧ q < Binary64.unit := by
  obtain _ | (_ | y) := t
  · cases h
  · cases h
  · simp only [fraction?, Option.ite_none_right_eq_some, Option.some.injEq] at h
    obtain ⟨hrel, rfl⟩ := h
    cases y with
    | nan => simp [isRelative, Number.lt, Number.le, Number.position, Position.le] at hrel
    | infinite negative =>
      cases negative <;>
        simp [isRelative, Number.lt, Number.le, Number.position, Position.le] at hrel
    | finite negative q hr =>
      simp only [isRelative, Number.lt, Number.le, Number.position, Position.le, Int.one_mul,
        Int.zero_mul, Bool.and_eq_true, decide_eq_true_eq, Bool.not_eq_true',
        decide_eq_false_iff_not, Int.not_le] at hrel
      cases negative with
      | true =>
        simp only [Binary64.signed, if_true] at hrel
        omega
      | false =>
        obtain ⟨⟨_, hpos⟩, _, hlt⟩ := hrel
        exact ⟨q, hr, rfl, Int.natCast_pos.mp hpos, Int.ofNat_lt.mp hlt⟩

end Track
end TrackGrid
