import TrackGrid.Proofs.Track
import TrackGrid.Proofs.Track.Clean

/-! A clean track is of exactly one of four kinds, and made again out of its own value it is the
same. -/

namespace TrackGrid
namespace Track

inductive Kind where
  | absolute
  | relative
  | content
  | fill
  deriving DecidableEq, Repr

def isOf (t : Track) : Kind → Bool
  | .absolute => t.isAbsolute
  | .relative => t.isRelative
  | .content => t.isContent
  | .fill => t.isFill

def Kind.pick {α : Type} (absolute relative content fill : α) : Kind → α
  | .absolute => absolute
  | .relative => relative
  | .content => content
  | .fill => fill

/-- A finite number has a place among the others. -/
theorem exists_position {x : Number} (h : x.isFinite = .ok true) : ∃ p, x.position = .at p := by
  obtain n | x := x
  · exact ⟨_, rfl⟩
  · cases x with
    | finite => exact ⟨_, rfl⟩
    | infinite | nan => cases h

/-- One and more is absolute, and so is zero; what lies between them is relative. -/
theorem isAbsolute_eq_not_isRelative {x : Number} (h : (number x).Clean) :
    (number x).isAbsolute = !(number x).isRelative := by
  obtain ⟨hfinite, hlt⟩ := h
  obtain ⟨p, hp⟩ := exists_position hfinite
  have hle (n : Int) : Number.le (.int n) x = decide (n * Binary64.unit ≤ p) := by
    rw [Number.le, hp]
    rfl
  have hge (n : Int) : x.le (.int n) = decide (p ≤ n * Binary64.unit) := by
    rw [Number.le, hp]
    rfl
  have hunit : (0 : Int) < Binary64.unit := by decide +kernel
  have hnonneg : 0 ≤ p := by
    simp only [Number.lt, hle, hge, Int.zero_mul, Bool.and_eq_false_iff, Bool.not_eq_false',
      decide_eq_false_iff_not, decide_eq_true_eq] at hlt
    omega
  simp only [isAbsolute, isRelative, Number.lt, Number.same, hle, hge, Int.zero_mul, Int.one_mul]
  rw [Bool.eq_iff_iff]
  simp only [Bool.or_eq_true, Bool.and_eq_true, Bool.not_eq_true', Bool.and_eq_false_iff,
    Bool.not_eq_false', decide_eq_true_eq, decide_eq_false_iff_not]
  omega

/-- A clean track is of exactly one kind. -/
theorem Clean.existsUnique_kind {t : Track} (h : t.Clean) : ∃! kind, t.isOf kind = true := by
  obtain s | x := t
  · cases s with
    | fill => exact ⟨.fill, rfl, fun kind hkind => by cases kind <;> first | rfl | cases hkind⟩
    | preferred | minimum =>
      exact ⟨.content, rfl, fun kind hkind => by cases kind <;> first | rfl | cases hkind⟩
  · have hkinds := isAbsolute_eq_not_isRelative h
    cases hrelative : (number x).isRelative with
    | true =>
      rw [hrelative] at hkinds
      refine ⟨.relative, hrelative, fun kind hkind => ?_⟩
      cases kind with
      | relative => rfl
      | absolute => exact absurd (hkinds.symm.trans hkind) (by decide)
      | content | fill => cases hkind
    | false =>
      rw [hrelative] at hkinds
      refine ⟨.absolute, hkinds, fun kind hkind => ?_⟩
      cases kind with
      | absolute => rfl
      | relative => exact absurd (hrelative.symm.trans hkind) (by decide)
      | content | fill => cases hkind

theorem Clean.isOf_eq {t : Track} (h : t.Clean) {kind : Kind} (hkind : t.isOf kind = true)
    (other : Kind) : t.isOf other = decide (other = kind) := by
  rw [Bool.eq_iff_iff, decide_eq_true_iff]
  constructor
  · exact fun hother => h.existsUnique_kind.unique hother hkind
  · rintro rfl
    exact hkind

/-- The fraction is that of a relative track. No integer is one. -/
theorem fraction?_isSome (t : Track) : t.fraction?.isSome = t.isRelative := by
  obtain _ | (n | x) := t
  · rfl
  · have hunit : (0 : Int) < Binary64.unit := by decide +kernel
    have hnone : (number (.int n)).isRelative = false := by
      rw [Bool.eq_false_iff]
      simp only [isRelative, Number.lt, Number.le, Number.position, Position.le, Int.zero_mul,
        Int.one_mul, ne_eq, Bool.and_eq_true, Bool.not_eq_true', decide_eq_true_eq,
        decide_eq_false_iff_not, Int.not_le]
      rintro ⟨⟨-, hpos⟩, -, hlt⟩
      have hn : 0 < n := Int.pos_of_mul_pos_left hpos hunit
      have := Int.mul_le_mul_of_nonneg_right (show 1 ≤ n from hn) hunit.le
      omega
    exact hnone.symm
  · rw [fraction?]
    cases (number (.float x)).isRelative <;> rfl

def given : Track → GivenSize
  | .sizing s => .sizing s
  | .number x => .number x

/-- A clean track is left alone. -/
theorem Clean.ofGiven_given {t : Track} (h : t.Clean) : ofGiven t.given = .ok t := by
  cases t with
  | sizing s => rfl
  | number x =>
    obtain ⟨hfinite, hlt⟩ := h
    simp only [given, ofGiven, ofNumber, hfinite, hlt]
    rfl

end Track
end TrackGrid
