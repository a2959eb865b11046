import Mathlib.Data.List.InsertIdx
import TrackGrid.Proofs.Effect

/-! Clean tracks: sizings and finite numbers that are not below zero. Only clean tracks are made out
of what is given. -/

namespace TrackGrid

namespace Track

/-- A sizing, or a finite number that is not below zero. -/
def Clean : Track → Prop
  | .sizing _ => True
  | .number x => x.isFinite = .ok true ∧ x.lt (.int 0) = false

instance : DecidablePred Clean
  | .sizing _ => .isTrue trivial
  | .number _ => inferInstanceAs (Decidable (_ ∧ _))

private theorem zero_clean : zero.Clean := by
  constructor <;> decide +kernel

private theorem ofNumber_clean {x : Number} {t : Track} (h : ofNumber x = .ok t) : t.Clean := by
  obtain ⟨finite, hfinite, h⟩ := bind_eq_ok_iff.mp h
  cases finite with
  | false =>
    cases pure_eq_ok_iff.mp h
    exact zero_clean
  | true =>
    cases hlt : x.lt (.int 0) with
    | false =>
      rw [if_pos rfl, hlt] at h
      cases pure_eq_ok_iff.mp h
      exact ⟨hfinite, hlt⟩
    | true =>
      rw [if_pos rfl, hlt, if_pos rfl] at h
      split at h
      · cases pure_eq_ok_iff.mp h
        trivial
      · cases pure_eq_ok_iff.mp h
        exact zero_clean

theorem ofGiven_clean {value : GivenSize} {t : Track} (h : ofGiven value = .ok t) : t.Clean := by
  cases value with
  | number x => exact ofNumber_clean h
  | sizing s =>
    cases pure_eq_ok_iff.mp h
    trivial
  | text s =>
    simp only [ofGiven] at h
    split at h
    · cases pure_eq_ok_iff.mp h
      trivial
    · split at h
      · exact ofNumber_clean h
      · cases pure_eq_ok_iff.mp h
        exact zero_clean
  | other y =>
    obtain ⟨x, -, h⟩ := bind_eq_ok_iff.mp h
    exact ofNumber_clean h
  | boolean | absent | object =>
    cases pure_eq_ok_iff.mp h
    exact zero_clean

/-- Describing a clean track loses nothing. -/
theorem Clean.ofGiven_describe {t : Track} (h : t.Clean) : ofGiven t.describe = .ok t := by
  cases t with
  | sizing s =>
    have hword : Sizing.ofText? s.text = some s := by cases s <;> decide +kernel
    simp only [describe, ofGiven, hword]
    rfl
  | number x =>
    obtain ⟨hfinite, hlt⟩ := h
    simp only [describe, ofGiven, ofNumber, hfinite, hlt]
    rfl

private theorem listOfGiven_clean {values : List GivenSize} {tracks : List Track}
    (h : listOfGiven values = .ok tracks) : ∀ t ∈ tracks, t.Clean :=
  forall_of_mapM_eq_ok h fun _ _ _ => ofGiven_clean

private theorem listOfGiven_describe {tracks : List Track} (h : ∀ t ∈ tracks, t.Clean) :
    listOfGiven (tracks.map describe) = .ok tracks := by
  refine mapM_eq_ok_iff.mpr (List.forall₂_map_left_iff.mpr (List.forall₂_same.mpr ?_))
  exact fun t ht => (h t ht).ofGiven_describe

section
variable {tracks tracks' : List Track} {index : Int} {value : GivenSize}

private theorem replace_clean (h : ∀ t ∈ tracks, t.Clean)
    (hr : replace tracks index value = .ok tracks') :
    ∀ t ∈ tracks', t.Clean := by
  unfold replace at hr
  split at hr
  · cases hr
  · obtain ⟨new, hnew, hr⟩ := bind_eq_ok_iff.mp hr
    cases pure_eq_ok_iff.mp hr
    intro t ht
    rcases List.mem_or_eq_of_mem_set ht with ht | rfl
    · exact h t ht
    · exact ofGiven_clean hnew

private theorem insert_clean (h : ∀ t ∈ tracks, t.Clean)
    (hr : insert tracks index value = .ok tracks') :
    ∀ t ∈ tracks', t.Clean := by
  unfold insert at hr
  split at hr
  · cases hr
  · obtain ⟨new, hnew, hr⟩ := bind_eq_ok_iff.mp hr
    cases pure_eq_ok_iff.mp hr
    intro t ht
    rcases List.eq_or_mem_of_mem_insertIdx ht with rfl | ht
    · exact ofGiven_clean hnew
    · exact h t ht

private theorem delete_clean (h : ∀ t ∈ tracks, t.Clean) (hr : delete tracks index = .ok tracks') :
    ∀ t ∈ tracks', t.Clean := by
  unfold delete at hr
  split at hr
  · cases hr
  · split at hr
    · cases hr
    · cases hr
      exact fun t ht => h t (List.mem_of_mem_eraseIdx ht)

end
end Track

namespace Specification

def Clean (spec : Specification) : Prop := ∀ axis, ∀ t ∈ spec.along axis, t.Clean

def given (values : Option (List GivenSize)) : Except Fault (List Track) :=
  match values with
  | some values => Track.listOfGiven values
  | none => pure [Track.fill]

theorem ofGiven_eq (columns rows : Option (List GivenSize)) :
    ofGiven columns rows = (do return ⟨← given columns, ← given rows⟩) := by
  cases columns <;> cases rows <;> rfl

private theorem given_clean {values : Option (List GivenSize)} {tracks : List Track}
    (h : given values = .ok tracks) : ∀ t ∈ tracks, t.Clean := by
  cases values with
  | some values => exact Track.listOfGiven_clean h
  | none =>
    cases pure_eq_ok_iff.mp h
    simp [Track.fill, Track.Clean]

theorem ofGiven_clean {columns rows : Option (List GivenSize)} {spec : Specification}
    (h : ofGiven columns rows = .ok spec) : spec.Clean := by
  rw [ofGiven_eq] at h
  obtain ⟨columns, hcolumns, h⟩ := bind_eq_ok_iff.mp h
  obtain ⟨rows, hrows, h⟩ := bind_eq_ok_iff.mp h
  cases pure_eq_ok_iff.mp h
  intro axis
  cases axis with
  | columns => exact given_clean hcolumns
  | rows => exact given_clean hrows

theorem Clean.change {spec spec' : Specification} {axis : Axis}
    {f : List Track → Except Fault (List Track)} (h : spec.Clean)
    (hf : ∀ tracks, f (spec.along axis) = .ok tracks → ∀ t ∈ tracks, t.Clean)
    (hchange : spec.change axis f = .ok spec') : spec'.Clean := by
  obtain ⟨tracks, htracks, hchange⟩ := bind_eq_ok_iff.mp hchange
  cases pure_eq_ok_iff.mp hchange
  intro other
  cases axis <;> cases other
  · exact hf tracks htracks
  · exact h .rows
  · exact h .columns
  · exact hf tracks htracks

inductive Step : Specification → Specification → Prop
  | refl (spec : Specification) : Step spec spec
  | setTracks {spec spec' : Specification} {axis : Axis} {values : List GivenSize}
      (h : spec.setTracks axis values = .ok spec') : Step spec spec'
  | setTrack {spec spec' : Specification} {axis : Axis} {index : Int} {value : GivenSize}
      (h : spec.setTrack axis index value = .ok spec') : Step spec spec'
  | insertTrack {spec spec' : Specification} {axis : Axis} {index : Int} {value : GivenSize}
      (h : spec.insertTrack axis index value = .ok spec') : Step spec spec'
  | deleteTrack {spec spec' : Specification} {axis : Axis} {index : Int}
      (h : spec.deleteTrack axis index = .ok spec') : Step spec spec'

theorem Clean.step {spec spec' : Specification} (hspec : spec.Clean) (hstep : Step spec spec') :
    spec'.Clean := by
  cases hstep with
  | refl => exact hspec
  | setTracks h => exact hspec.change (fun _ => Track.listOfGiven_clean) h
  | setTrack h => exact hspec.change (fun _ => Track.replace_clean (hspec _)) h
  | insertTrack h => exact hspec.change (fun _ => Track.insert_clean (hspec _)) h
  | deleteTrack h => exact hspec.change (fun _ => Track.delete_clean (hspec _)) h

/-- Describing clean tracks loses nothing. -/
theorem Clean.ofGiven_describe {spec : Specification} (h : spec.Clean) :
    ofGiven (some (spec.columns.map Track.describe)) (some (spec.rows.map Track.describe)) =
      .ok spec := by
  have hcolumns : given (some (spec.columns.map Track.describe)) = .ok spec.columns :=
    Track.listOfGiven_describe (h .columns)
  have hrows : given (some (spec.rows.map Track.describe)) = .ok spec.rows :=
    Track.listOfGiven_describe (h .rows)
  rw [ofGiven_eq, hcolumns, hrows]
  rfl

end Specification

end TrackGrid
