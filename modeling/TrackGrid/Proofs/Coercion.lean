import TrackGrid.Layout
import TrackGrid.Proofs.Number.Range
import TrackGrid.Proofs.Track.Clean

/-! What is made of the values that are given for tracks. Only a number that cannot be converted and
an integer beyond the range of floating-point numbers are refused. -/

namespace TrackGrid

namespace Number

private theorem isFinite_int_of_lt {n : Int} (h : n.natAbs < Binary64.intLimit) :
    (int n).isFinite = .ok true := by
  obtain ⟨negative, hr, hx⟩ := Binary64.ofInt_of_natAbs_lt h
  rw [isFinite, toBinary64, hx]
  rfl

private theorem isFinite_int_of_le {n : Int} (h : Binary64.intLimit ≤ n.natAbs) :
    (int n).isFinite = .error .integerTooLarge := by
  rw [isFinite, toBinary64, Binary64.ofInt_of_le_natAbs h]
  rfl

/-- Why a number cannot be told to be finite or not: it is an integer beyond the range of
floating-point numbers. -/
def fault? : Number → Option Fault
  | .int n => if Binary64.intLimit ≤ n.natAbs then some .integerTooLarge else none
  | .float _ => none

theorem isFinite_of_fault {x : Number} {fault : Fault} (h : x.fault? = some fault) :
    x.isFinite = .error fault := by
  cases x with
  | float x => cases h
  | int n =>
    simp only [fault?, Option.ite_none_right_eq_some, Option.some.injEq] at h
    obtain ⟨hlimit, rfl⟩ := h
    exact isFinite_int_of_le hlimit

theorem exists_isFinite {x : Number} (h : x.fault? = none) :
    ∃ finite, x.isFinite = .ok finite := by
  cases x with
  | float x => cases x <;> exact ⟨_, rfl⟩
  | int n =>
    refine ⟨true, isFinite_int_of_lt (Nat.lt_of_not_le fun hlimit => ?_)⟩
    rw [fault?, if_pos hlimit] at h
    cases h

/-- A number has the value of an integer just if it stands where the integer stands. -/
theorem same_int_iff {x : Number} {n : Int} :
    x.same (.int n) = true ↔ x.position = .at (n * Binary64.unit) := by
  rw [same, le, le, show (int n).position = .at (n * Binary64.unit) from rfl]
  cases x.position with
  | below | above | nowhere => simp [Position.le]
  | «at» p =>
    simp only [Position.le, Bool.and_eq_true, decide_eq_true_eq, Position.at.injEq]
    omega

end Number

namespace GivenSize

/-- The number that a value gives: a number as it is, the outcome of a conversion, or the number
written by a text that names no sizing. -/
def number? : GivenSize → Option Number
  | .number x => some x
  | .text t => if (Sizing.ofText? t).isSome then none else (Binary64.ofText? t).map .float
  | .other (.integral n) => some (.int n)
  | .other (.real x) => some (.float x)
  | _ => none

/-- Which track a value stands for: a sizing itself, by its name or by its old number, and a number
that is finite and not below zero. -/
inductive Denotes : GivenSize → Track → Prop
  | sizing (s : Sizing) : Denotes (.sizing s) (.sizing s)
  | word {t : String} {s : Sizing} (h : Sizing.ofText? t = some s) : Denotes (.text t) (.sizing s)
  | code {value : GivenSize} {x : Number} {s : Sizing} (hx : value.number? = some x)
      (hsame : x.same (.int s.code) = true) : Denotes value (.sizing s)
  | number {value : GivenSize} {x : Number} (hx : value.number? = some x)
      (hclean : (Track.number x).Clean) : Denotes value (.number x)

/-- Why a value is not made into a track: its own conversion fails, or the number that it gives is an
integer beyond the range of floating-point numbers. -/
def fault? : GivenSize → Option Fault
  | .other (.inconvertible fault) => some fault
  | value => value.number?.bind Number.fault?

theorem fault?_eq {value : GivenSize} {x : Number} (hx : value.number? = some x) :
    value.fault? = x.fault? := by
  unfold fault?
  split
  · cases hx
  · rw [hx]
    rfl

end GivenSize

namespace Track

variable {value : GivenSize} {x : Number} {t : Track} {fault : Fault}

private theorem ofGiven_of_number? (h : value.number? = some x) : ofGiven value = ofNumber x := by
  cases value with
  | number y =>
    obtain rfl := Option.some.inj h
    rfl
  | other y =>
    cases y with
    | inconvertible fault => cases h
    | integral n =>
      obtain rfl := Option.some.inj h
      rfl
    | real y =>
      obtain rfl := Option.some.inj h
      rfl
  | sizing | boolean | absent | object => cases h
  | text t =>
    cases hword : Sizing.ofText? t with
    | some s => simp [GivenSize.number?, hword] at h
    | none =>
      simp only [GivenSize.number?, hword, Option.isSome_none, Bool.false_eq_true, if_false,
        Option.map_eq_some_iff] at h
      obtain ⟨y, hy, rfl⟩ := h
      simp only [ofGiven, hword, hy]

/-- An old number of a sizing is made into it. -/
theorem ofNumber_of_same {s : Sizing} (h : x.same (.int s.code) = true) :
    ofNumber x = .ok (.sizing s) := by
  have hposition := Number.same_int_iff.mp h
  have hfinite : x.isFinite = .ok true := by
    obtain n | x := x
    · have hunit : (Binary64.unit : Int) ≠ 0 := by exact_mod_cast Binary64.unit_pos.ne'
      obtain rfl : n = s.code := Int.eq_of_mul_eq_mul_right hunit (Position.at.inj hposition)
      exact Number.isFinite_int_of_lt (by cases s <;> decide +kernel)
    · cases x with
      | finite => rfl
      | infinite negative => cases negative <;> cases hposition
      | nan => cases hposition
  have hnegative : x.lt (.int 0) = true := by
    rw [Number.lt, Number.le, Number.le, hposition]
    cases s <;> decide +kernel
  have hfound : Sizing.ofNumber? x = some s := by
    have hsame (n : Int) : x.same (.int n) = Number.same (.int s.code) (.int n) := by
      rw [Number.same, Number.le, Number.le, hposition]
      rfl
    simp only [Sizing.ofNumber?, hsame]
    cases s <;> decide +kernel
  simp only [ofNumber, hfinite, hnegative, hfound]
  rfl

/-- A value is made into the track that it stands for. -/
theorem ofGiven_of_denotes (h : value.Denotes t) : ofGiven value = .ok t := by
  cases h with
  | sizing s => rfl
  | word h =>
    simp only [ofGiven, h]
    rfl
  | code hx hsame => rw [ofGiven_of_number? hx, ofNumber_of_same hsame]
  | number hx hclean =>
    rw [ofGiven_of_number? hx]
    exact hclean.ofGiven_describe

theorem ofGiven_of_fault (h : value.fault? = some fault) : ofGiven value = .error fault := by
  unfold GivenSize.fault? at h
  split at h
  · obtain rfl := Option.some.inj h
    rfl
  · obtain ⟨x, hx, hfault⟩ := Option.bind_eq_some_iff.mp h
    rw [ofGiven_of_number? hx]
    simp only [ofNumber, Number.isFinite_of_fault hfault]
    rfl

/-- A number whose finiteness can be told is made into a track, if not one that it stands for then
one of no size. -/
private theorem exists_ofNumber {finite : Bool} (hx : value.number? = some x)
    (hfinite : x.isFinite = .ok finite) :
    ∃ t, ofNumber x = .ok t ∧ (value.Denotes t ∨ t = zero) := by
  cases finite with
  | false =>
    simp only [ofNumber, hfinite]
    exact ⟨zero, rfl, .inr rfl⟩
  | true =>
    cases hlt : x.lt (.int 0) with
    | false => exact ⟨_, Clean.ofGiven_describe (t := .number x) ⟨hfinite, hlt⟩,
        .inl (.number hx ⟨hfinite, hlt⟩)⟩
    | true =>
      simp only [ofNumber, hfinite, hlt]
      cases hfound : Sizing.ofNumber? x with
      | none => exact ⟨zero, rfl, .inr rfl⟩
      | some s =>
        have hsame := List.find?_some (p := fun s : Sizing => x.same (.int s.code)) hfound
        exact ⟨.sizing s, rfl, .inl (.code hx hsame)⟩

/-- A value that is not refused is made into a track: the one that it stands for, or one of no
size. -/
theorem exists_ofGiven (h : value.fault? = none) : ∃ t, ofGiven value = .ok t ∧
    (value.Denotes t ∨ (∀ t', ¬ value.Denotes t') ∧ t = zero) := by
  have hmade : ∃ t, ofGiven value = .ok t ∧ (value.Denotes t ∨ t = zero) := by
    cases hx : value.number? with
    | some x =>
      obtain ⟨finite, hfinite⟩ := Number.exists_isFinite ((GivenSize.fault?_eq hx).symm.trans h)
      rw [ofGiven_of_number? hx]
      exact exists_ofNumber hx hfinite
    | none =>
      cases value with
      | number x => cases hx
      | other y =>
        cases y with
        | integral n => cases hx
        | real y => cases hx
        | inconvertible fault => cases h
      | sizing s => exact ⟨_, rfl, .inl (.sizing s)⟩
      | boolean | absent | object => exact ⟨_, rfl, .inr rfl⟩
      | text t =>
        cases hword : Sizing.ofText? t with
        | some s => exact ⟨_, ofGiven_of_denotes (.word hword), .inl (.word hword)⟩
        | none =>
          simp only [GivenSize.number?, hword, Option.isSome_none, Bool.false_eq_true, if_false,
            Option.map_eq_none_iff] at hx
          simp only [ofGiven, hword, hx]
          exact ⟨zero, rfl, .inr rfl⟩
  obtain ⟨t, ht, hcase⟩ := hmade
  refine ⟨t, ht, ?_⟩
  by_cases hdenotes : ∃ t', value.Denotes t'
  · obtain ⟨t', ht'⟩ := hdenotes
    obtain rfl := Except.ok.inj ((ofGiven_of_denotes ht').symm.trans ht)
    exact .inl ht'
  · exact hcase.imp_right fun hzero => ⟨fun t' ht' => hdenotes ⟨t', ht'⟩, hzero⟩

/-- So a negative integer beyond the range, which stands for no track, is not made into zero. -/
theorem immense_refused :
    ofGiven (.number (.int (-(Nat.pow 10 309)))) = .error .integerTooLarge ∧
    ∀ t, ¬ GivenSize.Denotes (.number (.int (-(Nat.pow 10 309)))) t := by
  have hfault : GivenSize.fault? (.number (.int (-(Nat.pow 10 309)))) = some .integerTooLarge := by
    decide +kernel
  refine ⟨ofGiven_of_fault hfault, fun t ht => ?_⟩
  have hrefused := (ofGiven_of_denotes ht).symm.trans (ofGiven_of_fault hfault)
  cases hrefused

private theorem exists_ok (value : GivenSize) (h : value.fault? = none) :
    ∃ t, ofGiven value = .ok t := by
  obtain ⟨t, ht, -⟩ := exists_ofGiven h
  exact ⟨t, ht⟩

variable {values : List GivenSize}

private theorem exists_listOfGiven (h : values.findSome? GivenSize.fault? = none) :
    ∃ tracks, listOfGiven values = .ok tracks :=
  exists_mapM_iff.mpr fun value hvalue =>
    exists_ok value (List.findSome?_eq_none_iff.mp h value hvalue)

private theorem listOfGiven_of_fault (h : values.findSome? GivenSize.fault? = some fault) :
    listOfGiven values = .error fault :=
  mapM_eq_first_error exists_ok (fun _ _ => ofGiven_of_fault) h

end Track

namespace Specification

def valuesGiven (columns rows : Option (List GivenSize)) : List GivenSize :=
  columns.getD [] ++ rows.getD []

private theorem exists_given {values : Option (List GivenSize)}
    (h : (values.getD []).findSome? GivenSize.fault? = none) :
    ∃ tracks, given values = .ok tracks := by
  cases values with
  | none => exact ⟨_, rfl⟩
  | some values => exact Track.exists_listOfGiven h

private theorem given_of_fault {values : Option (List GivenSize)} {fault : Fault}
    (h : (values.getD []).findSome? GivenSize.fault? = some fault) :
    given values = .error fault := by
  cases values with
  | none => cases h
  | some values => exact Track.listOfGiven_of_fault h

variable {columns rows : Option (List GivenSize)} {fault : Fault}

private theorem exists_ofGiven (h : (valuesGiven columns rows).findSome? GivenSize.fault? = none) :
    ∃ spec, ofGiven columns rows = .ok spec := by
  rw [valuesGiven, List.findSome?_append, Option.or_eq_none_iff] at h
  obtain ⟨columns', hcolumns⟩ := exists_given h.1
  obtain ⟨rows', hrows⟩ := exists_given h.2
  rw [ofGiven_eq, hcolumns, hrows]
  exact ⟨_, rfl⟩

theorem ofGiven_of_fault (h : (valuesGiven columns rows).findSome? GivenSize.fault? = some fault) :
    ofGiven columns rows = .error fault := by
  rw [valuesGiven, List.findSome?_append, Option.or_eq_some_iff] at h
  rw [ofGiven_eq]
  rcases h with hcolumns | ⟨hcolumns, hrows⟩
  · rw [given_of_fault hcolumns]
    rfl
  · obtain ⟨tracks, htracks⟩ := exists_given hcolumns
    rw [htracks, given_of_fault hrows]
    rfl

end Specification

namespace Layout

variable {κ σ : Type} [DecidableEq κ]

section
variable (report : Notice κ → StateM σ Unit) (find : String → Option κ)

/-- What a described item does is the same for all tracks. -/
private theorem run_addDescribed_putTracks (tracks : Specification) (l : Layout κ)
    (item : DescribedItem) (start : σ) :
    (addDescribed report find (l.putTracks tracks) item).run.run start =
      Prod.map (Except.map (putTracks · tracks)) id
        ((addDescribed report find l item).run.run start) := by
  unfold addDescribed
  cases item.component.bind find with
  | none => rfl
  | some component =>
    simp only [add]
    cases Constraint.ofGiven item.given <;> rfl

private theorem run_foldlM_addDescribed_putTracks (tracks : Specification)
    (items : List DescribedItem) (l : Layout κ) (start : σ) :
    (items.foldlM (addDescribed report find) (l.putTracks tracks)).run.run start =
      Prod.map (Except.map (putTracks · tracks)) id
        ((items.foldlM (addDescribed report find) l).run.run start) := by
  induction items generalizing l start with
  | nil => rfl
  | cons item items ih =>
    rw [List.foldlM_cons, List.foldlM_cons, run_bind, run_bind,
      run_addDescribed_putTracks report find tracks]
    rcases (addDescribed report find l item).run.run start with ⟨fault | l', start'⟩
    · rfl
    · exact ih l' start'

private theorem run_ofDescription_of_tracks {d : Description} {tracks : Specification}
    (h : Specification.ofGiven d.columns d.rows = .ok tracks) (start : σ) :
    (ofDescription report find d).run.run start =
      Prod.map (Except.map (putTracks · tracks)) id
        ((ofDescription report find { d with columns := none, rows := none }).run.run start) := by
  have hgiven : ofGiven (κ := κ) d.columns d.rows = .ok ((ofTracks .single).putTracks tracks) := by
    rw [ofGiven, h]
    rfl
  rw [ofDescription, hgiven]
  exact run_foldlM_addDescribed_putTracks report find tracks _ _ _

private theorem run_ofDescription_of_fault {d : Description} {fault : Fault}
    (h : (Specification.valuesGiven d.columns d.rows).findSome? GivenSize.fault? = some fault)
    (start : σ) : (ofDescription report find d).run.run start = (.error fault, start) := by
  rw [ofDescription, ofGiven, Specification.ofGiven_of_fault h]
  rfl

end

/-- What becomes of the values that are given for tracks. A value is refused if its conversion fails,
for the same reason, and if it is an integer beyond the range of floating-point numbers; every other
value is made into a clean track: the one that it stands for, or a track of no size if it stands for
none. A specification is refused just for the first such value, when it is made and when its tracks
are set. A description with such a value is refused before anything else is done, and any other
description comes to what it would come to without its tracks, with the tracks that are made of its
values. -/
theorem coerces_tracks :
    (∀ value : GivenSize,
      (∀ fault, value.fault? = some fault → Track.ofGiven value = .error fault) ∧
      (value.fault? = none → ∃ t, Track.ofGiven value = .ok t ∧ t.Clean ∧
        (value.Denotes t ∨ (∀ t', ¬ value.Denotes t') ∧ t = .zero))) ∧
    (∀ columns rows : Option (List GivenSize),
      (∀ fault, (Specification.valuesGiven columns rows).findSome? GivenSize.fault? = some fault →
        Specification.ofGiven columns rows = .error fault) ∧
      ((Specification.valuesGiven columns rows).findSome? GivenSize.fault? = none →
        ∃ spec, Specification.ofGiven columns rows = .ok spec ∧ spec.Clean)) ∧
    (∀ (spec : Specification) (axis : Axis) (values : List GivenSize),
      (∀ fault, values.findSome? GivenSize.fault? = some fault →
        spec.setTracks axis values = .error fault) ∧
      (values.findSome? GivenSize.fault? = none → ∃ tracks, Track.listOfGiven values = .ok tracks ∧
        spec.setTracks axis values = .ok (spec.put axis tracks))) ∧
    ∀ (report : Notice κ → StateM σ Unit) (find : String → Option κ) (d : Description) (start : σ),
      (∀ fault,
        (Specification.valuesGiven d.columns d.rows).findSome? GivenSize.fault? = some fault →
        (ofDescription report find d).run.run start = (.error fault, start)) ∧
      ((Specification.valuesGiven d.columns d.rows).findSome? GivenSize.fault? = none →
        ∃ tracks, Specification.ofGiven d.columns d.rows = .ok tracks ∧
          (ofDescription report find d).run.run start =
            Prod.map (Except.map (putTracks · tracks)) id
              ((ofDescription report find { d with columns := none, rows := none }).run.run
                start)) := by
  refine ⟨fun value => ⟨fun fault => Track.ofGiven_of_fault, fun h => ?_⟩,
    fun columns rows => ⟨fun fault => Specification.ofGiven_of_fault, fun h => ?_⟩,
    fun spec axis values => ⟨fun fault h => ?_, fun h => ?_⟩,
    fun report find d start => ⟨fun fault h => run_ofDescription_of_fault report find h start,
      fun h => ?_⟩⟩
  · obtain ⟨t, ht, hcase⟩ := Track.exists_ofGiven h
    exact ⟨t, ht, Track.ofGiven_clean ht, hcase⟩
  · obtain ⟨spec, hspec⟩ := Specification.exists_ofGiven h
    exact ⟨spec, hspec, Specification.ofGiven_clean hspec⟩
  · rw [Specification.setTracks, Specification.change, Track.listOfGiven_of_fault h]
    rfl
  · obtain ⟨tracks, htracks⟩ := Track.exists_listOfGiven h
    refine ⟨tracks, htracks, ?_⟩
    rw [Specification.setTracks, Specification.change, htracks]
    rfl
  · obtain ⟨tracks, htracks⟩ := Specification.exists_ofGiven h
    exact ⟨tracks, htracks, run_ofDescription_of_tracks report find htracks start⟩

/-- A number of another kind that stands for a sizing, a word, a truth value and a number that is
none, and an item that is not known. -/
private def motleyDescription : Description :=
  ⟨some [.other (.integral (-2)), .text " Fill ", .boolean true, .other (.real .nan)], none,
    some [⟨some "b", some (.text "0, 0")⟩]⟩

/-- A fraction that is too large to be converted, behind an integer that is too large. -/
private def boundlessDescription : Description :=
  ⟨some [.object], some [.number (.int (Nat.pow 10 309)), .other (.inconvertible
    (.foreign "OverflowError" "integer division result too large for a float"))], none⟩

theorem motleyDescription_coerced :
    (∃ t, Track.ofGiven (.number (.int (Nat.pow 10 308))) = .ok t ∧ t.Clean) ∧
    (∃ l : Layout Unit, ((ofDescription (m := StateM Unit) (fun _ => pure ()) (fun _ => none)
      motleyDescription).run.run ()).1 = .ok l ∧
      l.tracks = ⟨[.sizing .preferred, .fill, .zero, .zero], [.fill]⟩) ∧
    ((ofDescription (κ := Unit) (m := StateM Unit) (fun _ => pure ()) (fun _ => none)
      boundlessDescription).run.run ()).1 = .error .integerTooLarge := by
  obtain ⟨hvalue, -, -, hdescription⟩ := coerces_tracks (κ := Unit) (σ := Unit)
  refine ⟨?_, ?_, ?_⟩
  · obtain ⟨t, ht, hclean, -⟩ := (hvalue (.number (.int (Nat.pow 10 308)))).2 (by decide +kernel)
    exact ⟨t, ht, hclean⟩
  · obtain ⟨tracks, htracks, hrun⟩ :=
      (hdescription (fun _ => pure ()) (fun _ => none) motleyDescription ()).2 (by decide +kernel)
    have hmade : Specification.ofGiven motleyDescription.columns motleyDescription.rows =
        .ok ⟨[.sizing .preferred, .fill, .zero, .zero], [.fill]⟩ := by decide +kernel
    obtain rfl := Except.ok.inj (htracks.symm.trans hmade)
    rw [hrun]
    exact ⟨_, rfl, rfl⟩
  · rw [(hdescription (fun _ => pure ()) (fun _ => none) boundlessDescription ()).1
      .integerTooLarge (by decide +kernel)]

end Layout
end TrackGrid
