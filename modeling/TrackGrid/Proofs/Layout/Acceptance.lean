import TrackGrid.Layout
import TrackGrid.Proofs.Constraint.Grammar

/-! Which texts are accepted as constraints: all but those that begin with an integer of too many
digits. -/

namespace TrackGrid

def Number.readNumeral (numeral : Bool × List Char) : Except Fault Int :=
  if Fault.digitLimit < numeral.2.length then .error (.tooLongToRead numeral.2.length)
  else .ok (Text.intOfNumeral numeral.1 numeral.2)

namespace Constraint

variable {fs : List (List Char)} {s : String}

/-- The numerals among the first `count` fields, up to the first field that is none. -/
def leadingNumerals (count : Nat) (fs : List (List Char)) : List (Bool × List Char) :=
  (((fs.take count).map Text.numeral?).takeWhile Option.isSome).filterMap id

private theorem leadingInts_eq (count : Nat) (fs : List (List Char)) :
    leadingInts count fs = (leadingNumerals count fs).mapM Number.readNumeral := by
  induction count generalizing fs with
  | zero => cases fs <;> rfl
  | succ count ih =>
    cases fs with
    | nil => rfl
    | cons field rest =>
      cases hnumeral : Text.numeral? field with
      | none =>
        have hnone : Number.ofNumeral? field = none := by
          rw [Number.ofNumeral?, hnumeral, Option.map_none]
        have hnil : leadingNumerals (count + 1) (field :: rest) = [] := by
          simp [leadingNumerals, hnumeral]
        rw [leadingInts_other hnone, hnil]
        rfl
      | some numeral =>
        have hsome : Number.ofNumeral? field = some (Number.readNumeral numeral) := by
          rw [Number.ofNumeral?, hnumeral, Option.map_some, Number.readNumeral]
        have hcons : leadingNumerals (count + 1) (field :: rest) =
            numeral :: leadingNumerals count rest := by
          simp [leadingNumerals, hnumeral]
        rw [hcons, List.mapM_cons, ← ih rest]
        simp only [leadingInts, hsome]

/-- Whether none of the integers that a text begins with has too many digits. -/
def Readable (s : String) : Prop :=
  ∀ numeral ∈ leadingNumerals 4 (fields s.toList), numeral.2.length ≤ Fault.digitLimit

instance (s : String) : Decidable (Readable s) :=
  inferInstanceAs (Decidable (∀ numeral ∈ _, _ ≤ _))

/-- What a text is read as when there may be any number of digits: up to four integers, or fewer and
two alignments, with defaults for all that is missing or malformed. -/
def readAnyway (s : String) : Constraint :=
  let values := (leadingNumerals 4 (fields s.toList)).map fun p => Text.intOfNumeral p.1 p.2
  ofRange (values[0]?.getD 0) (values[1]?.getD 0) values[2]? values[3]?
    (if values.length < 4 then readAlign ((fields s.toList).drop values.length) else fullAlign)

private theorem ofText_of_readable (h : Readable s) : ofText s = .ok (readAnyway s) := by
  have hvalues : (leadingNumerals 4 (fields s.toList)).mapM Number.readNumeral =
      .ok ((leadingNumerals 4 (fields s.toList)).map fun p => Text.intOfNumeral p.1 p.2) :=
    mapM_eq_ok_iff.mpr (List.forall₂_map_right_iff.mpr (List.forall₂_same.mpr fun numeral hmem =>
      if_neg (Nat.not_lt.mpr (h numeral hmem))))
  rw [ofText, ofFields, leadingInts_eq, hvalues]
  rfl

/-- A text that is refused begins with integers of which one has too many digits. -/
theorem ofText_fault {fault : Fault} (h : ofText s = .error fault) :
    ∃ numeral ∈ leadingNumerals 4 (fields s.toList), Fault.digitLimit < numeral.2.length ∧
      fault = .tooLongToRead numeral.2.length := by
  rw [ofText, ofFields, leadingInts_eq] at h
  cases hvalues : (leadingNumerals 4 (fields s.toList)).mapM Number.readNumeral with
  | error other =>
    rw [hvalues] at h
    cases h
    obtain ⟨numeral, hmem, hfault⟩ := exists_of_mapM_error hvalues
    unfold Number.readNumeral at hfault
    split at hfault
    · cases hfault
      exact ⟨numeral, hmem, ‹_›, rfl⟩
    · cases hfault
  | ok values =>
    rw [hvalues] at h
    cases h

private theorem exists_ofText_iff : (∃ c, ofText s = .ok c) ↔ Readable s := by
  refine ⟨fun ⟨c, hc⟩ => ?_, fun h => ⟨_, ofText_of_readable h⟩⟩
  obtain ⟨values, hvalues, -⟩ := bind_eq_ok_iff.mp hc
  rw [leadingInts_eq] at hvalues
  intro numeral hmem
  obtain ⟨n, hn⟩ := exists_mapM_iff.mp ⟨values, hvalues⟩ numeral hmem
  by_contra hlimit
  rw [Number.readNumeral, if_pos (Nat.lt_of_not_le hlimit)] at hn
  cases hn

/-- Digits alone are refused when they are too many. -/
theorem ofText_digits {ds : List Char} (h : ∀ c ∈ ds, c.isDigit = true)
    (hlong : Fault.digitLimit < ds.length) :
    ofText (String.ofList ds) = .error (.tooLongToRead ds.length) := by
  have hne : ds ≠ [] := List.ne_nil_of_length_pos (Nat.zero_lt_of_lt hlong)
  have hfield : Field ds := ⟨hne, fun c hc => isSeparator_of_isDigit (h c hc)⟩
  have hnumeral := Text.numeral?_of_splitSign (Text.splitSign_of_isDigit h) hne h
  have hread : Number.ofNumeral? ds = some (.error (.tooLongToRead ds.length)) := by
    rw [Number.ofNumeral?, hnumeral, Option.map_some, if_pos hlong]
  rw [ofText, String.toList_ofList, hfield.fields_eq]
  simp only [ofFields, leadingInts, hread]
  rfl

/-- So not every text is read, not even one that writes zero. -/
theorem zeros_refused :
    ofText (String.ofList (List.replicate 4301 '0')) = .error (.tooLongToRead 4301) := by
  have hzeros : ∀ c ∈ List.replicate 4301 '0', c.isDigit = true := fun c hc => by
    rw [List.eq_of_mem_replicate hc]
    rfl
  have hrefused := ofText_digits hzeros (by rw [List.length_replicate]; decide)
  rwa [List.length_replicate] at hrefused

/-- No text is refused that is not longer than an integer may be. -/
theorem readable_of_length (h : s.length ≤ Fault.digitLimit) : Readable s := by
  intro numeral hmem
  obtain ⟨_, htaken, rfl⟩ := List.mem_filterMap.mp hmem
  obtain ⟨field, hfield, hnumeral⟩ := List.mem_map.mp ((List.takeWhile_sublist _).subset htaken)
  have hchars : field.length ≤ s.toList.length :=
    (fields_eq_iff.mp rfl).length_le (List.mem_of_mem_take hfield)
  rw [String.length_toList] at hchars
  exact (Text.length_of_numeral? hnumeral).trans (hchars.trans h)

private theorem parse_none : parse none = .ok (.single ⟨0, 0⟩ fullAlign) := rfl

end Constraint

namespace Layout

variable {κ σ : Type} [DecidableEq κ] {s : String}

private theorem exists_add_iff (l : Layout κ) (component : κ) :
    (∃ r, l.add component (.text s) = .ok r) ↔ Constraint.Readable s := by
  rw [← Constraint.exists_ofText_iff]
  constructor
  · rintro ⟨r, hr⟩
    obtain ⟨c, hc, -⟩ := bind_eq_ok_iff.mp hr
    exact ⟨c, hc⟩
  · rintro ⟨c, hc⟩
    exact ⟨_, bind_eq_ok_iff.mpr ⟨c, hc, rfl⟩⟩

private theorem exists_setConstraint_iff (l : Layout κ) (component : κ) :
    (∃ l', l.setConstraint component (.text s) = .ok l') ↔ Constraint.Readable s := by
  rw [← Constraint.exists_ofText_iff]
  constructor
  · rintro ⟨l', hl'⟩
    obtain ⟨c, hc, -⟩ := bind_eq_ok_iff.mp hl'
    exact ⟨c, hc⟩
  · rintro ⟨c, hc⟩
    have hgiven : Constraint.ofGiven (.text s) = .ok c := hc
    unfold setConstraint
    rw [hgiven]
    cases hentry : l.entries.ofComponent? component with
    | none => exact ⟨l, rfl⟩
    | some entry => exact ⟨l.putEntries (l.entries.constrain entry.handle c), rfl⟩

section
variable (report : Notice κ → StateM σ Unit) (find : String → Option κ)

private theorem exists_addDescribed_iff (l : Layout κ) {item : DescribedItem}
    (htext : item.given = .text s) (start : σ) :
    (∃ l', ((addDescribed report find l item).run.run start).1 = .ok l') ↔
      ((item.component.bind find).isSome → Constraint.Readable s) := by
  unfold addDescribed
  cases item.component.bind find with
  | none => exact iff_of_true ⟨l, rfl⟩ (fun h => by cases h)
  | some component =>
    simp only [Option.isSome_some, forall_const, ← exists_add_iff l component, htext]
    cases l.add component (.text s) with
    | error fault => exact iff_of_false (fun ⟨_, h⟩ => by cases h) fun ⟨_, h⟩ => by cases h
    | ok r => exact iff_of_true ⟨r.2, rfl⟩ ⟨r, rfl⟩

private theorem exists_foldlM_addDescribed_iff {items : List DescribedItem}
    (htexts : ∀ item ∈ items, ∃ t, item.given = .text t) (l : Layout κ) (start : σ) :
    (∃ l', ((items.foldlM (addDescribed report find) l).run.run start).1 = .ok l') ↔
      ∀ item ∈ items, (item.component.bind find).isSome → ∀ t, item.given = .text t →
        Constraint.Readable t := by
  induction items generalizing l start with
  | nil => exact iff_of_true ⟨l, rfl⟩ (List.forall_mem_nil _)
  | cons item items ih =>
    obtain ⟨⟨t, htext⟩, htexts⟩ := List.forall_mem_cons.mp htexts
    have hfirst := exists_addDescribed_iff report find l htext start
    have hitem : ((item.component.bind find).isSome → ∀ u, item.given = .text u →
        Constraint.Readable u) ↔ ((item.component.bind find).isSome → Constraint.Readable t) := by
      simp [htext]
    rw [List.forall_mem_cons, hitem, ← hfirst, List.foldlM_cons, run_bind]
    rcases (addDescribed report find l item).run.run start with ⟨fault | l', start'⟩
    · exact iff_of_false (fun ⟨_, h⟩ => by cases h) fun ⟨⟨_, h⟩, _⟩ => by cases h
    · exact (ih htexts l' start').trans ⟨fun hrest => ⟨⟨l', rfl⟩, hrest⟩, And.right⟩

end

/-- Which constraint texts are accepted. A text is read just if none of the integers it begins with
has too many digits, which holds of every text of no more characters; it is then read with defaults
for all that is missing or malformed, and no text as the first cell. Adding a component and setting
its constraint accept the same texts, and a description of which only the texts could be refused is
refused just for one of a component that is known. -/
theorem accepts_text_iff :
    (∀ s : String, ((∃ c, Constraint.parse (some s) = .ok c) ↔ Constraint.Readable s) ∧
      (Constraint.Readable s → Constraint.parse (some s) = .ok (Constraint.readAnyway s)) ∧
      (s.length ≤ Fault.digitLimit → Constraint.Readable s) ∧
      ∀ fault, Constraint.parse (some s) = .error fault →
        ∃ numeral ∈ Constraint.leadingNumerals 4 (Constraint.fields s.toList),
          Fault.digitLimit < numeral.2.length ∧ fault = .tooLongToRead numeral.2.length) ∧
    Constraint.parse none = .ok (.single ⟨0, 0⟩ Constraint.fullAlign) ∧
    (∀ (s : String) (l : Layout κ) (component : κ),
      ((∃ r, l.add component (.text s) = .ok r) ↔ Constraint.Readable s) ∧
      ((∃ l', l.setConstraint component (.text s) = .ok l') ↔ Constraint.Readable s)) ∧
    ∀ (report : Notice κ → StateM σ Unit) (find : String → Option κ) (d : Description)
      (l : Layout κ) (start : σ), ofGiven d.columns d.rows = .ok l →
      (∀ item ∈ d.items.getD [], ∃ t, item.given = .text t) →
      ((∃ l', ((ofDescription report find d).run.run start).1 = .ok l') ↔
        ∀ item ∈ d.items.getD [], (item.component.bind find).isSome →
          ∀ t, item.given = .text t → Constraint.Readable t) := by
  refine ⟨fun s => ⟨Constraint.exists_ofText_iff, Constraint.ofText_of_readable,
    Constraint.readable_of_length, fun fault => Constraint.ofText_fault⟩, Constraint.parse_none,
    fun s l component => ⟨exists_add_iff l component, exists_setConstraint_iff l component⟩,
    fun report find d l start hl htexts => ?_⟩
  have hrun : (ofDescription report find d).run.run start =
      ((d.items.getD []).foldlM (addDescribed report find) l).run.run start := by
    rw [ofDescription, hl]
    rfl
  rw [hrun]
  exact exists_foldlM_addDescribed_iff report find htexts l start

/-- An item with a text that is refused, and one with a text that names no cell. -/
private def vagueDescription : Description :=
  ⟨none, none, some [⟨some "b", some (.text (String.ofList (List.replicate 4301 '0')))⟩,
    ⟨some "a", some (.text "1_0 z, 99")⟩, ⟨some "a", none⟩]⟩

/-- The first item does no harm where its component is not known, and the last one has a default. -/
theorem vagueDescription_accepted :
    Constraint.parse (some "1_0 z, 99") = .ok (.single ⟨0, 0⟩ Constraint.fullAlign) ∧
    ∃ l', ((ofDescription (m := StateM Unit) (fun _ => pure ())
      (fun name => if name = "a" then some () else none) vagueDescription).run.run ()).1 = .ok l' := by
  have hreadable : Constraint.Readable "1_0 z, 99" := by decide +kernel
  have hblank : Constraint.Readable "" := by decide +kernel
  obtain ⟨hread, -, -, hdescription⟩ := accepts_text_iff (κ := Unit) (σ := Unit)
  have hempty : Constraint.readAnyway "1_0 z, 99" = .single ⟨0, 0⟩ Constraint.fullAlign := by
    decide +kernel
  refine ⟨hempty ▸ (hread _).2.1 hreadable, (hdescription _ _ vagueDescription
    (ofTracks ⟨[.fill], [.fill]⟩) () rfl ?_).mpr ?_⟩
  · rintro ⟨name, given⟩ hitem
    simp only [vagueDescription, Option.getD_some, List.mem_cons, List.not_mem_nil, or_false] at hitem
    rcases hitem with h | h | h <;> cases h <;> exact ⟨_, rfl⟩
  · intro item hitem hknown t ht
    simp only [vagueDescription, Option.getD_some, List.mem_cons, List.not_mem_nil, or_false] at hitem
    rcases hitem with rfl | rfl | rfl
    · cases hknown
    · cases ht
      exact hreadable
    · cases ht
      exact hblank

end Layout
end TrackGrid
