import TrackGrid.Proofs.Constraint.Normal

/-! A written constraint reads back as its normal form, and what a text is read as can be written
and read again. -/

namespace TrackGrid

namespace Alignment

/-- A character names an alignment along an axis: it is its letter in either case. -/
def Named (axis : Axis) (a : Alignment) (c : Char) : Prop :=
  c = a.letter axis ∨ c = (a.letter axis).toLower

theorem Named.ofField? {axis : Axis} {a : Alignment} {c : Char} (h : Named axis a c) :
    Alignment.ofField? axis [c] = some a := by
  rcases h with rfl | rfl <;> cases axis <;> cases a <;> rfl

/-- No name is a numeral. -/
theorem Named.ofNumeral? {axis : Axis} {a : Alignment} {c : Char} (h : Named axis a c) :
    Number.ofNumeral? [c] = none := by
  rcases h with rfl | rfl <;> cases axis <;> cases a <;> rfl

end Alignment

namespace Constraint

structure Field (cs : List Char) : Prop where
  nonempty : cs ≠ []
  unseparated : ∀ c ∈ cs, isSeparator c = false

private theorem split_ne_nil (cs : List Char) : split cs ≠ [] := by
  cases cs with
  | nil => exact List.cons_ne_nil _ _
  | cons c cs =>
    unfold split
    split
    · exact List.cons_ne_nil _ _
    · split <;> exact List.cons_ne_nil _ _

/-- What stands on either side of a separator is split apart. -/
theorem split_append (cs rest : List Char) {c : Char} (hc : isSeparator c = true) :
    split (cs ++ c :: rest) = split cs ++ split rest := by
  induction cs with
  | nil => simp [split, hc]
  | cons d cs ih =>
    obtain ⟨field, others, hcs⟩ := List.exists_cons_of_ne_nil (split_ne_nil cs)
    cases hd : isSeparator d with
    | true => simp [split, hd, ih]
    | false => simp [split, hd, ih, hcs]

theorem fields_append (cs rest : List Char) {c : Char} (hc : isSeparator c = true) :
    fields (cs ++ c :: rest) = fields cs ++ fields rest := by
  rw [fields, split_append cs rest hc, List.filter_append, fields, fields]

theorem fields_cons {cs : List Char} {c : Char} (hc : isSeparator c = true) :
    fields (c :: cs) = fields cs :=
  fields_append [] cs hc

theorem Field.fields_eq {cs : List Char} (h : Field cs) : fields cs = [cs] := by
  have hsplit (cs : List Char) (h : ∀ c ∈ cs, isSeparator c = false) : split cs = [cs] := by
    induction cs with
    | nil => rfl
    | cons c cs ih =>
      obtain ⟨hc, hcs⟩ := List.forall_mem_cons.mp h
      simp [split, hc, ih hcs]
  simp [fields, hsplit cs h.unseparated, h.nonempty]

/-- Fields come back one by one from a text with a comma and a space between them. -/
theorem fields_intercalate {fs : List (List Char)} (h : ∀ cs ∈ fs, Field cs) :
    fields ([',', ' '].intercalate fs) = fs := by
  induction fs with
  | nil => rfl
  | cons cs fs ih =>
    obtain ⟨hcs, hfs⟩ := List.forall_mem_cons.mp h
    cases fs with
    | nil =>
      rw [List.intercalate_singleton]
      exact hcs.fields_eq
    | cons ds fs =>
      rw [List.intercalate_cons_cons, List.append_assoc]
      change fields (cs ++ ',' :: ' ' :: [',', ' '].intercalate (ds :: fs)) = _
      rw [fields_append cs _ rfl, fields_cons rfl, hcs.fields_eq, ih hfs]
      rfl

theorem isSeparator_of_isDigit {c : Char} (h : c.isDigit = true) : isSeparator c = false := by
  rw [isSeparator, Bool.or_eq_false_iff, decide_eq_false_iff_not, decide_eq_false_iff_not]
  constructor <;> rintro rfl <;> cases h

private theorem field_numeralOfInt (n : Int) : Field (Text.numeralOfInt n) := by
  have hdigit {c : Char} (h : c ∈ Text.digitsOfNat n.natAbs) : isSeparator c = false :=
    isSeparator_of_isDigit (Text.isDigit_of_mem_digitsOfNat h)
  unfold Text.numeralOfInt
  split
  · refine ⟨List.cons_ne_nil _ _, fun c hc => ?_⟩
    rcases List.mem_cons.mp hc with rfl | hc
    · rfl
    · exact hdigit hc
  · exact ⟨Nat.toDigits_ne_nil, fun c hc => hdigit hc⟩

private theorem field_letter (axis : Axis) (a : Alignment) : Field [a.letter axis] := by
  refine ⟨List.cons_ne_nil _ _, fun c hc => ?_⟩
  rw [List.mem_singleton.mp hc]
  cases axis <;> cases a <;> rfl

private theorem leadingInts_numeral {field : List Char} {n : Int}
    (h : Number.ofNumeral? field = some (.ok n)) (count : Nat) (rest : List (List Char)) :
    leadingInts (count + 1) (field :: rest) = (do return n :: (← leadingInts count rest)) := by
  simp only [leadingInts, h]
  rfl

theorem leadingInts_other {field : List Char} (h : Number.ofNumeral? field = none) (count : Nat)
    (rest : List (List Char)) : leadingInts count (field :: rest) = .ok [] := by
  cases count with
  | zero => rfl
  | succ count => simp only [leadingInts, h]

private theorem writable_of_leadingInts {count : Nat} {fields : List (List Char)}
    {values : List Int}
    (h : leadingInts count fields = .ok values) : ∀ n ∈ values, Number.Writable n := by
  induction fields generalizing count values with
  | nil =>
    cases count <;> cases h <;> exact List.forall_mem_nil _
  | cons field rest ih =>
    cases count with
    | zero =>
      cases h
      exact List.forall_mem_nil _
    | succ count =>
      unfold leadingInts at h
      split at h
      · rename_i value hvalue
        obtain ⟨n, hn, h⟩ := bind_eq_ok_iff.mp h
        obtain ⟨tail, htail, h⟩ := bind_eq_ok_iff.mp h
        obtain rfl := pure_eq_ok_iff.mp h
        rw [hn] at hvalue
        exact List.forall_mem_cons.mpr ⟨Number.writable_of_ofNumeral? hvalue, ih htail⟩
      · cases h
        exact List.forall_mem_nil _

def written : Constraint → List (List Char)
  | .single cell align =>
      [Text.numeralOfInt cell.columns, Text.numeralOfInt cell.rows,
        [align.columns.letter .columns], [align.rows.letter .rows]]
  | .span cells =>
      [Text.numeralOfInt cells.columns.first, Text.numeralOfInt cells.rows.first,
        Text.numeralOfInt cells.columns.last, Text.numeralOfInt cells.rows.last]

private theorem field_of_mem_written {c : Constraint} {cs : List Char} (h : cs ∈ c.written) :
    Field cs := by
  cases c with
  | single cell align =>
    simp only [written, List.mem_cons, List.not_mem_nil, or_false] at h
    rcases h with rfl | rfl | rfl | rfl
    · exact field_numeralOfInt _
    · exact field_numeralOfInt _
    · exact field_letter _ _
    · exact field_letter _ _
  | span cells =>
    simp only [written, List.mem_cons, List.not_mem_nil, or_false] at h
    rcases h with rfl | rfl | rfl | rfl <;> exact field_numeralOfInt _

/-- A text is the fields with a comma and a space between them. -/
theorem text_eq {c : Constraint} (h : c.Writable) :
    c.text = .ok (String.ofList ([',', ' '].intercalate c.written)) := by
  cases c with
  | single cell align =>
    have hcolumn : Number.Writable cell.columns := h.left
    have hrow : Number.Writable cell.rows := h.top
    simp only [text, Number.writeInt_eq hcolumn, Number.writeInt_eq hrow]
    apply congrArg Except.ok
    apply String.toList_inj.mp
    simp [written, List.intercalate]
  | span cells =>
    have hleft : Number.Writable cells.columns.first := h.left
    have htop : Number.Writable cells.rows.first := h.top
    have hright : Number.Writable cells.columns.last := h.right
    have hbottom : Number.Writable cells.rows.last := h.bottom
    simp only [text, Number.writeInt_eq hleft, Number.writeInt_eq htop, Number.writeInt_eq hright,
      Number.writeInt_eq hbottom]
    apply congrArg Except.ok
    apply String.toList_inj.mp
    simp [written, List.intercalate]

section
variable {a b c d : Int} {column row lastColumn lastRow : List Char}
  (ha : Number.ofNumeral? column = some (.ok a)) (hb : Number.ofNumeral? row = some (.ok b))
include ha hb

/-- Four integers are the bounds of a range, whatever comes behind them. -/
theorem ofFields_numerals (hc : Number.ofNumeral? lastColumn = some (.ok c))
    (hd : Number.ofNumeral? lastRow = some (.ok d)) (rest : List (List Char)) :
    ofFields (column :: row :: lastColumn :: lastRow :: rest) =
      .ok (ofRange a b (some c) (some d) fullAlign) := by
  unfold ofFields
  rw [leadingInts_numeral ha, leadingInts_numeral hb, leadingInts_numeral hc,
    leadingInts_numeral hd]
  rfl

/-- Two integers with no further one behind them are a cell, with the alignments that are named. -/
theorem ofFields_cell {rest : List (List Char)} (hrest : leadingInts 2 rest = .ok []) :
    ofFields (column :: row :: rest) = .ok (.single ⟨a, b⟩ (readAlign rest)) := by
  unfold ofFields
  rw [leadingInts_numeral ha, leadingInts_numeral hb, hrest]
  exact congrArg Except.ok (normalize_single ⟨a, b⟩ (readAlign rest))

/-- Two integers and two letters are a cell with these alignments, whatever comes behind them. -/
theorem ofFields_letters {h v : Alignment} {x y : Char} (hx : h.Named .columns x)
    (hy : v.Named .rows y) (rest : List (List Char)) :
    ofFields (column :: row :: [x] :: [y] :: rest) = .ok (.single ⟨a, b⟩ ⟨h, v⟩) := by
  rw [ofFields_cell ha hb (leadingInts_other hx.ofNumeral? _ _)]
  simp [readAlign, hx.ofField?, hy.ofField?]

end

private theorem ofFields_written {c : Constraint} (h : c.Writable) :
    ofFields c.written = .ok c.normalize := by
  have hread {n : Int} (hn : Number.Writable n) := Number.ofNumeral?_numeralOfInt hn
  cases c with
  | single cell align =>
    have hcolumn : Number.Writable cell.columns := h.left
    have hrow : Number.Writable cell.rows := h.top
    rw [normalize_single]
    exact ofFields_letters (hread hcolumn) (hread hrow) (.inl rfl) (.inl rfl) []
  | span cells =>
    exact ofFields_numerals (hread h.left) (hread h.top) (hread h.right) (hread h.bottom) []

/-- A constraint whose bounds can be written reads back as its normal form. -/
theorem ofText_written {c : Constraint} (h : c.Writable) :
    ofText (String.ofList ([',', ' '].intercalate c.written)) = .ok c.normalize := by
  rw [ofText, String.toList_ofList, fields_intercalate fun _ => field_of_mem_written]
  exact ofFields_written h

theorem exists_text {c : Constraint} (h : c.Writable) :
    ∃ t, c.text = .ok t ∧ ofText t = .ok c.normalize :=
  ⟨_, text_eq h, ofText_written h⟩

/-- What is read can be written. -/
theorem writable_of_ofFields {fields : List (List Char)} {c : Constraint}
    (h : ofFields fields = .ok c) : c.Writable := by
  obtain ⟨values, hvalues, h⟩ := bind_eq_ok_iff.mp h
  obtain rfl := pure_eq_ok_iff.mp h
  have hall := writable_of_leadingInts hvalues
  have hget (i : Nat) {d : Int} (hd : Number.Writable d) : Number.Writable (values[i]?.getD d) := by
    cases hi : values[i]? with
    | none => exact hd
    | some n => exact hall n (List.mem_of_getElem? hi)
  have hcolumn := hget 0 Number.writable_zero
  have hrow := hget 1 Number.writable_zero
  exact ofCells_writable hcolumn hrow (hget 2 hcolumn) (hget 3 hrow)

/-- Writing and reading agree on every constraint. A constraint as it was made, with bounds of any
sign and order, is read back as what it is brought into when it is given, which is the constraint
itself if it is in normal form. What any text is read as is in normal form and is read back from
its own written form. -/
theorem text_inverse :
    (∀ c : Constraint, c.Writable → ∃ t, c.text = .ok t ∧ ofText t = .ok c.normalize ∧
      ofGiven (.constraint c) = .ok c.normalize ∧ (c.Normal → ofText t = .ok c)) ∧
    ∀ s c, ofText s = .ok c → c.Normal ∧ ∃ t, c.text = .ok t ∧ ofText t = .ok c := by
  constructor
  · intro c hc
    obtain ⟨t, ht, hread⟩ := exists_text hc
    refine ⟨t, ht, hread, rfl, fun hnormal => ?_⟩
    rwa [hnormal.normalize_eq] at hread
  · intro s c hs
    have hnormal := ofFields_normal hs
    obtain ⟨t, ht, hread⟩ := exists_text (writable_of_ofFields hs)
    rw [hnormal.normalize_eq] at hread
    exact ⟨hnormal, t, ht, hread⟩

/-- A reversed span in one row, left of the table, becomes a single cell. -/
theorem reversed_inverse :
    (∃ t, (span ⟨⟨3, -1⟩, ⟨-2, -2⟩⟩).text = .ok t ∧
      ofText t = .ok (single ⟨3, -2⟩ fullAlign)) ∧
    ∃ t, (single ⟨-7, 12⟩ ⟨.trailing, .center⟩).text = .ok t ∧
      ofText t = .ok (single ⟨-7, 12⟩ ⟨.trailing, .center⟩) := by
  obtain ⟨hwrite, hread⟩ := text_inverse
  obtain ⟨t, ht, hspan, -, -⟩ := hwrite (span ⟨⟨3, -1⟩, ⟨-2, -2⟩⟩)
    ⟨by decide, by decide, by decide, by decide⟩
  have hcell : ofText "-7 +012,r c , 5" = .ok (single ⟨-7, 12⟩ ⟨.trailing, .center⟩) := by
    decide +kernel
  exact ⟨⟨t, ht, hspan⟩, (hread _ _ hcell).2⟩

end Constraint
end TrackGrid
