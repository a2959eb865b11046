import TrackGrid.Proofs.Constraint.Reading

/-! The grammar of constraints: fields with separators between and around them, of which the first
five are read. -/

namespace TrackGrid
namespace Constraint

variable {fs gs : List (List Char)} {cs ds run : List Char}

/-- Fields as they stand in a text, each ended by a separator or by the end of the text, and
separators wherever else there is room for them. -/
inductive Spaced : List (List Char) → List Char → Prop
  | done : Spaced [] []
  | separator {fs : List (List Char)} {cs : List Char} {c : Char} (hc : isSeparator c = true)
      (h : Spaced fs cs) : Spaced fs (c :: cs)
  | field {fs : List (List Char)} {field cs : List Char} (hfield : Field field)
      (hend : ∀ c ∈ cs.head?, isSeparator c = true) (h : Spaced fs cs) :
      Spaced (field :: fs) (field ++ cs)

theorem Spaced.fields_eq (h : Spaced fs cs) : fields cs = fs := by
  induction h with
  | done => rfl
  | separator hc _ ih => rw [fields_cons hc, ih]
  | @field fs field cs hfield hend _ ih =>
    cases cs with
    | nil =>
      rw [List.append_nil, hfield.fields_eq, ← ih]
      rfl
    | cons c cs =>
      have hc := hend c rfl
      rw [fields_cons hc] at ih
      rw [fields_append field cs hc, hfield.fields_eq, ih, List.singleton_append]

theorem Spaced.length_le (h : Spaced fs cs) {field : List Char} (hfield : field ∈ fs) :
    field.length ≤ cs.length := by
  induction h with
  | done => cases hfield
  | separator _ _ ih =>
    rw [List.length_cons]
    exact Nat.le_succ_of_le (ih hfield)
  | field _ _ _ ih =>
    rw [List.length_append]
    rcases List.mem_cons.mp hfield with rfl | hfield
    · exact Nat.le_add_right _ _
    · exact Nat.le_add_left_of_le (ih hfield)

/-- Every text is made of fields and separators. -/
theorem exists_spaced (cs : List Char) : ∃ fs, Spaced fs cs := by
  induction cs with
  | nil => exact ⟨[], .done⟩
  | cons c cs ih =>
    obtain ⟨fs, hfs⟩ := ih
    cases hc : isSeparator c with
    | true => exact ⟨fs, .separator hc hfs⟩
    | false =>
      have hone : Field [c] := ⟨List.cons_ne_nil _ _, by simpa using hc⟩
      -- a further character makes the field longer that begins behind it, or a field of its own
      cases hfs with
      | done =>
        have hspaced : Spaced [[c]] ([c] ++ []) := .field hone (fun _ hmem => nomatch hmem) .done
        exact ⟨_, hspaced⟩
      | @separator fs cs d hd h =>
        have hspaced : Spaced ([c] :: fs) ([c] ++ d :: cs) :=
          .field hone (fun _ hmem => by cases hmem; exact hd) (.separator hd h)
        exact ⟨_, hspaced⟩
      | @field fs field cs hfield hend h =>
        have hlonger : Field (c :: field) :=
          ⟨List.cons_ne_nil _ _, List.forall_mem_cons.mpr ⟨hc, hfield.unseparated⟩⟩
        exact ⟨(c :: field) :: fs, .field hlonger hend h⟩

/-- The fields of a text are those of which it is made. -/
theorem fields_eq_iff : fields cs = fs ↔ Spaced fs cs := by
  refine ⟨fun h => ?_, Spaced.fields_eq⟩
  obtain ⟨gs, hgs⟩ := exists_spaced cs
  rwa [← h, hgs.fields_eq]

private theorem fields_run_append (h : ∀ c ∈ run, isSeparator c = true) :
    fields (run ++ ds) = fields ds := by
  induction run with
  | nil => rfl
  | cons c run ih =>
    obtain ⟨hc, hrun⟩ := List.forall_mem_cons.mp h
    rw [List.cons_append, fields_cons hc, ih hrun]

/-- A run of separators keeps the fields on either side apart, however long it is. -/
theorem fields_append_run (h : ∀ c ∈ run, isSeparator c = true) (hne : run ≠ []) :
    fields (cs ++ (run ++ ds)) = fields cs ++ fields ds := by
  obtain ⟨c, rest, rfl⟩ := List.exists_cons_of_ne_nil hne
  obtain ⟨hc, hrest⟩ := List.forall_mem_cons.mp h
  rw [List.cons_append, fields_append cs _ hc, fields_run_append hrest]

private theorem leadingInts_take (count more : Nat) (fs : List (List Char)) :
    leadingInts count (fs.take (count + more)) = leadingInts count fs := by
  induction count generalizing fs with
  | zero => cases fs <;> cases more <;> rfl
  | succ count ih =>
    cases fs with
    | nil => rw [List.take_nil]
    | cons field rest =>
      rw [Nat.add_right_comm, List.take_succ_cons]
      simp only [leadingInts, ih]

/-- Reading depends on the first five fields only: four that may be integers, and one behind the
last place where the horizontal alignment may be. -/
theorem ofFields_take (fs : List (List Char)) : ofFields (fs.take 5) = ofFields fs := by
  have halign (n : Nat) (hn : n < 4) : readAlign ((fs.take 5).drop n) = readAlign (fs.drop n) := by
    have hget (i : Nat) (hi : i < 2) : ((fs.take 5).drop n)[i]? = (fs.drop n)[i]? := by
      rw [List.getElem?_drop, List.getElem?_drop, List.getElem?_take_of_lt (by omega)]
    rw [readAlign, readAlign, hget 0 (by omega), hget 1 (by omega)]
  unfold ofFields
  rw [leadingInts_take 4 1 fs]
  refine congrArg (leadingInts 4 fs >>= ·) (funext fun values => ?_)
  by_cases hvalues : values.length < 4
  · simp only [if_pos hvalues, halign values.length hvalues]
  · simp only [if_neg hvalues]

private theorem ofText_congr {s t : String}
    (h : (fields s.toList).take 5 = (fields t.toList).take 5) : ofText s = ofText t := by
  rw [ofText, ← ofFields_take, h, ofFields_take, ofText]

/-- A run of separators, which may be empty. -/
def IsRun (s : String) : Prop := ∀ c ∈ s.toList, isSeparator c = true

private theorem fields_run {before after run : String} (h : IsRun run) (hne : run ≠ "") :
    fields (before ++ run ++ after).toList = fields before.toList ++ fields after.toList := by
  rw [String.toList_append, String.toList_append, List.append_assoc]
  exact fields_append_run h fun hnil => hne (String.toList_eq_nil_iff.mp hnil)

private theorem fields_ends {front s rear : String} (hfront : IsRun front) (hrear : IsRun rear) :
    fields (front ++ s ++ rear).toList = fields s.toList := by
  rw [String.toList_append, String.toList_append, List.append_assoc, fields_run_append hfront]
  by_cases hne : rear.toList = []
  · rw [hne, List.append_nil]
  · rw [← List.append_nil rear.toList, fields_append_run hrear hne]
    exact List.append_nil _

/-- The grammar of constraints. Every text is made of fields and separators in one way, and what is
read of it depends on its first five fields only. So a run of separators may be exchanged for
another one, separators may stand at the ends, and anything may follow the fifth field. Two integers
are a cell, two integers and two letters are a cell with these alignments, and four integers are the
bounds of a range, however the fields are spaced and whichever numerals the integers have. -/
theorem ofText_grammar :
    (∀ s : String, ∃! fs, Spaced fs s.toList) ∧
    (∀ fs gs (s t : String), Spaced fs s.toList → Spaced gs t.toList → fs.take 5 = gs.take 5 →
      ofText s = ofText t) ∧
    (∀ before run run' after, IsRun run → IsRun run' → run ≠ "" → run' ≠ "" →
      ofText (before ++ run ++ after) = ofText (before ++ run' ++ after)) ∧
    (∀ front s rear, IsRun front → IsRun rear → ofText (front ++ s ++ rear) = ofText s) ∧
    (∀ fs s run more, Spaced fs s.toList → 5 ≤ fs.length → IsRun run → run ≠ "" →
      ofText (s ++ run ++ more) = ofText s) ∧
    ∀ a b column row, Number.Numeral a column → Number.Numeral b row → ∀ s : String,
      (Spaced [column, row] s.toList → ofText s = .ok (.single ⟨a, b⟩ fullAlign)) ∧
      (∀ h v x y rest, Alignment.Named .columns h x → Alignment.Named .rows v y →
        Spaced (column :: row :: [x] :: [y] :: rest) s.toList →
        ofText s = .ok (.single ⟨a, b⟩ ⟨h, v⟩)) ∧
      ∀ c d lastColumn lastRow rest, Number.Numeral c lastColumn → Number.Numeral d lastRow →
        Spaced (column :: row :: lastColumn :: lastRow :: rest) s.toList →
        ofText s = .ok (ofRange a b (some c) (some d) fullAlign) := by
  refine ⟨fun s => ⟨_, fields_eq_iff.mp rfl, fun _ hs => hs.fields_eq.symm⟩,
    fun fs gs s t hs ht htake => ?_, fun before run run' after hrun hrun' hne hne' => ?_,
    fun front s rear hfront hrear => ?_, fun fs s run more hs hlength hrun hne => ?_,
    fun a b column row ha hb s => ?_⟩
  · exact ofText_congr (by rw [hs.fields_eq, ht.fields_eq, htake])
  · exact ofText_congr (by rw [fields_run hrun hne, fields_run hrun' hne'])
  · exact ofText_congr (by rw [fields_ends hfront hrear])
  · refine ofText_congr ?_
    rw [fields_run hrun hne, hs.fields_eq, List.take_append_of_le_length hlength]
  · have ha := Number.ofNumeral?_of_numeral ha
    have hb := Number.ofNumeral?_of_numeral hb
    refine ⟨fun hs => ?_, fun h v x y rest hx hy hs => ?_,
      fun c d lastColumn lastRow rest hc hd hs => ?_⟩ <;> rw [ofText, hs.fields_eq]
    · exact ofFields_cell ha hb rfl
    · exact ofFields_letters ha hb hx hy rest
    · exact ofFields_numerals ha hb (Number.ofNumeral?_of_numeral hc)
        (Number.ofNumeral?_of_numeral hd) rest

/-- A cell with alignments, the same cell with other separators and more fields at the end, and a
range of rows in one column. -/
theorem untidy_read :
    ofText ", -007 ,+12,r  c" = .ok (.single ⟨-7, 12⟩ ⟨.trailing, .center⟩) ∧
    ofText "-007 +12 r,c, x  01" = .ok (.single ⟨-7, 12⟩ ⟨.trailing, .center⟩) ∧
    ofText "+12,-007 ,+12 +12" = .ok (.span ⟨.one 12, ⟨-7, 12⟩⟩) := by
  obtain ⟨-, -, -, -, -, hread⟩ := ofText_grammar
  have hlow : Number.Numeral (-7) "-007".toList := @Number.Numeral.minus 2 7 (by decide)
  have hhigh : Number.Numeral 12 "+12".toList := @Number.Numeral.plus 0 12 (by decide)
  have hcell (s : String) (rest : List (List Char)) :=
    (hread (-7) 12 _ _ hlow hhigh s).2.1 .trailing .center 'r' 'c' rest (.inr rfl) (.inr rfl)
  refine ⟨hcell _ [] (fields_eq_iff.mp (by decide +kernel)),
    hcell _ ["x".toList, "01".toList] (fields_eq_iff.mp (by decide +kernel)), ?_⟩
  exact (hread 12 (-7) _ _ hhigh hlow _).2.2 12 12 _ _ [] hhigh hhigh
    (fields_eq_iff.mp (by decide +kernel))

end Constraint
end TrackGrid
