import WordMachine.Proofs.RoundTrip
import WordMachine.Sample.Reader

/-!
# Sample files read back

A sample file is a row of items, each a sample on three lines or a program row on one, with blank
lines around them. The first word of a line tells which item begins there, so the items of a file
can be found again: reading finds those that were written, in their order, and takes no line for two
items and no item without its lines.
-/

namespace WordMachine

open Text

/-! ## Items -/

/-- There are registers, and every number is short enough to be read. -/
structure Sample.Writable (s : Sample) : Prop where
  before : s.before ≠ []
  after : s.after ≠ []
  values : ∀ x ∈ s.before ++ s.after, digitCount x ≤ maxDigits
  row : s.row.Writable

namespace SampleFile

/-- A part of a sample file. -/
inductive Item where
  | sample (s : Sample)
  | row (r : Row)

namespace Item

def printLines : Item → List (List Char)
  | sample s => s.printLines
  | row r => [r.print]

def Writable : Item → Prop
  | sample s => s.Writable
  | row r => r.Writable

def sample? : Item → Option Sample
  | sample s => some s
  | row _ => none

def row? : Item → Option Row
  | sample _ => none
  | row r => some r

end Item

/-- The samples and the rows among the items, each in their order. -/
def ofItems (items : List Item) : SampleFile :=
  ⟨items.filterMap Item.sample?, items.filterMap Item.row?⟩

/-- Items on consecutive lines, with blank lines before, between and after them. -/
inductive Rendering : List Item → List (List Char) → Prop where
  | nil : Rendering [] []
  | blank {items : List Item} {line : List Char} {ls : List (List Char)} : Spacing line →
      Rendering items ls → Rendering items (line :: ls)
  | item {items : List Item} {ls : List (List Char)} (item : Item) : Rendering items ls →
      Rendering (item :: items) (item.printLines ++ ls)

end SampleFile

/-! ## Rows -/

namespace Row

theorem print_eq_unwords (row : Row) : row.print =
    unwords [printInt row.number, printInt row.a, printInt row.b, printInt row.c] := by
  simp [print, unwords, List.intercalate]

theorem words_print (row : Row) :
    words row.print = [printInt row.number, printInt row.a, printInt row.b, printInt row.c] := by
  rw [print_eq_unwords, words_unwords (by simp [solid_printInt, printInt_ne_nil])]

theorem row_print (row : Row) : Text.Row row.print := by
  rw [print_eq_unwords]
  exact .unwords (List.cons_ne_nil _ _) (by simp [solid_printInt, printInt_ne_nil])

end Row

/-- A space before a numeral makes no difference. -/
theorem readNumber_space_printInt {x : Int} (h : digitCount x ≤ maxDigits) :
    readNumber (' ' :: printInt x) = .ok x := by
  have htrim : trimBy isMargin (' ' :: printInt x) = trimBy isMargin (printInt x) := by
    rw [trimBy, List.dropWhile_cons, if_pos (by decide), trimBy]
  have hread : readInt (' ' :: printInt x) = readInt (printInt x) := by
    rw [readInt, htrim, readInt]
  rw [readNumber, hread, readInt_printInt h]

theorem digitCount_of_readNumber {text : List Char} {x : Int} (h : readNumber text = .ok x) :
    digitCount x ≤ maxDigits :=
  digitCount_of_readInt (Listing.readInt_of_readNumber h)

namespace SampleFile

theorem rowWords?_print (row : Row) : rowWords? row.print =
    some (printInt row.number, printInt row.a, printInt row.b, printInt row.c) := by
  unfold rowWords?
  extract_lets isNumeral
  have hnumeral : ∀ x, isNumeral (printInt x) = true := by
    intro x
    have hdigits : ∀ n, (Nat.toDigits 10 n).all isDigit = true := fun n =>
      List.all_eq_true.2 fun c hc => isDigit_of_isDigit (isDigit_of_mem_toDigits hc)
    cases x with
    | negSucc n => simp [isNumeral, printInt, hdigits, Nat.toDigits_ne_nil]
    | ofNat n =>
      simp only [isNumeral, printInt]
      split
      · next digits heq =>
        have hminus : ('-' :: digits).all isDigit = true := heq ▸ hdigits n
        cases hminus
      · simp [hdigits, Nat.toDigits_ne_nil]
  simp only [row.words_print, hnumeral, Bool.and_self, if_true]

theorem readRow_print {row : Row} (h : row.Writable) :
    readRow (printInt row.number, printInt row.a, printInt row.b, printInt row.c) = .ok row := by
  simp only [readRow, readNumber_printInt (h row.number (by simp)),
    readNumber_printInt (h row.a (by simp)), readNumber_printInt (h row.b (by simp)),
    readNumber_printInt (h row.c (by simp))]
  rfl

theorem writable_of_readRow {ws : List Char × List Char × List Char × List Char} {row : Row}
    (h : readRow ws = .ok row) : row.Writable := by
  obtain ⟨number, a, b, c⟩ := ws
  obtain ⟨x, hx, h⟩ := Except.bind_eq_ok_iff.1 h
  obtain ⟨y, hy, h⟩ := Except.bind_eq_ok_iff.1 h
  obtain ⟨z, hz, h⟩ := Except.bind_eq_ok_iff.1 h
  obtain ⟨w, hw, h⟩ := Except.bind_eq_ok_iff.1 h
  cases h
  simp only [Row.Writable, List.forall_mem_cons, List.not_mem_nil, false_imp_iff, implies_true,
    and_true]
  exact ⟨digitCount_of_readNumber hx, digitCount_of_readNumber hy, digitCount_of_readNumber hz,
    digitCount_of_readNumber hw⟩

/-- A row has four words, and the first of them begins with a sign or a digit. -/
theorem words_of_rowWords? {line : List Char} {ws : List Char × List Char × List Char × List Char}
    (h : rowWords? line = some ws) : ∃ c cs rest, words line = (c :: cs) :: rest ∧
      (c = '-' ∨ isDigit c = true) := by
  unfold rowWords? at h
  extract_lets isNumeral at h
  have hnumeral : ∀ word, isNumeral word = true →
      ∃ c cs, word = c :: cs ∧ (c = '-' ∨ isDigit c = true) := by
    intro word hword
    simp only [isNumeral] at hword
    split at hword
    · exact ⟨_, _, rfl, .inl rfl⟩
    · simp only [Bool.and_eq_true, Bool.not_eq_true', List.isEmpty_eq_false_iff,
        List.all_eq_true] at hword
      obtain ⟨c, cs, rfl⟩ := List.exists_cons_of_ne_nil hword.1
      exact ⟨c, cs, rfl, .inr (hword.2 c List.mem_cons_self)⟩
  split at h
  · next number a b c hwords =>
    obtain ⟨hall, -⟩ := Option.ite_none_right_eq_some.1 h
    simp only [Bool.and_eq_true] at hall
    obtain ⟨d, ds, rfl, hd⟩ := hnumeral number hall.1.1.1
    exact ⟨d, ds, _, hwords, hd⟩
  · cases h

/-! ## Values -/

/-- The values of registers as they stand between brackets. -/
def valuesText (vs : List Int) : List Char := [',', ' '].intercalate (vs.map printInt)

theorem valuesText_cons_cons (v w : Int) (vs : List Int) :
    valuesText (v :: w :: vs) = printInt v ++ ',' :: ' ' :: valuesText (w :: vs) := by
  rw [valuesText, List.map_cons, List.map_cons, List.intercalate_cons_cons, List.append_assoc]
  rfl

theorem valuesText_singleton (v : Int) : valuesText [v] = printInt v :=
  List.intercalate_singleton

theorem mem_valuesText {vs : List Int} {c : Char} (h : c ∈ valuesText vs) :
    c = ',' ∨ c = ' ' ∨ c = '-' ∨ c.isDigit = true := by
  induction vs with
  | nil => cases h
  | cons v vs ih =>
    cases vs with
    | nil =>
      rw [valuesText_singleton] at h
      exact .inr (.inr (mem_printInt h))
    | cons w vs =>
      rw [valuesText_cons_cons, List.mem_append, List.mem_cons, List.mem_cons] at h
      rcases h with h | h | h | h
      · exact .inr (.inr (mem_printInt h))
      · exact .inl h
      · exact .inr (.inl h)
      · exact ih h

theorem valuesText_ne_nil {vs : List Int} (h : vs ≠ []) : valuesText vs ≠ [] := by
  obtain ⟨v, vs, rfl⟩ := List.exists_cons_of_ne_nil h
  cases vs with
  | nil =>
    rw [valuesText_singleton]
    exact printInt_ne_nil v
  | cons w vs =>
    rw [valuesText_cons_cons]
    exact List.append_ne_nil_of_left_ne_nil (printInt_ne_nil v) _

theorem comma_not_mem_printInt (x : Int) : ',' ∉ printInt x := fun h => by
  rcases mem_printInt h with h | h <;> cases h

/-- Between commas stand the numerals, all but the first after a space. -/
theorem splitOn_append_valuesText {front : List Char} (h : ',' ∉ front) (v : Int) (vs : List Int) :
    (front ++ valuesText (v :: vs)).splitOn ',' =
      (front ++ printInt v) :: vs.map (' ' :: printInt ·) := by
  -- By induction on the values, since the space after a comma goes in front of the next of them.
  induction vs generalizing front v with
  | nil =>
    rw [valuesText_singleton]
    exact List.splitOn_eq_singleton (by simp [h, comma_not_mem_printInt])
  | cons w vs ih =>
    have hfirst : (front ++ printInt v).splitOn ',' = [front ++ printInt v] :=
      List.splitOn_eq_singleton (by simp [h, comma_not_mem_printInt])
    have hrest : (' ' :: valuesText (w :: vs)).splitOn ',' = _ := @ih [' '] (by decide) w
    rw [List.splitOn] at hfirst hrest
    rw [valuesText_cons_cons, ← List.append_assoc, List.splitOn,
      List.splitOnP_append_cons _ _ (by decide), hfirst, hrest]
    rfl

theorem readValues_valuesText {vs : List Int} (hne : vs ≠ [])
    (h : ∀ x ∈ vs, digitCount x ≤ maxDigits) : readValues (valuesText vs) = .ok vs := by
  obtain ⟨v, vs, rfl⟩ := List.exists_cons_of_ne_nil hne
  obtain ⟨hv, hvs⟩ := List.forall_mem_cons.1 h
  have hrest : (vs.map (' ' :: printInt ·)).mapM readNumber = .ok vs :=
    Except.mapM_map_eq_ok fun x hx => readNumber_space_printInt (hvs x hx)
  have hsplit : (valuesText (v :: vs)).splitOn ',' = _ :=
    splitOn_append_valuesText List.not_mem_nil v vs
  rw [readValues, hsplit, List.nil_append, List.mapM_cons, readNumber_printInt hv, hrest]
  rfl

theorem digitCount_of_readValues {text : List Char} {vs : List Int}
    (h : readValues text = .ok vs) : vs ≠ [] ∧ ∀ x ∈ vs, digitCount x ≤ maxDigits := by
  refine ⟨?_, fun x hx => ?_⟩
  · obtain ⟨w, ws, hsplit⟩ := List.exists_cons_of_ne_nil (List.splitOn_ne_nil ',' text)
    rw [readValues, hsplit, List.mapM_cons] at h
    obtain ⟨x, -, h⟩ := Except.bind_eq_ok_iff.1 h
    obtain ⟨xs, -, h⟩ := Except.bind_eq_ok_iff.1 h
    cases h
    exact List.cons_ne_nil _ _
  · obtain ⟨w, -, hw⟩ := (Except.mem_iff_of_mapM_eq_ok h).1 hx
    exact digitCount_of_readNumber hw

/-! ## Labelled lines -/

theorem bracketText?_printValues (label : List Char) {gap : List Char} {vs : List Int}
    (hgap : ∀ c ∈ gap, isBlank c = true) (hvs : vs ≠ []) :
    bracketText? label (label ++ gap ++ Sample.printValues vs) = some (valuesText vs) := by
  have hchars : (valuesText vs).all
      (fun c => c == '-' || c == ',' || isDigit c || isBlank c) = true := by
    refine List.all_eq_true.2 fun c hc => ?_
    rcases mem_valuesText hc with rfl | rfl | rfl | hdigit
    · rfl
    · rfl
    · rfl
    · simp [isDigit_of_isDigit hdigit]
  have hdrop : (gap ++ Sample.printValues vs).dropWhile isBlank = Sample.printValues vs :=
    dropWhile_blanks_append hgap fun c hc => by
      obtain rfl := Option.some.inj hc
      decide
  rw [bracketText?, List.append_assoc, if_pos (by simp), List.drop_left, hdrop]
  have hprint : Sample.printValues vs = '[' :: (valuesText vs ++ [']']) := rfl
  simp [hprint, hchars, valuesText_ne_nil hvs]

theorem exists_of_bracketText? {label line text : List Char}
    (h : bracketText? label line = some text) : ∃ rest, line = label ++ rest := by
  unfold bracketText? at h
  split at h
  · next hprefix =>
    obtain ⟨rest, hrest⟩ := List.isPrefixOf_iff_prefix.1 hprefix
    exact ⟨rest, hrest.symm⟩
  · cases h

/-- No line begins both a sample and a row. -/
theorem bracketText?_of_rowWords? {line : List Char}
    {ws : List Char × List Char × List Char × List Char} (h : rowWords? line = some ws) :
    bracketText? "Before:".toList line = none := by
  rw [Option.eq_none_iff_forall_ne_some]
  intro text htext
  obtain ⟨rest, rfl⟩ := exists_of_bracketText? htext
  -- The first word of the line would begin with the label's first letter.
  obtain ⟨c, cs, others, hwords, hc⟩ := words_of_rowWords? h
  have hfirst : words ("Before:".toList ++ rest) = _ := words_cons_of_not_blank (by decide)
  rw [hwords] at hfirst
  obtain rfl : c = 'B' := (List.cons.inj (List.cons.inj hfirst).1).1
  rcases hc with hc | hc
  · cases hc
  · exact absurd hc (by decide)

/-! ## What the lines of a file say -/

/-- A line that gives a row. -/
def RowLine (line : List Char) (row : Row) : Prop :=
  ∃ ws, rowWords? line = some ws ∧ readRow ws = .ok row

/-- A line that gives the values of registers after a label. -/
def ValuesLine (label line : List Char) (vs : List Int) : Prop :=
  ∃ text, bracketText? label line = some text ∧ readValues text = .ok vs

/-- Trimmed lines and the items that they make up. -/
inductive Parses : List (List Char) → List Item → Prop where
  | nil : Parses [] []
  | blank {ls : List (List Char)} {items : List Item} : Parses ls items → Parses ([] :: ls) items
  | row {line : List Char} {row : Row} {ls : List (List Char)} {items : List Item} :
      RowLine line row → Parses ls items → Parses (line :: ls) (.row row :: items)
  | sample {first second third : List Char} {s : Sample} {ls : List (List Char)}
      {items : List Item} : ValuesLine "Before:".toList first s.before → RowLine second s.row →
      ValuesLine "After:".toList third s.after → Parses ls items →
      Parses (first :: second :: third :: ls) (.sample s :: items)

theorem readSample_eq_ok_iff {number : Nat} {before row after : List Char} {s : Sample} :
    readSample number before row after = .ok s ↔ readValues before = .ok s.before ∧
      RowLine row s.row ∧ ValuesLine "After:".toList after s.after := by
  constructor
  · intro h
    unfold readSample at h
    split at h
    · next ws text hrow hafter =>
      obtain ⟨vs, hvs, h⟩ := Except.bind_eq_ok_iff.1 h
      obtain ⟨r, hr, h⟩ := Except.bind_eq_ok_iff.1 h
      obtain ⟨vs', hvs', h⟩ := Except.bind_eq_ok_iff.1 h
      cases h
      exact ⟨hvs, ⟨ws, hrow, hr⟩, text, hafter, hvs'⟩
    · cases h
  · rintro ⟨hvs, ⟨ws, hrow, hr⟩, text, hafter, hvs'⟩
    simp only [readSample, hrow, hafter, hvs, hr, hvs']
    rfl

theorem Parses.readLines {ls : List (List Char)} {items : List Item} (h : Parses ls items)
    (number : Nat) : SampleFile.readLines number ls = .ok (ofItems items) := by
  induction h generalizing number with
  | nil => rfl
  | blank _ ih => exact ih (number + 1)
  | row hline _ ih =>
    obtain ⟨ws, hwords, hrow⟩ := hline
    rw [SampleFile.readLines, bracketText?_of_rowWords? hwords]
    simp only [hwords, hrow, ih]
    rfl
  | sample hbefore hrow hafter _ ih =>
    obtain ⟨text, htext, hvalues⟩ := hbefore
    rw [SampleFile.readLines, htext]
    simp only [readSample_eq_ok_iff.2 ⟨hvalues, hrow, hafter⟩, ih]
    rfl

theorem exists_parses {number : Nat} {ls : List (List Char)} {file : SampleFile}
    (h : readLines number ls = .ok file) : ∃ items, Parses ls items ∧ file = ofItems items := by
  fun_induction readLines number ls generalizing file with
  | case1 number =>
    cases h
    exact ⟨[], .nil, rfl⟩
  | case2 number line before hbefore row after rest ih =>
    obtain ⟨s, hs, h⟩ := Except.bind_eq_ok_iff.1 h
    obtain ⟨file', hrest, h⟩ := Except.bind_eq_ok_iff.1 h
    cases h
    obtain ⟨items, hitems, rfl⟩ := ih hrest
    obtain ⟨hvalues, hrow, hafter⟩ := readSample_eq_ok_iff.1 hs
    exact ⟨.sample s :: items, .sample ⟨before, hbefore, hvalues⟩ hrow hafter hitems, rfl⟩
  | case3 number line rest before hbefore hshort => cases h
  | case4 number line rest hbefore ws hwords ih =>
    obtain ⟨row, hrow, h⟩ := Except.bind_eq_ok_iff.1 h
    obtain ⟨file', hrest, h⟩ := Except.bind_eq_ok_iff.1 h
    cases h
    obtain ⟨items, hitems, rfl⟩ := ih hrest
    exact ⟨.row row :: items, .row ⟨ws, hwords, hrow⟩ hitems, rfl⟩
  | case5 number line rest hbefore hwords hempty ih =>
    obtain rfl := List.isEmpty_iff.1 hempty
    obtain ⟨items, hitems, rfl⟩ := ih h
    exact ⟨items, .blank hitems, rfl⟩
  | case6 number line rest hbefore hwords hne => cases h

theorem read_eq_ok_iff {text : List Char} {file : SampleFile} : read text = .ok file ↔
    ∃ items, Parses ((lines text).map trim) items ∧ file = ofItems items := by
  refine ⟨exists_parses, ?_⟩
  rintro ⟨items, hitems, rfl⟩
  exact hitems.readLines 1

/-! ## Counting lines -/

theorem RowLine.ne_nil {line : List Char} {row : Row} (h : RowLine line row) : line ≠ [] := by
  obtain ⟨ws, hwords, -⟩ := h
  obtain ⟨c, cs, rest, hline, -⟩ := words_of_rowWords? hwords
  rintro rfl
  cases hline

theorem ValuesLine.ne_nil {label line : List Char} {vs : List Int} (h : ValuesLine label line vs)
    (hlabel : label ≠ []) : line ≠ [] := by
  obtain ⟨text, htext, -⟩ := h
  obtain ⟨rest, rfl⟩ := exists_of_bracketText? htext
  exact List.append_ne_nil_of_left_ne_nil hlabel rest

/-- A sample takes three lines that are not blank, and a row takes one. -/
theorem Parses.countP {ls : List (List Char)} {items : List Item} (h : Parses ls items) :
    ls.countP (!·.isEmpty) =
      3 * (ofItems items).samples.length + (ofItems items).rows.length := by
  induction h with
  | nil => rfl
  | blank _ ih => exact ih
  | row hline _ ih =>
    rw [List.countP_cons_of_pos (by simp [hline.ne_nil]), ih]
    rfl
  | @sample first second third s ls items hbefore hrow hafter _ ih =>
    have hfirst : first ≠ [] := hbefore.ne_nil (by decide)
    have hthird : third ≠ [] := hafter.ne_nil (by decide)
    rw [List.countP_cons_of_pos (by simp [hfirst]), List.countP_cons_of_pos (by simp [hrow.ne_nil]),
      List.countP_cons_of_pos (by simp [hthird]), ih]
    show _ = 3 * ((ofItems items).samples.length + 1) + (ofItems items).rows.length
    omega

theorem Parses.writable {ls : List (List Char)} {items : List Item} (h : Parses ls items) :
    ∀ item ∈ items, item.Writable := by
  induction h with
  | nil => simp
  | blank _ ih => exact ih
  | row hline _ ih =>
    obtain ⟨ws, -, hrow⟩ := hline
    exact List.forall_mem_cons.2 ⟨writable_of_readRow hrow, ih⟩
  | sample hbefore hrow hafter _ ih =>
    obtain ⟨before, -, hbefore⟩ := hbefore
    obtain ⟨ws, -, hrow⟩ := hrow
    obtain ⟨after, -, hafter⟩ := hafter
    obtain ⟨hbefore, hvalues⟩ := digitCount_of_readValues hbefore
    obtain ⟨hafter, hvalues'⟩ := digitCount_of_readValues hafter
    refine List.forall_mem_cons.2 ⟨⟨hbefore, hafter, ?_, writable_of_readRow hrow⟩, ih⟩
    exact List.forall_mem_append.2 ⟨hvalues, hvalues'⟩

/-! ## Written lines -/

theorem rowLine_print {row : Row} (h : row.Writable) : RowLine row.print row :=
  ⟨_, rowWords?_print row, readRow_print h⟩

theorem valuesLine_printValues (label gap : List Char) {vs : List Int} (hgap : ∀ c ∈ gap, c = ' ')
    (hvs : vs ≠ []) (h : ∀ x ∈ vs, digitCount x ≤ maxDigits) :
    ValuesLine label (label ++ gap ++ Sample.printValues vs) vs := by
  have hblank : ∀ c ∈ gap, isBlank c = true := fun c hc => by
    rw [hgap c hc]
    decide
  exact ⟨_, bracketText?_printValues label hblank hvs, readValues_valuesText hvs h⟩

theorem row_printValues {label : List Char} (hlabel : Solid label) (hne : label ≠ [])
    (gap : List Char) (hgap : ∀ c ∈ gap, c = ' ') (vs : List Int) :
    Text.Row (label ++ gap ++ Sample.printValues vs) where
  chars := by
    have hvalues : ∀ c ∈ Sample.printValues vs, c = ' ' ∨ isBlank c = false ∧ c ≠ ';' := by
      intro c hc
      simp only [Sample.printValues, List.mem_append, List.mem_cons, List.not_mem_nil,
        or_false] at hc
      rcases hc with (rfl | hc) | rfl
      · decide
      · rcases mem_valuesText hc with rfl | rfl | rfl | hdigit
        · decide
        · decide
        · decide
        · refine .inr ⟨isBlank_of_isDigit hdigit, ?_⟩
          rintro rfl
          cases hdigit
      · decide
    refine List.forall_mem_append.2 ⟨List.forall_mem_append.2 ⟨?_, ?_⟩, hvalues⟩
    · exact fun c hc => .inr (hlabel c hc)
    · exact fun c hc => .inl (hgap c hc)
  nonempty := List.append_ne_nil_of_right_ne_nil _ (by simp [Sample.printValues])
  head := by
    simp only [List.append_assoc, List.head_append_of_ne_nil hne]
    exact (hlabel _ (List.head_mem hne)).1
  last := by
    simp only [Sample.printValues, ← List.append_assoc, List.getLast_concat]
    decide

theorem Item.row_printLines (item : Item) : ∀ line ∈ item.printLines, Text.Row line := by
  cases item with
  | row r => exact List.forall_mem_singleton.2 r.row_print
  | sample s =>
    simp only [printLines, Sample.printLines, List.forall_mem_cons, List.not_mem_nil,
      false_imp_iff, implies_true, and_true]
    have hbefore : Solid "Before:".toList := by decide
    have hafter : Solid "After:".toList := by decide
    refine ⟨?_, s.row.row_print, ?_⟩
    · exact row_printValues hbefore (by decide) [' '] (by simp) s.before
    · exact row_printValues hafter (by decide) [' ', ' '] (by simp) s.after

/-- The lines of an item that can be written give this item. -/
theorem Item.parses {item : Item} (hitem : item.Writable) {ls : List (List Char)}
    {items : List Item} (h : Parses ls items) : Parses (item.printLines ++ ls) (item :: items) := by
  cases item with
  | row r => exact .row (rowLine_print hitem) h
  | sample s =>
    obtain ⟨hbefore, hafter⟩ := List.forall_mem_append.1 hitem.values
    refine .sample ?_ (rowLine_print hitem.row) ?_ h
    · exact valuesLine_printValues "Before:".toList [' '] (by simp) hitem.before hbefore
    · exact valuesLine_printValues "After:".toList [' ', ' '] (by simp) hitem.after hafter

theorem Rendering.parses {items : List Item} {ls : List (List Char)} (h : Rendering items ls)
    (hitems : ∀ item ∈ items, item.Writable) : Parses (ls.map trim) items := by
  induction h with
  | nil => exact .nil
  | blank hline _ ih =>
    have htrim := trim_eq_nil_iff.2 (words_of_blanks fun c hc => (hline c hc).1)
    rw [List.map_cons, htrim]
    exact .blank (ih hitems)
  | item item _ ih =>
    obtain ⟨hitem, hitems⟩ := List.forall_mem_cons.1 hitems
    have htrim : item.printLines.map trim = item.printLines := by
      rw [List.map_congr_left fun line hline => (item.row_printLines line hline).trim_eq,
        List.map_id']
    rw [List.map_append, htrim]
    exact item.parses hitem (ih hitems)

theorem Rendering.unbroken {items : List Item} {ls : List (List Char)} (h : Rendering items ls) :
    ∀ line ∈ ls, Unbroken line := by
  induction h with
  | nil => simp
  | blank hline _ ih => exact List.forall_mem_cons.2 ⟨hline.unbroken, ih⟩
  | item item _ ih =>
    refine List.forall_mem_append.2 ⟨fun line hline c hc => ?_, ih⟩
    exact (item.row_printLines line hline).not_isLineBreak hc

theorem lines_flatMap {ls : List (List Char)} (h : ∀ line ∈ ls, Unbroken line) :
    lines (ls.flatMap (· ++ ['\n'])) = ls := by
  induction ls with
  | nil => rfl
  | cons line ls ih =>
    obtain ⟨hline, hls⟩ := List.forall_mem_cons.1 h
    rw [List.flatMap_cons, List.append_assoc, List.singleton_append, lines_append_cons _ hline,
      ih hls]

theorem Rendering.read {items : List Item} {ls : List (List Char)} (h : Rendering items ls)
    (hitems : ∀ item ∈ items, item.Writable) {text : List Char} (htext : lines text = ls) :
    SampleFile.read text = .ok (ofItems items) := by
  rw [read_eq_ok_iff, htext]
  exact ⟨items, h.parses hitems, rfl⟩

/-! ## Whole files -/

/-- The items of a file as it is printed. -/
def items (file : SampleFile) : List Item :=
  file.samples.map .sample ++ file.rows.map .row

theorem ofItems_items (file : SampleFile) : ofItems file.items = file := by
  have hsamples : file.items.filterMap Item.sample? = file.samples := by
    simp [items, List.filterMap_map, Function.comp_def, Item.sample?]
  have hrows : file.items.filterMap Item.row? = file.rows := by
    simp [items, List.filterMap_map, Function.comp_def, Item.row?]
  rw [ofItems, hsamples, hrows]

theorem rendering_flatMap (items : List Item) :
    Rendering items (items.flatMap Item.printLines) := by
  induction items with
  | nil => exact .nil
  | cons item items ih => exact .item item ih

theorem printLines_eq (file : SampleFile) :
    file.printLines = file.items.flatMap Item.printLines := by
  rw [printLines, items, List.flatMap_append, List.flatMap_map, List.flatMap_map,
    List.map_eq_flatMap]
  rfl

theorem read_print {file : SampleFile} (h : ∀ item ∈ file.items, item.Writable) :
    read file.print = .ok file := by
  have hrendering := rendering_flatMap file.items
  have hread := hrendering.read h (lines_flatMap hrendering.unbroken)
  rwa [ofItems_items, ← printLines_eq] at hread

theorem mem_of_mem_items {items : List Item} {item : Item} (h : item ∈ (ofItems items).items) :
    item ∈ items := by
  rcases List.mem_append.1 h with h | h
  · obtain ⟨s, hs, rfl⟩ := List.mem_map.1 h
    obtain ⟨item, hitem, heq⟩ := List.mem_filterMap.1 hs
    cases item with
    | sample s' =>
      cases heq
      exact hitem
    | row r => cases heq
  · obtain ⟨r, hr, rfl⟩ := List.mem_map.1 h
    obtain ⟨item, hitem, heq⟩ := List.mem_filterMap.1 hr
    cases item with
    | sample s => cases heq
    | row r' =>
      cases heq
      exact hitem

theorem countP_trim (ls : List (List Char)) :
    (ls.map trim).countP (!·.isEmpty) = ls.countP (fun line => !line.all isBlank) := by
  rw [List.countP_map]
  refine List.countP_congr fun line _ => ?_
  simp [trim_eq_nil_iff, words_eq_nil_iff]

end SampleFile

/-- Items that can be written are read back from their lines, with any blank lines among them and
however the lines are broken. In a text that is read every line that is not blank belongs to one
item, and what is read can be written and read again. -/
theorem sample_file_round_trip :
    (∀ items ls, (∀ item ∈ items, SampleFile.Item.Writable item) →
      SampleFile.Rendering items ls → lines (ls.flatMap (· ++ ['\n'])) = ls ∧
        ∀ text, lines text = ls → SampleFile.read text = .ok (SampleFile.ofItems items)) ∧
    ∀ text file, SampleFile.read text = .ok file →
      (lines text).countP (fun line => !line.all isBlank) =
        3 * file.samples.length + file.rows.length ∧ SampleFile.read file.print = .ok file := by
  constructor
  · intro items ls hitems hrendering
    exact ⟨SampleFile.lines_flatMap hrendering.unbroken,
      fun text htext => hrendering.read hitems htext⟩
  · intro text file hread
    obtain ⟨items, hparses, rfl⟩ := SampleFile.read_eq_ok_iff.1 hread
    have hcount := hparses.countP
    rw [SampleFile.countP_trim] at hcount
    refine ⟨hcount, SampleFile.read_print fun item hitem => ?_⟩
    exact hparses.writable item (SampleFile.mem_of_mem_items hitem)

/-- A sample between two rows. -/
def fewItems : List SampleFile.Item :=
  [.row ⟨7, 1, 0, 2⟩, .sample ⟨[3, -4], ⟨9, 2, 1, 2⟩, [3]⟩, .row ⟨8, 0, 0, 0⟩]

/-- The same with wide gaps, a digit of another script and a blank line. -/
def looseSampleText : List Char :=
  "7 \u0661 -0  2\r\nBefore:[ 3 ,-4]\n\t9 2 1 2\u2028After: [003]\n \u001f\n8 0 0 0".toList

theorem sample_file_round_trip_fewItems :
    (∀ item ∈ fewItems, item.Writable) ∧
    SampleFile.Rendering fewItems ([] :: fewItems.flatMap SampleFile.Item.printLines) ∧
    SampleFile.read (([] :: fewItems.flatMap SampleFile.Item.printLines).flatMap (· ++ ['\n'])) =
      .ok (SampleFile.ofItems fewItems) ∧
    SampleFile.read looseSampleText = .ok (SampleFile.ofItems fewItems) ∧
    (lines looseSampleText).countP (fun line => !line.all isBlank) = 3 * 1 + 2 ∧
    SampleFile.read (SampleFile.ofItems fewItems).print = .ok (SampleFile.ofItems fewItems) := by
  obtain ⟨hwrite, hread⟩ := sample_file_round_trip
  have hitems : ∀ item ∈ fewItems, item.Writable := by
    simp only [fewItems, List.forall_mem_cons, List.not_mem_nil, false_imp_iff, implies_true,
      and_true]
    refine ⟨?_, ⟨by decide, by decide, by decide, by decide⟩, ?_⟩
    · show Row.Writable _
      decide
    · show Row.Writable _
      decide
  have hrendering := SampleFile.Rendering.blank (by decide : Spacing [])
    (SampleFile.rendering_flatMap fewItems)
  have hloose : SampleFile.read looseSampleText = .ok (SampleFile.ofItems fewItems) :=
    Except.toOption_eq_some_iff.1 (by decide +kernel)
  obtain ⟨hlines, htext⟩ := hwrite _ _ hitems hrendering
  obtain ⟨hcount, hprint⟩ := hread _ _ hloose
  exact ⟨hitems, hrendering, htext _ hlines, hloose, hcount, hprint⟩

end WordMachine
