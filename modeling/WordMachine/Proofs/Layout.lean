import Mathlib.Logic.Relation
import WordMachine.Proofs.Entries

/-!
# Layout

A listing may be laid out in many ways: with blank lines and comments, with margins and wide gaps,
in capitals, with the last operands left out, and with any kind of line break. An edit of the layout
leaves the words of each line as they are, or changes them to words that say the same. So no
sequence of edits changes what is read.
-/

namespace WordMachine

open Text

namespace Text

/-! ## Places in a text -/

/-- A line starts where this text ends. -/
def StartsLine (before : List Char) : Prop := ∀ c ∈ before.getLast?, isLineBreak c = true

/-- A line ends where this text starts. -/
def EndsLine (after : List Char) : Prop := ∀ c ∈ after.head?, isLineBreak c = true

/-- A word ends where this text starts. -/
def EndsWord (after : List Char) : Prop := ∀ c ∈ after.head?, isBlank c = true ∨ c = ';'

/-- A line break is one character, or a carriage return and a line feed. -/
inductive LineBreak : List Char → Prop where
  | single {c : Char} : isLineBreak c = true → LineBreak [c]
  | pair : LineBreak ['\r', '\n']

/-- A line, or the rest of one, that is blank or has a comment only. -/
inductive Idle : List Char → Prop where
  | blank {margin : List Char} : Spacing margin → Idle margin
  | comment {margin comment : List Char} : Spacing margin → Unbroken comment →
      Idle (margin ++ ';' :: comment)

instance (cs : List Char) : Decidable (StartsLine cs) :=
  Option.decidableForallMem cs.getLast?

instance (cs : List Char) : Decidable (EndsLine cs) :=
  Option.decidableForallMem cs.head?

instance (cs : List Char) : Decidable (EndsWord cs) :=
  Option.decidableForallMem cs.head?

theorem startsLine_nil : StartsLine [] := by simp [StartsLine]

theorem endsLine_nil : EndsLine [] := by simp [EndsLine]

theorem exists_startsLine (text : List Char) :
    ∃ before line, text = before ++ line ∧ StartsLine before ∧ Unbroken line := by
  induction text with
  | nil => exact ⟨[], [], rfl, startsLine_nil, by simp [Unbroken]⟩
  | cons c text ih =>
    obtain ⟨before, line, rfl, hbefore, hline⟩ := ih
    cases before with
    | cons d before =>
      exact ⟨c :: d :: before, line, rfl, by simpa [StartsLine] using hbefore, hline⟩
    | nil =>
      cases hc : isLineBreak c with
      | true => exact ⟨[c], line, rfl, by simp [StartsLine, hc], hline⟩
      | false => exact ⟨[], c :: line, rfl, hbefore, List.forall_mem_cons.2 ⟨hc, hline⟩⟩

theorem exists_endsLine (text : List Char) :
    ∃ line after, text = line ++ after ∧ Unbroken line ∧ EndsLine after := by
  induction text with
  | nil => exact ⟨[], [], rfl, by simp [Unbroken], endsLine_nil⟩
  | cons c text ih =>
    obtain ⟨line, after, rfl, hline, hafter⟩ := ih
    cases hc : isLineBreak c with
    | true => exact ⟨[], c :: (line ++ after), rfl, by simp [Unbroken], by simp [EndsLine, hc]⟩
    | false => exact ⟨c :: line, after, rfl, List.forall_mem_cons.2 ⟨hc, hline⟩, hafter⟩

theorem Solid.unbroken {cs : List Char} (h : Solid cs) : Unbroken cs :=
  fun c hc => isLineBreak_of_not_blank (h c hc).1

theorem EndsWord.of_append {rest after : List Char} (h : EndsWord (rest ++ after)) :
    EndsWord rest := by
  intro c hc
  refine h c ?_
  rw [List.head?_append, Option.mem_def.1 hc]
  rfl

theorem Idle.unbroken {line : List Char} (h : Idle line) : Unbroken line := by
  cases h with
  | blank hmargin => exact hmargin.unbroken
  | comment hmargin hcomment =>
    exact hmargin.unbroken.append (List.forall_mem_cons.2 ⟨by decide, hcomment⟩)

end Text

namespace Listing

/-! ## Rows and line breaks -/

theorem rows_of_startsLine {before : List Char} (h : StartsLine before) (after : List Char) :
    rows (lines (before ++ after)) = rows (lines before) ++ rows (lines after) := by
  rcases List.eq_nil_or_concat before with rfl | ⟨before, c, rfl⟩
  · rfl
  · have hc : isLineBreak c = true := h c (by simp)
    have hbefore := rows_append_break before [] hc
    rw [List.concat_eq_append, List.append_assoc, List.singleton_append,
      rows_append_break before after hc, hbefore, List.append_assoc]
    rfl

theorem rows_of_endsLine {after : List Char} (h : EndsLine after) (before : List Char) :
    rows (lines (before ++ after)) = rows (lines before) ++ rows (lines after) := by
  cases after with
  | nil => simp [rows, lines]
  | cons c after =>
    have hc : isLineBreak c = true := h c rfl
    have hafter := rows_append_break [] after hc
    rw [rows_append_break before after hc, ← List.nil_append (c :: after), hafter]
    rfl

theorem rows_lineBreak {brk : List Char} (h : LineBreak brk) (before after : List Char) :
    rows (lines (before ++ brk ++ after)) = rows (lines before) ++ rows (lines after) := by
  rw [List.append_assoc]
  cases h with
  | single hc => exact rows_append_break before after hc
  | pair =>
    rw [List.cons_append, rows_append_break before _ (by decide), List.singleton_append,
      lines_lineFeed]
    rfl

/-- The rows of a text in which a line stands between others. -/
theorem rows_of_line {before line after : List Char} (hbefore : StartsLine before)
    (hline : Unbroken line) (hafter : EndsLine after) :
    rows (lines (before ++ line ++ after)) =
      rows (lines before) ++ rows [line] ++ rows (lines after) := by
  rw [rows_of_endsLine hafter, rows_of_startsLine hbefore, rows_of_unbroken hline]

/-- A line may be replaced by one of the same words. -/
theorem rows_of_same_words {before line line' after : List Char} (hbefore : StartsLine before)
    (hline : Unbroken line) (hline' : Unbroken line') (hafter : EndsLine after)
    (hwords : lineWords line = lineWords line') :
    rows (lines (before ++ line ++ after)) = rows (lines (before ++ line' ++ after)) := by
  have hrows : rows [line] = rows [line'] := by simp only [rows, List.map_singleton, hwords]
  rw [rows_of_line hbefore hline hafter, rows_of_line hbefore hline' hafter, hrows]

/-! ## Words of a line -/

theorem lineWords_of_not_mem {code : List Char} (h : ';' ∉ code) : lineWords code = words code := by
  rw [lineWords, List.takeWhile_eq_self_iff.2 fun c hc => by simpa using ne_of_mem_of_not_mem hc h]

theorem lineWords_append_of_mem {line : List Char} (rest : List Char) (h : ';' ∈ line) :
    lineWords (line ++ rest) = lineWords line := by
  have hlt : (line.takeWhile (· != ';')).length ≠ line.length := fun hlength => by
    have hall := List.takeWhile_eq_self_iff.1
      ((List.takeWhile_prefix (· != ';')).eq_of_length hlength)
    exact absurd (hall ';' h) (by simp)
  rw [lineWords, List.takeWhile_append, if_neg hlt, lineWords]

theorem lineWords_append_of_not_mem {code : List Char} (rest : List Char) (h : ';' ∉ code) :
    lineWords (code ++ rest) = words (code ++ rest.takeWhile (· != ';')) := by
  rw [lineWords, List.takeWhile_append_of_pos fun c hc => by
    simpa using ne_of_mem_of_not_mem hc h]

theorem semicolon_not_mem {gap : List Char} (h : ∀ c ∈ gap, isBlank c = true) : ';' ∉ gap :=
  fun hc => absurd (h ';' hc) (by decide)

theorem lineWords_append_blanks (line : List Char) {gap : List Char}
    (h : ∀ c ∈ gap, isBlank c = true) : lineWords (line ++ gap) = lineWords line := by
  by_cases hline : ';' ∈ line
  · exact lineWords_append_of_mem gap hline
  · rw [lineWords_of_not_mem (by simp [hline, semicolon_not_mem h]), words_append_blanks line h,
      lineWords_of_not_mem hline]

theorem lineWords_append_comment (line comment : List Char) :
    lineWords (line ++ ';' :: comment) = lineWords line := by
  by_cases hline : ';' ∈ line
  · exact lineWords_append_of_mem _ hline
  · rw [lineWords_append_of_not_mem _ hline, List.takeWhile_cons_of_neg (by simp),
      List.append_nil, lineWords_of_not_mem hline]

/-- What says nothing at the end of a line changes none of its words. -/
theorem lineWords_append_idle (line : List Char) {tail : List Char} (h : Idle tail) :
    lineWords (line ++ tail) = lineWords line := by
  cases h with
  | blank hmargin => exact lineWords_append_blanks line fun c hc => (hmargin c hc).1
  | comment hmargin _ =>
    rw [← List.append_assoc, lineWords_append_comment,
      lineWords_append_blanks line fun c hc => (hmargin c hc).1]

theorem rows_of_idle {line : List Char} (h : Idle line) : rows [line] = [] :=
  rows_cons_of_blank (lineWords_append_idle [] h)

theorem lineWords_blanks_append {gap : List Char} (line : List Char)
    (h : ∀ c ∈ gap, isBlank c = true) : lineWords (gap ++ line) = lineWords line := by
  rw [lineWords_append_of_not_mem _ (semicolon_not_mem h), words_blanks_append _ h, lineWords]

/-- One gap between words is as good as another. -/
theorem lineWords_append_gap (before after : List Char) {gap gap' : List Char} (hne : gap ≠ [])
    (hne' : gap' ≠ []) (h : ∀ c ∈ gap, isBlank c = true) (h' : ∀ c ∈ gap', isBlank c = true) :
    lineWords (before ++ gap ++ after) = lineWords (before ++ gap' ++ after) := by
  by_cases hbefore : ';' ∈ before
  · rw [List.append_assoc, List.append_assoc, lineWords_append_of_mem _ hbefore,
      lineWords_append_of_mem _ hbefore]
  · rw [lineWords_append_of_not_mem _ (by simp [hbefore, semicolon_not_mem h]),
      lineWords_append_of_not_mem _ (by simp [hbefore, semicolon_not_mem h']),
      words_append_gap _ _ hne h, words_append_gap _ _ hne' h']

/-- A line begins with its first word, if that ends at a blank or a comment. -/
theorem lineWords_append_of_solid {margin word rest : List Char} (hmargin : Spacing margin)
    (hword : Solid word) (hne : word ≠ []) (hrest : EndsWord rest) :
    lineWords (margin ++ word ++ rest) = word :: lineWords rest := by
  have hcode : ';' ∉ word := fun hc => (hword ';' hc).2 rfl
  have hhead : ∀ c ∈ (rest.takeWhile (· != ';')).head?, isBlank c = true := by
    intro c hc
    cases rest with
    | nil => cases hc
    | cons d rest =>
      rcases hrest d rfl with hd | rfl
      · have hne : (d != ';') = true := by
          rw [bne_iff_ne]
          rintro rfl
          exact absurd hd (by decide)
        rw [List.takeWhile_cons, if_pos hne] at hc
        obtain rfl := Option.some.inj hc
        exact hd
      · cases hc
  rw [List.append_assoc, lineWords_blanks_append _ fun c hc => (hmargin c hc).1,
    lineWords_append_of_not_mem _ hcode,
    words_append_of_unbroken hne (fun c hc => (hword c hc).1) hhead, lineWords]

/-! ## Margins of a text -/

theorem rows_append_blank (before : List Char) {c : Char} (h : isBlank c = true) :
    rows (lines (before ++ [c])) = rows (lines before) := by
  cases hc : isLineBreak c with
  | true =>
    rw [rows_append_break before [] hc]
    exact List.append_nil _
  | false =>
    obtain ⟨before, line, rfl, hbefore, hline⟩ := exists_startsLine before
    have hline' : Unbroken (line ++ [c]) := hline.append (by simpa [Unbroken] using hc)
    have hwords := lineWords_append_blanks line (List.forall_mem_singleton.2 h)
    simpa using rows_of_same_words hbefore hline' hline endsLine_nil hwords

theorem rows_cons_blank (after : List Char) {c : Char} (h : isBlank c = true) :
    rows (lines (c :: after)) = rows (lines after) := by
  cases hc : isLineBreak c with
  | true => exact rows_append_break [] after hc
  | false =>
    obtain ⟨line, after, rfl, hline, hafter⟩ := exists_endsLine after
    have hline' : Unbroken (c :: line) := List.forall_mem_cons.2 ⟨hc, hline⟩
    have hwords := lineWords_blanks_append line (List.forall_mem_singleton.2 h)
    exact rows_of_same_words startsLine_nil hline' hline hafter hwords

theorem rows_append_blanks (before : List Char) {gap : List Char}
    (h : ∀ c ∈ gap, isBlank c = true) : rows (lines (before ++ gap)) = rows (lines before) := by
  induction gap generalizing before with
  | nil => rw [List.append_nil]
  | cons c gap ih =>
    obtain ⟨hc, hgap⟩ := List.forall_mem_cons.1 h
    rw [← List.singleton_append, ← List.append_assoc, ih _ hgap, rows_append_blank before hc]

theorem rows_blanks_append {gap : List Char} (after : List Char)
    (h : ∀ c ∈ gap, isBlank c = true) : rows (lines (gap ++ after)) = rows (lines after) := by
  induction gap with
  | nil => rfl
  | cons c gap ih =>
    obtain ⟨hc, hgap⟩ := List.forall_mem_cons.1 h
    rw [List.cons_append, rows_cons_blank _ hc, ih hgap]

end Listing

/-! ## Mnemonics and operands -/

namespace Opcode

theorem mnemonic_of_ofMnemonic? {word : List Char} {op : Opcode} (h : ofMnemonic? word = some op) :
    word.map Char.toLower = op.mnemonic.toList := by
  have heq := List.find?_some h
  exact (beq_iff_eq.1 heq).symm

theorem ofMnemonic?_of_lower {word word' : List Char}
    (h : word'.map Char.toLower = word.map Char.toLower) :
    ofMnemonic? word' = ofMnemonic? word := by
  rw [ofMnemonic?, h, ofMnemonic?]

/-- Only capitals change. -/
theorem toLower_of_isBlank {c : Char} (h : isBlank c = true) : c.toLower = c := by
  have hupper : ¬ (c.val ≥ 'A'.val ∧ c.val ≤ 'Z'.val) := by
    rintro ⟨hlow, hhigh⟩
    have hlow' : 65 ≤ c.toNat := UInt32.le_iff_toNat_le.1 hlow
    have hhigh' : c.toNat ≤ 90 := UInt32.le_iff_toNat_le.1 hhigh
    simp only [isBlank, Bool.or_eq_true, Bool.and_eq_true, decide_eq_true_eq, beq_iff_eq] at h
    omega
  exact dif_neg hupper

theorem solid_of_ofMnemonic? {word : List Char} {op : Opcode} (h : ofMnemonic? word = some op) :
    Solid word := by
  intro c hc
  have hlower : c.toLower ∈ op.mnemonic.toList := by
    rw [← mnemonic_of_ofMnemonic? h]
    exact List.mem_map_of_mem hc
  obtain ⟨hblank, hcomment⟩ := op.solid_mnemonic _ hlower
  constructor
  · -- A blank would be its own lower case, and stand in the mnemonic.
    by_contra hc'
    rw [Bool.not_eq_false] at hc'
    rw [toLower_of_isBlank hc', hc'] at hblank
    cases hblank
  · rintro rfl
    exact hcomment rfl

/-- A word that names an opcode begins like no directive. -/
theorem exists_of_ofMnemonic? {word : List Char} {op : Opcode} (h : ofMnemonic? word = some op) :
    ∃ c cs, word = c :: cs ∧ c ≠ '#' := by
  obtain ⟨d, ds, hop, hd⟩ := op.exists_mnemonic
  rw [← mnemonic_of_ofMnemonic? h] at hop
  cases word with
  | nil => cases hop
  | cons c cs =>
    refine ⟨c, cs, rfl, ?_⟩
    rintro rfl
    exact hd (List.cons.inj hop).1.symm

end Opcode

/-- An operand that is left out is zero. -/
theorem Instruction.ofWords?_append_zero {word : List Char} {rest : List (List Char)}
    {ins : Instruction} (hlength : rest.length < 3) (h : ofWords? (word :: rest) = some ins) :
    ofWords? (word :: (rest ++ [['0']])) = some ins := by
  have hgetD : ∀ (xs : List Int) (i : Nat), (xs ++ [0]).getD i 0 = xs.getD i 0 := by grind
  obtain ⟨-, op, operands, hop, hoperands, -, rfl⟩ := ofWords?_eq_some_iff.1 h
  refine ofWords?_eq_some_iff.2 ⟨?_, op, operands ++ [0], hop, ?_, ?_, ?_⟩
  · rw [List.length_append]
    exact hlength
  · rw [List.mapM_append, hoperands]
    rfl
  · simp
  · simp only [hgetD]

namespace Entry

theorem ofWords?_of_mnemonic {word : List Char} {op : Opcode}
    (h : Opcode.ofMnemonic? word = some op) (operands : List (List Char)) :
    ofWords? (word :: operands) = (Instruction.ofWords? (word :: operands)).map .code := by
  obtain ⟨c, cs, rfl, hc⟩ := Opcode.exists_of_ofMnemonic? h
  unfold ofWords?
  split
  · next heq => exact absurd (List.cons.inj (List.cons.inj heq).1).1 hc
  · next heq => exact absurd (List.cons.inj (List.cons.inj heq).1).1 hc
  · rfl

/-- The case of a mnemonic makes no difference. -/
theorem ofWords?_of_lower {word word' : List Char} {op : Opcode}
    (h : Opcode.ofMnemonic? word = some op) (h' : word'.map Char.toLower = word.map Char.toLower)
    (operands : List (List Char)) : ofWords? (word' :: operands) = ofWords? (word :: operands) := by
  have hop := Opcode.ofMnemonic?_of_lower h'
  rw [ofWords?_of_mnemonic h, ofWords?_of_mnemonic (hop.trans h), Instruction.ofWords?,
    Instruction.ofWords?, hop]

theorem ofWords?_append_zero {word : List Char} {operands : List (List Char)} {op : Opcode}
    {entry : Entry} (h : Opcode.ofMnemonic? word = some op) (hlength : operands.length < 3)
    (hentry : ofWords? (word :: operands) = some entry) :
    ofWords? (word :: (operands ++ [['0']])) = some entry := by
  rw [ofWords?_of_mnemonic h] at hentry ⊢
  obtain ⟨ins, hins, rfl⟩ := Option.map_eq_some_iff.1 hentry
  rw [Instruction.ofWords?_append_zero hlength hins]
  rfl

end Entry

/-! ## Edits -/

namespace Listing

/-- One change of the layout of a text: a line that says nothing before or after another line, a
comment at the end of a line, blanks at either end of a line, one gap between words for another,
a mnemonic in another case, the next operand written out as zero, one line break for another. -/
inductive Edit : List Char → List Char → Prop where
  | lineBefore (before line brk after : List Char) : StartsLine before → Idle line →
      LineBreak brk → Edit (before ++ after) (before ++ line ++ brk ++ after)
  | lineAfter (before brk line after : List Char) : LineBreak brk → Idle line →
      EndsLine after → Edit (before ++ after) (before ++ brk ++ line ++ after)
  | comment (before comment after : List Char) : Unbroken comment → EndsLine after →
      Edit (before ++ after) (before ++ ';' :: comment ++ after)
  | margin (before blanks after : List Char) : StartsLine before ∨ EndsLine after →
      (∀ c ∈ blanks, isBlank c = true) → Edit (before ++ after) (before ++ blanks ++ after)
  | gap (before gap gap' after : List Char) : gap ≠ [] → gap' ≠ [] → Spacing gap → Spacing gap' →
      Edit (before ++ gap ++ after) (before ++ gap' ++ after)
  | mnemonic (before margin word word' after : List Char) : StartsLine before → Spacing margin →
      (Opcode.ofMnemonic? word).isSome → word'.map Char.toLower = word.map Char.toLower →
      EndsWord after → Edit (before ++ margin ++ word ++ after) (before ++ margin ++ word' ++ after)
  | operand (before code word : List Char) (operands : List (List Char))
      (gap gap' tail after : List Char) : StartsLine before → Unbroken code → ';' ∉ code →
      words code = word :: operands → (Opcode.ofMnemonic? word).isSome → operands.length < 3 →
      Spacing gap → Spacing gap' → gap' ≠ [] → Idle tail → EndsLine after →
      Edit (before ++ code ++ gap ++ tail ++ after)
        (before ++ code ++ gap' ++ '0' :: tail ++ after)
  | lineBreak (before brk brk' after : List Char) : LineBreak brk → LineBreak brk' →
      Edit (before ++ brk ++ after) (before ++ brk' ++ after)

/-- What the lines of a text say. -/
def entries? (text : List Char) : Option (List Entry) := (rows (lines text)).mapM Entry.ofWords?

theorem entries?_of_rows {text text' : List Char} (h : rows (lines text) = rows (lines text')) :
    entries? text' = entries? text := by
  rw [entries?, ← h, entries?]

/-- A line may be replaced by one that says the same. -/
theorem entries?_of_same_entry {before line line' after word word' : List Char}
    {operands operands' : List (List Char)} {es : List Entry} (hbefore : StartsLine before)
    (hline : Unbroken line) (hline' : Unbroken line') (hafter : EndsLine after)
    (hrow : lineWords line = word :: operands) (hrow' : lineWords line' = word' :: operands')
    (hsame : ∀ entry, Entry.ofWords? (word :: operands) = some entry →
      Entry.ofWords? (word' :: operands') = some entry)
    (h : entries? (before ++ line ++ after) = some es) :
    entries? (before ++ line' ++ after) = some es := by
  rw [entries?, rows_of_line hbefore hline hafter, rows_cons (by simp [hrow]), hrow] at h
  rw [entries?, rows_of_line hbefore hline' hafter, rows_cons (by simp [hrow']), hrow']
  simp only [List.mapM_append, List.mapM_cons] at h ⊢
  -- Where the old line says nothing that is understood, the text is not read.
  cases hentry : Entry.ofWords? (word :: operands) with
  | none => simp [hentry] at h
  | some entry =>
    rw [hentry] at h
    rw [hsame entry hentry]
    exact h

/-- A line that begins with a mnemonic. -/
theorem line_of_mnemonic {margin word rest : List Char} {op : Opcode} (hmargin : Spacing margin)
    (hword : Opcode.ofMnemonic? word = some op) (hrest : Unbroken rest) (hends : EndsWord rest) :
    Unbroken (margin ++ word ++ rest) ∧
      lineWords (margin ++ word ++ rest) = word :: lineWords rest := by
  obtain ⟨c, cs, hcons, -⟩ := Opcode.exists_of_ofMnemonic? hword
  have hsolid := Opcode.solid_of_ofMnemonic? hword
  refine ⟨(hmargin.unbroken.append hsolid.unbroken).append hrest, ?_⟩
  exact lineWords_append_of_solid hmargin hsolid (by simp [hcons]) hends

theorem entries?_mnemonic {before margin word word' after : List Char} {es : List Entry}
    (hbefore : StartsLine before) (hmargin : Spacing margin)
    (hword : (Opcode.ofMnemonic? word).isSome)
    (hlower : word'.map Char.toLower = word.map Char.toLower) (hafter : EndsWord after)
    (h : entries? (before ++ margin ++ word ++ after) = some es) :
    entries? (before ++ margin ++ word' ++ after) = some es := by
  obtain ⟨op, hop⟩ := Option.isSome_iff_exists.1 hword
  have hop' : Opcode.ofMnemonic? word' = some op := (Opcode.ofMnemonic?_of_lower hlower).trans hop
  obtain ⟨rest, after, rfl, hrest, hends⟩ := exists_endsLine after
  have hend : EndsWord rest := hafter.of_append
  obtain ⟨hline, hrow⟩ := line_of_mnemonic hmargin hop hrest hend
  obtain ⟨hline', hrow'⟩ := line_of_mnemonic hmargin hop' hrest hend
  have hsame := Entry.ofWords?_of_lower hop hlower (lineWords rest)
  have hes := entries?_of_same_entry hbefore hline hline' hends hrow hrow'
    (fun entry hentry => hsame.trans hentry) (by simpa only [List.append_assoc] using h)
  simpa only [List.append_assoc] using hes

theorem entries?_operand {before code word : List Char} {operands : List (List Char)}
    {gap gap' tail after : List Char} {es : List Entry} (hbefore : StartsLine before)
    (hcode : Unbroken code) (hcomment : ';' ∉ code) (hwords : words code = word :: operands)
    (hword : (Opcode.ofMnemonic? word).isSome) (hlength : operands.length < 3)
    (hgap : Spacing gap) (hgap' : Spacing gap') (hne : gap' ≠ []) (htail : Idle tail)
    (hafter : EndsLine after)
    (h : entries? (before ++ code ++ gap ++ tail ++ after) = some es) :
    entries? (before ++ code ++ gap' ++ '0' :: tail ++ after) = some es := by
  obtain ⟨op, hop⟩ := Option.isSome_iff_exists.1 hword
  have hline : Unbroken (code ++ gap ++ tail) :=
    (hcode.append hgap.unbroken).append htail.unbroken
  have hline' : Unbroken (code ++ gap' ++ ['0'] ++ tail) :=
    ((hcode.append hgap'.unbroken).append (by decide)).append htail.unbroken
  have hrow : lineWords (code ++ gap ++ tail) = word :: operands := by
    rw [lineWords_append_idle _ htail, lineWords_append_idle _ (.blank hgap),
      lineWords_of_not_mem hcomment, hwords]
  have hrow' : lineWords (code ++ gap' ++ ['0'] ++ tail) = word :: (operands ++ [['0']]) := by
    have hcomment' : ';' ∉ code ++ gap' ++ ['0'] := by
      simp [hcomment, semicolon_not_mem fun c hc => (hgap' c hc).1]
    rw [lineWords_append_idle _ htail, lineWords_of_not_mem hcomment',
      words_append_gap _ _ hne fun c hc => (hgap' c hc).1, hwords]
    rfl
  have hes := entries?_of_same_entry hbefore hline hline' hafter hrow hrow'
    (fun _ hentry => Entry.ofWords?_append_zero hop hlength hentry)
    (by simpa only [List.append_assoc] using h)
  simpa using hes

/-- An edit leaves what the lines say. -/
theorem Edit.entries? {text text' : List Char} {es : List Entry} (hedit : Edit text text')
    (h : Listing.entries? text = some es) : Listing.entries? text' = some es := by
  cases hedit with
  | lineBefore before line brk after hbefore hline hbrk =>
    rw [← h]
    refine entries?_of_rows ?_
    rw [rows_of_startsLine hbefore, rows_lineBreak hbrk, rows_of_startsLine hbefore,
      rows_of_unbroken hline.unbroken, rows_of_idle hline, List.append_nil]
  | lineAfter before brk line after hbrk hline hafter =>
    rw [← h]
    refine entries?_of_rows ?_
    rw [rows_of_endsLine hafter, rows_of_endsLine hafter, rows_lineBreak hbrk,
      rows_of_unbroken hline.unbroken, rows_of_idle hline, List.append_nil]
  | comment before comment after hcomment hafter =>
    rw [← h]
    obtain ⟨before, line, rfl, hbefore, hline⟩ := exists_startsLine before
    have hline' : Unbroken (line ++ ';' :: comment) :=
      hline.append (List.forall_mem_cons.2 ⟨by decide, hcomment⟩)
    have hwords := lineWords_append_comment line comment
    refine entries?_of_rows ?_
    rw [List.append_assoc before line (';' :: comment)]
    exact rows_of_same_words hbefore hline hline' hafter hwords.symm
  | margin before blanks after hends hblanks =>
    rw [← h]
    refine entries?_of_rows ?_
    rcases hends with hbefore | hafter
    · rw [List.append_assoc, rows_of_startsLine hbefore, rows_of_startsLine hbefore,
        rows_blanks_append after hblanks]
    · rw [rows_of_endsLine hafter, rows_of_endsLine hafter, rows_append_blanks before hblanks]
  | gap before gap gap' after hne hne' hgap hgap' =>
    rw [← h]
    -- The gap is part of a line from the last break before it to the next one after it.
    obtain ⟨before, line, rfl, hbefore, hline⟩ := exists_startsLine before
    obtain ⟨rest, after, rfl, hrest, hafter⟩ := exists_endsLine after
    have hwords := lineWords_append_gap line rest hne hne' (fun c hc => (hgap c hc).1)
      fun c hc => (hgap' c hc).1
    have hrows := rows_of_same_words hbefore ((hline.append hgap.unbroken).append hrest)
      ((hline.append hgap'.unbroken).append hrest) hafter hwords
    refine entries?_of_rows ?_
    simpa only [List.append_assoc] using hrows
  | mnemonic before margin word word' after hbefore hmargin hword hlower hafter =>
    exact entries?_mnemonic hbefore hmargin hword hlower hafter h
  | operand before code word operands gap gap' tail after hbefore hcode hcomment hwords hword
      hlength hgap hgap' hne htail hafter =>
    exact entries?_operand hbefore hcode hcomment hwords hword hlength hgap hgap' hne htail hafter h
  | lineBreak before brk brk' after hbrk hbrk' =>
    rw [← h]
    refine entries?_of_rows ?_
    rw [rows_lineBreak hbrk, rows_lineBreak hbrk']

end Listing

/-- No sequence of edits of the layout changes the listing that a text is read as. -/
theorem layout_irrelevant {text text' : List Char} {l : Listing}
    (hedits : Relation.ReflTransGen Listing.Edit text text') (h : Listing.read text = .ok l) :
    Listing.read text' = .ok l := by
  obtain ⟨es, hes, hwired, rfl⟩ := Listing.read_eq_ok_iff.1 h
  refine Listing.read_eq_ok_iff.2 ⟨es, ?_, hwired, rfl⟩
  induction hedits with
  | refl => exact hes
  | tail _ hedit ih => exact hedit.entries? ih

/-- A wired register and an instruction with one operand. -/
def plainText : List Char := "#ip 0\nseti 5".toList

/-- The same after one edit of each kind. -/
def laidOutText : List Char := " ; load\r\n\u000c#ip\t\u001f0\u2028SeTI 5 0;!\u0085".toList

theorem layout_irrelevant_laidOutText :
    Relation.ReflTransGen Listing.Edit plainText laidOutText ∧
      Listing.read plainText = .ok ⟨some 0, #[⟨.seti, 5, 0, 0⟩]⟩ ∧
      Listing.read laidOutText = .ok ⟨some 0, #[⟨.seti, 5, 0, 0⟩]⟩ := by
  have hbreak : Listing.Edit plainText "#ip 0\u2028seti 5".toList := by
    show Listing.Edit "#ip 0\nseti 5".toList _
    simpa using Listing.Edit.lineBreak "#ip 0".toList ['\n'] ['\u2028']
      "seti 5".toList (.single rfl) (.single rfl)
  have hgap : Listing.Edit "#ip 0\u2028seti 5".toList "#ip\t\u001f0\u2028seti 5".toList := by
    simpa using Listing.Edit.gap "#ip".toList [' '] ['\t', '\u001f'] "0\u2028seti 5".toList
      (by decide) (by decide) (by decide) (by decide)
  have hcase : Listing.Edit "#ip\t\u001f0\u2028seti 5".toList
      "#ip\t\u001f0\u2028SeTI 5".toList := by
    simpa using Listing.Edit.mnemonic "#ip\t\u001f0\u2028".toList [] "seti".toList "SeTI".toList
      " 5".toList (by decide) (by decide) (by decide) (by decide) (by decide)
  have hoperand : Listing.Edit "#ip\t\u001f0\u2028SeTI 5".toList
      "#ip\t\u001f0\u2028SeTI 5 0".toList := by
    simpa using Listing.Edit.operand "#ip\t\u001f0\u2028".toList "SeTI 5".toList "SeTI".toList
      ["5".toList] [] [' '] [] [] (by decide) (by decide) (by decide) (by decide) (by decide)
      (by decide) (by decide) (by decide) (by decide) (.blank (by decide)) (by decide)
  have hcomment : Listing.Edit "#ip\t\u001f0\u2028SeTI 5 0".toList
      "#ip\t\u001f0\u2028SeTI 5 0;!".toList := by
    simpa using Listing.Edit.comment "#ip\t\u001f0\u2028SeTI 5 0".toList ['!'] [] (by decide)
      (by decide)
  have hmargin : Listing.Edit "#ip\t\u001f0\u2028SeTI 5 0;!".toList
      "\u000c#ip\t\u001f0\u2028SeTI 5 0;!".toList := by
    simpa using Listing.Edit.margin [] ['\u000c'] "#ip\t\u001f0\u2028SeTI 5 0;!".toList
      (.inl (by decide)) (List.forall_mem_singleton.2 rfl)
  have hbefore : Listing.Edit "\u000c#ip\t\u001f0\u2028SeTI 5 0;!".toList
      " ; load\r\n\u000c#ip\t\u001f0\u2028SeTI 5 0;!".toList := by
    simpa using Listing.Edit.lineBefore [] ([' '] ++ ';' :: " load".toList) ['\r', '\n']
      "\u000c#ip\t\u001f0\u2028SeTI 5 0;!".toList (by decide) (.comment (by decide) (by decide))
      .pair
  have hafter : Listing.Edit " ; load\r\n\u000c#ip\t\u001f0\u2028SeTI 5 0;!".toList
      laidOutText := by
    show Listing.Edit _ " ; load\r\n\u000c#ip\t\u001f0\u2028SeTI 5 0;!\u0085".toList
    simpa using Listing.Edit.lineAfter
      " ; load\r\n\u000c#ip\t\u001f0\u2028SeTI 5 0;!".toList ['\u0085'] [] [] (.single rfl)
      (.blank (by decide)) (by decide)
  have hedits := ((((((((Relation.ReflTransGen.single hbreak).tail hgap).tail hcase).tail
    hoperand).tail hcomment).tail hmargin).tail hbefore).tail hafter)
  have hread : Listing.read plainText = .ok ⟨some 0, #[⟨.seti, 5, 0, 0⟩]⟩ :=
    Except.toOption_eq_some_iff.1 (by decide +kernel)
  exact ⟨hedits, hread, layout_irrelevant hedits hread⟩

end WordMachine
