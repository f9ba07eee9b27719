import WordMachine.Proofs.RoundTrip

/-!
# What the lines of a listing say

A line says something just if it has words before its comment: it wires a register or gives an
instruction. What it says depends on these words alone. A text is read if each such line says
something and at most one of them wires a register, and then the listing holds what they say, in
their order.
-/

namespace WordMachine

open Text

/-! ## Entries -/

/-- The instruction that a row of words gives. -/
def Instruction.ofWords? : List (List Char) → Option Instruction
  | [] => none
  | word :: rest =>
    if 3 < rest.length then none
    else do
      let op ← Opcode.ofMnemonic? word
      let operands ← (rest.mapM readInt).toOption
      if operands.isEmpty && op.signature.a != .unused then none
      else some ⟨op, operands.getD 0 0, operands.getD 1 0, operands.getD 2 0⟩

theorem Instruction.toOption_read (line : List Char) :
    (read line).toOption = ofWords? (words line) := by
  unfold read ofWords?
  cases words line with
  | nil => rfl
  | cons word rest =>
    simp only
    split
    · rfl
    · rw [Opcode.read, readOperands]
      cases Opcode.ofMnemonic? word with
      | none => rfl
      | some op =>
        cases rest.mapM readInt with
        | error _ => rfl
        | ok operands =>
          show (if _ then _ else _ : Except Fault Instruction).toOption = if _ then _ else _
          split <;> rfl

theorem Instruction.ofWords?_eq_some_iff {word : List Char} {rest : List (List Char)}
    {ins : Instruction} : ofWords? (word :: rest) = some ins ↔ rest.length ≤ 3 ∧
      ∃ op operands, Opcode.ofMnemonic? word = some op ∧ rest.mapM readInt = .ok operands ∧
        (operands = [] → op.signature.a = .unused) ∧
        ins = ⟨op, operands.getD 0 0, operands.getD 1 0, operands.getD 2 0⟩ := by
  simp only [ofWords?, Option.ite_none_left_eq_some, Option.bind_eq_bind, Option.bind_eq_some_iff,
    Except.toOption_eq_some_iff, Nat.not_lt, Bool.and_eq_true, List.isEmpty_iff, bne_iff_ne,
    Option.some.injEq, not_and, not_not]
  refine and_congr_right fun _ => ⟨?_, ?_⟩
  · rintro ⟨op, hop, operands, hoperands, hfirst, rfl⟩
    exact ⟨op, operands, hop, hoperands, hfirst, rfl⟩
  · rintro ⟨op, operands, hop, hoperands, hfirst, rfl⟩
    exact ⟨op, hop, operands, hoperands, hfirst, rfl⟩

/-- What a line of a listing says. -/
inductive Entry where
  | wire (ip : Int)
  | code (ins : Instruction)
  deriving DecidableEq

namespace Entry

/-- What a row of words says. -/
def ofWords? : List (List Char) → Option Entry
  | ['#' :: name, digits] =>
    if name = ['i', 'p'] ∧ digits.all isDigit then (readNumber digits).toOption.map .wire else none
  | ('#' :: _) :: _ => none
  | row => (Instruction.ofWords? row).map .code

def ip? : Entry → Option Int
  | wire ip => some ip
  | code _ => none

def instruction? : Entry → Option Instruction
  | wire _ => none
  | code ins => some ins

end Entry

namespace Listing

/-! ## Directives -/

/-- A trimmed line wires a register just if its words are the name of the directive and digits. -/
theorem directiveDigits?_eq_some_iff {line digits : List Char}
    (hhead : ∀ c ∈ line.head?, isBlank c = false) (hlast : ∀ c ∈ line.getLast?, isBlank c = false) :
    directiveDigits? line = some digits ↔
      words line = [['#', 'i', 'p'], digits] ∧ digits.all isDigit = true := by
  have hunbroken : ∀ digits : List Char, digits.all isDigit = true →
      ∀ c ∈ digits, isBlank c = false :=
    fun digits h c hc => isBlank_of_digit (List.all_eq_true.1 h c hc)
  constructor
  · intro h
    unfold directiveDigits? at h
    split at h
    · next c rest =>
      obtain ⟨hdigits, ⟨⟩⟩ := Option.ite_none_right_eq_some.1 h
      simp only [Bool.and_eq_true, Bool.not_eq_true', List.isEmpty_eq_false_iff] at hdigits
      obtain ⟨⟨hc, hne⟩, hall⟩ := hdigits
      refine ⟨?_, hall⟩
      have hblanks : ∀ c ∈ rest.takeWhile isBlank, isBlank c = true :=
        fun c hc => List.mem_takeWhile_imp hc
      have hrest : words rest = [rest.dropWhile isBlank] := by
        have hwords := words_blanks_append (rest.dropWhile isBlank) hblanks
        rwa [List.takeWhile_append_dropWhile, words_of_unbroken hne (hunbroken _ hall)] at hwords
      show words (['#', 'i', 'p'] ++ c :: rest) = _
      rw [words_append_blank _ _ hc, hrest]
      rfl
    · cases h
  · rintro ⟨hwords, hall⟩
    obtain ⟨gap, rfl, hgap⟩ := exists_gap_of_words_eq_pair hhead hlast hwords
    have hne : digits ≠ [] := ne_nil_of_mem_words (by rw [hwords]; simp)
    have hdigits := hunbroken digits hall
    obtain ⟨c, gap, rfl⟩ : ∃ c rest, gap = c :: rest := by
      refine List.exists_cons_of_ne_nil ?_
      rintro rfl
      have hname : Solid ['#', 'i', 'p'] := by decide
      rw [List.append_nil, words_of_unbroken (by simp)
        (List.forall_mem_append.2 ⟨fun c hc => (hname c hc).1, hdigits⟩)] at hwords
      simp at hwords
    obtain ⟨hc, hgap⟩ := List.forall_mem_cons.1 hgap
    have hdrop : (gap ++ digits).dropWhile isBlank = digits :=
      dropWhile_blanks_append hgap fun d hd => hdigits d (List.mem_of_mem_head? hd)
    simp [directiveDigits?, hdrop, hc, hne, hall]

/-! ## Lines -/

/-- The words of a line before its comment. -/
def lineWords (line : List Char) : List (List Char) := words (line.takeWhile (· != ';'))

theorem words_content (line : List Char) : words (content line) = lineWords line :=
  words_trim _

theorem content_eq_nil_iff {line : List Char} : content line = [] ↔ lineWords line = [] :=
  trim_eq_nil_iff

theorem ofWords?_directive {line rest : List Char} (h : content line = '#' :: rest) :
    Entry.ofWords? (lineWords line) = (directiveDigits? ('#' :: rest)).bind fun digits =>
      (readNumber digits).toOption.map .wire := by
  have hiff : ∀ digits, directiveDigits? ('#' :: rest) = some digits ↔
      words ('#' :: rest) = [['#', 'i', 'p'], digits] ∧ digits.all isDigit = true := by
    intro digits
    rw [← h]
    exact directiveDigits?_eq_some_iff (fun _ => head?_trimBy) fun _ => getLast?_trimBy
  rw [← words_content, h]
  cases hdigits : directiveDigits? ('#' :: rest) with
  | some digits =>
    obtain ⟨hwords, hall⟩ := (hiff digits).1 hdigits
    simp [hwords, Entry.ofWords?, hall]
  | none =>
    have hwords : words ('#' :: rest) = _ := words_cons_of_not_blank (by decide)
    cases hothers : words (rest.dropWhile (!isBlank ·)) with
    | nil => simp [hwords, hothers, Entry.ofWords?]
    | cons digits others =>
      cases others with
      | cons word others => simp [hwords, hothers, Entry.ofWords?]
      | nil =>
        -- The two words are not those of a directive, or it would have been read.
        have hnot : ¬ (rest.takeWhile (!isBlank ·) = ['i', 'p'] ∧ digits.all isDigit = true) := by
          rintro ⟨hname, hall⟩
          rw [(hiff digits).2 ⟨by rw [hwords, hothers, hname], hall⟩] at hdigits
          cases hdigits
        simp only [hwords, hothers, Entry.ofWords?, if_neg hnot]
        rfl

theorem ofWords?_instruction {line rest : List Char} {c : Char} (h : content line = c :: rest)
    (hc : c ≠ '#') : Entry.ofWords? (lineWords line) =
      (Instruction.read (c :: rest)).toOption.map .code := by
  have hblank : isBlank c = false := by
    have hhead : c ∈ (content line).head? := by rw [h]; rfl
    exact head?_trimBy hhead
  rw [Instruction.toOption_read, ← words_content, h, words_cons_of_not_blank hblank]
  unfold Entry.ofWords?
  split
  · next heq => exact absurd (List.cons.inj (List.cons.inj heq).1).1 hc
  · next heq => exact absurd (List.cons.inj (List.cons.inj heq).1).1 hc
  · rfl

/-- What a line adds: nothing, an instruction, or a wired register, unless there is one before. Any
other line is a fault. -/
theorem readLine_cases (number : Nat) (l : Listing) (line : List Char) :
    (lineWords line = [] ∧ readLine number l line = .ok l) ∨
    (∃ ins, Entry.ofWords? (lineWords line) = some (.code ins) ∧
      readLine number l line = .ok { l with program := l.program.push ins }) ∨
    (∃ ip, Entry.ofWords? (lineWords line) = some (.wire ip) ∧
      readLine number l line = if l.ip.isSome then .error (.atLine number .boundTwice)
        else .ok { l with ip := some ip }) ∨
    (lineWords line ≠ [] ∧ Entry.ofWords? (lineWords line) = none ∧
      ∃ fault, readLine number l line = .error fault) := by
  unfold readLine
  split
  · next hcontent => exact .inl ⟨content_eq_nil_iff.1 hcontent, rfl⟩
  · next rest hcontent =>
    have hne : lineWords line ≠ [] := fun h => by
      rw [content_eq_nil_iff.2 h] at hcontent
      cases hcontent
    rw [ofWords?_directive hcontent, readDirective]
    cases directiveDigits? ('#' :: rest) with
    | none => exact .inr (.inr (.inr ⟨hne, rfl, _, rfl⟩))
    | some digits =>
      cases hnumber : readNumber digits with
      | ok ip =>
        refine .inr (.inr (.inl ⟨ip, by simp [hnumber, Except.toOption], ?_⟩))
        simp only [hnumber, Except.map]
      | error fault =>
        refine .inr (.inr (.inr ⟨hne, by simp [hnumber, Except.toOption], ?_⟩))
        simp only [hnumber, Except.map]
        split
        · exact ⟨_, rfl⟩
        · exact ⟨_, rfl⟩
  · next hnil hdirective =>
    obtain ⟨c, rest, hcontent⟩ := List.exists_cons_of_ne_nil hnil
    have hc : c ≠ '#' := fun heq => hdirective rest (by rw [hcontent, heq])
    rw [ofWords?_instruction hcontent hc, hcontent]
    cases Instruction.read (c :: rest) with
    | ok ins => exact .inr (.inl ⟨ins, rfl, rfl⟩)
    | error fault => exact .inr (.inr (.inr ⟨fun h => hnil (content_eq_nil_iff.2 h), rfl, _, rfl⟩))

theorem ne_nil_of_entry {row : List (List Char)} {entry : Entry}
    (h : Entry.ofWords? row = some entry) : row ≠ [] := by
  rintro rfl
  cases h

/-! ## Texts -/

/-- The words of the lines that have any. -/
def rows (ls : List (List Char)) : List (List (List Char)) :=
  (ls.map lineWords).filter (!·.isEmpty)

/-- The listing that holds what the entries say. -/
def ofEntries (es : List Entry) : Listing :=
  ⟨(es.filterMap Entry.ip?).head?, (es.filterMap Entry.instruction?).toArray⟩

theorem rows_cons_of_blank {line : List Char} {ls : List (List Char)} (h : lineWords line = []) :
    rows (line :: ls) = rows ls := by
  simp [rows, h]

theorem rows_cons {line : List Char} {ls : List (List Char)} (h : lineWords line ≠ []) :
    rows (line :: ls) = lineWords line :: rows ls := by
  simp [rows, h]

theorem exists_entries_cons {line : List Char} {ls : List (List Char)} {entry : Entry}
    {p : List Entry → Prop} (h : Entry.ofWords? (lineWords line) = some entry) :
    (∃ es, (rows (line :: ls)).mapM Entry.ofWords? = some es ∧ p es) ↔
      ∃ es, (rows ls).mapM Entry.ofWords? = some es ∧ p (entry :: es) := by
  rw [rows_cons (ne_nil_of_entry h), List.mapM_cons, h]
  cases (rows ls).mapM Entry.ofWords? <;> simp

/-- Lines are read if each says something and, with the listing before them, at most one wires a
register. -/
theorem readLines_eq_ok_iff {number : Nat} {l l' : Listing} {ls : List (List Char)} :
    readLines number l ls = .ok l' ↔ ∃ es, (rows ls).mapM Entry.ofWords? = some es ∧
      (l.ip.toList ++ es.filterMap Entry.ip?).length ≤ 1 ∧
      l' = ⟨(l.ip.toList ++ es.filterMap Entry.ip?).head?,
        l.program ++ (es.filterMap Entry.instruction?).toArray⟩ := by
  induction ls generalizing number l with
  | nil =>
    obtain ⟨ip, program⟩ := l
    cases ip <;> simp [readLines, rows, eq_comm]
  | cons line ls ih =>
    rw [readLines]
    rcases readLine_cases number l line with ⟨hblank, hread⟩ | ⟨ins, hentry, hread⟩ |
      ⟨ip, hentry, hread⟩ | ⟨hne, hentry, fault, hread⟩
    · simp only [hread, rows_cons_of_blank hblank, ih]
    · simp only [hread, ih, exists_entries_cons hentry]
      refine exists_congr fun es => and_congr_right fun _ => ?_
      have hpush : l.program.push ins ++ (es.filterMap Entry.instruction?).toArray =
          l.program ++ (ins :: es.filterMap Entry.instruction?).toArray := by simp
      simp only [hpush]
      exact Iff.rfl
    · rw [exists_entries_cons hentry, hread]
      obtain ⟨ip', program⟩ := l
      cases ip' with
      | none => exact ih
      | some ip' =>
        refine ⟨fun h => (by cases h), ?_⟩
        rintro ⟨es, -, hlength, -⟩
        exact absurd hlength (by simp [Entry.ip?])
    · simp [hread, rows_cons hne, hentry]

theorem read_eq_ok_iff {text : List Char} {l : Listing} : read text = .ok l ↔
    ∃ es, (rows (lines text)).mapM Entry.ofWords? = some es ∧
      (es.filterMap Entry.ip?).length ≤ 1 ∧ l = ofEntries es := by
  simp [read, readLines_eq_ok_iff, ofEntries]

theorem rows_append (ls ls' : List (List Char)) : rows (ls ++ ls') = rows ls ++ rows ls' := by
  simp [rows]

theorem rows_fullLines (text : List Char) : rows (fullLines text) = rows (lines text) := by
  unfold fullLines
  induction lines text with
  | nil => rfl
  | cons line ls ih =>
    cases line with
    | nil => exact ih
    | cons c line =>
      rw [List.filter_cons_of_pos rfl, ← List.singleton_append, rows_append, ih, ← rows_append]
      rfl

/-- The rows of a text are those before a line break and those after it. -/
theorem rows_append_break (before after : List Char) {c : Char} (hc : isLineBreak c = true) :
    rows (lines (before ++ c :: after)) = rows (lines before) ++ rows (lines after) := by
  rw [← rows_fullLines, fullLines_append_break before after hc, rows_append, rows_fullLines,
    rows_fullLines]

theorem rows_of_unbroken {line : List Char} (h : ∀ c ∈ line, isLineBreak c = false) :
    rows (lines line) = rows [line] := by
  rw [← rows_fullLines, fullLines_of_unbroken h]
  cases line <;> rfl

end Listing

end WordMachine
