import Mathlib.Data.List.DropRight
import WordMachine.Text.Blank
import WordMachine.Text.Line

/-!
# Words and lines

A blank ends a word and belongs to none, so the words of a text are those before a blank and those
after it. How many blanks stand between two words, and which, makes no difference, nor do the blanks
around the text.

Line breaks separate lines in the same way, but for empty lines: a carriage return and a line feed
are one break or two, and a break at the end opens a line or none. Where empty lines do not count,
the lines of a text are those before a break and those after it.
-/

namespace WordMachine.Text

variable {cs before after gap : List Char} {c : Char}

/-! ## Blanks between words -/

theorem words_nil : words [] = [] := by
  rw [words, List.splitOnP_nil]
  rfl

theorem words_append_blank (before after : List Char) (h : isBlank c = true) :
    words (before ++ c :: after) = words before ++ words after := by
  rw [words, List.splitOnP_append_cons before after h, List.filter_append]
  rfl

theorem words_cons_blank (after : List Char) (h : isBlank c = true) :
    words (c :: after) = words after := by
  simpa [words_nil] using words_append_blank [] after h

theorem words_blanks_append (after : List Char) (h : ∀ c ∈ gap, isBlank c = true) :
    words (gap ++ after) = words after := by
  induction gap with
  | nil => rfl
  | cons c gap ih =>
    obtain ⟨hc, hgap⟩ := List.forall_mem_cons.1 h
    rw [List.cons_append, words_cons_blank _ hc, ih hgap]

theorem words_of_blanks (h : ∀ c ∈ gap, isBlank c = true) : words gap = [] := by
  simpa [words_nil] using words_blanks_append [] h

theorem words_append_gap (before after : List Char) (hne : gap ≠ [])
    (h : ∀ c ∈ gap, isBlank c = true) :
    words (before ++ gap ++ after) = words before ++ words after := by
  obtain ⟨c, gap, rfl⟩ := List.exists_cons_of_ne_nil hne
  obtain ⟨hc, hgap⟩ := List.forall_mem_cons.1 h
  rw [List.append_assoc, List.cons_append, words_append_blank _ _ hc, words_blanks_append _ hgap]

theorem words_append_blanks (before : List Char) (h : ∀ c ∈ gap, isBlank c = true) :
    words (before ++ gap) = words before := by
  by_cases hne : gap = []
  · rw [hne, List.append_nil]
  · simpa [words_nil] using words_append_gap before [] hne h

theorem dropWhile_blanks_append (h : ∀ c ∈ gap, isBlank c = true)
    (hafter : ∀ c ∈ after.head?, isBlank c = false) : (gap ++ after).dropWhile isBlank = after := by
  rw [List.dropWhile_append_of_pos h]
  cases after with
  | nil => rfl
  | cons c after => rw [List.dropWhile_cons, hafter c rfl, if_neg Bool.false_ne_true]

/-! ## The first word -/

theorem words_of_unbroken (hne : cs ≠ []) (h : ∀ c ∈ cs, isBlank c = false) : words cs = [cs] := by
  rw [words, List.splitOnP_eq_singleton h]
  simp [hne]

theorem words_append_of_unbroken {word : List Char} (hne : word ≠ [])
    (h : ∀ c ∈ word, isBlank c = false) (hafter : ∀ c ∈ after.head?, isBlank c = true) :
    words (word ++ after) = word :: words after := by
  cases after with
  | nil => rw [List.append_nil, words_of_unbroken hne h, words_nil]
  | cons c after =>
    have hc : isBlank c = true := hafter c rfl
    rw [words_append_blank _ _ hc, words_of_unbroken hne h, words_cons_blank _ hc]
    rfl

/-- A character that is not blank begins a word, which goes on to the next blank. -/
theorem words_cons_of_not_blank (h : isBlank c = false) : words (c :: cs) =
    (c :: cs.takeWhile (!isBlank ·)) :: words (cs.dropWhile (!isBlank ·)) := by
  have hword : ∀ d ∈ c :: cs.takeWhile (!isBlank ·), isBlank d = false :=
    List.forall_mem_cons.2 ⟨h, fun d hd => by simpa using List.mem_takeWhile_imp hd⟩
  have hafter : ∀ d ∈ (cs.dropWhile (!isBlank ·)).head?, isBlank d = true := fun d hd => by
    have hnot := List.head?_dropWhile_not (!isBlank ·) cs
    rw [Option.mem_def.1 hd] at hnot
    simpa using hnot
  have hwords := words_append_of_unbroken (List.cons_ne_nil _ _) hword hafter
  rwa [List.cons_append, List.takeWhile_append_dropWhile] at hwords

/-- A text of at least one word is that word after blanks, and then the text of the others. -/
theorem exists_of_words_eq_cons {word : List Char} {rest : List (List Char)}
    (h : words cs = word :: rest) : ∃ front after, cs = front ++ word ++ after ∧
      (∀ c ∈ front, isBlank c = true) ∧ words after = rest := by
  induction cs with
  | nil =>
    rw [words_nil] at h
    cases h
  | cons c cs ih =>
    cases hc : isBlank c with
    | true =>
      rw [words_cons_blank _ hc] at h
      obtain ⟨front, after, rfl, hfront, hrest⟩ := ih h
      exact ⟨c :: front, after, rfl, List.forall_mem_cons.2 ⟨hc, hfront⟩, hrest⟩
    | false =>
      rw [words_cons_of_not_blank hc] at h
      obtain ⟨rfl, rfl⟩ := List.cons.inj h
      exact ⟨[], cs.dropWhile (!isBlank ·), by simp, by simp, rfl⟩

theorem ne_nil_of_mem_words {word : List Char} (h : word ∈ words cs) : word ≠ [] := by
  simpa using (List.mem_filter.1 h).2

theorem words_eq_nil_iff : words cs = [] ↔ ∀ c ∈ cs, isBlank c = true := by
  refine ⟨fun h => ?_, words_of_blanks⟩
  induction cs with
  | nil => simp
  | cons c cs ih =>
    cases hc : isBlank c with
    | true =>
      rw [words_cons_blank _ hc] at h
      exact List.forall_mem_cons.2 ⟨hc, ih h⟩
    | false =>
      rw [words_cons_of_not_blank hc] at h
      cases h

/-- Two words without blanks around them have only blanks between them. -/
theorem exists_gap_of_words_eq_pair {first second : List Char}
    (hhead : ∀ c ∈ cs.head?, isBlank c = false) (hlast : ∀ c ∈ cs.getLast?, isBlank c = false)
    (h : words cs = [first, second]) :
    ∃ gap, cs = first ++ gap ++ second ∧ ∀ c ∈ gap, isBlank c = true := by
  obtain ⟨front, after, rfl, hfront, hafter⟩ := exists_of_words_eq_cons h
  obtain ⟨gap, back, rfl, hgap, hback⟩ := exists_of_words_eq_cons hafter
  have hfront' : front = [] := by
    cases front with
    | nil => rfl
    | cons c front =>
      have hblank := hfront c List.mem_cons_self
      rw [hhead c rfl] at hblank
      cases hblank
  have hback' : back = [] := by
    by_contra hne
    have hblank := words_eq_nil_iff.1 hback _ (List.getLast_mem hne)
    rw [hlast (back.getLast hne) (by simp [List.getLast?_eq_some_getLast, hne])] at hblank
    cases hblank
  exact ⟨gap, by simp [hfront', hback'], hgap⟩

/-! ## Trimming -/

variable {p : Char → Bool}

theorem exists_eq_append_trimBy (p : Char → Bool) (cs : List Char) : ∃ front back,
    cs = front ++ trimBy p cs ++ back ∧ (∀ c ∈ front, p c = true) ∧ ∀ c ∈ back, p c = true := by
  refine ⟨cs.takeWhile p, ((cs.dropWhile p).reverse.takeWhile p).reverse, ?_, ?_, ?_⟩
  · rw [trimBy, List.append_assoc, ← List.reverse_append, List.takeWhile_append_dropWhile,
      List.reverse_reverse, List.takeWhile_append_dropWhile]
  · exact fun c hc => List.mem_takeWhile_imp hc
  · exact fun c hc => List.mem_takeWhile_imp (List.mem_reverse.1 hc)

theorem head?_trimBy (h : c ∈ (trimBy p cs).head?) : p c = false := by
  obtain ⟨back, hback⟩ : trimBy p cs <+: cs.dropWhile p := List.rdropWhile_prefix p _
  have hhead : (cs.dropWhile p).head? = some c := by
    rw [← hback, List.head?_append, Option.mem_def.1 h, Option.some_or]
  have hnot := List.head?_dropWhile_not p cs
  rwa [hhead] at hnot

theorem getLast?_trimBy (h : c ∈ (trimBy p cs).getLast?) : p c = false := by
  rw [trimBy, List.getLast?_reverse] at h
  have hnot := List.head?_dropWhile_not p (cs.dropWhile p).reverse
  rwa [Option.mem_def.1 h] at hnot

theorem words_trim (cs : List Char) : words (trim cs) = words cs := by
  obtain ⟨front, back, hcs, hfront, hback⟩ := exists_eq_append_trimBy isBlank cs
  have hwords := words_append_blanks (front ++ trimBy isBlank cs) hback
  rw [← hcs, words_blanks_append _ hfront] at hwords
  exact hwords.symm

theorem trim_eq_nil_iff : trim cs = [] ↔ words cs = [] := by
  constructor
  · intro h
    rw [← words_trim, h, words_nil]
  · intro h
    rw [← words_trim] at h
    cases htrim : trim cs with
    | nil => rfl
    | cons c rest =>
      rw [htrim] at h
      have hblank := words_eq_nil_iff.1 h c List.mem_cons_self
      have hhead : c ∈ (trim cs).head? := by rw [htrim]; rfl
      rw [head?_trimBy hhead] at hblank
      cases hblank

/-! ## Lines -/

theorem isBlank_of_isLineBreak {c : Char} (h : isLineBreak c = true) : isBlank c = true := by
  simp only [isLineBreak, isBlank, Bool.or_eq_true, Bool.and_eq_true, decide_eq_true_eq,
    beq_iff_eq] at h ⊢
  omega

theorem isLineBreak_of_not_blank {c : Char} (h : isBlank c = false) : isLineBreak c = false := by
  cases hbreak : isLineBreak c with
  | false => rfl
  | true => rw [← h, isBlank_of_isLineBreak hbreak]

/-- Characters that stay on one line. -/
def Unbroken (cs : List Char) : Prop := ∀ c ∈ cs, isLineBreak c = false

/-- Blanks that stay on one line. -/
def Spacing (cs : List Char) : Prop := ∀ c ∈ cs, isBlank c = true ∧ isLineBreak c = false

instance (cs : List Char) : Decidable (Unbroken cs) :=
  List.decidableBAll (fun c => isLineBreak c = false) cs

instance (cs : List Char) : Decidable (Spacing cs) :=
  List.decidableBAll (fun c => isBlank c = true ∧ isLineBreak c = false) cs

theorem Unbroken.append {ds : List Char} (h : Unbroken cs) (h' : Unbroken ds) :
    Unbroken (cs ++ ds) :=
  List.forall_mem_append.2 ⟨h, h'⟩

theorem Spacing.unbroken (h : Spacing gap) : Unbroken gap := fun c hc => (h c hc).2

theorem lines_lineFeed (rest : List Char) : lines ('\n' :: rest) = [] :: lines rest := by
  rw [lines.eq_def]
  rfl

theorem lines_cons_of_not_break (h : isLineBreak c = false) : lines (c :: cs) =
    (c :: (lines cs).headD []) :: (lines cs).tail := by
  have hreturn : c ≠ '\r' := by
    rintro rfl
    cases h
  rw [lines, if_neg (by simp [h])]
  · cases lines cs <;> rfl
  · exact fun _ heq => absurd heq hreturn

theorem lines_ne_nil (h : cs ≠ []) : lines cs ≠ [] := by
  fun_cases lines cs <;> simp_all

/-- A break ends an empty line, unless it is the first half of a break. -/
theorem lines_cons_break (h : isLineBreak c = true)
    (hpair : c = '\r' → cs.head? ≠ some '\n') : lines (c :: cs) = [] :: lines cs := by
  rw [lines, if_pos h]
  rintro cs rfl rfl
  exact hpair rfl rfl

/-- A row of characters without breaks goes in front of the first line. -/
theorem lines_append_of_unbroken {ls : List (List Char)} (h : ∀ c ∈ cs, isLineBreak c = false)
    (hlines : lines after = [] :: ls) : lines (cs ++ after) = cs :: ls := by
  induction cs with
  | nil => exact hlines
  | cons c cs ih =>
    obtain ⟨hc, hcs⟩ := List.forall_mem_cons.1 h
    rw [List.cons_append, lines_cons_of_not_break hc, ih hcs]
    rfl

theorem lines_of_unbroken (hne : cs ≠ []) (h : ∀ c ∈ cs, isLineBreak c = false) :
    lines cs = [cs] := by
  induction cs with
  | nil => exact absurd rfl hne
  | cons c cs ih =>
    obtain ⟨hc, hcs⟩ := List.forall_mem_cons.1 h
    rw [lines_cons_of_not_break hc]
    by_cases hnil : cs = []
    · rw [hnil]
      rfl
    · rw [ih hnil hcs]
      rfl

/-- A line feed ends the first line. -/
theorem lines_append_cons {cs : List Char} (rest : List Char)
    (h : ∀ c ∈ cs, isLineBreak c = false) : lines (cs ++ '\n' :: rest) = cs :: lines rest :=
  lines_append_of_unbroken h (lines_lineFeed rest)

/-- A line feed between two texts: the lines of the first, ended by the line feed, come before those
of the second. -/
theorem lines_append_lineFeed (before after : List Char) :
    lines (before ++ '\n' :: after) = lines (before ++ ['\n']) ++ lines after := by
  -- A character that breaks no line goes to the first line, and there is one.
  have hstep : ∀ {c cs}, ¬ isLineBreak c = true →
      lines (cs ++ '\n' :: after) = lines (cs ++ ['\n']) ++ lines after →
      lines (c :: (cs ++ '\n' :: after)) = lines (c :: (cs ++ ['\n'])) ++ lines after := by
    intro c cs hc ih
    have hc' : isLineBreak c = false := by simpa using hc
    have hne : cs ++ ['\n'] ≠ [] := by simp
    obtain ⟨line, ls, hlines⟩ := List.exists_cons_of_ne_nil (lines_ne_nil hne)
    rw [lines_cons_of_not_break hc', lines_cons_of_not_break hc', ih, hlines]
    rfl
  fun_induction lines before with
  | case1 => simp [lines_lineFeed, lines]
  | case2 cs ih => simp [lines, ih]
  | case3 c cs hpair hbreak ih =>
    cases cs with
    | nil =>
      by_cases hc : c = '\r'
      · simp [hc, lines]
      · have hcons : ∀ rest, lines (c :: '\n' :: rest) = [] :: [] :: lines rest := fun rest => by
          rw [lines_cons_break hbreak fun heq => absurd heq hc, lines_lineFeed]
        simp [hcons, lines]
    | cons d cs =>
      have hcons : ∀ rest, lines (c :: d :: (cs ++ rest)) = [] :: lines (d :: (cs ++ rest)) :=
        fun rest => lines_cons_break hbreak fun hc hd => hpair cs hc (by simpa using hd)
      simpa [hcons] using ih
  | case4 c cs _ hbreak _ _ _ ih => exact hstep hbreak ih
  | case5 c cs _ hbreak _ ih => exact hstep hbreak ih

/-- A line feed at the end of a text ends its last line, or is an empty line of its own. -/
theorem lines_append_singleton (cs : List Char) :
    lines (cs ++ ['\n']) = lines cs ∨ lines (cs ++ ['\n']) = lines cs ++ [[]] := by
  fun_induction lines cs with
  | case1 => exact .inr rfl
  | case2 cs ih =>
    simp only [List.cons_append, lines]
    exact ih.imp (congrArg _) (congrArg _)
  | case3 c cs hpair hbreak ih =>
    cases cs with
    | nil =>
      by_cases hc : c = '\r'
      · exact .inl (by simp [hc, lines])
      · rw [List.cons_append, lines_cons_break hbreak fun heq => absurd heq hc]
        exact .inr rfl
    | cons d cs =>
      rw [List.cons_append, List.cons_append,
        lines_cons_break hbreak fun hc hd => hpair cs hc (by simpa using hd)]
      exact ih.imp (congrArg _) (congrArg _)
  | case4 c cs _ hbreak line ls hlines ih =>
    rw [List.cons_append, lines_cons_of_not_break (by simpa using hbreak)]
    rw [hlines] at ih
    rcases ih with ih | ih
    · exact .inl (by rw [ih]; rfl)
    · exact .inr (by rw [ih]; rfl)
  | case5 c cs _ hbreak hlines ih =>
    rw [List.cons_append, lines_cons_of_not_break (by simpa using hbreak)]
    rw [hlines] at ih
    rcases ih with ih | ih
    · exact .inl (by rw [ih]; rfl)
    · exact .inl (by rw [ih]; rfl)

/-! ## Lines that are not empty -/

/-- The lines that are not empty. -/
def fullLines (cs : List Char) : List (List Char) := (lines cs).filter (!·.isEmpty)

/-- A break ends the first line, whether or not the next character belongs to it. -/
theorem fullLines_append_of_unbroken (after : List Char) (h : ∀ c ∈ cs, isLineBreak c = false)
    (hc : isLineBreak c = true) :
    fullLines (cs ++ c :: after) = [cs].filter (!·.isEmpty) ++ fullLines after := by
  obtain ⟨ls, hlines, hfull⟩ : ∃ ls, lines (c :: after) = [] :: ls ∧
      ls.filter (!·.isEmpty) = fullLines after := by
    by_cases hpair : c = '\r' ∧ after.head? = some '\n'
    · obtain ⟨rfl, hhead⟩ := hpair
      obtain ⟨after, rfl⟩ := List.head?_eq_some_iff.1 hhead
      refine ⟨lines after, by rw [lines], ?_⟩
      rw [fullLines, lines_lineFeed]
      rfl
    · exact ⟨lines after, lines_cons_break hc fun hret hhead => hpair ⟨hret, hhead⟩, rfl⟩
  rw [fullLines, lines_append_of_unbroken h hlines, ← hfull, ← List.filter_append]
  rfl

theorem fullLines_of_unbroken (h : ∀ c ∈ cs, isLineBreak c = false) :
    fullLines cs = [cs].filter (!·.isEmpty) := by
  by_cases hne : cs = []
  · rw [hne]
    rfl
  · rw [fullLines, lines_of_unbroken hne h]

/-- The lines of a text that are not empty are those before a break and those after it. -/
theorem fullLines_append_break (before after : List Char) (hc : isLineBreak c = true) :
    fullLines (before ++ c :: after) = fullLines before ++ fullLines after := by
  have hfirst : ∀ d ∈ before.takeWhile (!isLineBreak ·), isLineBreak d = false :=
    fun d hd => by simpa using List.mem_takeWhile_imp hd
  have hsplit : before = before.takeWhile (!isLineBreak ·) ++ before.dropWhile (!isLineBreak ·) :=
    List.takeWhile_append_dropWhile.symm
  cases hrest : before.dropWhile (!isLineBreak ·) with
  | nil =>
    rw [hrest, List.append_nil] at hsplit
    rw [← hsplit] at hfirst
    rw [fullLines_append_of_unbroken after hfirst hc, fullLines_of_unbroken hfirst]
  | cons d rest =>
    have hd : isLineBreak d = true := by
      have hnot := List.head?_dropWhile_not (!isLineBreak ·) before
      rw [hrest] at hnot
      simpa using hnot
    rw [hrest] at hsplit
    have hshorter : rest.length < before.length := by
      rw [hsplit, List.length_append, List.length_cons]
      omega
    have ih := fullLines_append_break rest after hc
    rw [hsplit, List.append_assoc, List.cons_append, fullLines_append_of_unbroken _ hfirst hd, ih,
      fullLines_append_of_unbroken _ hfirst hd, List.append_assoc]
termination_by before.length

end WordMachine.Text
