import WordMachine.Listing
import WordMachine.Proofs.Numerals
import WordMachine.Proofs.Words

/-!
# Listings read back

A printed listing has its instructions and its directive on lines of their own, in words with single
spaces between them; no character of a word is a blank or a semicolon. So the reader cuts a printed
listing into the lines and words it was put together from. Every listing that is read can be printed
and read again, however it was written: its numbers are short enough, and its directive has no sign.
-/

namespace WordMachine

namespace Text

/-! ## Words and lines -/

/-- A row of characters that neither splits into words nor starts a comment. -/
def Solid (cs : List Char) : Prop := ∀ c ∈ cs, isBlank c = false ∧ c ≠ ';'

instance (cs : List Char) : Decidable (Solid cs) :=
  List.decidableBAll (fun c => isBlank c = false ∧ c ≠ ';') cs

theorem solid_printInt (x : Int) : Solid (printInt x) := by
  intro c hc
  refine ⟨isBlank_of_mem_printInt hc, ?_⟩
  rintro rfl
  rcases mem_printInt hc with h | h <;> cases h

theorem words_of_solid {cs : List Char} (h : Solid cs) (hne : cs ≠ []) : words cs = [cs] :=
  words_of_unbroken hne fun c hc => (h c hc).1

/-- A blank ends the first word. -/
theorem words_append_cons {cs rest : List Char} {blank : Char} (h : Solid cs) (hne : cs ≠ [])
    (hblank : isBlank blank = true) : words (cs ++ blank :: rest) = cs :: words rest := by
  rw [words_append_blank cs rest hblank, words_of_solid h hne]
  rfl

/-- Lines that are joined and ended by line feeds are found again. -/
theorem lines_intercalate {ls : List (List Char)} (hne : ls ≠ [])
    (h : ∀ l ∈ ls, ∀ c ∈ l, isLineBreak c = false) :
    lines (['\n'].intercalate ls ++ ['\n']) = ls := by
  induction ls with
  | nil => exact absurd rfl hne
  | cons l ls ih =>
    have hl := h l List.mem_cons_self
    cases ls with
    | nil =>
      rw [List.intercalate_singleton, lines_append_cons [] hl, lines]
    | cons l' ls =>
      have hrest := ih (List.cons_ne_nil _ _) fun k hk => h k (List.mem_cons_of_mem _ hk)
      rw [List.intercalate_cons_cons, List.append_assoc, List.append_assoc, List.singleton_append,
        lines_append_cons _ hl, hrest]

/-- A line as it is printed: words with spaces between them, and no space at either end. -/
structure Row (cs : List Char) : Prop where
  chars : ∀ c ∈ cs, c = ' ' ∨ isBlank c = false ∧ c ≠ ';'
  nonempty : cs ≠ []
  head : isBlank (cs.head nonempty) = false
  last : isBlank (cs.getLast nonempty) = false

theorem Row.of_solid {cs : List Char} (h : Solid cs) (hne : cs ≠ []) : Row cs where
  chars := fun c hc => .inr (h c hc)
  nonempty := hne
  head := (h _ (List.head_mem hne)).1
  last := (h _ (List.getLast_mem hne)).1

theorem Row.cons {word cs : List Char} (h : Row cs) (hword : Solid word) (hne : word ≠ []) :
    Row (word ++ ' ' :: cs) where
  chars := by
    intro c hc
    rcases List.mem_append.1 hc with hc | hc
    · exact .inr (hword c hc)
    · rcases List.mem_cons.1 hc with rfl | hc
      · exact .inl rfl
      · exact h.chars c hc
  nonempty := List.append_ne_nil_of_left_ne_nil hne _
  head := by
    rw [List.head_append_of_ne_nil hne]
    exact (hword _ (List.head_mem hne)).1
  last := by
    rw [List.getLast_append_of_ne_nil _ (List.cons_ne_nil _ _), List.getLast_cons h.nonempty]
    exact h.last

/-- Words with single spaces between them. -/
def unwords (ws : List (List Char)) : List Char := [' '].intercalate ws

theorem unwords_singleton (w : List Char) : unwords [w] = w := List.intercalate_singleton

theorem unwords_cons_cons (v w : List Char) (ws : List (List Char)) :
    unwords (v :: w :: ws) = v ++ ' ' :: unwords (w :: ws) := by
  rw [unwords, List.intercalate_cons_cons, List.append_assoc]
  rfl

theorem words_unwords {ws : List (List Char)} (h : ∀ w ∈ ws, Solid w ∧ w ≠ []) :
    words (unwords ws) = ws := by
  induction ws with
  | nil => exact words_nil
  | cons v ws ih =>
    obtain ⟨⟨hv, hne⟩, hws⟩ := List.forall_mem_cons.1 h
    cases ws with
    | nil => rw [unwords_singleton, words_of_solid hv hne]
    | cons w ws => rw [unwords_cons_cons, words_append_cons hv hne (by decide), ih hws]

theorem Row.unwords {ws : List (List Char)} (hws : ws ≠ []) (h : ∀ w ∈ ws, Solid w ∧ w ≠ []) :
    Row (unwords ws) := by
  induction ws with
  | nil => exact absurd rfl hws
  | cons v ws ih =>
    obtain ⟨⟨hv, hne⟩, hrest⟩ := List.forall_mem_cons.1 h
    cases ws with
    | nil =>
      rw [unwords_singleton]
      exact .of_solid hv hne
    | cons w ws =>
      rw [unwords_cons_cons]
      exact .cons (ih (List.cons_ne_nil _ _) hrest) hv hne

theorem Row.not_isLineBreak {cs : List Char} (h : Row cs) {c : Char} (hc : c ∈ cs) :
    isLineBreak c = false := by
  rcases h.chars c hc with rfl | ⟨hblank, -⟩
  · decide
  · exact isLineBreak_of_not_blank hblank

theorem Row.trim_eq {cs : List Char} (h : Row cs) : trim cs = cs :=
  trimBy_eq_self fun _ => ⟨h.head, h.last⟩

end Text

/-! ## Instructions -/

namespace Opcode

theorem ofMnemonic?_mnemonic (op : Opcode) : ofMnemonic? op.mnemonic.toList = some op := by
  cases op <;> decide

theorem solid_mnemonic (op : Opcode) : Text.Solid op.mnemonic.toList := by
  cases op <;> decide

/-- A mnemonic begins like no directive. -/
theorem exists_mnemonic (op : Opcode) : ∃ c cs, op.mnemonic.toList = c :: cs ∧ c ≠ '#' := by
  cases op <;> exact ⟨_, _, rfl, by decide⟩

end Opcode

namespace Instruction

open Text

theorem print_eq_unwords (ins : Instruction) : ins.print =
    unwords [ins.op.mnemonic.toList, printInt ins.a, printInt ins.b, printInt ins.c] := by
  simp [print, unwords, List.intercalate]

theorem solid_of_mem_print (ins : Instruction) :
    ∀ w ∈ [ins.op.mnemonic.toList, printInt ins.a, printInt ins.b, printInt ins.c],
      Solid w ∧ w ≠ [] := by
  obtain ⟨c, cs, hop, -⟩ := ins.op.exists_mnemonic
  have hop' : ins.op.mnemonic.toList ≠ [] := by simp [hop]
  simp [ins.op.solid_mnemonic, hop', solid_printInt, printInt_ne_nil]

theorem words_print (ins : Instruction) :
    words ins.print = [ins.op.mnemonic.toList, printInt ins.a, printInt ins.b, printInt ins.c] := by
  rw [print_eq_unwords, words_unwords ins.solid_of_mem_print]

theorem read_print {ins : Instruction} (h : ins.Writable) : read ins.print = .ok ins := by
  have hoperands : readOperands ins.print [printInt ins.a, printInt ins.b, printInt ins.c] =
      .ok [ins.a, ins.b, ins.c] := by
    rw [readOperands]
    simp only [List.mapM_cons, List.mapM_nil, readInt_printInt (h ins.a (by simp)),
      readInt_printInt (h ins.b (by simp)), readInt_printInt (h ins.c (by simp))]
    rfl
  have hop : Opcode.read ins.op.mnemonic.toList = .ok ins.op := by
    rw [Opcode.read, Opcode.ofMnemonic?_mnemonic]
  simp only [read, words_print, hop, hoperands]
  rfl

theorem digitCount_of_readOperands {line : List Char} {ws : List (List Char)} {xs : List Int}
    (h : readOperands line ws = .ok xs) (i : Nat) : digitCount (xs.getD i 0) ≤ maxDigits := by
  unfold readOperands at h
  split at h
  · next operands hmap =>
    cases h
    rw [List.getD_eq_getElem?_getD]
    cases hx : xs[i]? with
    | none => decide
    | some x =>
      obtain ⟨w, -, hw⟩ := (Except.mem_iff_of_mapM_eq_ok hmap).1 (List.mem_of_getElem? hx)
      exact digitCount_of_readInt hw
  · cases h

theorem writable_of_read {line : List Char} {ins : Instruction} (h : read line = .ok ins) :
    ins.Writable := by
  unfold read at h
  split at h
  · cases h
  · next word rest _ =>
    split at h
    · cases h
    · obtain ⟨op, -, h⟩ := Except.bind_eq_ok_iff.1 h
      obtain ⟨operands, hoperands, h⟩ := Except.bind_eq_ok_iff.1 h
      split at h
      · cases h
      · cases h
        simp only [Writable, List.forall_mem_cons, List.not_mem_nil, false_imp_iff, implies_true,
          and_true]
        exact ⟨digitCount_of_readOperands hoperands 0, digitCount_of_readOperands hoperands 1,
          digitCount_of_readOperands hoperands 2⟩

theorem row_print (ins : Instruction) : Row ins.print := by
  rw [print_eq_unwords]
  exact .unwords (List.cons_ne_nil _ _) ins.solid_of_mem_print

end Instruction

/-! ## Lines of a listing -/

open Text

theorem readNumber_printInt {x : Int} (h : digitCount x ≤ maxDigits) :
    readNumber (printInt x) = .ok x := by
  rw [readNumber, readInt_printInt h]

namespace Listing

theorem content_of_row {cs : List Char} (h : Row cs) : content cs = cs := by
  have hcomment : cs.takeWhile (· != ';') = cs := List.takeWhile_eq_self_iff.2 fun c hc => by
    rcases h.chars c hc with rfl | ⟨-, hne⟩
    · decide
    · simpa using hne
  rw [content, hcomment, h.trim_eq]

theorem readLine_print {ins : Instruction} (h : ins.Writable) (number : Nat) (l : Listing) :
    readLine number l ins.print = .ok { l with program := l.program.push ins } := by
  obtain ⟨c, cs, hop, hc⟩ := ins.op.exists_mnemonic
  obtain ⟨rest, hprint⟩ : ∃ rest, ins.print = c :: rest := ⟨_, by rw [Instruction.print, hop]; rfl⟩
  have hread := Instruction.read_print h
  rw [readLine, content_of_row ins.row_print]
  rw [hprint] at hread ⊢
  split
  · next heq => cases heq
  · next heq =>
    cases heq
    exact absurd rfl hc
  · simp only [hread]

/-- The line that wires a register. -/
def directive (ip : Int) : List Char := "#ip ".toList ++ printInt ip

theorem row_directive (ip : Int) : Row (directive ip) :=
  .cons (.of_solid (solid_printInt ip) (printInt_ne_nil ip)) (by decide : Solid "#ip".toList)
    (by decide)

theorem directiveDigits?_directive {ip : Int} (h : 0 ≤ ip) :
    directiveDigits? (directive ip) = some (printInt ip) := by
  obtain ⟨n, rfl⟩ := Int.eq_ofNat_of_zero_le h
  have hdigits : ∀ c ∈ Nat.toDigits 10 n, c.isDigit = true := fun _ => isDigit_of_mem_toDigits
  have hall : (Nat.toDigits 10 n).all isDigit = true :=
    List.all_eq_true.2 fun c hc => isDigit_of_isDigit (hdigits c hc)
  have hdrop : (Nat.toDigits 10 n).dropWhile isBlank = Nat.toDigits 10 n :=
    List.dropWhile_eq_self_iff.2 fun hlt => by
      simp [isBlank_of_isDigit (hdigits _ (List.getElem_mem hlt))]
  have hspace : isBlank ' ' = true := by decide
  show directiveDigits? ('#' :: 'i' :: 'p' :: ' ' :: Nat.toDigits 10 n) = some (Nat.toDigits 10 n)
  simp [directiveDigits?, hdrop, hspace, hall, Nat.toDigits_ne_nil]

theorem readLine_directive {ip : Int} (h : 0 ≤ ip) (hcount : digitCount ip ≤ maxDigits)
    (number : Nat) {l : Listing} (hl : l.ip = none) :
    readLine number l (directive ip) = .ok { l with ip := some ip } := by
  rw [readLine, content_of_row (row_directive ip)]
  show readDirective number l (directive ip) = _
  rw [readDirective, directiveDigits?_directive h]
  simp only [hl, readNumber_printInt hcount]
  rfl

theorem readLines_print {code : List Instruction} (h : ∀ ins ∈ code, ins.Writable) (number : Nat)
    (l : Listing) : readLines number l (code.map Instruction.print) =
      .ok { l with program := l.program ++ code.toArray } := by
  induction code generalizing number l with
  | nil => simp [readLines]
  | cons ins code ih =>
    obtain ⟨hins, hcode⟩ := List.forall_mem_cons.1 h
    rw [List.map_cons, readLines]
    simp only [readLine_print hins, ih hcode]
    simp

/-! ## Whole listings -/

/-- The wired register is not below zero, and every number is short enough to be read. -/
structure Writable (l : Listing) : Prop where
  ip : ∀ ip, l.ip = some ip → 0 ≤ ip ∧ digitCount ip ≤ maxDigits
  program : ∀ ins ∈ l.program, ins.Writable

theorem text_eq_print {l : Listing} (h : l.Writable) : l.text = .ok l.print := by
  refine if_pos (Bool.and_eq_true_iff.2 ⟨?_, ?_⟩)
  · cases hip : l.ip with
    | none => rfl
    | some ip => exact decide_eq_true (h.ip ip hip).2
  · exact Array.all_eq_true_iff_forall_mem.2 fun ins hins => decide_eq_true (h.program ins hins)

theorem row_printLines {l : Listing} {cs : List Char} (h : cs ∈ l.printLines) : Row cs := by
  rcases List.mem_append.1 h with h | h
  · split at h
    · next ip _ =>
      obtain rfl := List.mem_singleton.1 h
      exact row_directive ip
    · cases h
  · obtain ⟨ins, -, rfl⟩ := List.mem_map.1 h
    exact ins.row_print

theorem readLines_printLines {l : Listing} (h : l.Writable) :
    readLines 1 {} l.printLines = .ok l := by
  obtain ⟨ip, program⟩ := l
  have hcode : ∀ ins ∈ program.toList, ins.Writable := fun ins hins =>
    h.program ins (Array.mem_toList_iff.1 hins)
  cases ip with
  | none =>
    have hread := readLines_print hcode 1 {}
    rw [Array.empty_append, Array.toArray_toList] at hread
    exact hread
  | some ip =>
    obtain ⟨hip, hcount⟩ := h.ip ip rfl
    have hread := readLines_print hcode 2 { ip := some ip }
    rw [Array.empty_append, Array.toArray_toList] at hread
    show readLines 1 {} (directive ip :: program.toList.map Instruction.print) = _
    rw [readLines, readLine_directive hip hcount 1 rfl]
    exact hread

theorem read_print {l : Listing} (h : l.Writable) : read l.print = .ok l := by
  have hlines := readLines_printLines h
  by_cases hempty : l.printLines = []
  · -- The line feed of an empty listing is an empty line.
    rw [hempty] at hlines
    rw [read, print, hempty]
    exact hlines
  · rw [read, print, lines_intercalate hempty fun cs hcs c hc =>
      (row_printLines hcs).not_isLineBreak hc]
    exact hlines

theorem readInt_of_readNumber {text : List Char} {x : Int} (h : readNumber text = .ok x) :
    readInt text = .ok x := by
  unfold readNumber at h
  split at h
  · next hx =>
    cases h
    exact hx
  · cases h
  · cases h

theorem minus_notMem_digits {line digits : List Char} (h : directiveDigits? line = some digits) :
    '-' ∉ digits := by
  intro hminus
  unfold directiveDigits? at h
  split at h
  · obtain ⟨hdigits, ⟨⟩⟩ := Option.ite_none_right_eq_some.1 h
    simp only [Bool.and_eq_true, List.all_eq_true] at hdigits
    exact absurd (hdigits.2 '-' hminus) (by decide)
  · cases h

theorem Writable.of_readDirective {number : Nat} {l l' : Listing} {line : List Char}
    (h : l.Writable) (hread : readDirective number l line = .ok l') : l'.Writable := by
  unfold readDirective at hread
  split at hread
  · cases hread
  · next digits hdigits =>
    split at hread
    · cases hread
    · obtain ⟨ip, hip, rfl⟩ := Except.map_eq_ok_iff.1 hread
      have hip' := readInt_of_readNumber hip
      refine ⟨fun ip' heq => ?_, h.program⟩
      cases heq
      exact ⟨readInt_nonneg (minus_notMem_digits hdigits) hip', digitCount_of_readInt hip'⟩

/-- What a line adds to a listing can be printed. -/
theorem Writable.of_readLine {number : Nat} {l l' : Listing} {line : List Char} (h : l.Writable)
    (hread : readLine number l line = .ok l') : l'.Writable := by
  unfold readLine at hread
  split at hread
  · cases hread
    exact h
  · exact h.of_readDirective hread
  · split at hread
    · next ins hins =>
      cases hread
      refine ⟨h.ip, fun ins' hins' => ?_⟩
      rcases Array.mem_push.1 hins' with hins' | rfl
      · exact h.program ins' hins'
      · exact Instruction.writable_of_read hins
    · cases hread

theorem Writable.of_readLines {number : Nat} {l l' : Listing} {ls : List (List Char)}
    (h : l.Writable) (hread : readLines number l ls = .ok l') : l'.Writable := by
  induction ls generalizing number l with
  | nil =>
    cases hread
    exact h
  | cons line ls ih =>
    rw [readLines] at hread
    split at hread
    · next l'' hline => exact ih (h.of_readLine hline) hread
    · cases hread

theorem writable_of_read {text : List Char} {l : Listing} (h : read text = .ok l) : l.Writable :=
  Writable.of_readLines ⟨by simp, by simp⟩ h

/-- A text as it is written again after reading. -/
def reformat (cs : List Char) : Except Fault (List Char) := do (← read cs).text

theorem reformat_eq {cs : List Char} {l : Listing} (h : read cs = .ok l) :
    reformat cs = .ok l.print := by
  rw [reformat, h]
  exact text_eq_print (writable_of_read h)

end Listing

/-- A listing that can be written is read back from its text, and every listing that is read can be
written; so writing a listing again settles its text. -/
theorem listing_round_trip :
    (∀ l : Listing, l.Writable → l.text = .ok l.print ∧ Listing.read l.print = .ok l) ∧
    (∀ text l, Listing.read text = .ok l →
      l.Writable ∧ l.text = .ok l.print ∧ Listing.read l.print = .ok l) ∧
    ∀ text text', Listing.reformat text = .ok text' → Listing.reformat text' = .ok text' := by
  refine ⟨fun l h => ⟨Listing.text_eq_print h, Listing.read_print h⟩, fun text l h => ?_,
    fun text text' h => ?_⟩
  · have hl := Listing.writable_of_read h
    exact ⟨hl, Listing.text_eq_print hl, Listing.read_print hl⟩
  · obtain ⟨l, hl, -⟩ := Except.bind_eq_ok_iff.1 h
    obtain rfl : l.print = text' := Except.ok.inj ((Listing.reformat_eq hl).symm.trans h)
    exact Listing.reformat_eq (Listing.read_print (Listing.writable_of_read hl))

/-- A directive with an Arabic digit, an instruction in capitals with an underscore, a sign, leading
zeros and a comment, and one that is cut short after a line separator. -/
def lenientText : String := "#ip \u0663\r\n  ADDI 1_0 +007 ; ten\u2028\tseti -0"

theorem listing_round_trip_lenientText :
    ∃ l, Listing.read lenientText.toList = .ok l ∧ l.Writable ∧ l.text = .ok l.print ∧
      Listing.read l.print = .ok l ∧ Listing.reformat l.print = .ok l.print ∧
      l = ⟨some 3, #[⟨.addi, 10, 7, 0⟩, ⟨.seti, 0, 0, 0⟩]⟩ := by
  have hoption : (Listing.read lenientText.toList).toOption =
      some ⟨some 3, #[⟨.addi, 10, 7, 0⟩, ⟨.seti, 0, 0, 0⟩]⟩ := by
    decide +kernel
  obtain ⟨-, hread, hreformat⟩ := listing_round_trip
  cases htext : Listing.read lenientText.toList with
  | error fault =>
    rw [htext] at hoption
    cases hoption
  | ok l =>
    rw [htext] at hoption
    obtain ⟨hwritable, hwritten, hprint⟩ := hread _ l htext
    have hreformat' := hreformat _ l.print (Listing.reformat_eq htext)
    exact ⟨l, rfl, hwritable, hwritten, hprint, hreformat', Option.some.inj hoption⟩

end WordMachine
