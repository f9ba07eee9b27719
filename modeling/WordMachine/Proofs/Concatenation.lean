import WordMachine.Proofs.Entries

/-!
# Texts one after another

Where a line feed joins two texts, the lines of the second come after those of the first, which are
as before but perhaps for an empty line at the seam. So the second text is read as it would be on
its own, but that its lines have higher numbers and that the first text may have wired a register.
-/

namespace WordMachine

open Text

namespace Listing

/-! ## Reading on -/

theorem readLines_append (number : Nat) (l : Listing) (ls ls' : List (List Char)) :
    readLines number l (ls ++ ls') =
      readLines number l ls >>= fun l' => readLines (number + ls.length) l' ls' := by
  induction ls generalizing number l with
  | nil => rfl
  | cons line ls ih =>
    rw [List.cons_append, readLines, readLines]
    cases readLine number l line with
    | error fault => rfl
    | ok l' =>
      simp only [ih, List.length_cons]
      rw [Nat.add_assoc, Nat.add_comm 1]

theorem read_append_lineFeed (text : List Char) : read (text ++ ['\n']) = read text := by
  rcases lines_append_singleton text with hlines | hlines
  · rw [read, hlines, read]
  · rw [read, hlines, readLines_append, read]
    cases readLines 1 {} (lines text) with
    | error fault => rfl
    | ok l => rfl

/-- The second text is read on from the listing of the first. -/
theorem read_append (first second : List Char) : read (first ++ '\n' :: second) =
    read first >>= fun l => readLines ((lines (first ++ ['\n'])).length + 1) l (lines second) := by
  rw [read, lines_append_lineFeed, readLines_append, ← read_append_lineFeed first, Nat.add_comm,
    read]

/-- A text that is read by itself is read after another one that leaves it a register to wire. -/
theorem readLines_of_read {number : Nat} {l l' : Listing} {text : List Char}
    (h : read text = .ok l') (hip : l.ip = none ∨ l'.ip = none) :
    readLines number l (lines text) = .ok ⟨l.ip.or l'.ip, l.program ++ l'.program⟩ := by
  obtain ⟨es, hes, hle, rfl⟩ := read_eq_ok_iff.1 h
  refine readLines_eq_ok_iff.2 ⟨es, hes, ?_, ?_⟩
  · rcases hip with hip | hip
    · simpa [hip] using hle
    · have hnone : es.filterMap Entry.ip? = [] := List.head?_eq_none_iff.1 hip
      rw [hnone, List.append_nil]
      cases l.ip <;> simp
  · rw [List.head?_append, Option.head?_toList]
    rfl

/-- A text that is not read by itself is not read after another one. -/
theorem exists_readLines_error {text : List Char} {fault : Fault} (h : read text = .error fault)
    (number : Nat) (l : Listing) : ∃ fault', readLines number l (lines text) = .error fault' := by
  cases hread : readLines number l (lines text) with
  | error fault' => exact ⟨fault', rfl⟩
  | ok l' =>
    obtain ⟨es, hes, hle, -⟩ := readLines_eq_ok_iff.1 hread
    have hle' : (es.filterMap Entry.ip?).length ≤ 1 := by
      rw [List.length_append] at hle
      omega
    rw [read_eq_ok_iff.2 ⟨es, hes, hle', rfl⟩] at h
    cases h

/-! ## Directives -/

/-- A line that is a directive, well formed or not. -/
def isDirective (line : List Char) : Bool := (content line).head? == some '#'

theorem isDirective_of_blank {line : List Char} (h : lineWords line = []) :
    isDirective line = false := by
  rw [isDirective, content_eq_nil_iff.2 h]
  rfl

/-- Of the lines that say something, the directives are those that wire a register. -/
theorem isDirective_of_entry {line : List Char} {entry : Entry}
    (h : Entry.ofWords? (lineWords line) = some entry) :
    isDirective line = entry.ip?.isSome := by
  rw [isDirective]
  cases hcontent : content line with
  | nil => exact absurd (content_eq_nil_iff.1 hcontent) (ne_nil_of_entry h)
  | cons c rest =>
    by_cases hc : c = '#'
    · rw [hc] at hcontent ⊢
      rw [ofWords?_directive hcontent] at h
      obtain ⟨digits, -, h⟩ := Option.bind_eq_some_iff.1 h
      obtain ⟨ip, -, rfl⟩ := Option.map_eq_some_iff.1 h
      rfl
    · rw [ofWords?_instruction hcontent hc] at h
      obtain ⟨ins, -, rfl⟩ := Option.map_eq_some_iff.1 h
      simpa [Entry.ip?] using hc

theorem countP_isDirective {ls : List (List Char)} {es : List Entry}
    (h : (rows ls).mapM Entry.ofWords? = some es) :
    ls.countP isDirective = (es.filterMap Entry.ip?).length := by
  induction ls generalizing es with
  | nil =>
    cases h
    rfl
  | cons line ls ih =>
    by_cases hblank : lineWords line = []
    · rw [rows_cons_of_blank hblank] at h
      rw [List.countP_cons_of_neg (by simp [isDirective_of_blank hblank]), ih h]
    · cases hentry : Entry.ofWords? (lineWords line) with
      | none => simp [rows_cons hblank, hentry] at h
      | some entry =>
        obtain ⟨es', hes, rfl⟩ := (exists_entries_cons hentry).1 ⟨es, h, rfl⟩
        rw [List.countP_cons, ih hes, isDirective_of_entry hentry, List.filterMap_cons]
        cases entry.ip? <;> simp

/-- A text that wires a register has one directive, and no more. -/
theorem exists_directive {text : List Char} {l : Listing} (h : read text = .ok l)
    (hip : l.ip ≠ none) : ∃ front line back, lines text = front ++ line :: back ∧
      isDirective line = true ∧ ∀ other ∈ front ++ back, isDirective other = false := by
  obtain ⟨es, hes, hle, rfl⟩ := read_eq_ok_iff.1 h
  have hcount : (lines text).countP isDirective = 1 := by
    rw [countP_isDirective hes]
    have hpos : 0 < (es.filterMap Entry.ip?).length :=
      List.length_pos_iff.2 fun hnil => hip (by simp [ofEntries, hnil])
    omega
  obtain ⟨line, hline, hdirective⟩ := List.countP_pos_iff.1 (by rw [hcount]; decide)
  obtain ⟨front, back, hlines⟩ := List.append_of_mem hline
  refine ⟨front, line, back, hlines, hdirective, ?_⟩
  rw [hlines, List.countP_append, List.countP_cons_of_pos hdirective] at hcount
  have hothers : (front ++ back).countP isDirective = 0 := by
    rw [List.countP_append]
    omega
  simpa using List.countP_eq_zero.1 hothers

/-- A second directive is a fault of its line, if the lines before it say something else. -/
theorem readLines_boundTwice {number : Nat} {l : Listing} {front back : List (List Char)}
    {line : List Char} {es : List Entry} (hip : l.ip ≠ none)
    (hes : (rows (front ++ line :: back)).mapM Entry.ofWords? = some es)
    (hfront : ∀ other ∈ front, isDirective other = false) (hline : isDirective line = true) :
    readLines number l (front ++ line :: back) =
      .error (.atLine (number + front.length) .boundTwice) := by
  obtain ⟨before, hbefore, after, hafter, -⟩ : ∃ before, (rows front).mapM Entry.ofWords? =
      some before ∧ ∃ after, (rows (line :: back)).mapM Entry.ofWords? = some after ∧
        before ++ after = es := by
    simpa [rows_append, List.mapM_append, Option.bind_eq_some_iff] using hes
  have hnone : before.filterMap Entry.ip? = [] := by
    rw [← List.length_eq_zero_iff, ← countP_isDirective hbefore, List.countP_eq_zero]
    simpa using hfront
  obtain ⟨ip, program⟩ := l
  cases ip with
  | none => exact absurd rfl hip
  | some ip =>
    have hread : readLines number ⟨some ip, program⟩ front = .ok ⟨some ip,
        program ++ (before.filterMap Entry.instruction?).toArray⟩ :=
      readLines_eq_ok_iff.2 ⟨before, hbefore, by simp [hnone], by simp [hnone]⟩
    rw [readLines_append, hread]
    show readLines (number + front.length) _ (line :: back) = _
    rw [readLines]
    rcases readLine_cases (number + front.length)
      ⟨some ip, program ++ (before.filterMap Entry.instruction?).toArray⟩ line with
      ⟨hblank, -⟩ | ⟨ins, hentry, -⟩ | ⟨ip', -, hread'⟩ | ⟨hne, hentry, -⟩
    · rw [isDirective_of_blank hblank] at hline
      cases hline
    · rw [isDirective_of_entry hentry] at hline
      cases hline
    · rw [hread']
      rfl
    · simp [rows_cons hne, hentry] at hafter

end Listing

/-- **A line feed joins two listings.** If both texts are read and not both wire a register, the
whole is the instructions of the first and then those of the second, with the register that is
wired. If both wire one, the second directive is the fault, at its line in the whole. If the first
text is not read, the whole fails as it does, and if only the second is not, the whole fails. -/
theorem listings_concatenate (first second : List Char) :
    (∀ l l', Listing.read first = .ok l → Listing.read second = .ok l' →
      l.ip = none ∨ l'.ip = none →
      Listing.read (first ++ '\n' :: second) = .ok ⟨l.ip.or l'.ip, l.program ++ l'.program⟩) ∧
    (∀ l l', Listing.read first = .ok l → Listing.read second = .ok l' →
      l.ip ≠ none → l'.ip ≠ none → ∃ front line back, lines second = front ++ line :: back ∧
        Listing.isDirective line = true ∧
        (∀ other ∈ front ++ back, Listing.isDirective other = false) ∧
        lines (first ++ '\n' :: second) = lines (first ++ ['\n']) ++ front ++ line :: back ∧
        Listing.read (first ++ '\n' :: second) =
          .error (.atLine ((lines (first ++ ['\n']) ++ front).length + 1) .boundTwice)) ∧
    (∀ fault, Listing.read first = .error fault →
      Listing.read (first ++ '\n' :: second) = .error fault) ∧
    (∀ l fault, Listing.read first = .ok l → Listing.read second = .error fault →
      ∃ fault', Listing.read (first ++ '\n' :: second) = .error fault') ∧
    ∀ number : Nat, (Fault.atLine number .boundTwice).message =
      "line " ++ toString number ++ ": instruction pointer bound twice" := by
  rw [Listing.read_append]
  refine ⟨fun l l' h h' hip => ?_, fun l l' h h' hip hip' => ?_, fun fault h => ?_,
    fun l fault h h' => ?_, fun number => ?_⟩
  · rw [h]
    exact Listing.readLines_of_read h' hip
  · obtain ⟨front, line, back, hlines, hline, hothers⟩ := Listing.exists_directive h' hip'
    obtain ⟨es, hes, -, -⟩ := Listing.read_eq_ok_iff.1 h'
    rw [hlines] at hes
    refine ⟨front, line, back, hlines, hline, hothers, ?_, ?_⟩
    · rw [lines_append_lineFeed, hlines, List.append_assoc]
    · rw [h, hlines, List.length_append, Nat.add_right_comm]
      exact Listing.readLines_boundTwice hip hes
        (fun other hother => hothers other (List.mem_append_left _ hother)) hline
  · rw [h]
    rfl
  · rw [h]
    exact Listing.exists_readLines_error h' _ l
  · have hjoin : ": " ++ "instruction pointer bound twice" =
        ": instruction pointer bound twice" := by decide
    rw [← hjoin, ← String.append_assoc]
    rfl

/-- A directive, ended by a carriage return. -/
def wiringText : List Char := "#ip 2\r".toList

/-- An instruction and a comment, and a directive on the third line. -/
def wiringAgainText : List Char := "out 0\n; again\n#ip 3".toList

theorem listings_concatenate_wiring_again :
    Listing.read wiringText = .ok ⟨some 2, #[]⟩ ∧
    Listing.read wiringAgainText = .ok ⟨some 3, #[⟨.out, 0, 0, 0⟩]⟩ ∧
    Listing.read (wiringText ++ '\n' :: wiringAgainText) = .error (.atLine 4 .boundTwice) := by
  have hfirst : Listing.read wiringText = .ok ⟨some 2, #[]⟩ :=
    Except.toOption_eq_some_iff.1 (by decide +kernel)
  have hsecond : Listing.read wiringAgainText = .ok ⟨some 3, #[⟨.out, 0, 0, 0⟩]⟩ :=
    Except.toOption_eq_some_iff.1 (by decide +kernel)
  have hlines : lines wiringAgainText = ["out 0".toList, "; again".toList, "#ip 3".toList] := by
    decide +kernel
  have hseam : lines (wiringText ++ ['\n']) = ["#ip 2".toList] := by decide +kernel
  obtain ⟨-, htwice, -⟩ := listings_concatenate wiringText wiringAgainText
  obtain ⟨front, line, back, hsplit, hline, -, -, hread⟩ :=
    htwice _ _ hfirst hsecond (by simp) (by simp)
  -- Of the three lines only the last is a directive.
  have hfront : front.length = 2 := by
    rw [hlines] at hsplit
    match front, hsplit with
    | [], hsplit =>
      cases hsplit
      exact absurd hline (by decide +kernel)
    | [_], hsplit =>
      cases hsplit
      exact absurd hline (by decide +kernel)
    | [_, _], _ => rfl
    | _ :: _ :: _ :: _, hsplit => simp at hsplit
  rw [hread, List.length_append, hseam, hfront]
  exact ⟨hfirst, hsecond, rfl⟩

end WordMachine
