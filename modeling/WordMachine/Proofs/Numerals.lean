import Mathlib.Algebra.Order.Ring.Nat
import Mathlib.Data.List.DropRight
import WordMachine.Proofs.Fallible
import WordMachine.Text.Numeral

/-!
# Numerals

What is printed is read back: the printed digits are digits to the reader, with the same values,
and nothing in a printed numeral is a blank or an underscore. Conversely, whatever spelling was
read, the number has no more digits than the reader takes, so it can be printed and read again.
-/

namespace WordMachine.Text

/-! ## Digits -/

theorem toNat_of_isDigit {c : Char} (h : c.isDigit = true) : 48 ≤ c.toNat ∧ c.toNat ≤ 57 := by
  simpa [Char.isDigit, UInt32.le_iff_toNat_le] using h

theorem digitValue?_of_isDigit {c : Char} (h : c.isDigit = true) :
    digitValue? c = some (c.toNat - 48) := by
  obtain ⟨hlow, hhigh⟩ := toNat_of_isDigit h
  have hlt : c.toNat < 58 := by omega
  simp [digitValue?, zeros, hlow, hlt]

theorem isDigit_of_isDigit {c : Char} (h : c.isDigit = true) : isDigit c = true := by
  rw [isDigit, digitValue?_of_isDigit h, Option.isSome_some]

theorem digitValue_lt (c : Char) : (digitValue? c).getD 0 < 10 := by
  unfold digitValue?
  cases h : zeros.find? fun z => z ≤ c.toNat && c.toNat < z + 10 with
  | none => simp
  | some z =>
    have hz := List.find?_some h
    simp only [Bool.and_eq_true, decide_eq_true_eq] at hz
    simp only [Option.map_some, Option.getD_some]
    omega

theorem foldl_digits_lt (cs : List Char) (n : Nat) :
    cs.foldl (fun n c => 10 * n + (digitValue? c).getD 0) n < (n + 1) * 10 ^ cs.length := by
  induction cs generalizing n with
  | nil => simp
  | cons c cs ih =>
    have hc := digitValue_lt c
    calc cs.foldl _ (10 * n + (digitValue? c).getD 0)
        < (10 * n + (digitValue? c).getD 0 + 1) * 10 ^ cs.length := ih _
      _ ≤ ((n + 1) * 10) * 10 ^ cs.length := Nat.mul_le_mul_right _ (by omega)
      _ = (n + 1) * 10 ^ (c :: cs).length := by
        rw [Nat.mul_assoc, List.length_cons, Nat.pow_succ, Nat.mul_comm 10]

theorem natOfDigits_lt (cs : List Char) : natOfDigits cs < 10 ^ cs.length := by
  simpa [natOfDigits] using foldl_digits_lt cs 0

theorem foldl_digits_eq {cs : List Char} (h : ∀ c ∈ cs, c.isDigit = true) (n : Nat) :
    cs.foldl (fun n c => 10 * n + (digitValue? c).getD 0) n = Nat.ofDigitChars 10 cs n := by
  induction cs generalizing n with
  | nil => simp
  | cons c cs ih =>
    rw [List.foldl_cons, ih fun c hc => h c (List.mem_cons_of_mem _ hc), Nat.ofDigitChars_cons,
      digitValue?_of_isDigit (h c List.mem_cons_self)]
    rfl

theorem isDigit_of_mem_toDigits {n : Nat} {c : Char} (h : c ∈ Nat.toDigits 10 n) :
    c.isDigit = true :=
  Nat.isDigit_of_mem_toDigits (by decide) (by decide) h

theorem natOfDigits_toDigits (n : Nat) : natOfDigits (Nat.toDigits 10 n) = n := by
  rw [natOfDigits, foldl_digits_eq fun _ => isDigit_of_mem_toDigits, Nat.ofDigitChars_ten_toDigits]

theorem digitCount_le_iff {x : Int} {k : Nat} (hk : 0 < k) :
    digitCount x ≤ k ↔ x.natAbs < 10 ^ k :=
  Nat.length_toDigits_le_iff (by decide) hk

/-! ## Trimming -/

variable {p : Char → Bool}

theorem trimBy_eq_self {cs : List Char}
    (h : ∀ hne : cs ≠ [], p (cs.head hne) = false ∧ p (cs.getLast hne) = false) :
    trimBy p cs = cs := by
  have hhead : cs.dropWhile p = cs := List.dropWhile_eq_self_iff.2 fun hlt => by
    have hne : cs ≠ [] := List.ne_nil_of_length_pos hlt
    rw [← List.head_eq_getElem hne, (h hne).1]
    exact Bool.false_ne_true
  have hlast : cs.rdropWhile p = cs := List.rdropWhile_eq_self_iff.2 fun hne => by
    rw [(h hne).2]
    exact Bool.false_ne_true
  rw [trimBy, hhead]
  exact hlast

theorem mem_of_mem_trimBy {cs : List Char} {c : Char} (h : c ∈ trimBy p cs) : c ∈ cs := by
  have h' := (List.dropWhile_sublist p).mem (List.mem_reverse.1 h)
  exact (List.dropWhile_sublist p).mem (List.mem_reverse.1 h')

/-- No script has its digits among the blanks. -/
theorem isBlank_of_digit {c : Char} (h : isDigit c = true) : isBlank c = false := by
  obtain ⟨z, hz⟩ : ∃ z, zeros.find? (fun z => z ≤ c.toNat && c.toNat < z + 10) = some z := by
    simpa only [isDigit, digitValue?, Option.isSome_map, Option.isSome_iff_exists] using h
  have hbetween : ∀ z ∈ zeros, (0x20 < z ∧ z + 10 ≤ 0x85) ∨ (0xA0 < z ∧ z + 10 ≤ 0x1680) ∨
      (0x1680 < z ∧ z + 10 ≤ 0x2000) ∨ 0x3000 < z := by decide
  have hrange := List.find?_some hz
  have hscript := hbetween z (List.mem_of_find?_eq_some hz)
  simp only [Bool.and_eq_true, decide_eq_true_eq] at hrange
  simp [isBlank]
  omega

theorem isBlank_of_isDigit {c : Char} (h : c.isDigit = true) : isBlank c = false :=
  isBlank_of_digit (isDigit_of_isDigit h)

/-! ## Printing and reading -/

theorem mem_printInt {x : Int} {c : Char} (h : c ∈ printInt x) : c = '-' ∨ c.isDigit = true := by
  cases x with
  | ofNat n => exact .inr (isDigit_of_mem_toDigits h)
  | negSucc n =>
    rcases List.mem_cons.1 h with rfl | h
    · exact .inl rfl
    · exact .inr (isDigit_of_mem_toDigits h)

theorem printInt_ne_nil (x : Int) : printInt x ≠ [] := by
  cases x with
  | ofNat n => exact Nat.toDigits_ne_nil
  | negSucc n => exact List.cons_ne_nil _ _

theorem isBlank_of_mem_printInt {x : Int} {c : Char} (h : c ∈ printInt x) : isBlank c = false := by
  rcases mem_printInt h with rfl | h
  · decide
  · exact isBlank_of_isDigit h

theorem trimBy_printInt (x : Int) : trimBy isMargin (printInt x) = printInt x := by
  have hmargin : ∀ c ∈ printInt x, isMargin c = false := fun c hc => by
    simp [isMargin, isBlank_of_mem_printInt hc]
  exact trimBy_eq_self fun hne => ⟨hmargin _ (List.head_mem hne), hmargin _ (List.getLast_mem hne)⟩

theorem readNat_toDigits {n : Nat} (h : (Nat.toDigits 10 n).length ≤ maxDigits) :
    readNat (Nat.toDigits 10 n) = .ok n := by
  have hnumeral : ∀ c ∈ Nat.toDigits 10 n, (isDigit c || c == '_') = true := fun c hc => by
    simp [isDigit_of_isDigit (isDigit_of_mem_toDigits hc)]
  have hgroups : (Nat.toDigits 10 n).splitOn '_' = [Nat.toDigits 10 n] :=
    List.splitOn_eq_singleton Nat.underscore_not_in_toDigits
  simp [readNat, List.takeWhile_eq_self_iff.2 hnumeral, List.dropWhile_eq_nil_iff.2 hnumeral,
    hgroups, Nat.not_lt.2 h, Nat.toDigits_ne_nil, natOfDigits_toDigits]

theorem readInt_printInt {x : Int} (h : digitCount x ≤ maxDigits) :
    readInt (printInt x) = .ok x := by
  rw [readInt, trimBy_printInt]
  cases x with
  | ofNat n =>
    have hsign : ∀ c ∈ printInt (.ofNat n), c ≠ '-' ∧ c ≠ '+' := fun c hc => by
      have hdigit : c.isDigit = true := isDigit_of_mem_toDigits hc
      constructor <;> rintro rfl <;> cases hdigit
    split
    · next rest heq => exact absurd rfl (hsign '-' (heq ▸ List.mem_cons_self)).1
    · next rest heq => exact absurd rfl (hsign '+' (heq ▸ List.mem_cons_self)).2
    · have hread : readNat (Nat.toDigits 10 n) = .ok n := readNat_toDigits h
      simp only [printInt, hread]
      rfl
  | negSucc n =>
    have hread : readNat (Nat.toDigits 10 (n + 1)) = .ok (n + 1) := readNat_toDigits h
    simp only [printInt, hread]
    rfl

theorem lt_of_readNat {cs : List Char} {n : Nat} (h : readNat cs = .ok n) : n < 10 ^ maxDigits := by
  simp only [readNat] at h
  generalize ((cs.takeWhile _).splitOn '_').flatten = digits at h
  split at h
  · cases h
  · split at h
    · cases h
    · next hlength =>
      split at h
      · cases h
        calc natOfDigits digits < 10 ^ digits.length := natOfDigits_lt digits
          _ ≤ 10 ^ maxDigits := Nat.pow_le_pow_right (by decide) (Nat.not_lt.1 hlength)
      · cases h

theorem map_natCast_eq_ok_iff {y : Except Misread Nat} {f : Int → Int} {x : Int} :
    (y >>= fun n => pure (n : Int)).map f = .ok x ↔ ∃ n : Nat, y = .ok n ∧ f n = x := by
  simp only [Except.map_eq_ok_iff, Except.bind_eq_ok_iff]
  constructor
  · rintro ⟨_, ⟨n, hn, ⟨⟩⟩, rfl⟩
    exact ⟨n, hn, rfl⟩
  · rintro ⟨n, hn, rfl⟩
    exact ⟨n, ⟨n, hn, rfl⟩, rfl⟩

/-- A number that is read has a sign only if it is written, and its size is that of a numeral. -/
theorem readInt_cases {cs : List Char} {x : Int} (h : readInt cs = .ok x) :
    ∃ rest n, readNat rest = .ok n ∧ (x = n ∨ '-' ∈ cs ∧ x = -n) := by
  unfold readInt at h
  split at h
  · next rest heq =>
    obtain ⟨n, hn, rfl⟩ := map_natCast_eq_ok_iff.1 h
    exact ⟨rest, n, hn, .inr ⟨mem_of_mem_trimBy (heq ▸ List.mem_cons_self), rfl⟩⟩
  · obtain ⟨n, hn, rfl⟩ := map_natCast_eq_ok_iff.1 h
    exact ⟨_, n, hn, .inl rfl⟩
  · obtain ⟨n, hn, rfl⟩ := map_natCast_eq_ok_iff.1 h
    exact ⟨_, n, hn, .inl rfl⟩

theorem digitCount_of_readInt {cs : List Char} {x : Int} (h : readInt cs = .ok x) :
    digitCount x ≤ maxDigits := by
  obtain ⟨rest, n, hn, hx⟩ := readInt_cases h
  have habs : x.natAbs = n := by
    rcases hx with rfl | ⟨-, rfl⟩ <;> simp
  rw [digitCount_le_iff (by decide), habs]
  exact lt_of_readNat hn

theorem readInt_nonneg {cs : List Char} {x : Int} (hcs : '-' ∉ cs) (h : readInt cs = .ok x) :
    0 ≤ x := by
  obtain ⟨rest, n, -, rfl | ⟨hsign, -⟩⟩ := readInt_cases h
  · exact Int.natCast_nonneg n
  · exact absurd hsign hcs

end WordMachine.Text
