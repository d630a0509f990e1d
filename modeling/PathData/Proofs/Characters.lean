import Mathlib
import PathData.Path.Parser
import PathData.Proofs.Literals

namespace PathData
namespace Parser

open Text

def OpensNumber (c : Char) : Prop :=
  c = '-' ∨ c = '+' ∨ c = '.' ∨ (digitValue? c).isSome

theorem digit_range {c : Char} (isDigit : (digitValue? c).isSome) :
    ∃ first ∈ zeros, first ≤ c.toNat ∧ c.toNat ≤ first + 9 := by
  simp only [digitValue?, Option.isSome_map] at isDigit
  obtain ⟨first, member, inRange⟩ := List.find?_isSome.mp isDigit
  exact ⟨first, member, by simpa using inRange⟩

theorem blank_range {c : Char} (blank : isBlank c = true) :
    ∃ range ∈ blankRanges, range.1 ≤ c.toNat ∧ c.toNat ≤ range.2 := by
  simpa [isBlank] using blank

theorem digit_not_blank {c : Char} (isDigit : (digitValue? c).isSome) : isBlank c = false := by
  have apart : ∀ first ∈ zeros, ∀ range ∈ blankRanges, first + 9 < range.1 ∨ range.2 < first := by
    decide +kernel
  cases blank : isBlank c with
  | false => rfl
  | true =>
    obtain ⟨first, isZero, low, high⟩ := digit_range isDigit
    obtain ⟨range, isRange, opening, closing⟩ := blank_range blank
    rcases apart first isZero range isRange with below | above <;> omega

theorem opens_not_separator {c : Char} (opens : OpensNumber c) : isSeparator c = false := by
  rcases opens with rfl | rfl | rfl | isDigit
  · decide
  · decide
  · decide
  · have notComma : c ≠ ',' := by
      rintro rfl
      exact absurd isDigit (by decide)
    simp [isSeparator, digit_not_blank isDigit, notComma]

-- The letters are read in both cases, and one more character stands for a small s.
def letters : List Char :=
  ['M', 'm', 'L', 'l', 'H', 'h', 'V', 'v', 'C', 'c', 'S', 's', 'Q', 'q', 'T', 't', 'A', 'a', 'Z',
   'z', 'ſ']

theorem toUpper_of_large {c : Char} (large : 128 ≤ c.toNat) : c.toUpper = c := by
  have notSmall : ¬ (97 ≤ c.toNat ∧ c.toNat ≤ 122) := by omega
  simp only [Char.toUpper, UInt32.le_iff_toNat_le]
  exact dif_neg notSmall

theorem letter_mem {c : Char} (letter : (Kind.read? c).isSome) : c ∈ letters := by
  by_cases long : c = 'ſ'
  · simp [letters, long]
  · by_cases large : 128 ≤ c.toNat
    · simp only [Kind.read?, long, if_false, toUpper_of_large large, Option.isSome_map,
        Kind.ofLetter?] at letter
      obtain ⟨k, _, same⟩ := List.find?_isSome.mp letter
      have same : k.letter = c := by simpa using same
      have small : ∀ k : Kind, k.letter.toNat < 128 := by intro k; cases k <;> decide
      have bound := same ▸ small k
      omega
    · have ascii : ∀ n < 128, (Kind.read? (Char.ofNat n)).isSome → Char.ofNat n ∈ letters := by
        decide +kernel
      have found := ascii c.toNat (by omega)
      rw [Char.ofNat_toNat] at found
      exact found letter

theorem letters_apart {c : Char} (member : c ∈ letters) :
    (c ≠ '-' ∧ c ≠ '+' ∧ c ≠ '.') ∧ (c ≠ 'e' ∧ c ≠ 'E') ∧ digitValue? c = none ∧
      isSeparator c = false := by
  have all : letters.all (fun c => decide ((c ≠ '-' ∧ c ≠ '+' ∧ c ≠ '.') ∧ (c ≠ 'e' ∧ c ≠ 'E') ∧
      digitValue? c = none ∧ isSeparator c = false)) = true := by
    decide +kernel
  exact of_decide_eq_true (List.all_eq_true.1 all c member)

theorem opens_not_letter {c : Char} (opens : OpensNumber c) : Kind.read? c = none := by
  cases isLetter : Kind.read? c with
  | none => rfl
  | some found =>
    have letter : (Kind.read? c).isSome = true := by rw [isLetter]; rfl
    obtain ⟨⟨notMinus, notPlus, notPoint⟩, _, notDigit, _⟩ := letters_apart (letter_mem letter)
    rcases opens with minus | plus | point | isDigit
    · exact absurd minus notMinus
    · exact absurd plus notPlus
    · exact absurd point notPoint
    · simp [notDigit] at isDigit

theorem letter_not_separator {c : Char} (letter : (Kind.read? c).isSome) : isSeparator c = false :=
  (letters_apart (letter_mem letter)).2.2.2

theorem letter_ends {c : Char} (letter : (Kind.read? c).isSome) :
    digitValue? c = none ∧ c ≠ 'e' ∧ c ≠ 'E' ∧ c ≠ '.' := by
  obtain ⟨⟨_, _, notPoint⟩, ⟨notSmall, notLarge⟩, notDigit, _⟩ := letters_apart (letter_mem letter)
  exact ⟨notDigit, notSmall, notLarge, notPoint⟩

theorem lexeme_opens {l : Literal.Lexeme} (valid : l.Valid) :
    ∃ c rest, l.text = c :: rest ∧ OpensNumber c := by
  obtain ⟨sign, whole, fraction, power⟩ := l
  cases sign with
  | minus => exact ⟨'-', _, rfl, .inl rfl⟩
  | plus => exact ⟨'+', _, rfl, .inr (.inl rfl)⟩
  | bare =>
    cases whole with
    | cons c cs => exact ⟨c, _, rfl, .inr (.inr (.inr (valid.whole c List.mem_cons_self)))⟩
    | nil =>
      cases fraction with
      | some f => exact ⟨'.', _, rfl, .inr (.inr (.inl rfl))⟩
      | none => exact absurd valid.nonempty (by simp)

theorem scan_opens {s rest : List Char} {d : Decimal} (scanned : Literal.scan s = some (d, rest)) :
    ∃ c tail, s = c :: tail ∧ OpensNumber c ∧ rest.length ≤ tail.length := by
  obtain ⟨l, valid, _, split⟩ := Literal.scan_sound scanned
  obtain ⟨c, tail, text, opens⟩ := lexeme_opens valid
  refine ⟨c, tail ++ rest, by rw [split, text]; rfl, opens, by simp⟩

end Parser
end PathData
