import PathData.Number.Layout
import PathData.Proofs.Literals

namespace PathData
namespace Layout

open Decimal Literal

def signedExponent (n : Int) : List Char :=
  'e' :: (if n < 0 then '-' else '+') :: digitChars n.natAbs

-- What a decimal is written as before anything is dropped.
def fullTexts (d : Decimal) : List (List Char) :=
  [sign d.negative ++ positional ['0'] d.digits d.exponent,
   sign d.negative ++ scientific signedExponent d.digits d.exponent]

def signOf (negative : Bool) : Sign :=
  if negative then .minus else .bare

theorem sign_text (negative : Bool) : sign negative = (signOf negative).text := by
  cases negative <;> rfl

theorem digitValue_ascii {c : Char} (isDigit : c.isDigit = true) : (Text.digitValue? c).isSome := by
  have range : 48 ≤ c.toNat ∧ c.toNat ≤ 57 := Char.isDigit_iff_toNat.mp isDigit
  simp [Text.digitValue?, Text.zeros, range.1, range.2]

theorem digitChars_ascii {c : Char} {n : Nat} (member : c ∈ digitChars n) : c.isDigit = true :=
  Nat.isDigit_of_mem_toDigits (by decide) (by decide) member

theorem digitChars_all (n : Nat) : AllDigits (digitChars n) :=
  fun _ member => digitValue_ascii (digitChars_ascii member)

theorem digitChars_ne_nil (n : Nat) : digitChars n ≠ [] :=
  Nat.toDigits_ne_nil

theorem zeros_all (count : Int) : AllDigits (zeros count) := by
  intro c member
  have same : c = '0' := List.eq_of_mem_replicate member
  subst same
  decide

def positionalParts (whole : List Char) (digits : Nat) (exponent : Int) :
    List Char × Option (List Char) :=
  let ds := digitChars digits
  let point := (ds.length : Int) + exponent
  if 0 ≤ exponent then (ds ++ zeros exponent, none)
  else if 0 < point then (ds.take point.toNat, some (ds.drop point.toNat))
  else (whole, some (zeros (-point) ++ ds))

def leadingParts : List Char → List Char × Option (List Char)
  | d :: e :: rest => ([d], some (e :: rest))
  | ds => (ds, none)

def powerOf (sign : Bool → Sign) (n : Int) : Power :=
  ⟨'e', sign (decide (n < 0)), digitChars n.natAbs⟩

def alwaysSigned (negative : Bool) : Sign :=
  if negative then .minus else .plus

def positionalLexeme (whole : List Char) (d : Decimal) : Lexeme :=
  let parts := positionalParts whole d.digits d.exponent
  ⟨signOf d.negative, parts.1, parts.2, none⟩

def scientificLexeme (sign : Bool → Sign) (d : Decimal) : Lexeme :=
  let parts := leadingParts (digitChars d.digits)
  ⟨signOf d.negative, parts.1, parts.2, some (powerOf sign (leadingExponent d.digits d.exponent))⟩

theorem positional_text (whole : List Char) (d : Decimal) :
    (positionalLexeme whole d).text = sign d.negative ++ positional whole d.digits d.exponent := by
  simp only [Lexeme.text, positionalLexeme, positionalParts, positional, sign_text, Power.text]
  split
  · simp [Lexeme.fractionText]
  · split <;> simp [Lexeme.fractionText]

theorem leading_text (ds : List Char) :
    (leadingParts ds).1 ++ Lexeme.fractionText (leadingParts ds).2 = leading ds := by
  unfold leadingParts leading
  split <;> simp_all [Lexeme.fractionText]

theorem compactExponent_text (n : Int) :
    compactExponent n = Power.text (some (powerOf signOf n)) := by
  simp only [compactExponent, Power.text, powerOf, sign_text, List.cons_append]

theorem signedExponent_text (n : Int) :
    signedExponent n = Power.text (some (powerOf alwaysSigned n)) := by
  by_cases negative : n < 0 <;>
    simp [signedExponent, Power.text, powerOf, alwaysSigned, Sign.text, negative]

theorem scientific_text {sign : Bool → Sign} {written : Int → List Char}
    (same : ∀ n, written n = Power.text (some (powerOf sign n))) (d : Decimal) :
    (scientificLexeme sign d).text =
      Layout.sign d.negative ++ scientific written d.digits d.exponent := by
  simp only [Lexeme.text, scientificLexeme, scientific, same, ← leading_text, sign_text,
    List.append_assoc]

theorem positional_valid {whole : List Char} (all : AllDigits whole) (d : Decimal) :
    (positionalLexeme whole d).Valid := by
  have ds := digitChars_all d.digits
  have some := digitChars_ne_nil d.digits
  have length := List.length_pos_iff.mpr some
  simp only [positionalLexeme, positionalParts]
  refine ⟨?_, ?_, ?_, by simp⟩
  · split
    · exact allDigits_append ds (zeros_all _)
    · split
      · exact fun c member => ds c (List.mem_of_mem_take member)
      · exact all
  · split
    · simp
    · split
      · rintro f ⟨⟩; exact fun c member => ds c (List.mem_of_mem_drop member)
      · rintro f ⟨⟩; exact allDigits_append (zeros_all _) ds
  · split
    · simp [some]
    · split
      · refine .inl ?_
        simp only [ne_eq, List.take_eq_nil_iff, not_or]
        exact ⟨by omega, some⟩
      · exact .inr ⟨_, rfl, by simp [some]⟩

theorem leading_valid (ds : List Char) (all : AllDigits ds) (some : ds ≠ []) :
    AllDigits (leadingParts ds).1 ∧ (∀ f ∈ (leadingParts ds).2, AllDigits f) ∧
      (leadingParts ds).1 ≠ [] := by
  match ds with
  | [] => exact absurd rfl some
  | [d] => exact ⟨all, by simp [leadingParts], by simp [leadingParts]⟩
  | d :: e :: rest =>
    refine ⟨?_, ?_, by simp [leadingParts]⟩
    · intro c member
      have same : c = d := by simpa [leadingParts] using member
      exact same ▸ all d List.mem_cons_self
    · rintro f ⟨⟩
      exact fun c member => all c (List.mem_cons_of_mem _ member)

theorem scientific_valid (sign : Bool → Sign) (d : Decimal) : (scientificLexeme sign d).Valid := by
  obtain ⟨first, others, some⟩ :=
    leading_valid (digitChars d.digits) (digitChars_all _) (digitChars_ne_nil _)
  refine ⟨first, others, .inl some, ?_⟩
  rintro p ⟨⟩
  exact ⟨.inl rfl, digitChars_all _, digitChars_ne_nil _⟩

theorem ofDigits_zero (cs : List Char) :
    Text.ofDigits (values ('0' :: cs)) = Text.ofDigits (values cs) := by
  have zero : (Text.digitValue? '0').getD 0 = 0 := by decide
  simp only [values, List.map_cons, zero]
  rfl

theorem positional_decimal (d : Decimal) :
    (positionalLexeme ['0'] d).decimal = (positionalLexeme [] d).decimal := by
  simp only [Lexeme.decimal, positionalLexeme, positionalParts]
  split
  · rfl
  · split
    · rfl
    · simp only [Option.getD_some, List.singleton_append, List.nil_append, ofDigits_zero]

theorem power_value (n : Int) :
    Power.value (some (powerOf alwaysSigned n)) = Power.value (some (powerOf signOf n)) := by
  by_cases negative : n < 0 <;>
    simp [Power.value, powerOf, alwaysSigned, signOf, negative, Sign.negative]

theorem scientific_decimal (d : Decimal) :
    (scientificLexeme alwaysSigned d).decimal = (scientificLexeme signOf d).decimal := by
  simp only [Lexeme.decimal, scientificLexeme, power_value]

theorem scan_whole {l : Lexeme} (valid : l.Valid) : scan l.text = some (l.decimal, []) := by
  have ends : l.Ends [] := by
    intro c member
    cases member
  have read := scan_text valid ends
  rwa [List.append_nil] at read

theorem compact_literal {d : Decimal} (nonzero : d.digits ≠ 0) :
    ∃ l : Lexeme, l.Valid ∧ l.text = compact (.finite d) ∧
      ∃ text ∈ fullTexts d, scan text = some (l.decimal, []) := by
  simp only [compact, nonzero, if_false]
  split
  · refine ⟨scientificLexeme signOf d, scientific_valid _ d,
      scientific_text compactExponent_text d, _, List.mem_cons_of_mem _ List.mem_cons_self, ?_⟩
    have read := scan_whole (scientific_valid alwaysSigned d)
    rwa [scientific_text signedExponent_text, scientific_decimal] at read
  · refine ⟨positionalLexeme [] d, positional_valid (by simp [AllDigits]) d, positional_text [] d,
      _, List.mem_cons_self, ?_⟩
    have read := scan_whole (positional_valid allDigits_zero d)
    rwa [positional_text, positional_decimal] at read

end Layout
end PathData
