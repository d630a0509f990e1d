import PathData.Proofs.Literals

namespace PathData
namespace Literal

open Text

-- A literal that opens a text, with what is left of it, and as long as such a literal can be.
structure Longest (l : Lexeme) (s rest : List Char) : Prop where
  valid : l.Valid
  text : s = l.text ++ rest
  longest : ∀ other : Lexeme, other.Valid → other.text <+: s → other.text.length ≤ l.text.length

theorem digits_after {cs : List Char} (all : AllDigits cs) (s : List Char) :
    digits (cs ++ s) = (values cs ++ (digits s).1, (digits s).2) := by
  induction cs with
  | nil => rfl
  | cons c cs ih =>
    obtain ⟨d, value⟩ := Option.isSome_iff_exists.mp (all c List.mem_cons_self)
    have more := ih fun c member => all c (List.mem_cons_of_mem _ member)
    simp [digits, values, value, more]

theorem digits_length (s : List Char) : (digits s).2.length ≤ s.length := by
  obtain ⟨cs, _, _, split⟩ := digits_sound s
  have length := congrArg List.length split
  rw [List.length_append] at length
  omega

theorem exponent_length (s : List Char) : (exponent s).2.length ≤ s.length := by
  obtain ⟨power, _, _, split⟩ := exponent_sound s
  have length := congrArg List.length split
  rw [List.length_append] at length
  omega

theorem exponent_takes {power : Option Power}
    (valid : ∀ p ∈ power, (p.mark = 'e' ∨ p.mark = 'E') ∧ AllDigits p.digits ∧ p.digits ≠ [])
    (s : List Char) : (exponent (Power.text power ++ s)).2.length ≤ s.length := by
  cases power with
  | none => exact exponent_length s
  | some p =>
    obtain ⟨mark, all, nonempty⟩ := valid p rfl
    have unsigned : ∀ c ∈ (p.digits ++ s).head?, c ≠ '-' ∧ c ≠ '+' :=
      unsigned_of_digits all nonempty
    have sign := signed_text p.sign unsigned
    have read := digits_after all s
    have someValues := values_ne_nil nonempty
    simp only [Power.text, exponent, List.cons_append, List.append_assoc, mark, sign, read, if_true]
    split
    · rename_i none
      simp [someValues] at none
    · rename_i same
      cases same
      exact digits_length s

theorem values_cons {cs : List Char} (nonempty : cs ≠ []) (more : List Nat) :
    ∃ d ds, values cs ++ more = d :: ds :=
  List.exists_cons_of_ne_nil (List.append_ne_nil_of_left_ne_nil (values_ne_nil nonempty) more)

theorem mantissa_takes {whole : List Char} {fraction : Option (List Char)}
    (wholeDigits : AllDigits whole) (fractionDigits : ∀ f ∈ fraction, AllDigits f)
    (nonempty : whole ≠ [] ∨ ∃ f ∈ fraction, f ≠ []) (s : List Char) :
    ∃ w f rest, mantissa (whole ++ (Lexeme.fractionText fraction ++ s)) = some (w, f, rest) ∧
      rest.length ≤ s.length := by
  have read := digits_after wholeDigits
  cases fraction with
  | none =>
    have nonempty : whole ≠ [] := by simpa using nonempty
    obtain ⟨d, ds, some⟩ := values_cons nonempty (digits s).1
    have shorter := digits_length s
    simp only [Lexeme.fractionText, List.nil_append, mantissa, read, some]
    split
    · rename_i same
      cases same
    · rename_i same
      cases same
    · rename_i rest _ same
      have further := digits_length rest
      rw [(Prod.mk.inj same).2, List.length_cons] at shorter
      exact ⟨_, _, _, rfl, by omega⟩
    · rename_i same
      rw [(Prod.mk.inj same).2] at shorter
      exact ⟨_, _, _, rfl, shorter⟩
  | some f =>
    have stops : digits ('.' :: (f ++ s)) = ([], '.' :: (f ++ s)) := by
      simp [digits, digitValue_point]
    have inner := digits_after (fractionDigits f rfl) s
    simp only [Lexeme.fractionText, List.cons_append, mantissa, read, stops, List.append_nil]
    cases whole with
    | nil =>
      obtain ⟨d, ds, some⟩ := values_cons (by simpa using nonempty : f ≠ []) (digits s).1
      rw [some] at inner
      simp only [values, List.map_nil, inner]
      exact ⟨_, _, _, rfl, digits_length s⟩
    | cons c cs =>
      simp only [values, List.map_cons]
      exact ⟨_, _, _, rfl, by rw [inner]; exact digits_length s⟩

theorem scan_takes {l : Lexeme} (valid : l.Valid) (s : List Char) :
    ∃ d rest, scan (l.text ++ s) = some (d, rest) ∧ rest.length ≤ s.length := by
  have sign := signed_text l.sign (unsigned_text valid s)
  have scanned {w f : List Nat} {tail : List Char}
      (mantissa : mantissa (l.whole ++ (Lexeme.fractionText l.fraction ++
        (Power.text l.power ++ s))) = some (w, f, tail)) :
      ∃ d, scan (l.text ++ s) = some (d, (exponent tail).2) := by
    simp only [scan, Lexeme.text, List.append_assoc, sign, mantissa, Option.bind_eq_bind,
      Option.bind_some]
    exact ⟨_, rfl⟩
  cases power : l.power with
  | none =>
    obtain ⟨w, f, tail, mantissa, shorter⟩ :=
      mantissa_takes valid.whole valid.fraction valid.nonempty (Power.text l.power ++ s)
    obtain ⟨d, whole⟩ := scanned mantissa
    rw [power] at shorter
    exact ⟨d, _, whole, Nat.le_trans (exponent_length tail) shorter⟩
  | some p =>
    -- The mark of the exponent stops the digits before it.
    have stops : ∀ c ∈ (Power.text l.power ++ s).head?,
        digitValue? c = none ∧ (l.fraction = none → c ≠ '.') := by
      intro c member
      have same : p.mark = c := by simpa [power, Power.text] using member
      have stops := same ▸ mark_stops valid power
      exact ⟨stops.1, fun _ => stops.2⟩
    obtain ⟨d, whole⟩ :=
      scanned (mantissa_text valid.whole valid.fraction valid.nonempty stops)
    exact ⟨d, _, whole, exponent_takes valid.power s⟩

theorem decimal_of_text {l other : Lexeme} (valid : l.Valid) (valid' : other.Valid)
    (same : l.text = other.text) : l.decimal = other.decimal := by
  have read {l : Lexeme} (valid : l.Valid) : scan l.text = some (l.decimal, []) := by
    have ends : l.Ends [] := nofun
    simpa using scan_text valid ends
  have both := read valid
  rw [same, read valid'] at both
  exact (congrArg Prod.fst (Option.some.inj both)).symm

-- By length: the scan reaches the end of every literal, and what it takes is one.
theorem scan_iff_longest {s rest : List Char} {d : Decimal} :
    scan s = some (d, rest) ↔ ∃ l, Longest l s rest ∧ l.decimal = d := by
  constructor
  · intro scanned
    obtain ⟨l, valid, decimal, text⟩ := scan_sound scanned
    refine ⟨l, ⟨valid, text, ?_⟩, decimal⟩
    rintro other valid' ⟨left, rfl⟩
    obtain ⟨d', rest', again, shorter⟩ := scan_takes valid' left
    cases scanned.symm.trans again
    have length := congrArg List.length text
    rw [List.length_append, List.length_append] at length
    omega
  · rintro ⟨l, ⟨valid, rfl, longest⟩, rfl⟩
    obtain ⟨d, rest', scanned, shorter⟩ := scan_takes valid rest
    obtain ⟨l', valid', rfl, split⟩ := scan_sound scanned
    have most := longest l' valid' ⟨rest', split.symm⟩
    have length := congrArg List.length split
    rw [List.length_append, List.length_append] at length
    obtain ⟨text, rfl⟩ := List.append_inj split (by omega)
    rw [scanned, decimal_of_text valid valid' text]

theorem Longest.scan {l : Lexeme} {s rest : List Char} (longest : Longest l s rest) :
    Literal.scan s = some (l.decimal, rest) :=
  scan_iff_longest.2 ⟨l, longest, rfl⟩

theorem longest_of_ends {l : Lexeme} (valid : l.Valid) {rest : List Char} (ends : l.Ends rest) :
    Longest l (l.text ++ rest) rest := by
  refine ⟨valid, rfl, ?_⟩
  rintro other valid' ⟨left, split⟩
  obtain ⟨d, rest', again, shorter⟩ := scan_takes valid' left
  rw [split] at again
  cases (scan_text valid ends).symm.trans again
  have length := congrArg List.length split
  rw [List.length_append, List.length_append] at length
  omega

theorem allDigits_snoc {cs : List Char} {c : Char} (all : AllDigits cs)
    (isDigit : (digitValue? c).isSome) : AllDigits (cs ++ [c]) :=
  allDigits_append all fun _ member => List.mem_singleton.mp member ▸ isDigit

theorem exists_digit_after {l : Lexeme} (valid : l.Valid) {c : Char}
    (isDigit : (digitValue? c).isSome) :
    ∃ other : Lexeme, other.Valid ∧ other.text = l.text ++ [c] := by
  obtain ⟨sign, whole, fraction, power⟩ := l
  obtain ⟨wholeDigits, fractionDigits, nonempty, powers⟩ := valid
  cases power with
  | some p =>
    obtain ⟨mark, all, _⟩ := powers p rfl
    refine ⟨⟨sign, whole, fraction, some { p with digits := p.digits ++ [c] }⟩,
      ⟨wholeDigits, fractionDigits, nonempty, ?_⟩, by simp [Lexeme.text, Power.text]⟩
    rintro q ⟨⟩
    exact ⟨mark, allDigits_snoc all isDigit, by simp⟩
  | none =>
    cases fraction with
    | some f =>
      refine ⟨⟨sign, whole, some (f ++ [c]), none⟩,
        ⟨wholeDigits, ?_, .inr ⟨_, rfl, by simp⟩, powers⟩,
        by simp [Lexeme.text, Lexeme.fractionText, Power.text]⟩
      rintro g ⟨⟩
      exact allDigits_snoc (fractionDigits f rfl) isDigit
    | none =>
      exact ⟨⟨sign, whole ++ [c], none, none⟩,
        ⟨allDigits_snoc wholeDigits isDigit, fractionDigits, .inl (by simp), powers⟩,
        by simp [Lexeme.text, Lexeme.fractionText, Power.text]⟩

theorem exists_point_after {l : Lexeme} (valid : l.Valid) (power : l.power = none)
    (fraction : l.fraction = none) :
    ∃ other : Lexeme, other.Valid ∧ other.text = l.text ++ ['.'] := by
  have whole : l.whole ≠ [] := by simpa [fraction] using valid.nonempty
  refine ⟨⟨l.sign, l.whole, some [], none⟩, ⟨valid.whole, ?_, .inl whole, nofun⟩, ?_⟩
  · rintro f ⟨⟩
    exact nofun
  · simp [Lexeme.text, Lexeme.fractionText, Power.text, power, fraction]

theorem Longest.stops {l : Lexeme} {s rest : List Char} (longest : Longest l s rest) :
    ∀ c ∈ rest.head?, digitValue? c = none ∧ (l.power = none → l.fraction = none → c ≠ '.') := by
  intro c first
  obtain ⟨tail, rfl⟩ := List.head?_eq_some_iff.mp first
  have notLonger : ¬ ∃ other : Lexeme, other.Valid ∧ other.text = l.text ++ [c] := by
    rintro ⟨other, valid, text⟩
    have fits := longest.longest other valid ⟨tail, by simp [text, longest.text]⟩
    rw [text, List.length_append, List.length_singleton] at fits
    omega
  refine ⟨?_, ?_⟩
  · cases value : digitValue? c with
    | none => rfl
    | some d => exact absurd (exists_digit_after longest.valid (by simp [value])) notLonger
  · rintro power fraction rfl
    exact notLonger (exists_point_after longest.valid power fraction)

end Literal
end PathData
