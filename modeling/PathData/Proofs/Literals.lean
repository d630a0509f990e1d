import PathData.Number.Literal

namespace PathData
namespace Literal

open Text

def AllDigits (cs : List Char) : Prop :=
  ∀ c ∈ cs, (digitValue? c).isSome

def values (cs : List Char) : List Nat :=
  cs.map fun c => (digitValue? c).getD 0

inductive Sign where
  | bare
  | plus
  | minus
  deriving DecidableEq, Repr

namespace Sign

def text : Sign → List Char
  | .bare => []
  | .plus => ['+']
  | .minus => ['-']

def negative : Sign → Bool
  | .minus => true
  | _ => false

end Sign

structure Power where
  mark : Char
  sign : Sign
  digits : List Char

-- A literal by its parts. A point is there exactly when there is a fraction, which may be empty.
structure Lexeme where
  sign : Sign
  whole : List Char
  fraction : Option (List Char)
  power : Option Power

namespace Power

def text : Option Power → List Char
  | none => []
  | some p => p.mark :: (p.sign.text ++ p.digits)

def value : Option Power → Int
  | none => 0
  | some p =>
    if p.sign.negative then -(ofDigits (values p.digits) : Int) else ofDigits (values p.digits)

end Power

namespace Lexeme

def fractionText : Option (List Char) → List Char
  | none => []
  | some f => '.' :: f

def text (l : Lexeme) : List Char :=
  l.sign.text ++ (l.whole ++ (fractionText l.fraction ++ Power.text l.power))

def decimal (l : Lexeme) : Decimal :=
  ⟨l.sign.negative, ofDigits (values (l.whole ++ l.fraction.getD [])),
    Power.value l.power - (l.fraction.getD []).length⟩

structure Valid (l : Lexeme) : Prop where
  whole : AllDigits l.whole
  fraction : ∀ f ∈ l.fraction, AllDigits f
  nonempty : l.whole ≠ [] ∨ ∃ f ∈ l.fraction, f ≠ []
  power : ∀ p ∈ l.power, (p.mark = 'e' ∨ p.mark = 'E') ∧ AllDigits p.digits ∧ p.digits ≠ []

-- What stands after a literal without becoming part of it.
def Ends (l : Lexeme) (rest : List Char) : Prop :=
  ∀ c ∈ rest.head?, digitValue? c = none ∧
    (l.power = none → c ≠ 'e' ∧ c ≠ 'E' ∧ (l.fraction = none → c ≠ '.'))

end Lexeme

theorem allDigits_append {a b : List Char} (left : AllDigits a) (right : AllDigits b) :
    AllDigits (a ++ b) := by
  intro c member
  rcases List.mem_append.mp member with inLeft | inRight
  · exact left c inLeft
  · exact right c inRight

theorem allDigits_zero : AllDigits ['0'] :=
  List.forall_mem_singleton.mpr (by decide)

def Lexeme.zero : Lexeme :=
  ⟨.bare, ['0'], none, none⟩

theorem Lexeme.zero_valid : Lexeme.zero.Valid :=
  ⟨allDigits_zero, nofun, .inl (List.cons_ne_nil _ _), nofun⟩

theorem values_append (a b : List Char) : values (a ++ b) = values a ++ values b :=
  List.map_append

theorem digits_append {cs rest : List Char} (all : AllDigits cs)
    (stops : ∀ c ∈ rest.head?, digitValue? c = none) : digits (cs ++ rest) = (values cs, rest) := by
  induction cs with
  | nil =>
    cases rest with
    | nil => rfl
    | cons c rest => simp [digits, values, stops c rfl]
  | cons c cs ih =>
    obtain ⟨d, value⟩ := Option.isSome_iff_exists.mp (all c List.mem_cons_self)
    have more := ih fun c member => all c (List.mem_cons_of_mem _ member)
    simp [digits, values, value, more]

theorem values_ne_nil {cs : List Char} (nonempty : cs ≠ []) : values cs ≠ [] := by
  simpa [values] using nonempty

theorem digitValue_sign : digitValue? '-' = none ∧ digitValue? '+' = none := by decide

theorem digitValue_point : digitValue? '.' = none := by decide

theorem digitValue_mark : digitValue? 'e' = none ∧ digitValue? 'E' = none := by decide

theorem signed_text (sign : Sign) {s : List Char} (unsigned : ∀ c ∈ s.head?, c ≠ '-' ∧ c ≠ '+') :
    signed (sign.text ++ s) = (sign.negative, s) := by
  cases sign with
  | plus => rfl
  | minus => rfl
  | bare =>
    cases s with
    | nil => rfl
    | cons c s =>
      obtain ⟨notMinus, notPlus⟩ := unsigned c rfl
      simp only [Sign.text, Sign.negative, List.nil_append]
      unfold signed
      split <;> simp_all

theorem unsigned_of_digits {cs rest : List Char} (all : AllDigits cs) (nonempty : cs ≠ []) :
    ∀ c ∈ (cs ++ rest).head?, c ≠ '-' ∧ c ≠ '+' := by
  cases cs with
  | nil => exact absurd rfl nonempty
  | cons d cs =>
    intro c member
    have same : d = c := by simpa using member
    subst same
    have isDigit := all d List.mem_cons_self
    constructor
    · rintro rfl; simp [digitValue_sign.1] at isDigit
    · rintro rfl; simp [digitValue_sign.2] at isDigit

theorem exponent_text {power : Option Power} {rest : List Char}
    (valid : ∀ p ∈ power, (p.mark = 'e' ∨ p.mark = 'E') ∧ AllDigits p.digits ∧ p.digits ≠ [])
    (ends : ∀ c ∈ rest.head?, digitValue? c = none ∧ (power = none → c ≠ 'e' ∧ c ≠ 'E')) :
    exponent (Power.text power ++ rest) = (Power.value power, rest) := by
  cases power with
  | none =>
    cases rest with
    | nil => rfl
    | cons c rest =>
      obtain ⟨notSmall, notLarge⟩ := (ends c rfl).2 rfl
      simp [Power.text, Power.value, exponent, notSmall, notLarge]
  | some p =>
    obtain ⟨mark, all, nonempty⟩ := valid p rfl
    have unsigned : ∀ c ∈ (p.digits ++ rest).head?, c ≠ '-' ∧ c ≠ '+' :=
      unsigned_of_digits all nonempty
    have sign := signed_text p.sign unsigned
    have read := digits_append all fun c member => (ends c member).1
    simp only [Power.text, Power.value, exponent, List.cons_append, List.append_assoc, mark, sign,
      read, if_true]
    have someValues := values_ne_nil nonempty
    split
    · rename_i none
      exact absurd (congrArg Prod.fst none) someValues
    · rename_i same
      cases same
      rfl

theorem mantissa_text {whole : List Char} {fraction : Option (List Char)} {rest : List Char}
    (wholeDigits : AllDigits whole) (fractionDigits : ∀ f ∈ fraction, AllDigits f)
    (nonempty : whole ≠ [] ∨ ∃ f ∈ fraction, f ≠ [])
    (ends : ∀ c ∈ rest.head?, digitValue? c = none ∧ (fraction = none → c ≠ '.')) :
    mantissa (whole ++ (Lexeme.fractionText fraction ++ rest)) =
      some (values whole, values (fraction.getD []), rest) := by
  have stops : ∀ c ∈ rest.head?, digitValue? c = none := fun c member => (ends c member).1
  cases fraction with
  | none =>
    have nonempty : whole ≠ [] := by simpa using nonempty
    have read := digits_append wholeDigits stops
    have someValues := values_ne_nil nonempty
    simp only [Lexeme.fractionText, List.nil_append, mantissa, read]
    split
    · rename_i none; exact absurd (congrArg Prod.fst none) someValues
    · rename_i none; exact absurd (congrArg Prod.fst none) someValues
    · rename_i same
      cases same
      exact absurd rfl ((ends '.' rfl).2 rfl)
    · rename_i same
      cases same
      rfl
  | some f =>
    have pointStops : ∀ c ∈ ('.' :: (f ++ rest)).head?, digitValue? c = none := by
      intro c member
      have same : '.' = c := by simpa using member
      exact same ▸ digitValue_point
    have more := digits_append (fractionDigits f rfl) stops
    simp only [Lexeme.fractionText, List.cons_append, mantissa, Option.getD_some]
    cases whole with
    | nil =>
      have someValues : values f ≠ [] := values_ne_nil (by simpa using nonempty)
      have read := digits_append wholeDigits pointStops
      simp only [values, List.map_nil] at read
      simp only [read, more]
      rfl
    | cons c cs =>
      have read := digits_append wholeDigits pointStops
      simp only [values, List.map_cons] at read
      simp only [read, more]
      rfl

theorem unsigned_text {l : Lexeme} (valid : l.Valid) (rest : List Char) :
    ∀ c ∈ (l.whole ++ (Lexeme.fractionText l.fraction ++ (Power.text l.power ++ rest))).head?,
      c ≠ '-' ∧ c ≠ '+' := by
  by_cases none : l.whole = []
  · obtain ⟨f, isFraction, _⟩ := valid.nonempty.resolve_left (not_not_intro none)
    have point : l.fraction = some f := isFraction
    simp [none, point, Lexeme.fractionText]
  · exact unsigned_of_digits valid.whole none

theorem mark_stops {l : Lexeme} (valid : l.Valid) {p : Power} (power : l.power = some p) :
    digitValue? p.mark = none ∧ p.mark ≠ '.' := by
  rcases (valid.power p power).1 with small | large
  · rw [small]
    exact ⟨digitValue_mark.1, by decide⟩
  · rw [large]
    exact ⟨digitValue_mark.2, by decide⟩

theorem scan_text {l : Lexeme} (valid : l.Valid) {rest : List Char} (ends : l.Ends rest) :
    scan (l.text ++ rest) = some (l.decimal, rest) := by
  have unsigned := unsigned_text valid rest
  have sign := signed_text l.sign unsigned
  have power : exponent (Power.text l.power ++ rest) = (Power.value l.power, rest) :=
    exponent_text valid.power fun c member =>
      ⟨(ends c member).1, fun none => ⟨((ends c member).2 none).1, ((ends c member).2 none).2.1⟩⟩
  have afterDigits : ∀ c ∈ (Power.text l.power ++ rest).head?,
      digitValue? c = none ∧ (l.fraction = none → c ≠ '.') := by
    intro c member
    cases isPower : l.power with
    | none =>
      simp only [isPower, Power.text, List.nil_append] at member
      exact ⟨(ends c member).1, ((ends c member).2 isPower).2.2⟩
    | some p =>
      have same : p.mark = c := by simpa [isPower, Power.text] using member
      have stops := same ▸ mark_stops valid isPower
      exact ⟨stops.1, fun _ => stops.2⟩
  have digits : mantissa (l.whole ++ (Lexeme.fractionText l.fraction ++
      (Power.text l.power ++ rest))) =
      some (values l.whole, values (l.fraction.getD []), Power.text l.power ++ rest) :=
    mantissa_text valid.whole valid.fraction valid.nonempty afterDigits
  simp only [scan, Lexeme.text, List.append_assoc, sign, digits, power, Option.bind_eq_bind,
    Option.bind_some, Lexeme.decimal, values_append]
  simp [values]

theorem digits_sound (s : List Char) :
    ∃ cs, AllDigits cs ∧ (digits s).1 = values cs ∧ s = cs ++ (digits s).2 := by
  induction s with
  | nil => exact ⟨[], by simp [AllDigits], rfl, rfl⟩
  | cons c s ih =>
    cases value : digitValue? c with
    | none =>
      refine ⟨[], by simp [AllDigits], ?_, ?_⟩
      · simp [digits, value, values]
      · simp [digits, value]
    | some d =>
      obtain ⟨cs, all, same, split⟩ := ih
      refine ⟨c :: cs, ?_, by simp [digits, value, values, same], by simp [digits, value, ← split]⟩
      intro a member
      rcases List.mem_cons.mp member with rfl | later
      · simp [value]
      · exact all a later

theorem signed_sound (s : List Char) :
    ∃ sign : Sign, (signed s).1 = sign.negative ∧ s = sign.text ++ (signed s).2 := by
  unfold signed
  split
  · exact ⟨.minus, rfl, rfl⟩
  · exact ⟨.plus, rfl, rfl⟩
  · exact ⟨.bare, rfl, rfl⟩

theorem exponent_sound (s : List Char) :
    ∃ power : Option Power,
      (∀ p ∈ power, (p.mark = 'e' ∨ p.mark = 'E') ∧ AllDigits p.digits ∧ p.digits ≠ []) ∧
      (exponent s).1 = Power.value power ∧ s = Power.text power ++ (exponent s).2 := by
  have unread : ∃ power : Option Power,
      (∀ p ∈ power, (p.mark = 'e' ∨ p.mark = 'E') ∧ AllDigits p.digits ∧ p.digits ≠ []) ∧
      (0 : Int) = Power.value power ∧ s = Power.text power ++ s := ⟨none, by simp, rfl, rfl⟩
  cases s with
  | nil => exact unread
  | cons c rest =>
    simp only [exponent]
    split
    · rename_i mark
      obtain ⟨sign, negative, afterSign⟩ := signed_sound rest
      obtain ⟨cs, all, read, afterDigits⟩ := digits_sound (signed rest).2
      split
      · exact unread
      · rename_i nonempty same
        simp only [same] at read afterDigits
        refine ⟨some ⟨c, sign, cs⟩, ?_, ?_, ?_⟩
        · rintro p ⟨⟩
          refine ⟨mark, all, ?_⟩
          rintro rfl
          exact nonempty read
        · simp only [Power.value, negative, read]
        · simp only [Power.text, List.cons_append, List.append_assoc, ← afterDigits, ← afterSign]
    · exact unread

theorem mantissa_sound {s rest : List Char} {whole fraction : List Nat}
    (read : mantissa s = some (whole, fraction, rest)) :
    ∃ w f, AllDigits w ∧ (∀ cs ∈ f, AllDigits cs) ∧ (w ≠ [] ∨ ∃ cs ∈ f, cs ≠ []) ∧
      whole = values w ∧ fraction = values (f.getD []) ∧
      s = w ++ (Lexeme.fractionText f ++ rest) := by
  obtain ⟨w, wholeDigits, wholeRead, afterWhole⟩ := digits_sound s
  unfold mantissa at read
  split at read
  · rename_i tail same
    obtain ⟨f, digits, fractionRead, afterFraction⟩ := digits_sound tail
    simp only [same] at wholeRead afterWhole
    split at read
    · cases read
    · rename_i nonempty isFraction
      simp only [isFraction] at fractionRead afterFraction
      cases read
      refine ⟨w, some f, wholeDigits, by simpa using digits, .inr ⟨f, rfl, ?_⟩, wholeRead,
        fractionRead, by rw [afterWhole, afterFraction]; simp [Lexeme.fractionText]⟩
      rintro rfl
      exact nonempty fractionRead
  · cases read
  · rename_i tail different same
    obtain ⟨f, digits, fractionRead, afterFraction⟩ := digits_sound tail
    simp only [same] at wholeRead afterWhole
    cases read
    refine ⟨w, some f, wholeDigits, by simpa using digits, .inl ?_, wholeRead, fractionRead,
      by rw [afterWhole]; simp [Lexeme.fractionText, ← afterFraction]⟩
    rintro rfl
    exact different wholeRead
  · rename_i _ different _ same
    simp only [same] at wholeRead afterWhole
    cases read
    refine ⟨w, none, wholeDigits, by simp, .inl ?_, wholeRead, rfl, by rw [afterWhole]; rfl⟩
    rintro rfl
    exact different wholeRead

theorem scan_sound {s rest : List Char} {d : Decimal} (scanned : scan s = some (d, rest)) :
    ∃ l : Lexeme, l.Valid ∧ l.decimal = d ∧ s = l.text ++ rest := by
  obtain ⟨sign, negative, afterSign⟩ := signed_sound s
  simp only [scan, Option.bind_eq_bind] at scanned
  cases read : mantissa (signed s).2 with
  | none => simp [read] at scanned
  | some parts =>
    obtain ⟨whole, fraction, tail⟩ := parts
    obtain ⟨w, f, wholeDigits, digits, nonempty, rfl, rfl, afterMantissa⟩ := mantissa_sound read
    obtain ⟨power, valid, value, afterPower⟩ := exponent_sound tail
    simp only [read, Option.bind_some] at scanned
    cases scanned
    refine ⟨⟨sign, w, f, power⟩, ⟨wholeDigits, digits, nonempty, valid⟩, ?_, ?_⟩
    · simp [Lexeme.decimal, negative, value, values]
    · rw [Lexeme.text, List.append_assoc, List.append_assoc, List.append_assoc, ← afterPower,
        ← afterMantissa, ← afterSign]

end Literal
end PathData
