import PathData.Proofs.Acceptance
import PathData.Proofs.ShortestDoubles

namespace PathData

open scoped PathData.Scalar
open PathData.Parser

namespace Parser

section Characters

variable {α : Type} [Scalar α]

def PathCharacter (c : Char) : Prop :=
  isSeparator c = true ∨ OpensNumber c ∨ c = 'e' ∨ c = 'E' ∨ (Kind.read? c).isSome

-- What is read off the front of a text is made of them.
def Spelled (s rest : List Char) : Prop :=
  ∃ taken, s = taken ++ rest ∧ ∀ c ∈ taken, PathCharacter c

variable {s middle rest : List Char}

theorem Spelled.refl (s : List Char) : Spelled s s :=
  ⟨[], rfl, nofun⟩

theorem Spelled.trans (one : Spelled s middle) (two : Spelled middle rest) : Spelled s rest := by
  obtain ⟨a, rfl, all⟩ := one
  obtain ⟨b, rfl, all'⟩ := two
  refine ⟨a ++ b, by simp, ?_⟩
  intro c member
  rcases List.mem_append.mp member with before | after
  · exact all c before
  · exact all' c after

theorem Spelled.single {c : Char} (character : PathCharacter c) (s : List Char) :
    Spelled (c :: s) s :=
  ⟨[c], rfl, fun _ member => List.mem_singleton.mp member ▸ character⟩

theorem separators_spelled (separated : Separators s rest) : Spelled s rest := by
  obtain ⟨run, rfl, all⟩ := separated
  exact ⟨run, rfl, fun c member => .inl (all c member)⟩

theorem digits_spelled {cs : List Char} (all : Literal.AllDigits cs) : ∀ c ∈ cs, PathCharacter c :=
  fun c member => .inr (.inl (.inr (.inr (.inr (all c member)))))

theorem sign_spelled (sign : Literal.Sign) : ∀ c ∈ sign.text, PathCharacter c := by
  intro c member
  cases sign with
  | bare => cases member
  | plus => exact List.mem_singleton.mp member ▸ .inr (.inl (.inr (.inl rfl)))
  | minus => exact List.mem_singleton.mp member ▸ .inr (.inl (.inl rfl))

theorem lexeme_spelled {l : Literal.Lexeme} (valid : l.Valid) : ∀ c ∈ l.text, PathCharacter c := by
  intro c member
  simp only [Literal.Lexeme.text, List.mem_append] at member
  rcases member with sign | whole | fraction | power
  · exact sign_spelled l.sign c sign
  · exact digits_spelled valid.whole c whole
  · cases isFraction : l.fraction with
    | none => simp [isFraction, Literal.Lexeme.fractionText] at fraction
    | some f =>
      simp only [isFraction, Literal.Lexeme.fractionText, List.mem_cons] at fraction
      rcases fraction with rfl | digit
      · exact .inr (.inl (.inr (.inr (.inl rfl))))
      · exact digits_spelled (valid.fraction f isFraction) c digit
  · cases isPower : l.power with
    | none => simp [isPower, Literal.Power.text] at power
    | some p =>
      obtain ⟨mark, all, _⟩ := valid.power p isPower
      simp only [isPower, Literal.Power.text, List.mem_cons, List.mem_append] at power
      rcases power with rfl | sign | digit
      · exact .inr (.inr (mark.imp id .inl))
      · exact sign_spelled p.sign c sign
      · exact digits_spelled all c digit

theorem argument_spelled {slot : Slot} {x : α} (argument : Argument slot s x rest) :
    Spelled s rest := by
  cases argument with
  | number _ longest => exact ⟨_, longest.text, lexeme_spelled longest.valid⟩
  | off => exact .single (.inr (.inl (.inr (.inr (.inr (by decide)))))) rest
  | on => exact .single (.inr (.inl (.inr (.inr (.inr (by decide)))))) rest

theorem arguments_spelled {slots : List Slot} {xs : List α}
    (arguments : Arguments slots s xs rest) : Spelled s rest := by
  induction arguments with
  | nil => exact .refl _
  | cons separated argument _ ih =>
    exact ((separators_spelled separated).trans (argument_spelled argument)).trans ih

theorem group_spelled {kind : Kind} {b : Body α} (group : Group kind s b rest) :
    Spelled s rest := by
  cases group with
  | intro _ argument others _ => exact (argument_spelled argument).trans (arguments_spelled others)

theorem repeats_spelled {relative : Bool} {kind : Kind} {cs : List (Command α)}
    (repeats : Repeats relative kind s cs rest) : Spelled s rest := by
  induction repeats with
  | done => exact .refl _
  | more separated group _ ih =>
    exact ((separators_spelled separated).trans (group_spelled group)).trans ih

theorem letter_spelled {c : Char} {found : Kind × Bool} (letter : Kind.read? c = some found)
    (s : List Char) : Spelled (c :: s) s :=
  .single (.inr (.inr (.inr (.inr (by rw [letter]; rfl))))) s

theorem units_spelled {isFirst : Bool} {cs : List (Command α)} (units : Units isFirst s cs) :
    Spelled s [] := by
  induction units with
  | done => exact .refl _
  | close letter _ separated _ ih =>
    exact ((letter_spelled letter _).trans (separators_spelled separated)).trans ih
  | draw letter _ _ separated group repeats ended _ ih =>
    have opened := (letter_spelled letter _).trans (separators_spelled separated)
    exact (((opened.trans (group_spelled group)).trans (repeats_spelled repeats)).trans
      (separators_spelled ended)).trans ih

theorem parse_characters {text : List Char} {cs : List (Command α)} (read : parse text = .ok cs) :
    ∀ c ∈ text, PathCharacter c := by
  obtain ⟨blanks, s, rfl, all, units⟩ := renders_of_parse read
  obtain ⟨taken, rfl, spelled⟩ := units_spelled units
  intro c member
  rcases List.mem_append.mp member with blank | after
  · exact .inl (by simp [isSeparator, all c blank])
  · rw [List.append_nil] at after
    exact spelled c after

end Characters

section Forms

variable {s rest : List Char}

theorem flag_argument_value {x : Float} (argument : Argument .flag s x rest) :
    Command.IsFlag x ∧ Scalar.Finite x := by
  cases argument with
  | number plain _ => exact absurd rfl plain
  | off => decide +kernel
  | on => decide +kernel

theorem arguments_flags {slots : List Slot} {xs : List Float}
    (arguments : Arguments slots s xs rest) :
    ∀ p ∈ slots.zip xs, p.1 = .flag → Command.IsFlag p.2 ∧ Scalar.Finite p.2 := by
  induction arguments with
  | nil => nofun
  | cons _ argument _ ih =>
    intro p member isFlag
    rcases List.mem_cons.mp member with rfl | later
    · obtain rfl := isFlag
      exact flag_argument_value argument
    · exact ih p later isFlag

-- A command as it is read, whatever its numbers are.
structure AsRead (c : Command Float) : Prop where
  flags : ∀ p ∈ c.kind.slots.zip c.args, p.1 = .flag → Command.IsFlag p.2 ∧ Scalar.Finite p.2
  close : c.kind = .close → c.relative = false

theorem group_body {kind : Kind} {b : Body Float} (group : Group kind s b rest) :
    b.kind = kind ∧
      ∀ p ∈ kind.slots.zip b.args, p.1 = .flag → Command.IsFlag p.2 ∧ Scalar.Finite p.2 := by
  cases group with
  | intro slots argument others shaped =>
    have arguments := Arguments.cons (separators_nil s) argument others
    rw [← slots] at arguments
    obtain ⟨b', shaped', sameKind, sameArgs⟩ := Body.ofArgs_exists (arguments_length arguments)
    cases shaped.symm.trans shaped'
    refine ⟨sameKind, ?_⟩
    rw [sameArgs]
    exact arguments_flags arguments

-- Commands as they are read after `previous`: a letter is left out only where it is implied.
def ReadAfter (previous : Option (Command Float)) : List (Command Float) → Prop
  | [] => True
  | c :: rest =>
    AsRead c ∧ (c.implicit = true → Command.impliedLetter previous = some c.letter) ∧
      ReadAfter (some c) rest

theorem group_kind {kind : Kind} {b : Body Float} (relative implicit : Bool)
    (group : Group kind s b rest) : (⟨b, relative, implicit⟩ : Command Float).kind = kind :=
  (group_body group).1

theorem group_asRead {kind : Kind} {b : Body Float} {relative implicit : Bool}
    (opening : kind ≠ .close) (group : Group kind s b rest) : AsRead ⟨b, relative, implicit⟩ := by
  obtain ⟨sameKind, flags⟩ := group_body group
  refine ⟨?_, fun closed => absurd (sameKind.symm.trans closed) opening⟩
  rw [Command.kind, sameKind]
  exact flags

theorem implied_repeated {c d : Command Float} (opening : c.kind ≠ .close)
    (kind : d.kind = repeated c.kind) (relative : d.relative = c.relative) :
    Command.impliedLetter (some c) = some d.letter := by
  simp only [Command.impliedLetter, Command.letter, kind, relative]
  revert opening
  cases c.kind <;> cases c.relative <;> simp [repeated, Kind.letter]

theorem repeats_read {relative : Bool} {kind : Kind} {more cs : List (Command Float)}
    {c : Command Float} (repeats : Repeats relative kind s more rest) (opening : c.kind ≠ .close)
    (sameKind : kind = repeated c.kind) (sameForm : relative = c.relative)
    (later : ∀ previous, ReadAfter previous cs) : ReadAfter (some c) (more ++ cs) := by
  induction repeats generalizing c with
  | done => exact later _
  | more _ group _ ih =>
    subst sameKind sameForm
    have opening' := repeated_opening opening
    have kind := group_kind c.relative true group
    refine ⟨group_asRead opening' group, fun _ => implied_repeated opening kind rfl, ?_⟩
    exact ih (kind ▸ opening') (by rw [kind, repeated_repeated]) rfl

theorem units_read_after {isFirst : Bool} {cs : List (Command Float)} (units : Units isFirst s cs) :
    ∀ previous, ReadAfter previous cs := by
  induction units with
  | done => exact fun _ => trivial
  | close _ _ _ _ ih => exact fun _ => ⟨⟨nofun, fun _ => rfl⟩, nofun, ih _⟩
  | @draw c kind relative isFirst s s₁ b s₂ more s₃ s₄ cs letter opening first separated group
      repeats ended units ih =>
    intro previous
    have same := group_kind relative false group
    exact ⟨group_asRead opening group, nofun,
      repeats_read repeats (same ▸ opening) (by rw [same]) rfl ih⟩

theorem units_opening {cs : List (Command Float)} (units : Units true s cs) :
    ∀ c ∈ cs.head?, c.isMove = true ∧ c.implicit = false := by
  intro c member
  cases units with
  | done => cases member
  | close _ later => cases later
  | draw _ _ first _ group =>
    cases member
    exact ⟨decide_eq_true ((group_kind _ false group).trans (first rfl)), rfl⟩

theorem ReadAfter.asRead {previous : Option (Command Float)} {cs : List (Command Float)}
    (read : ReadAfter previous cs) : ∀ c ∈ cs, AsRead c := by
  induction cs generalizing previous with
  | nil => nofun
  | cons c cs ih => exact List.forall_mem_cons.2 ⟨read.1, ih read.2.2⟩

theorem ReadAfter.wellFormed {previous : Option (Command Float)} {cs : List (Command Float)}
    (read : ReadAfter previous cs) (finite : ∀ c ∈ cs, ∀ x ∈ c.args, Scalar.Finite x) :
    Command.WellFormedAfter previous cs := by
  induction cs generalizing previous with
  | nil => trivial
  | cons c cs ih =>
    obtain ⟨here, later⟩ := List.forall_mem_cons.1 finite
    obtain ⟨⟨flags, close⟩, implied, read⟩ := read
    exact ⟨⟨here, fun p member isFlag => (flags p member isFlag).1, close⟩, implied, ih read later⟩

end Forms

end Parser

namespace Printer

theorem number_endless {x : Float} (endless : ¬ Scalar.Finite x) : 'n' ∈ number x := by
  unfold number
  cases written : Scalar.numeral x with
  | finite d => exact absurd ⟨d, written⟩ endless
  | infinite negative => cases negative <;> decide
  | notANumber => decide

section Texts

variable {α : Type} [Scalar α]

theorem joinAfter_member {saving : Bool} {last t : List Char} {ts : List (List Char)} {c : Char}
    (isToken : t ∈ ts) (member : c ∈ t) : c ∈ joinAfter saving last ts := by
  induction ts generalizing last with
  | nil => cases isToken
  | cons u ts ih =>
    rw [joinAfter, List.mem_append]
    rcases List.mem_cons.mp isToken with rfl | later
    · left
      split
      · exact List.mem_cons_of_mem _ member
      · exact member
    · exact .inr (ih later)

theorem commandsFrom_member {saving : Bool} {previous : Option (Command α)} {cs : List (Command α)}
    {d : Command α} {t : List Char} {c : Char} (isCommand : d ∈ cs) (isToken : t ∈ tokens d)
    (member : c ∈ t) : c ∈ commandsFrom saving previous cs := by
  induction cs generalizing previous with
  | nil => cases isCommand
  | cons e cs ih =>
    rw [commandsFrom, List.mem_append]
    rcases List.mem_cons.mp isCommand with rfl | later
    · left
      unfold command
      split
      · exact joinAfter_member isToken member
      · exact List.mem_cons_of_mem _ (joinAfter_member isToken member)
    · exact .inr (ih later)

end Texts

theorem token_endless {c : Command Float} (asRead : AsRead c) {x : Float} (isArgument : x ∈ c.args)
    (endless : ¬ Scalar.Finite x) : ∃ t ∈ tokens c, 'n' ∈ t := by
  obtain ⟨slot, member⟩ : ∃ slot, (slot, x) ∈ c.kind.slots.zip c.args := by
    obtain ⟨i, inside, rfl⟩ := List.mem_iff_getElem.1 isArgument
    have slots : i < c.kind.slots.length := c.args_length ▸ inside
    refine ⟨c.kind.slots[i], List.mem_iff_getElem.2 ⟨i, ?_, List.getElem_zip⟩⟩
    rw [List.length_zip]
    exact Nat.lt_min.2 ⟨slots, inside⟩
  refine ⟨token slot x, ?_, ?_⟩
  · rw [tokens_eq]
    exact List.mem_map_of_mem member
  · unfold token
    split
    · exact absurd (asRead.flags _ member rfl).2 endless
    · exact number_endless endless

end Printer

open PathData.Printer

theorem parse_reprinted {text : List Char} {cs : List (Command Float)} (read : parse text = .ok cs)
    (saving : Bool) :
    ((∃ cs' : List (Command Float), parse (print saving cs) = .ok cs') ↔
        ∀ c ∈ cs, ∀ x ∈ c.args, Scalar.Finite x) ∧
      ∀ cs', parse (print saving cs) = .ok cs' → List.Forall₂ Command.Same cs cs' := by
  obtain ⟨_, s, _, _, units⟩ := renders_of_parse read
  have after := units_read_after units none
  have endless : (∃ cs' : List (Command Float), parse (print saving cs) = .ok cs') →
      ∀ c ∈ cs, ∀ x ∈ c.args, Scalar.Finite x := by
    rintro ⟨cs', again⟩ c isCommand x isArgument
    by_contra endless
    obtain ⟨t, isToken, member⟩ := token_endless (after.asRead c isCommand) isArgument endless
    have character := parse_characters again 'n' (commandsFrom_member isCommand isToken member)
    revert character
    unfold PathCharacter OpensNumber
    decide
  have again (finite : ∀ c ∈ cs, ∀ x ∈ c.args, Scalar.Finite x) :
      ∃ cs', parse (print saving cs) = .ok cs' ∧ List.Forall₂ Command.Same cs cs' := by
    have wellFormed : Command.WellFormedPath cs := ⟨units_opening units, after.wellFormed finite⟩
    have readsBack : ∀ c ∈ cs, ∀ x ∈ c.args, ReadsBack x := fun _ _ x _ => readsBack_double x
    obtain ⟨cs', renders, same⟩ := print_renders plainUnits_double saving wellFormed readsBack
    exact ⟨cs', parse_of_renders renders, same⟩
  refine ⟨⟨endless, fun finite => ?_⟩, fun cs' read' => ?_⟩
  · obtain ⟨cs', read', _⟩ := again finite
    exact ⟨cs', read'⟩
  · obtain ⟨cs'', read'', same⟩ := again (endless ⟨cs', read'⟩)
    cases read'.symm.trans read''
    exact same

-- Digits of another script, a literal that is too small for a double, a long s, and flags that
-- stand close together.
def accentedText : List Char := " M١٢.50,1e-400 3e2-.5ſ1 2 3 4a5 6 7 011-0.0Z".toList

theorem parse_reprinted_accented :
    ∃ cs : List (Command Float), parse accentedText = .ok cs ∧
      (∀ c ∈ cs, ∀ x ∈ c.args, Scalar.Finite x) ∧
      ∃ cs', parse (print true cs) = .ok cs' ∧ List.Forall₂ Command.Same cs cs' := by
  have succeeds : (parse accentedText).toOption.any (fun cs : List (Command Float) =>
      decide (∀ c ∈ cs, ∀ x ∈ c.args, Scalar.Finite x)) = true := by
    decide +kernel
  cases read : (parse accentedText : Except Failure (List (Command Float))) with
  | error e =>
    rw [read] at succeeds
    cases succeeds
  | ok cs =>
    rw [read] at succeeds
    have finite := of_decide_eq_true succeeds
    obtain ⟨reads, same⟩ := parse_reprinted read true
    obtain ⟨cs', again⟩ := reads.2 finite
    exact ⟨cs, rfl, finite, cs', again, same cs' again⟩

-- The number is read as infinite and written as a word.
theorem parse_reprinted_endless :
    ∃ cs : List (Command Float), parse "M1e999 0".toList = .ok cs ∧
      print true cs = "Minf 0".toList ∧
      (parse (print true cs) : Except Failure (List (Command Float))) =
        .error ⟨.expectedNumber (some 'i'), 1⟩ := by
  have read : (parse "M1e999 0".toList : Except Failure (List (Command Float))) =
      .ok [{ body := .move ⟨Double.infinity, 0⟩ }] := by
    decide +kernel
  refine ⟨_, read, ?_, ?_⟩
  · decide +kernel
  · decide +kernel

end PathData
