import PathData.Path.Printer
import PathData.Proofs.Doubles
import PathData.Proofs.Grammar
import PathData.Proofs.Numerals
import PathData.Proofs.WellFormed

namespace PathData
namespace Printer

open PathData.Parser PathData.Scalar
open scoped PathData.Scalar

variable {α : Type} [Scalar α]

-- What a library reads a whole text as.
def readText? (text : List Char) : Option α :=
  match Literal.scan text with
  | some (d, []) => some (ofDecimal d)
  | _ => none

-- Both full texts of a finite number are read as the number again.
def ReadsBack (x : α) : Prop :=
  match numeral x with
  | .finite d => ∀ text ∈ Layout.fullTexts d, readText? text = some x
  | _ => True

instance [DecidableEq α] (x : α) : Decidable (ReadsBack x) := by
  unfold ReadsBack
  split <;> infer_instance

-- What the numbers themselves are asked for: a zero has no other text than the one of zero, and one
-- is no zero.
structure PlainUnits (α : Type) [Scalar α] : Prop where
  zero : ∀ (x : α) (d : Decimal), numeral x = .finite d → d.digits = 0 →
    (x == ofDecimal ⟨false, 0, 0⟩) = true
  one : ((1 : α) == 0) = false

-- What stands after a token without becoming part of it.
def Ends (t rest : List Char) : Prop :=
  ∀ c ∈ rest.head?, Text.digitValue? c = none ∧ c ≠ 'e' ∧ c ≠ 'E' ∧ (c = '.' → '.' ∈ t)

-- A token opens as numbers do and is read, before whatever ends it, as the argument it was written
-- for.
def Legible (slot : Slot) (x : α) : Prop :=
  (∃ c cs, token slot x = c :: cs ∧ OpensNumber c) ∧
    ∃ y, Same x y ∧ ∀ rest, Ends (token slot x) rest → Argument slot (token slot x ++ rest) y rest

theorem allDigits_no_point {cs : List Char} (all : Literal.AllDigits cs) : '.' ∉ cs := by
  intro member
  have isDigit := all '.' member
  simp [Literal.digitValue_point] at isDigit

theorem point_fraction {l : Literal.Lexeme} (valid : l.Valid) (point : '.' ∈ l.text) :
    l.fraction ≠ none := by
  intro none
  have inSign : ∀ sign : Literal.Sign, '.' ∉ sign.text := by intro sign; cases sign <;> decide
  simp only [Literal.Lexeme.text, none, Literal.Lexeme.fractionText, List.nil_append,
    List.mem_append] at point
  rcases point with sign | whole | power
  · exact inSign _ sign
  · exact allDigits_no_point valid.whole whole
  · cases isPower : l.power with
    | none => simp [isPower, Literal.Power.text] at power
    | some p =>
      obtain ⟨mark, all, _⟩ := valid.power p isPower
      simp only [isPower, Literal.Power.text, List.mem_cons, List.mem_append] at power
      rcases power with isMark | sign | digits
      · rcases mark with small | large
        · rw [small] at isMark; exact absurd isMark (by decide)
        · rw [large] at isMark; exact absurd isMark (by decide)
      · exact inSign _ sign
      · exact allDigits_no_point all digits

theorem lexeme_ends {l : Literal.Lexeme} (valid : l.Valid) {rest : List Char}
    (ends : Ends l.text rest) : l.Ends rest := by
  intro c member
  obtain ⟨notDigit, notSmall, notLarge, point⟩ := ends c member
  exact ⟨notDigit, fun _ => ⟨notSmall, notLarge, fun whole isPoint =>
    point_fraction valid (point isPoint) whole⟩⟩

theorem lexeme_legible {l : Literal.Lexeme} (valid : l.Valid) {slot : Slot} (plain : slot ≠ .flag)
    {x y : α} (text : token slot x = l.text) (same : Same x y) (read : y = ofDecimal l.decimal) :
    Legible slot x := by
  obtain ⟨c, cs, opening, opens⟩ := lexeme_opens valid
  refine ⟨⟨c, cs, text.trans opening, opens⟩, y, same, ?_⟩
  intro rest ends
  rw [text] at ends ⊢
  rw [read]
  exact .number plain (Literal.longest_of_ends valid (lexeme_ends valid ends))

theorem number_legible (units : PlainUnits α) {slot : Slot} (plain : slot ≠ .flag) {x : α}
    (finite : Finite x) (readsBack : ReadsBack x) : Legible slot x := by
  obtain ⟨d, numeral⟩ := finite
  have text : token slot x = Layout.compact (.finite d) := by
    unfold token
    split
    · contradiction
    · rw [number, numeral]
  by_cases zero : d.digits = 0
  · have written : token slot x = Literal.Lexeme.zero.text := by
      rw [text, Layout.compact, if_pos zero]
      rfl
    have decimal : Literal.Lexeme.zero.decimal = ⟨false, 0, 0⟩ := by decide
    exact lexeme_legible Literal.Lexeme.zero_valid plain written
      (.inr (units.zero x d numeral zero)) (by rw [decimal])
  · obtain ⟨l, valid, written, full, member, scanned⟩ := Layout.compact_literal zero
    have read : readText? full = some x := by
      simp only [ReadsBack, numeral] at readsBack
      exact readsBack full member
    simp only [readText?, scanned, Option.some.injEq] at read
    exact lexeme_legible valid plain (text.trans written.symm) (.inl rfl) read.symm

theorem flag_legible (units : PlainUnits α) {x : α} (isFlag : Command.IsFlag x) :
    Legible .flag x := by
  have zeroOpens : OpensNumber '0' := .inr (.inr (.inr (by decide)))
  have oneOpens : OpensNumber '1' := .inr (.inr (.inr (by decide)))
  by_cases zero : (x == 0) = true
  · have text : token .flag x = ['0'] := by simp [token, zero]
    refine ⟨⟨'0', [], text, zeroOpens⟩, 0, .inr zero, ?_⟩
    intro rest _
    rw [text]
    exact .off
  · obtain rfl : x = 1 := isFlag.resolve_left zero
    have text : token .flag (1 : α) = ['1'] := by simp [token, units.one]
    refine ⟨⟨'1', [], text, oneOpens⟩, 1, .inl rfl, ?_⟩
    intro rest _
    rw [text]
    exact .on

def LegibleArgs (c : Command α) : Prop :=
  ∀ p ∈ c.kind.slots.zip c.args, Legible p.1 p.2

theorem args_legible (units : PlainUnits α) {c : Command α} (wellFormed : c.WellFormed)
    (readsBack : ∀ x ∈ c.args, ReadsBack x) : LegibleArgs c := by
  intro p member
  by_cases isFlag : p.1 = .flag
  · have legible := flag_legible units (wellFormed.flags p member isFlag)
    rwa [← isFlag] at legible
  · have isArgument := (List.of_mem_zip member).2
    exact number_legible units isFlag (wellFormed.finite _ isArgument) (readsBack _ isArgument)

theorem legible_of_wellFormedAfter (units : PlainUnits α) {previous : Option (Command α)}
    {cs : List (Command α)} (wellFormed : Command.WellFormedAfter previous cs)
    (readsBack : ∀ c ∈ cs, ∀ x ∈ c.args, ReadsBack x) : ∀ c ∈ cs, LegibleArgs c := by
  induction cs generalizing previous with
  | nil => simp
  | cons c cs ih =>
    intro d member
    rcases List.mem_cons.mp member with rfl | later
    · exact args_legible units wellFormed.1 (readsBack _ List.mem_cons_self)
    · exact ih wellFormed.2.2 (fun c member => readsBack c (List.mem_cons_of_mem _ member)) d later

theorem ends_space (t rest : List Char) : Ends t (' ' :: rest) := by
  intro c member
  obtain rfl : ' ' = c := by simpa using member
  exact ⟨by decide, by decide, by decide, fun point => absurd point (by decide)⟩

theorem ends_letter {c : Char} (letter : (Kind.read? c).isSome) (t rest : List Char) :
    Ends t (c :: rest) := by
  intro d member
  obtain rfl : c = d := by simpa using member
  obtain ⟨notDigit, notSmall, notLarge, notPoint⟩ := letter_ends letter
  exact ⟨notDigit, notSmall, notLarge, fun point => absurd point notPoint⟩

theorem ends_token {saving : Bool} {last t : List Char} (nonempty : last ≠ [])
    (close : needsSpace saving last t = false) {c : Char} {cs : List Char} (text : t = c :: cs)
    (rest : List Char) : Ends last (t ++ rest) := by
  subst text
  intro d member
  obtain rfl : c = d := by simpa using member
  have present : last.isEmpty = false := by simpa using nonempty
  simp only [needsSpace, present, List.head?_cons, Option.some.injEq] at close
  split at close
  · contradiction
  · split at close
    · contradiction
    · split at close
      · rename_i minus
        subst minus
        exact ⟨by decide, by decide, by decide, fun point => absurd point (by decide)⟩
      · split at close
        · rename_i point
          simp only [Bool.and_eq_true, decide_eq_true_eq, List.contains_eq_mem] at point
          obtain ⟨⟨rfl, inLast⟩, _⟩ := point
          exact ⟨by decide, by decide, by decide, fun _ => inLast⟩
        · contradiction

theorem arguments_read (saving : Bool) {slots : List Slot} {xs : List α} {last rest : List Char}
    (length : xs.length = slots.length) (legible : ∀ p ∈ slots.zip xs, Legible p.1 p.2)
    (ends : Ends (((List.zipWith token slots xs).getLast?).getD last) rest) :
    ∃ ys, List.Forall₂ Same xs ys ∧
      Arguments slots (joinAfter saving last (List.zipWith token slots xs) ++ rest) ys rest ∧
      (last ≠ [] → Ends last (joinAfter saving last (List.zipWith token slots xs) ++ rest)) := by
  induction slots generalizing xs last with
  | nil =>
    obtain rfl := List.length_eq_zero_iff.mp length
    exact ⟨[], .nil, .nil, fun _ => ends⟩
  | cons slot slots ih =>
    cases xs with
    | nil => cases length
    | cons x xs =>
      obtain ⟨⟨c, cs, text, opens⟩, y, same, reads⟩ := legible (slot, x) (by simp)
      have nonempty : token slot x ≠ [] := by simp [text]
      have later : Ends (((List.zipWith token slots xs).getLast?).getD (token slot x)) rest := by
        rw [List.zipWith_cons_cons, List.getLast?_cons] at ends
        exact ends
      obtain ⟨ys, sames, others, here⟩ := ih (by simpa using length)
        (fun p member => legible p (by simp [member])) later
      have argument := reads _ (here nonempty)
      refine ⟨y :: ys, .cons same sames, ?_, ?_⟩
      · simp only [List.zipWith_cons_cons, joinAfter]
        split
        · exact .cons (by simpa using separators_space _) argument others
        · exact .cons (by simpa using separators_nil _) argument others
      · intro present
        simp only [List.zipWith_cons_cons, joinAfter]
        split
        · exact ends_space _ _
        · rename_i close
          rw [List.append_assoc]
          exact ends_token present (by simpa using close) text _

theorem tokens_eq (c : Command α) :
    tokens c = (c.kind.slots.zip c.args).map fun p => token p.1 p.2 := by
  rw [List.map_zip_eq_zipWith]
  rfl

omit [Scalar α] in
theorem pairs_ne_nil {c : Command α} (opening : c.kind ≠ .close) :
    c.kind.slots.zip c.args ≠ [] := by
  intro none
  have count := congrArg List.length none
  rw [List.length_zip, c.args_length, Nat.min_self] at count
  exact Command.slots_ne_nil opening (List.length_eq_zero_iff.mp count)

theorem group_read (saving : Bool) (last : List Char) {c : Command α} (opening : c.kind ≠ .close)
    {rest : List Char} (legible : LegibleArgs c) (ends : Ends (lastToken (some c)) rest) :
    ∃ first b, Separators (joinAfter saving last (tokens c) ++ rest) first ∧
      Group c.kind first b rest ∧ b.kind = c.kind ∧ List.Forall₂ Same c.args b.args ∧
      (last ≠ [] → Ends last (joinAfter saving last (tokens c) ++ rest)) := by
  have length := c.args_length
  have written : tokens c ≠ [] := by simpa [tokens_eq] using pairs_ne_nil opening
  have endsLast : Ends (((tokens c).getLast?).getD last) rest := by
    simpa [lastToken, List.getLast?_eq_some_getLast written] using ends
  obtain ⟨ys, same, arguments, here⟩ := arguments_read saving length legible endsLast
  change Arguments _ (joinAfter saving last (tokens c) ++ rest) _ _ at arguments
  change _ → Ends _ (joinAfter saving last (tokens c) ++ rest) at here
  obtain ⟨b, shaped, kind, args⟩ := Body.ofArgs_exists (same.length_eq.symm.trans length)
  generalize joinAfter saving last (tokens c) ++ rest = s at arguments here ⊢
  generalize slots : c.kind.slots = all at arguments
  cases arguments with
  | nil => exact absurd slots (Command.slots_ne_nil opening)
  | cons separated argument others =>
    exact ⟨_, b, separated, .intro slots argument others shaped, kind, args ▸ same, here⟩

theorem lastToken_ne_nil {c : Command α} (opening : c.kind ≠ .close) (legible : LegibleArgs c) :
    lastToken (some c) ≠ [] := by
  have present := pairs_ne_nil opening
  obtain ⟨⟨t, ts, text, _⟩, _⟩ := legible _ (List.getLast_mem present)
  simp only [lastToken, tokens_eq, List.getLast?_map, List.getLast?_eq_some_getLast present,
    Option.map_some, Option.getD_some, text]
  simp

-- How the text after a command goes on: with groups that repeat it, and then with units.
structure Continues (p : Command α) (cs : List (Command α)) (s : List Char) : Prop where
  read : ∃ more us s₁ s₂, Repeats p.relative (repeated p.kind) s more s₁ ∧ Separators s₁ s₂ ∧
    Units false s₂ us ∧ List.Forall₂ Command.Same cs (more ++ us) ∧
    (p.kind = .close → more = [] ∧ s₁ = s)
  ends : Ends (lastToken (some p)) s

theorem command_same {c : Command α} {b : Body α} (kind : b.kind = c.kind)
    (args : List.Forall₂ Same c.args b.args) : Command.Same c ⟨b, c.relative, c.implicit⟩ :=
  ⟨kind.symm, args, rfl, rfl⟩

theorem unit_read (saving isFirst : Bool) {c : Command α} {cs : List (Command α)} {s : List Char}
    (wellFormed : c.WellFormed) (legible : LegibleArgs c) (explicit : c.implicit = false)
    (first : isFirst = true → c.kind = .move) (continues : Continues c cs s) :
    ∃ us, Units isFirst (c.letter :: (joinAfter saving [] (tokens c) ++ s)) us ∧
      List.Forall₂ Command.Same (c :: cs) us := by
  obtain ⟨⟨more, us, s₁, s₂, repeats, separated, units, same, closing⟩, ends⟩ := continues
  obtain ⟨relative, letter, form⟩ := c.letter_kind
  by_cases closed : c.kind = .close
  · obtain ⟨rfl, rfl⟩ := closing closed
    have none : tokens c = [] := by simp [tokens, closed, Kind.slots]
    have notFirst : isFirst = false := by
      cases isFirst with
      | false => rfl
      | true => exact absurd (closed.symm.trans (first rfl)) (by decide)
    have noArgs : c.args = [] := List.length_eq_zero_iff.mp (by rw [c.args_length, closed]; rfl)
    have sameClose : Command.Same c { body := .close } :=
      ⟨closed, by rw [noArgs]; exact .nil, wellFormed.close closed, explicit⟩
    rw [closed] at letter
    exact ⟨_, by rw [none]; exact .close letter notFirst separated units, .cons sameClose same⟩
  · obtain ⟨s₀, b, here, group, kind, args, _⟩ :=
      group_read saving [] closed legible ends
    have whole := command_same kind args
    rw [explicit] at whole
    rw [form closed] at letter
    exact ⟨_, .draw letter closed first here group repeats separated units, .cons whole same⟩

-- By induction on the commands: an explicit one opens a unit and leaves no groups to the one
-- before; an implicit one is the next group, before those that follow it.
theorem continues (saving : Bool) {p : Command α} {cs : List (Command α)}
    (wellFormed : Command.WellFormedAfter (some p) cs) (legible : ∀ c ∈ p :: cs, LegibleArgs c) :
    Continues p cs (commandsFrom saving (some p) cs) := by
  induction cs generalizing p with
  | nil =>
    exact ⟨⟨[], [], [], [], .done, separators_nil _, .done, .nil, fun _ => ⟨rfl, rfl⟩⟩,
      by simp [Ends, commandsFrom]⟩
  | cons c cs ih =>
    obtain ⟨itself, implied, later⟩ := wellFormed
    have after := ih later fun d member => legible d (List.mem_cons_of_mem _ member)
    have args := legible c (List.mem_cons_of_mem _ List.mem_cons_self)
    cases tag : c.implicit with
    | false =>
      obtain ⟨us, units, same⟩ := unit_read saving false itself args tag (by simp) after
      have text : commandsFrom saving (some p) (c :: cs) =
          c.letter :: (joinAfter saving [] (tokens c) ++ commandsFrom saving (some c) cs) := by
        simp [commandsFrom, command, tag]
      rw [text]
      obtain ⟨_, letter, _⟩ := c.letter_kind
      exact ⟨⟨[], us, _, _, .done, separators_nil _, units, same, fun _ => ⟨rfl, rfl⟩⟩,
        ends_letter (by simp [letter]) _ _⟩
    | true =>
      obtain ⟨opening, kind, relative⟩ := Command.implied_kind (implied tag)
      obtain ⟨⟨more, us, s₁, s₂, repeats, separated, units, same, _⟩, ends⟩ := after
      have present := lastToken_ne_nil opening (legible p List.mem_cons_self)
      have notClose : c.kind ≠ .close := by
        rw [kind]
        revert opening
        cases p.kind <;> decide
      obtain ⟨s₀, b, here, group, bodyKind, sameArgs, endsLast⟩ :=
        group_read saving (lastToken (some p)) notClose args ends
      have text : commandsFrom saving (some p) (c :: cs) =
          joinAfter saving (lastToken (some p)) (tokens c) ++ commandsFrom saving (some c) cs := by
        simp [commandsFrom, command, tag]
      have whole := command_same bodyKind sameArgs
      rw [tag] at whole
      rw [text]
      rw [kind, repeated_repeated, relative] at repeats
      rw [kind] at group
      rw [relative] at whole
      exact ⟨⟨_, us, s₁, s₂, .more here group repeats, separated, units, .cons whole same,
        fun closed => absurd closed opening⟩, endsLast present⟩

theorem print_renders (units : PlainUnits α) (saving : Bool) {cs : List (Command α)}
    (wellFormed : Command.WellFormedPath cs) (readsBack : ∀ c ∈ cs, ∀ x ∈ c.args, ReadsBack x) :
    ∃ cs', Renders (print saving cs) cs' ∧ List.Forall₂ Command.Same cs cs' := by
  obtain ⟨starts, after⟩ := wellFormed
  have legible := legible_of_wellFormedAfter units after readsBack
  cases cs with
  | nil => exact ⟨[], ⟨[], [], rfl, by simp, .done⟩, .nil⟩
  | cons c cs =>
    obtain ⟨isMove, explicit⟩ := starts c rfl
    have first : c.kind = .move := by simpa [Command.isMove] using isMove
    obtain ⟨itself, _, later⟩ := after
    obtain ⟨us, rendered, same⟩ := unit_read saving true itself
      (legible c List.mem_cons_self) explicit (fun _ => first) (continues saving later legible)
    refine ⟨us, ⟨[], _, ?_, by simp, rendered⟩, same⟩
    simp [print, commandsFrom, command, explicit]

theorem plainUnits_double : PlainUnits Float :=
  ⟨fun _ _ written zero => Double.zero_of_digits written zero, Double.one_not_zero⟩

end Printer

open Printer

theorem parse_print {saving : Bool} {cs : List (Command Float)}
    (wellFormed : Command.WellFormedPath cs) (readsBack : ∀ c ∈ cs, ∀ x ∈ c.args, ReadsBack x) :
    ∃ cs', parse (print saving cs) = .ok cs' ∧ List.Forall₂ Command.Same cs cs' := by
  obtain ⟨cs', renders, same⟩ := print_renders plainUnits_double saving wellFormed readsBack
  exact ⟨cs', Parser.parse_of_renders renders, same⟩

-- A letter is left out after the move and after the first arc; flags stand beside numbers, a point
-- beside a point, and one number has an exponent.
def crowdedPath : List (Command Float) :=
  [{ body := .move ⟨-1.5, 0.5⟩ },
   { body := .line ⟨0.25, 1e-7⟩, implicit := true },
   { body := .arc ⟨10, 0.5, 0.25, 1, 0⟩ ⟨-0.0, 1e21⟩, relative := true },
   { body := .arc ⟨1e300, 2, -30, 0, 1⟩ ⟨0.125, 5⟩, relative := true, implicit := true },
   { body := .close },
   { body := .move ⟨4, 3⟩, relative := true }]

theorem parse_print_crowded :
    Command.WellFormedPath crowdedPath ∧ (∀ c ∈ crowdedPath, ∀ x ∈ c.args, ReadsBack x) ∧
      ∃ cs', parse (print true crowdedPath) = .ok cs' ∧
        List.Forall₂ Command.Same crowdedPath cs' :=
  have wellFormed : Command.WellFormedPath crowdedPath := by decide +kernel
  have readsBack : ∀ c ∈ crowdedPath, ∀ x ∈ c.args, ReadsBack x := by decide +kernel
  ⟨wellFormed, readsBack, parse_print wellFormed readsBack⟩

end PathData
