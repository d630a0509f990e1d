import PathData.Proofs.Characters
import PathData.Proofs.LongestLiterals

namespace PathData
namespace Parser

open Text

variable {α : Type} [Scalar α]

def Separators (s rest : List Char) : Prop :=
  ∃ run, s = run ++ rest ∧ ∀ c ∈ run, isSeparator c = true

open scoped PathData.Scalar in
-- One argument: a number as long as it can be, or a flag of one character.
inductive Argument : Slot → List Char → α → List Char → Prop where
  | number (plain : slot ≠ .flag) (longest : Literal.Longest l s rest) :
      Argument slot s (Scalar.ofDecimal l.decimal) rest
  | off : Argument .flag ('0' :: rest) 0 rest
  | on : Argument .flag ('1' :: rest) 1 rest

-- Arguments that follow others, so that separators may stand before each.
inductive Arguments : List Slot → List Char → List α → List Char → Prop where
  | nil : Arguments [] s [] s
  | cons (separated : Separators s first) (argument : Argument slot first x next)
      (others : Arguments slots next xs rest) : Arguments (slot :: slots) s (x :: xs) rest

inductive Group (kind : Kind) : List Char → Body α → List Char → Prop where
  | intro (slots : kind.slots = slot :: more) (argument : Argument slot s x next)
      (others : Arguments more next xs rest) (shaped : Body.ofArgs? kind (x :: xs) = some b) :
      Group kind s b rest

inductive Repeats (relative : Bool) (kind : Kind) :
    List Char → List (Command α) → List Char → Prop where
  | done : Repeats relative kind s [] s
  | more (separated : Separators s first) (group : Group kind first b next)
      (others : Repeats relative kind next cs rest) :
      Repeats relative kind s (⟨b, relative, true⟩ :: cs) rest

inductive Units : Bool → List Char → List (Command α) → Prop where
  | done : Units isFirst [] []
  | close (letter : Kind.read? c = some (.close, small)) (later : isFirst = false)
      (separated : Separators s rest) (units : Units false rest cs) :
      Units isFirst (c :: s) ({ body := .close } :: cs)
  | draw (letter : Kind.read? c = some (kind, relative)) (opening : kind ≠ .close)
      (first : isFirst = true → kind = .move) (separated : Separators s s₁)
      (group : Group kind s₁ b s₂) (repeats : Repeats relative (repeated kind) s₂ more s₃)
      (ended : Separators s₃ s₄) (units : Units false s₄ cs) :
      Units isFirst (c :: s) (⟨b, relative, false⟩ :: (more ++ cs))

def Renders (text : List Char) (cs : List (Command α)) : Prop :=
  ∃ blanks s, text = blanks ++ s ∧ (∀ c ∈ blanks, isBlank c = true) ∧ Units true s cs

theorem separators_nil (s : List Char) : Separators s s :=
  ⟨[], rfl, by simp⟩

theorem separators_space (s : List Char) : Separators (' ' :: s) s :=
  ⟨[' '], rfl, by simp; decide⟩

theorem skip_separators {s rest : List Char} (separated : Separators s rest)
    (ends : ∀ c ∈ rest.head?, isSeparator c = false) : skipSeparators s = rest := by
  obtain ⟨run, rfl, all⟩ := separated
  unfold skipSeparators
  rw [List.dropWhile_append_of_pos all]
  cases rest with
  | nil => rfl
  | cons c rest => simp [ends c rfl]

theorem separators_length {s rest : List Char} (separated : Separators s rest) :
    rest.length ≤ s.length := by
  obtain ⟨run, rfl, _⟩ := separated
  simp

theorem skip_to_number {s tail : List Char} {c : Char} (separated : Separators s (c :: tail))
    (opens : OpensNumber c) : skipSeparators s = c :: tail := by
  apply skip_separators separated
  intro d member
  obtain rfl : c = d := by simpa using member
  exact opens_not_separator opens

theorem argument_opens {slot : Slot} {s rest : List Char} {x : α}
    (argument : Argument slot s x rest) :
    ∃ c tail, s = c :: tail ∧ OpensNumber c ∧ rest.length ≤ tail.length := by
  cases argument with
  | number _ longest => exact scan_opens longest.scan
  | off => exact ⟨'0', rest, rfl, .inr (.inr (.inr (by decide))), Nat.le_refl _⟩
  | on => exact ⟨'1', rest, rfl, .inr (.inr (.inr (by decide))), Nat.le_refl _⟩

theorem argument_skip {slot : Slot} {s first rest : List Char} {x : α}
    (separated : Separators s first) (argument : Argument slot first x rest) :
    skipSeparators s = first := by
  obtain ⟨c, tail, rfl, opens, _⟩ := argument_opens argument
  exact skip_to_number separated opens

theorem number_read {slot : Slot} {s rest : List Char} {x : α} (argument : Argument slot s x rest)
    (plain : slot ≠ .flag) : number s = .ok (x, rest) := by
  cases argument with
  | number _ longest => simp [number, longest.scan]
  | off => exact absurd rfl plain
  | on => exact absurd rfl plain

theorem flag_read {s rest : List Char} {x : α} (argument : Argument .flag s x rest) :
    flag s = .ok (x, rest) := by
  cases argument with
  | number plain _ => exact absurd rfl plain
  | off => rfl
  | on => rfl

theorem separators_read (s : List Char) : separators s = .ok ((), skipSeparators s) := rfl

theorem reader_bind {β γ : Type} {r : Reader β} {next : β → Reader γ} {s rest : List Char} {x : β}
    (read : r s = .ok (x, rest)) : (r >>= next) s = next x rest := by
  change Except.bind (r s) _ = _
  rw [read]
  rfl

theorem point_read {s middle next rest : List Char} {x y : α} {slotX slotY : Slot}
    (plainX : slotX ≠ .flag) (plainY : slotY ≠ .flag) (first : Argument slotX s x next)
    (separated : Separators next middle) (second : Argument slotY middle y rest) :
    point s = .ok (⟨x, y⟩, rest) := by
  unfold point
  rw [reader_bind (number_read first plainX), reader_bind (separators_read _),
    argument_skip separated second, reader_bind (number_read second plainY)]
  rfl

theorem nextPoint_read {s first middle next rest : List Char} {x y : α} {slotX slotY : Slot}
    (plainX : slotX ≠ .flag) (plainY : slotY ≠ .flag) (before : Separators s first)
    (one : Argument slotX first x next) (separated : Separators next middle)
    (two : Argument slotY middle y rest) : nextPoint s = .ok (⟨x, y⟩, rest) := by
  unfold nextPoint
  rw [reader_bind (separators_read _), argument_skip before one]
  exact point_read plainX plainY one separated two

theorem arcShape_read {s s₁ s₂ s₃ s₄ t₁ t₂ t₃ t₄ rest : List Char}
    {rx ry rotation large sweep : α}
    (a : Argument .measure s rx s₁) (sep₁ : Separators s₁ t₁) (a₁ : Argument .measure t₁ ry s₂)
    (sep₂ : Separators s₂ t₂) (a₂ : Argument .measure t₂ rotation s₃) (sep₃ : Separators s₃ t₃)
    (a₃ : Argument .flag t₃ large s₄) (sep₄ : Separators s₄ t₄)
    (a₄ : Argument .flag t₄ sweep rest) :
    arcShape s = .ok (⟨rx, ry, rotation, large, sweep⟩, rest) := by
  have plain : Slot.measure ≠ .flag := by decide
  unfold arcShape
  rw [reader_bind (number_read a plain), reader_bind (separators_read _), argument_skip sep₁ a₁,
    reader_bind (number_read a₁ plain), reader_bind (separators_read _), argument_skip sep₂ a₂,
    reader_bind (number_read a₂ plain), reader_bind (separators_read _), argument_skip sep₃ a₃,
    reader_bind (flag_read a₃), reader_bind (separators_read _), argument_skip sep₄ a₄,
    reader_bind (flag_read a₄)]
  rfl

theorem body_read {kind : Kind} {s rest : List Char} {b : Body α} (group : Group kind s b rest) :
    body kind s = .ok (b, rest) := by
  have plainX : Slot.x ≠ .flag := by decide
  have plainY : Slot.y ≠ .flag := by decide
  cases group with
  | intro slots argument others shaped =>
    cases kind with
    | move | line | smoothQuadratic =>
      cases slots
      obtain _ | ⟨sep₁, a₁, _ | _⟩ := others
      cases shaped
      simp only [body]
      rw [reader_bind (point_read plainX plainY argument sep₁ a₁)]
      rfl
    | horizontal =>
      cases slots
      cases others
      cases shaped
      simp only [body]
      rw [reader_bind (number_read argument plainX)]
      rfl
    | vertical =>
      cases slots
      cases others
      cases shaped
      simp only [body]
      rw [reader_bind (number_read argument plainY)]
      rfl
    | cubic =>
      cases slots
      obtain _ | ⟨sep₁, a₁, _ | ⟨sep₂, a₂, _ | ⟨sep₃, a₃, _ | ⟨sep₄, a₄, _ |
        ⟨sep₅, a₅, _ | _⟩⟩⟩⟩⟩ := others
      cases shaped
      simp only [body]
      rw [reader_bind (point_read plainX plainY argument sep₁ a₁),
        reader_bind (nextPoint_read plainX plainY sep₂ a₂ sep₃ a₃),
        reader_bind (nextPoint_read plainX plainY sep₄ a₄ sep₅ a₅)]
      rfl
    | smoothCubic | quadratic =>
      cases slots
      obtain _ | ⟨sep₁, a₁, _ | ⟨sep₂, a₂, _ | ⟨sep₃, a₃, _ | _⟩⟩⟩ := others
      cases shaped
      simp only [body]
      rw [reader_bind (point_read plainX plainY argument sep₁ a₁),
        reader_bind (nextPoint_read plainX plainY sep₂ a₂ sep₃ a₃)]
      rfl
    | arc =>
      cases slots
      obtain _ | ⟨sep₁, a₁, _ | ⟨sep₂, a₂, _ | ⟨sep₃, a₃, _ | ⟨sep₄, a₄, _ | ⟨sep₅, a₅, _ |
        ⟨sep₆, a₆, _ | _⟩⟩⟩⟩⟩⟩ := others
      cases shaped
      have shape := arcShape_read argument sep₁ a₁ sep₂ a₂ sep₃ a₃ sep₄ a₄
      simp only [body]
      rw [reader_bind shape, reader_bind (nextPoint_read plainX plainY sep₅ a₅ sep₆ a₆)]
      rfl
    | close => cases slots

theorem group_opens {kind : Kind} {s rest : List Char} {b : Body α} (group : Group kind s b rest) :
    ∃ c tail, s = c :: tail ∧ OpensNumber c ∧ rest.length ≤ tail.length := by
  cases group with
  | intro slots argument others shaped =>
    obtain ⟨c, tail, rfl, opens, shorter⟩ := argument_opens argument
    refine ⟨c, tail, rfl, opens, Nat.le_trans ?_ shorter⟩
    clear argument shaped slots shorter
    induction others with
    | nil => exact Nat.le_refl _
    | cons separated argument _ ih =>
      obtain ⟨_, after, rfl, _, fewer⟩ := argument_opens argument
      have step := separators_length separated
      simp only [List.length_cons] at step
      omega

theorem repeats_length {relative : Bool} {kind : Kind} {s rest : List Char} {cs : List (Command α)}
    (repeats : Repeats relative kind s cs rest) : rest.length ≤ s.length := by
  induction repeats with
  | done => exact Nat.le_refl _
  | more separated group _ ih =>
    obtain ⟨_, after, rfl, _, fewer⟩ := group_opens group
    have step := separators_length separated
    simp only [List.length_cons] at step
    omega

theorem draw_length {relative : Bool} {kind next : Kind} {s s₁ s₂ rest : List Char} {b : Body α}
    {more : List (Command α)} (group : Group kind s b s₁)
    (repeats : Repeats relative next s₁ more s₂) (ended : Separators s₂ rest) :
    rest.length < s.length := by
  obtain ⟨_, tail, rfl, _, shorter⟩ := group_opens group
  have one := repeats_length repeats
  have two := separators_length ended
  rw [List.length_cons]
  omega

-- The end of the text and a letter are where groups stop.
def AtUnit (s : List Char) : Prop :=
  s = [] ∨ atLetter s = true

theorem units_at {isFirst : Bool} {s : List Char} {cs : List (Command α)}
    (units : Units isFirst s cs) : AtUnit s := by
  cases units with
  | done => exact .inl rfl
  | close letter => exact .inr (by simp [atLetter, letter])
  | draw letter => exact .inr (by simp [atLetter, letter])

theorem skip_to_unit {s rest : List Char} (separated : Separators s rest) (at_ : AtUnit rest) :
    skipSeparators s = rest := by
  refine skip_separators separated ?_
  rcases at_ with rfl | letter
  · simp
  · cases rest with
    | nil => simp
    | cons c rest =>
      intro d member
      obtain rfl : c = d := by simpa using member
      exact letter_not_separator letter

theorem repeated_repeated (kind : Kind) : repeated (repeated kind) = repeated kind := by
  cases kind <;> rfl

theorem fuel_left {s : List Char} {c : Char} {fuel : Nat} (enough : (c :: s).length ≤ fuel) :
    ∃ left, fuel = left + 1 ∧ s.length ≤ left := by
  cases fuel with
  | zero => cases enough
  | succ left => exact ⟨left, rfl, Nat.le_of_succ_le_succ enough⟩

-- The fuel stays above the number of characters, since every group takes at least one.
theorem groups_read {relative implicit : Bool} {kind : Kind} {s s₁ s₂ s₃ : List Char} {b : Body α}
    {more : List (Command α)} {fuel : Nat} (group : Group kind s b s₁)
    (repeats : Repeats relative (repeated kind) s₁ more s₂) (ended : Separators s₂ s₃)
    (at_ : AtUnit s₃) (enough : s.length ≤ fuel) :
    groups relative fuel kind implicit s = .ok (⟨b, relative, implicit⟩ :: more, s₃) := by
  generalize same : repeated kind = after at repeats
  induction repeats generalizing kind implicit s b fuel with
  | done =>
    obtain ⟨c, tail, rfl, _, _⟩ := group_opens group
    obtain ⟨fuel, rfl, _⟩ := fuel_left enough
    simp only [groups]
    rw [reader_bind (body_read group), reader_bind (separators_read _), skip_to_unit ended at_]
    have stop : (s₃.isEmpty || atLetter s₃) = true := by
      rcases at_ with rfl | letter
      · rfl
      · simp [letter]
    rw [reader_bind (show (get : Reader (List Char)) s₃ = .ok (s₃, s₃) from rfl)]
    simp only [stop, if_true]
    rfl
  | @more s₁ first b' next cs s₂ separated nextGroup others ih =>
    obtain ⟨c, tail, rfl, _, shorter⟩ := group_opens group
    obtain ⟨d, after', rfl, opens, _⟩ := group_opens nextGroup
    obtain ⟨fuel, rfl, room⟩ := fuel_left enough
    have ready : (d :: after').length ≤ fuel :=
      Nat.le_trans (separators_length separated) (Nat.le_trans shorter room)
    subst same
    have rest : groups relative fuel _ true _ = _ :=
      ih nextGroup ended ready (repeated_repeated kind)
    simp only [groups]
    rw [reader_bind (body_read group), reader_bind (separators_read _),
      skip_to_number separated opens,
      reader_bind (show (get : Reader (List Char)) (d :: after') = .ok (d :: after', d :: after')
        from rfl)]
    simp only [List.isEmpty_cons, atLetter, opens_not_letter opens, Option.isSome_none,
      Bool.or_self, Bool.false_eq_true, if_false]
    rw [reader_bind rest]
    rfl

theorem units_read {isFirst : Bool} {s : List Char} {cs : List (Command α)} {fuel : Nat}
    (units : Units isFirst s cs) (enough : s.length ≤ fuel) :
    Parser.units fuel isFirst s = .ok cs := by
  induction units generalizing fuel with
  | done => cases fuel <;> rfl
  | close letter later separated units ih =>
    obtain ⟨fuel, rfl, room⟩ := fuel_left enough
    have rest : Parser.units fuel _ _ = _ :=
      ih (Nat.le_trans (separators_length separated) room)
    simp only [Parser.units, letter, later, Bool.false_and, Bool.false_eq_true, if_false, if_true,
      skip_to_unit separated (units_at units), rest]
    rfl
  | @draw c kind relative isFirst s s₁ b s₂ more s₃ s₄ cs letter opening first separated group
      repeats ended units ih =>
    obtain ⟨fuel, rfl, room⟩ := fuel_left enough
    obtain ⟨d, after, rfl, opens, _⟩ := group_opens group
    have skipped := skip_to_number separated opens
    have isMove : (isFirst && kind != .move) = false := by
      cases isFirst with
      | false => rfl
      | true => simp [first rfl]
    have within : (d :: after).length ≤ fuel := Nat.le_trans (separators_length separated) room
    have left : s₄.length ≤ fuel := ((draw_length group repeats ended).trans_le within).le
    have grouped : groups relative (fuel + 1) _ false _ = _ :=
      groups_read group repeats ended (units_at units) (Nat.le_succ_of_le within)
    simp only [Parser.units, letter, isMove, Bool.false_eq_true, if_false, opening, skipped,
      grouped]
    change (Parser.units fuel false s₄ >>= fun cs => pure (⟨b, relative, false⟩ :: more ++ cs)) = _
    rw [ih left]
    rfl

theorem parse_of_renders {text : List Char} {cs : List (Command α)} (renders : Renders text cs) :
    parse text = .ok cs := by
  obtain ⟨blanks, s, rfl, all, units⟩ := renders
  have skipped : (blanks ++ s).dropWhile isBlank = s := by
    rw [List.dropWhile_append_of_pos all]
    cases s with
    | nil => rfl
    | cons c s =>
      have letter : atLetter (c :: s) = true := (units_at units).resolve_left (by simp)
      have open_ := letter_not_separator letter
      simp only [isSeparator, Bool.or_eq_false_iff] at open_
      simp [open_.1]
  simp only [parse, skipped, units_read units (Nat.le_refl _)]

end Parser
end PathData
