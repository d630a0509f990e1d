import Mathlib.Data.List.Forall2
import PathData.Command.Implied
import PathData.Path.Parser

namespace PathData

open scoped PathData.Scalar

variable {α : Type} [Scalar α]

namespace Scalar

-- A number is finite when it is written as a decimal.
def Finite (x : α) : Prop :=
  ∃ d, numeral x = .finite d

instance (x : α) : Decidable (Finite x) :=
  match written : numeral x with
  | .finite d => isTrue ⟨d, written⟩
  | .infinite negative => isFalse fun ⟨_, finite⟩ => by cases written.symm.trans finite
  | .notANumber => isFalse fun ⟨_, finite⟩ => by cases written.symm.trans finite

-- The sign of a zero is not kept in text.
def Same (x y : α) : Prop :=
  x = y ∨ (x == y) = true

end Scalar

namespace Command

def IsFlag (x : α) : Prop :=
  (x == 0) = true ∨ x = 1

structure WellFormed (c : Command α) : Prop where
  finite : ∀ x ∈ c.args, Scalar.Finite x
  flags : ∀ p ∈ c.kind.slots.zip c.args, p.1 = .flag → IsFlag p.2
  close : c.kind = .close → c.relative = false

instance [DecidableEq α] (x : α) : Decidable (IsFlag x) :=
  inferInstanceAs (Decidable (_ ∨ _))

instance [DecidableEq α] (c : Command α) : Decidable c.WellFormed :=
  decidable_of_iff ((∀ x ∈ c.args, Scalar.Finite x) ∧
    (∀ p ∈ c.kind.slots.zip c.args, p.1 = .flag → IsFlag p.2) ∧
    (c.kind = .close → c.relative = false))
    ⟨fun ⟨finite, flags, close⟩ => ⟨finite, flags, close⟩,
      fun ⟨finite, flags, close⟩ => ⟨finite, flags, close⟩⟩

-- Commands that may follow `previous`: a letter is left out only where it is implied.
def WellFormedAfter (previous : Option (Command α)) : List (Command α) → Prop
  | [] => True
  | c :: rest =>
    c.WellFormed ∧ (c.implicit = true → impliedLetter previous = some c.letter) ∧
      WellFormedAfter (some c) rest

def WellFormedPath (cs : List (Command α)) : Prop :=
  (∀ c ∈ cs.head?, c.isMove = true ∧ c.implicit = false) ∧ WellFormedAfter none cs

instance WellFormedAfter.decidable [DecidableEq α] :
    (previous : Option (Command α)) → (cs : List (Command α)) →
      Decidable (WellFormedAfter previous cs)
  | _, [] => isTrue trivial
  | previous, c :: rest =>
    have := WellFormedAfter.decidable (some c) rest
    inferInstanceAs (Decidable (c.WellFormed ∧
      (c.implicit = true → impliedLetter previous = some c.letter) ∧ WellFormedAfter (some c) rest))

instance [DecidableEq α] (cs : List (Command α)) : Decidable (WellFormedPath cs) :=
  inferInstanceAs (Decidable (_ ∧ _))

structure Same (c c' : Command α) : Prop where
  kind : c.kind = c'.kind
  args : List.Forall₂ Scalar.Same c.args c'.args
  relative : c.relative = c'.relative
  implicit : c.implicit = c'.implicit

omit [Scalar α] in
theorem args_length (c : Command α) : c.args.length = c.kind.slots.length := by
  obtain ⟨body, relative, implicit⟩ := c
  cases body <;> rfl

theorem slots_ne_nil {kind : Kind} (opening : kind ≠ .close) : kind.slots ≠ [] := by
  cases kind with
  | close => exact absurd rfl opening
  | _ => simp [Kind.slots]

theorem read_letter (kind : Kind) (relative : Bool) :
    Kind.read? (if relative then kind.letter.toLower else kind.letter) = some (kind, relative) := by
  cases kind <;> cases relative <;> decide

-- The letter says the kind, and whether the command is relative unless it closes.
omit [Scalar α] in
theorem letter_kind (c : Command α) :
    ∃ relative, Kind.read? c.letter = some (c.kind, relative) ∧
      (c.kind ≠ .close → relative = c.relative) := by
  unfold letter
  split
  · rename_i closed
    exact ⟨true, by rw [closed]; decide, fun opening => absurd closed opening⟩
  · exact ⟨c.relative, read_letter _ _, fun _ => rfl⟩

-- The kind and form that a command without a letter is read with.
omit [Scalar α] in
theorem implied_kind {previous c : Command α}
    (implied : impliedLetter (some previous) = some c.letter) :
    previous.kind ≠ .close ∧ c.kind = Parser.repeated previous.kind ∧
      c.relative = previous.relative := by
  obtain ⟨relative, read, form⟩ := letter_kind c
  obtain ⟨relative', read', form'⟩ := letter_kind previous
  have opening : previous.kind ≠ .close := by
    intro closed
    simp [impliedLetter, closed] at implied
  have ofLetter : ∀ k, Kind.read? c.letter = some (k, previous.relative) → k ≠ .close →
      c.kind = k ∧ c.relative = previous.relative := by
    intro k same notClose
    rw [read] at same
    cases same
    exact ⟨rfl, (form notClose).symm⟩
  refine ⟨opening, ?_⟩
  by_cases isMove : previous.kind = .move
  · simp only [impliedLetter, isMove, Option.some.injEq] at implied
    rw [isMove]
    refine ofLetter .line ?_ (by decide)
    rw [← implied]
    cases previous.relative <;> decide
  · have same : previous.letter = c.letter := by
      simp only [impliedLetter] at implied
      exact Option.some.inj implied
    have kept : Parser.repeated previous.kind = previous.kind := by simp [Parser.repeated]
    rw [kept]
    refine ofLetter previous.kind ?_ opening
    rw [← same, read', form' opening]

end Command

namespace Body

omit [Scalar α] in
theorem ofArgs_exists {kind : Kind} {xs : List α} (length : xs.length = kind.slots.length) :
    ∃ b, ofArgs? kind xs = some b ∧ b.kind = kind ∧ b.args = xs := by
  cases kind with
  | close =>
    obtain rfl := List.length_eq_zero_iff.mp length
    exact ⟨_, rfl, rfl, rfl⟩
  | horizontal | vertical =>
    obtain ⟨a, rfl⟩ := List.length_eq_one_iff.mp length
    exact ⟨_, rfl, rfl, rfl⟩
  | move | line | smoothQuadratic =>
    obtain ⟨a, b, rfl⟩ := List.length_eq_two.mp length
    exact ⟨_, rfl, rfl, rfl⟩
  | smoothCubic | quadratic =>
    match xs, length with
    | [a, b, c, d], _ => exact ⟨_, rfl, rfl, rfl⟩
  | cubic =>
    match xs, length with
    | [a, b, c, d, e, f], _ => exact ⟨_, rfl, rfl, rfl⟩
  | arc =>
    match xs, length with
    | [a, b, c, d, e, f, g], _ => exact ⟨_, rfl, rfl, rfl⟩

end Body
end PathData
