import Mathlib
import PathData.Proofs.PassEffects
import PathData.Proofs.Redrawing

namespace PathData

section Fixed

variable {α : Type}

theorem Command.tagAfter_tagAfter (previous : Option (Command α)) (c : Command α) :
    tagAfter previous (tagAfter previous c) = tagAfter previous c := by
  by_cases implied : c.kind ≠ .close ∧ impliedLetter previous = some c.letter
  · have once : tagAfter previous c = c.asImplicit := if_pos implied
    rw [once]
    exact if_pos implied
  · have once : tagAfter previous c = c.explicit := if_neg implied
    rw [once]
    exact if_neg implied

theorem Command.tagAfter_none (c : Command α) : tagAfter none c = c.explicit := by
  unfold tagAfter
  rw [if_neg]
  rintro ⟨_, implied⟩
  cases implied

theorem Placed.retagFrom_retagFrom (previous : Option (Command α)) (ps : List (Placed α)) :
    retagFrom previous (retagFrom previous ps) = retagFrom previous ps := by
  induction ps generalizing previous with
  | nil => rfl
  | cons p rest ih =>
    have same := Command.tagAfter_tagAfter previous p.command
    simp only [retagFrom, same, ih]

namespace Cleanup

theorem settleLoneMove_relative {p : Placed α} (isMove : p.command.kind = .move) :
    ∃ q, settleLoneMove [p] = [q] ∧ q.command.kind = .move ∧ q.command.relative = false := by
  unfold settleLoneMove
  dsimp only
  split
  · exact ⟨_, rfl, isMove, rfl⟩
  · rename_i stays
    exact ⟨p, rfl, isMove, by simpa [Command.isMove, isMove] using stays⟩

end Cleanup

variable [Scalar α]

namespace Cleanup

variable {saving : Bool} {c d : Command α} {p first second : Placed α} {ps rest : List (Placed α)}

theorem mergeFrom_fixed (apart : Apart (p :: ps)) : mergeFrom p ps = p :: ps := by
  induction ps generalizing p with
  | nil => rfl
  | cons next rest ih =>
    obtain ⟨here, later⟩ := List.isChain_cons_cons.1 apart
    unfold mergeFrom
    rw [if_neg, ih later]
    intro moves
    rw [Bool.and_eq_true] at moves
    exact here ⟨of_decide_eq_true moves.2, of_decide_eq_true moves.1⟩

theorem mergeMoves_fixed (apart : Apart ps) : mergeMoves ps = ps := by
  cases ps with
  | nil => rfl
  | cons p rest => exact mergeFrom_fixed apart

-- A first command that gains nothing from the form of the line after it.
def Content (saving : Bool) (c d : Command α) : Prop :=
  c.isMove = true → d.kind = .line → c.relative ≠ d.relative →
    (print saving [c, d.explicit]).length ≤
      (print saving [{ c with relative := d.relative, implicit := false }, d.asImplicit]).length

theorem switchLeadingMove_fixed (content : Content saving first.command second.command) :
    switchLeadingMove saving (first :: second :: rest) = first :: second :: rest := by
  unfold switchLeadingMove
  dsimp only
  split
  · rename_i switches
    simp only [Bool.and_eq_true, decide_eq_true_eq, bne_iff_ne] at switches
    rw [if_neg (not_lt.2 (content switches.1.1 switches.1.2 switches.2))]
  · rfl

theorem switchLeadingMove_content (saving : Bool) (first second : Placed α)
    (rest : List (Placed α)) : ∃ first' second',
      switchLeadingMove saving (first :: second :: rest) = first' :: second' :: rest ∧
      Content saving first'.command second'.command ∧
      (first.command.implicit = false → first'.command.implicit = false) := by
  unfold switchLeadingMove
  dsimp only
  split
  · split
    · exact ⟨_, _, rfl, fun _ _ differ => absurd rfl differ, fun _ => rfl⟩
    · rename_i noShorter
      exact ⟨first, second, rfl, fun _ _ _ => not_lt.1 noShorter, id⟩
  · rename_i stays
    refine ⟨first, second, rfl, ?_, id⟩
    intro isMove isLine differ
    simp [isMove, isLine, differ] at stays

theorem Content.tagAfter (content : Content saving c d) :
    Content saving c (Command.tagAfter (some c) d) := by
  intro isMove isLine differ
  rw [Command.kind_tagAfter] at isLine
  rw [Command.relative_tagAfter] at differ ⊢
  have spelled : Command.tagAfter (some c) d = d.explicit := by
    unfold Command.tagAfter
    rw [if_neg]
    rintro ⟨_, implied⟩
    have kind : c.kind = .move := of_decide_eq_true isMove
    simp only [Command.impliedLetter, Command.letter, kind, isLine] at implied
    cases relative : c.relative <;> cases relative' : d.relative <;>
      simp [relative, relative', Kind.letter] at differ implied
  rw [spelled]
  exact content isMove isLine differ

-- What each step of cleanup leaves as it is.
structure Clean (saving : Bool) (ps : List (Placed α)) : Prop where
  apart : Apart ps
  leads : switchLeadingMove saving ps = ps
  settled : settleLoneMove ps = ps
  tagged : Placed.retagFrom none ps = ps

theorem Clean.fixed (clean : Clean saving ps) : cleanup saving ps = ps := by
  unfold cleanup
  rw [mergeMoves_fixed clean.apart, clean.leads, clean.settled, clean.tagged]

end Cleanup

open Cleanup

variable {ps : List (Placed α)}

theorem cleanup_cases
    (opens : ∃ p, ps.head? = some p ∧ p.command.kind = .move ∧ p.command.implicit = false)
    (saving : Bool) :
    (∃ p, cleanup saving ps = [p] ∧ p.command.kind = .move ∧ p.command.relative = false) ∨
      ∃ first second rest, cleanup saving ps = first :: second :: rest ∧
        Content saving first.command second.command := by
  obtain ⟨p, isFirst, isMove, spelled⟩ := opens
  obtain ⟨others, rfl⟩ := List.head?_eq_some_iff.1 isFirst
  obtain ⟨q, later, merged, kind, implicit⟩ := mergeFrom_head p others
  have merges : mergeMoves (p :: others) = q :: later := merged
  unfold cleanup
  rw [merges]
  cases later with
  | nil =>
    left
    obtain ⟨settled, settles, stays, absolute⟩ := settleLoneMove_relative (kind.trans isMove)
    have alone : switchLeadingMove saving [q] = [q] := rfl
    rw [alone, settles]
    refine ⟨_, rfl, ?_, ?_⟩
    · exact (Command.kind_tagAfter _ _).trans stays
    · exact (Command.relative_tagAfter _ _).trans absolute
  | cons second rest =>
    right
    obtain ⟨first', second', switched, content, keeps⟩ :=
      switchLeadingMove_content saving q second rest
    have unchanged : Command.tagAfter none first'.command = first'.command := by
      rw [Command.tagAfter_none]
      unfold Command.explicit
      rw [← keeps (implicit.trans spelled)]
    rw [switched]
    refine ⟨_, _, _, rfl, ?_⟩
    rw [unchanged]
    exact content.tagAfter

theorem cleanup_clean
    (opens : ∃ p, ps.head? = some p ∧ p.command.kind = .move ∧ p.command.implicit = false)
    (saving : Bool) : Clean saving (cleanup saving ps) := by
  refine ⟨cleanup_apart saving ps, ?_, ?_, Placed.retagFrom_retagFrom none _⟩
  · rcases cleanup_cases opens saving with ⟨p, made, _⟩ | ⟨first, second, rest, made, content⟩
    · rw [made]
      rfl
    · rw [made]
      exact switchLeadingMove_fixed content
  · rcases cleanup_cases opens saving with ⟨p, made, _, absolute⟩ | ⟨first, second, rest, made, _⟩
    · rw [made]
      unfold settleLoneMove
      simp [absolute]
    · rw [made]
      rfl

end Fixed

open scoped PathData.Exact

variable {α : Type} [Field α] [LinearOrder α] [FloorRing α] [Exact.Roots α]

theorem cleanup_keeps_drawing {ps : List (Placed α)}
    (opens : ∃ p, ps.head? = some p ∧ p.command.kind = .move ∧ p.command.implicit = false)
    (laid : Laid .initial ps) (saving : Bool) :
    Cleanup.Apart (cleanup saving ps) ∧
      ((longhand (Placed.commands (cleanup saving ps))).filter fun g => !g.isMove) =
        ((longhand (Placed.commands ps)).filter fun g => !g.isMove) ∧
      Laid .initial (cleanup saving ps) ∧
      (∀ p, cleanup saving ps = [p] → p.command.kind = .move ∧ p.command.relative = false) ∧
      cleanup saving (cleanup saving ps) = cleanup saving ps := by
  have retraced := cleanup_retraces laid saving
  refine ⟨cleanup_apart saving ps, retraced.same, retraced.laid, ?_, (cleanup_clean opens saving).fixed⟩
  intro p alone
  rcases cleanup_cases opens saving with ⟨q, made, isMove, absolute⟩ | ⟨first, second, rest, made, _⟩
  · cases alone.symm.trans made
    exact ⟨isMove, absolute⟩
  · cases alone.symm.trans made

def strayMoves : List (Placed ℚ) :=
  [⟨⟨.move ⟨1 / 3, 2⟩, true, false⟩, ⟨0, 0⟩, ⟨1 / 3, 2⟩⟩,
    ⟨⟨.move ⟨4, 5⟩, false, false⟩, ⟨1 / 3, 2⟩, ⟨4, 5⟩⟩,
    ⟨⟨.move ⟨1, 1⟩, true, false⟩, ⟨4, 5⟩, ⟨5, 6⟩⟩,
    ⟨⟨.line ⟨7, 8⟩, false, false⟩, ⟨5, 6⟩, ⟨7, 8⟩⟩,
    ⟨⟨.line ⟨1, 0⟩, true, false⟩, ⟨7, 8⟩, ⟨8, 8⟩⟩,
    ⟨⟨.move ⟨2, 2⟩, false, false⟩, ⟨8, 8⟩, ⟨2, 2⟩⟩,
    ⟨⟨.move ⟨1, 1⟩, true, false⟩, ⟨2, 2⟩, ⟨3, 3⟩⟩,
    ⟨⟨.close, false, false⟩, ⟨3, 3⟩, ⟨3, 3⟩⟩]

theorem cleanup_keeps_drawing_stray :
    (Placed.commands (cleanup true strayMoves)).length = 5 ∧ Laid .initial strayMoves ∧
      Laid .initial (cleanup true strayMoves) ∧
      cleanup true (cleanup true strayMoves) = cleanup true strayMoves := by
  have laid : Laid .initial strayMoves := by
    refine ⟨?_, ?_, ?_, ?_, ?_, ?_, ?_, ?_, ?_, ?_, ?_, ?_, ?_, ?_, ?_, ?_, trivial⟩ <;>
      decide +kernel
  obtain ⟨_, _, stays, _, fixed⟩ := cleanup_keeps_drawing ⟨_, rfl, rfl, rfl⟩ laid true
  exact ⟨by decide +kernel, laid, stays, fixed⟩

end PathData
