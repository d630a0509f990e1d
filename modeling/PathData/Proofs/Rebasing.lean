import Mathlib
import PathData.Proofs.PassEffects
import PathData.Proofs.Redrawing

namespace PathData

section Forms

variable {α : Type}

-- Every letter that is left out is the one that the command before implies.
def Command.Implied (previous : Option (Command α)) : List (Command α) → Prop
  | [] => True
  | c :: rest =>
    (c.implicit = true → impliedLetter previous = some c.letter) ∧ Implied (some c) rest

namespace Rebase

theorem relative_keepTag (previous : Option (Command α)) (c : Command α) :
    (keepTag previous c).relative = c.relative := by
  unfold keepTag
  split <;> rfl

theorem keepTag_inherited {c : Command α} {previous : Option (Command α)}
    (stays : (keepTag previous c).implicit = true) : c.implicit = true := by
  unfold keepTag at stays
  split at stays
  · cases stays
  · exact stays

theorem keepTag_implied {c : Command α} {previous : Option (Command α)}
    (stays : (keepTag previous c).implicit = true) :
    Command.impliedLetter previous = some (keepTag previous c).letter := by
  have inherited := keepTag_inherited stays
  unfold keepTag at stays ⊢
  split at stays
  · cases stays
  · rename_i keeps
    rw [if_neg keeps]
    by_contra other
    exact keeps ⟨inherited, other⟩

end Rebase

variable [Scalar α]

-- Commands that draw the same one by one and leave the pen the same.
inductive DrawnAlike : Pen α → List (Command α) → List (Command α) → Prop
  | nil (pen : Pen α) : DrawnAlike pen [] []
  | cons {pen : Pen α} {c c' : Command α} {cs cs' : List (Command α)}
      (same : pen.draw c' = pen.draw c) (later : DrawnAlike (pen.draw c).2 cs cs') :
      DrawnAlike pen (c :: cs) (c' :: cs')

theorem DrawnAlike.drawAll {pen : Pen α} {cs cs' : List (Command α)}
    (alike : DrawnAlike pen cs cs') : pen.drawAll cs' = pen.drawAll cs := by
  induction alike with
  | nil => rfl
  | @cons pen c c' cs cs' same _ ih =>
    change (pen.draw c').1 :: (pen.draw c').2.drawAll cs' = _
    rw [same]
    exact congrArg ((pen.draw c).1 :: ·) ih

theorem DrawnAlike.after {pen : Pen α} {cs cs' : List (Command α)} (alike : DrawnAlike pen cs cs')
    (n : Nat) : pen.after (cs'.take n) = pen.after (cs.take n) := by
  induction alike generalizing n with
  | nil => rfl
  | @cons pen c c' cs cs' same _ ih =>
    cases n with
    | zero => rfl
    | succ n =>
      change (pen.draw c').2.after (cs'.take n) = (pen.draw c).2.after (cs.take n)
      rw [same]
      exact ih n

namespace Rebase

theorem relative_step (absolute : Bool) (s : State α) {c : Command α} (draws : c.kind ≠ .close) :
    (step absolute s c).1.command.relative = !absolute := by
  unfold step
  dsimp only
  rw [relative_keepTag]
  cases absolute with
  | true =>
    change (c.toAbsolute s.cursor).relative = false
    unfold Command.toAbsolute
    cases relative : c.relative <;> simp [relative, draws]
  | false =>
    change (c.toRelative s.cursor).relative = true
    unfold Command.toRelative
    cases relative : c.relative <;> simp [relative, draws]

-- The form of a command and its form after rebasing. A close has no coordinates to change.
structure Restates (absolute : Bool) (c c' : Command α) : Prop where
  draws : c.kind ≠ .close → c'.relative = !absolute
  closes : c.kind = .close → c'.relative = c.relative
  inherited : c'.implicit = true → c.implicit = true

theorem step_restates (absolute : Bool) (s : State α) (c : Command α) :
    Restates absolute c (step absolute s c).1.command where
  draws := relative_step absolute s
  closes := by
    intro closes
    unfold step
    dsimp only
    rw [relative_keepTag]
    cases absolute with
    | true =>
      change (c.toAbsolute s.cursor).relative = c.relative
      simp [Command.toAbsolute, closes]
    | false =>
      change (c.toRelative s.cursor).relative = c.relative
      simp [Command.toRelative, closes]
  inherited := by
    intro stays
    have inherited := keepTag_inherited stays
    cases absolute with
    | true =>
      change (c.toAbsolute s.cursor).implicit = true at inherited
      unfold Command.toAbsolute at inherited
      split at inherited <;> exact inherited
    | false =>
      change (c.toRelative s.cursor).implicit = true at inherited
      unfold Command.toRelative at inherited
      split at inherited <;> exact inherited

theorem stepAll_restates (absolute : Bool) (s : State α) (cs : List (Command α)) :
    List.Forall₂ (Restates absolute) cs (Placed.commands (stepAll absolute s cs)) := by
  induction cs generalizing s with
  | nil => exact .nil
  | cons c rest ih => exact .cons (step_restates absolute s c) (ih _)

theorem stepAll_implied (absolute : Bool) (s : State α) (cs : List (Command α)) :
    Command.Implied s.previous (Placed.commands (stepAll absolute s cs)) := by
  induction cs generalizing s with
  | nil => trivial
  | cons c rest ih => exact ⟨keepTag_implied, ih (step absolute s c).2⟩

end Rebase
end Forms

open scoped PathData.Exact

variable {α : Type} [Field α] [LinearOrder α] [FloorRing α] [Exact.Roots α]

namespace Rebase

variable {pen : Pen α} {s : State α}

structure Agrees (s : State α) (pen : Pen α) : Prop where
  cursor : s.cursor = pen.position
  subpathStart : s.subpathStart = pen.subpathStart

theorem Agrees.initial : Agrees (Rebase.initial : State α) .initial :=
  ⟨rfl, rfl⟩

theorem step_draws (agrees : Agrees s pen) (absolute : Bool) (c : Command α) :
    pen.draw (step absolute s c).1.command = pen.draw c ∧
      Agrees (step absolute s c).2 (pen.draw c).2 := by
  refine ⟨?_, ?_⟩
  · have kept (previous : Option (Command α)) (c : Command α) :
        pen.draw (keepTag previous c) = pen.draw c := by
      unfold keepTag
      split
      · exact Pen.draw_explicit pen c
      · rfl
    unfold step
    dsimp only
    rw [kept, agrees.cursor]
    split
    · exact Pen.draw_toAbsolute pen c
    · exact Pen.draw_toRelative pen c
  · unfold step Pen.draw
    dsimp only
    rw [agrees.cursor, agrees.subpathStart]
    exact ⟨rfl, rfl⟩

theorem stepAll_drawnAlike (agrees : Agrees s pen) (absolute : Bool) (cs : List (Command α)) :
    DrawnAlike pen cs (Placed.commands (stepAll absolute s cs)) := by
  induction cs generalizing s pen with
  | nil => exact .nil pen
  | cons c rest ih =>
    obtain ⟨same, after⟩ := step_draws agrees absolute c
    exact .cons same (ih after)

theorem step_laid {placed : List (Placed α)} (agrees : Agrees s pen) (absolute : Bool)
    (c : Command α) (later : Laid (pen.draw c).2 placed) :
    Laid pen ((step absolute s c).1 :: placed) := by
  obtain ⟨same, after⟩ := step_draws agrees absolute c
  refine ⟨agrees.cursor, ?_, same ▸ later⟩
  rw [same]
  exact after.cursor

theorem stepAll_laid (agrees : Agrees s pen) (absolute : Bool) (cs : List (Command α)) :
    Laid pen (stepAll absolute s cs) := by
  induction cs generalizing s pen with
  | nil => trivial
  | cons c rest ih => exact step_laid agrees absolute c (ih (step_draws agrees absolute c).2)

end Rebase

open Rebase

theorem rebase_drawnAlike (absolute : Bool) (path : List (Command α)) :
    DrawnAlike .initial path (Placed.commands (rebase absolute path)) := by
  cases path with
  | nil => exact .nil _
  | cons c rest =>
    obtain ⟨same, after⟩ := step_draws .initial true c
    exact .cons same (stepAll_drawnAlike after absolute rest)

theorem rebase_laid (absolute : Bool) (path : List (Command α)) :
    Laid .initial (rebase absolute path) := by
  cases path with
  | nil => trivial
  | cons c rest =>
    exact step_laid .initial true c (stepAll_laid (step_draws .initial true c).2 absolute rest)

theorem longhand_rebase (absolute : Bool) (path : List (Command α)) :
    longhand (Placed.commands (rebase absolute path)) = longhand path :=
  (rebase_drawnAlike absolute path).drawAll

-- A path and what rebasing makes of it. Only the first command is written in absolute form when the
-- others are not.
structure Rebased (absolute : Bool) (path : List (Command α)) (ps : List (Placed α)) : Prop where
  kinds : (Placed.commands ps).map Command.kind = path.map Command.kind
  points : (ps.map fun p => (p.start, p.stop)) = (longhand path).map fun g => (g.start, g.stop)
  contiguous : ps.IsChain fun p q => p.stop = q.start
  drawn : longhand (Placed.commands ps) = longhand path
  pens : ∀ n, Pen.initial.after ((Placed.commands ps).take n) = Pen.initial.after (path.take n)
  first : List.Forall₂ (Restates true) (path.take 1) ((Placed.commands ps).take 1)
  others : List.Forall₂ (Restates absolute) (path.drop 1) ((Placed.commands ps).drop 1)
  implied : Command.Implied none (Placed.commands ps)

theorem rebase_keeps_geometry (absolute : Bool) (path : List (Command α)) :
    Rebased absolute path (rebase absolute path) := by
  have laid := rebase_laid absolute path
  have alike := rebase_drawnAlike absolute path
  refine ⟨kinds_rebase absolute path, ?_, laid_contiguous laid, alike.drawAll, alike.after, ?_, ?_,
    ?_⟩
  · rw [laid_points laid]
    exact congrArg _ alike.drawAll
  · cases path with
    | nil => exact .nil
    | cons c rest => exact .cons (step_restates true _ c) .nil
  · cases path with
    | nil => exact .nil
    | cons c rest => exact stepAll_restates absolute _ rest
  · cases path with
    | nil => trivial
    | cons c rest => exact ⟨keepTag_implied, stepAll_implied absolute (step true initial c).2 rest⟩

end PathData
