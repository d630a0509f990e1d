import Mathlib
import PathData.Proofs.Exact
import PathData.Proofs.FilterRuns

namespace PathData

open scoped PathData.Exact

variable {α : Type} [Field α]

namespace Grid

-- Multiples of the unit of rounding: one decimal unit of the precision, or one.
def On (precision : ℤ) (x : α) : Prop := Multiple (places precision) x

def PointOn (precision : ℤ) (p : Point α) : Prop := On precision p.x ∧ On precision p.y

def CommandOn (precision : ℤ) (c : Command α) : Prop := ∀ x ∈ c.body.numbers, On precision x

theorem CommandOn.tagAfter {precision : ℤ} {c : Command α} (on : CommandOn precision c)
    (previous : Option (Command α)) : CommandOn precision (Command.tagAfter previous c) := by
  unfold CommandOn
  rw [Command.body_tagAfter]
  exact on

structure PlacedOn (precision : ℤ) (p : Placed α) : Prop where
  command : CommandOn precision p.command
  start : PointOn precision p.start
  stop : PointOn precision p.stop

end Grid

namespace Filter

structure StateOn (precision : ℤ) (s : State α) : Prop where
  cursor : Grid.PointOn precision s.cursor
  subpathStart : Grid.PointOn precision s.subpathStart
  output : ∀ p ∈ s.output, Grid.PlacedOn precision p

theorem pop_on {precision : ℤ} {s before : State α} (on : StateOn precision s)
    (popped : s.pop? = some (p, before)) : StateOn precision before := by
  unfold State.pop? at popped
  cases output : s.output with
  | nil =>
    rw [output] at popped
    cases popped
  | cons q rest =>
    rw [output] at popped
    cases popped
    have kept : ∀ q ∈ p :: rest, Grid.PlacedOn precision q := output ▸ on.output
    exact ⟨(kept p List.mem_cons_self).start, on.subpathStart,
      fun q member => kept q (List.mem_cons_of_mem _ member)⟩

end Filter

variable [LinearOrder α] [FloorRing α] [Exact.Roots α]

namespace Grid

theorem origin_on (precision : ℤ) : PointOn precision (.origin : Point α) := by
  have zero : On precision ((0 : ℕ) : α) := by
    rw [Nat.cast_zero]
    exact Multiple.zero _
  exact ⟨zero, zero⟩

theorem add_on {precision : ℤ} {p q : Point α} (left : PointOn precision p)
    (right : PointOn precision q) : PointOn precision (p + q) :=
  ⟨left.1.add right.1, left.2.add right.2⟩

theorem endPoint_on {precision : ℤ} {c : Command α} {start subpathStart : Point α}
    (on : CommandOn precision c) (starts : PointOn precision start)
    (subpath : PointOn precision subpathStart) :
    PointOn precision (c.endPoint start subpathStart) := by
  have base : PointOn precision (if c.relative then start else .origin) := by
    split
    · exact starts
    · exact origin_on precision
  unfold Command.endPoint
  unfold CommandOn at on
  cases body : c.body with
  | close => exact subpath
  | horizontal x =>
    have onX : On precision x := on x (by simp [body, Body.numbers, Body.args])
    exact ⟨base.1.add onX, starts.2⟩
  | vertical y =>
    have onY : On precision y := on y (by simp [body, Body.numbers, Body.args])
    exact ⟨starts.1, base.2.add onY⟩
  | move p | line p | smoothQuadratic p | cubic _ _ p | smoothCubic _ p | quadratic _ p | arc _ p =>
    have onX : On precision p.x := on p.x (by simp [body, Body.numbers, Body.args])
    have onY : On precision p.y := on p.y (by simp [body, Body.numbers, Body.args])
    exact add_on base ⟨onX, onY⟩

end Grid

theorem Filter.emit_on {precision : ℤ} {s : Filter.State α} (on : Filter.StateOn precision s)
    {step : Filter.Step α} (command : Grid.CommandOn precision step.command) :
    Filter.StateOn precision (s.emit step) := by
  have stop := Grid.endPoint_on command on.cursor on.subpathStart
  refine ⟨stop, ?_, ?_⟩
  · unfold Filter.State.emit
    dsimp only
    split
    · exact stop
    · exact on.subpathStart
  · intro p member
    rcases List.mem_cons.1 member with rfl | earlier
    · exact ⟨command.tagAfter _, on.cursor, stop⟩
    · exact on.output p earlier

variable [IsStrictOrderedRing α]

namespace Grid

omit [Exact.Roots α] in
theorem Multiple.on {precision : ℤ} (few : precision < 20) {x : α}
    (multiple : Multiple precision x) : On precision x := by
  unfold On places
  split
  · exact multiple
  · rename_i keeps
    exact multiple.of_le (not_lt.1 fun more => keeps ⟨more, few⟩)

theorem roundCommand_on {o : Options α} {c c' : Command α}
    (rounded : o.roundCommand error c = .ok c') : CommandOn o.precision c' := by
  obtain ⟨body, mapped, made⟩ := Fault.bind_ok.1 rounded
  cases made
  intro y member
  obtain ⟨x, _, here⟩ := forall₂_right (Body.mapNumbers_ok.1 mapped).numbers member
  unfold Options.round at here
  rw [Exact.round_eq] at here
  cases here
  exact rounded_multiple o.precision error x

theorem roundCommand_of_on {o : Options α} {c : Command α} (error : α)
    (on : CommandOn o.precision c) : o.roundCommand error c = .ok c := by
  have fixed : ∀ x ∈ c.body.numbers, o.round error x = .ok x := by
    intro x member
    unfold Options.round
    rw [Exact.round_eq, rounded_of_multiple error (on x member)]
  unfold Options.roundCommand Command.mapNumbers
  rw [Body.mapNumbers_ok.2 (Body.related_self fixed)]
  rfl

end Grid

namespace Filter

variable {f : Setup α} {s : State α}

theorem written_on (written : Written f c) : Grid.CommandOn f.options.precision c := by
  cases written with
  | placed placed => exact Grid.roundCommand_on placed
  | close => exact fun x member => nomatch member

theorem reached_on {sources : List (Source α)} (reached : Reached f sources s k) :
    StateOn f.options.precision s := by
  have origin := Grid.origin_on (α := α) f.options.precision
  refine reached_induction ?_ ?_ ?_ reached
  · exact ⟨origin, origin, by simp [State.initial]⟩
  · intro s c handle on written
    exact emit_on on (written_on written)
  · intro s p before on popped
    exact pop_on on popped

end Filter
end PathData
