import Mathlib
import PathData.Filter.Candidates
import PathData.Proofs.Rebasing
import PathData.Proofs.SignedZeros

namespace PathData

open scoped PathData.Scalar

section Forms

variable {α : Type} [Scalar α]

namespace Segment

def body (g : Segment α) : Body α :=
  match g.shape with
  | .move => .move g.stop
  | .line => .line g.stop
  | .cubic c1 c2 => .cubic c1 c2 g.stop
  | .quadratic c => .quadratic c g.stop
  | .arc e => .arc ⟨e.rx, e.ry, e.rotation, Filter.flag e.large, Filter.flag e.sweep⟩ g.stop
  | .close => .close

-- The absolute command of its kind that draws a segment.
def command (g : Segment α) : Command α :=
  { body := g.body }

-- Where the subpath begins that comes after some segments: at the end of the last move.
def subpathStart (gs : List (Segment α)) : Point α :=
  ((gs.reverse.find? isMove).map stop).getD .origin

end Segment

-- The laws that writing out relies on. Coordinates are sums, and what was added to zero once stays
-- as it is when it is added to zero again.
class LonghandLaws (α : Type) [Scalar α] : Prop where
  zero_add_zero : (0 : α) + 0 = 0
  zero_add_add : ∀ a b : α, 0 + a = a → 0 + (a + b) = a + b
  abs_abs : ∀ a : α, Scalar.abs (Scalar.abs a) = Scalar.abs a
  zero_beq_zero : ((0 : α) == 0) = true
  one_beq_zero : ((1 : α) == 0) = false

instance : LonghandLaws Float where
  zero_add_zero := by decide +kernel
  zero_add_add _ b settled := Double.zero_add_add settled b
  abs_abs := Double.abs_abs
  zero_beq_zero := by decide +kernel
  one_beq_zero := Double.one_not_zero

-- A point that stays as it is when it is counted from the origin.
def Point.Settled (p : Point α) : Prop :=
  .origin + p = p

theorem Point.settled_iff {p : Point α} : p.Settled ↔ 0 + p.x = p.x ∧ 0 + p.y = p.y := by
  constructor
  · intro settled
    exact ⟨congrArg Point.x settled, congrArg Point.y settled⟩
  · intro ⟨onX, onY⟩
    exact Point.ext onX onY

namespace Pen

structure Settled (pen : Pen α) : Prop where
  position : pen.position.Settled
  subpathStart : pen.subpathStart.Settled

structure Drawable (pen : Pen α) (g : Segment α) : Prop where
  start : g.start = pen.position
  stop : g.stop.Settled
  closes : g.shape = .close → g.stop = pen.subpathStart
  radii : ∀ e, g.shape = .arc e → Scalar.abs e.rx = e.rx ∧ Scalar.abs e.ry = e.ry

theorem draw_leaves (pen : Pen α) (c : Command α) :
    (pen.draw c).2 = { position := (pen.draw c).1.stop,
                       subpathStart := if (pen.draw c).1.isMove then (pen.draw c).1.stop
                         else pen.subpathStart,
                       handle := (pen.draw c).1.handle } := by
  rw [← draw_handle, draw_isMove]
  rfl

variable [LonghandLaws α] {pen : Pen α}

theorem origin_settled : (Point.origin : Point α).Settled :=
  Point.settled_iff.2 ⟨LonghandLaws.zero_add_zero, LonghandLaws.zero_add_zero⟩

theorem add_settled {p : Point α} (settled : p.Settled) (q : Point α) : (p + q).Settled := by
  obtain ⟨onX, onY⟩ := Point.settled_iff.1 settled
  apply Point.settled_iff.2
  exact ⟨LonghandLaws.zero_add_add _ _ onX, LonghandLaws.zero_add_add _ _ onY⟩

theorem initial_settled : (Pen.initial : Pen α).Settled :=
  ⟨origin_settled, origin_settled⟩

theorem stop_settled (settled : pen.Settled) (c : Command α) : (pen.draw c).1.stop.Settled := by
  change (c.endPoint pen.position pen.subpathStart).Settled
  have based : (if c.relative then pen.position else .origin).Settled := by
    split
    · exact settled.position
    · exact origin_settled
  unfold Command.endPoint
  generalize (if c.relative then pen.position else .origin) = base at based
  have start := Point.settled_iff.1 settled.position
  have counted := Point.settled_iff.1 based
  cases c.body with
  | close => exact settled.subpathStart
  | horizontal x =>
    apply Point.settled_iff.2
    exact ⟨LonghandLaws.zero_add_add _ _ counted.1, start.2⟩
  | vertical y =>
    apply Point.settled_iff.2
    exact ⟨start.1, LonghandLaws.zero_add_add _ _ counted.2⟩
  | move p | line p | smoothQuadratic p | cubic _ _ p | smoothCubic _ p | quadratic _ p | arc _ p =>
    exact add_settled based p

theorem draw_settled (settled : pen.Settled) (c : Command α) : (pen.draw c).2.Settled := by
  have stop := stop_settled settled c
  rw [draw_leaves]
  refine ⟨stop, ?_⟩
  dsimp only
  split
  · exact stop
  · exact settled.subpathStart

theorem draw_drawable (settled : pen.Settled) (c : Command α) :
    pen.Drawable (pen.draw c).1 where
  start := rfl
  stop := stop_settled settled c
  closes := draw_close
  radii := by
    intro e shape
    unfold draw at shape
    cases body : (c.toAbsolute pen.position).body <;> rw [body] at shape <;> cases shape
    exact ⟨LonghandLaws.abs_abs _, LonghandLaws.abs_abs _⟩

theorem flag_read (b : Bool) : (!((Filter.flag b : α) == 0)) = b := by
  cases b with
  | true => exact congrArg not LonghandLaws.one_beq_zero
  | false => exact congrArg not LonghandLaws.zero_beq_zero

theorem draw_command {g : Segment α} (drawable : pen.Drawable g) :
    (pen.draw g.command).1 = g := by
  obtain ⟨start, shape, stop⟩ := g
  obtain ⟨starts, stops, closes, radii⟩ := drawable
  cases starts
  have stops : .origin + stop = stop := stops
  cases shape with
  | move | line | cubic | quadratic => exact congrArg (Segment.mk _ _) stops
  | close => exact congrArg (Segment.mk _ _) (closes rfl).symm
  | arc e =>
    obtain ⟨byX, byY⟩ := radii e rfl
    change Segment.mk _ (.arc ⟨Scalar.abs e.rx, Scalar.abs e.ry, e.rotation,
      !(Filter.flag e.large == 0), !(Filter.flag e.sweep == 0)⟩) (.origin + stop) = _
    rw [byX, byY, flag_read, flag_read, stops]

theorem draw_writtenOut (settled : pen.Settled) (c : Command α) :
    pen.draw (pen.draw c).1.command = pen.draw c := by
  have same := draw_command (draw_drawable settled c)
  apply Prod.ext same
  rw [draw_leaves, draw_leaves pen c, same]

end Pen

theorem writeOut_drawnAlike [LonghandLaws α] {pen : Pen α} (settled : pen.Settled)
    (cs : List (Command α)) (n : ℕ) :
    DrawnAlike pen cs ((pen.drawAll (cs.take n)).map Segment.command ++ cs.drop n) := by
  induction cs generalizing pen n with
  | nil =>
    rw [List.take_nil, List.drop_nil]
    exact .nil pen
  | cons c rest ih =>
    have later := Pen.draw_settled settled c
    cases n with
    | zero =>
      refine .cons rfl ?_
      simpa [Pen.drawAll] using ih later 0
    | succ n => exact .cons (Pen.draw_writtenOut settled c) (ih later n)

namespace Pen

theorem drawAll_split {pen : Pen α} {cs : List (Command α)} {before after : List (Segment α)}
    {g : Segment α} (split : pen.drawAll cs = before ++ g :: after) :
    ∃ first c rest, cs = first ++ c :: rest ∧ pen.drawAll first = before ∧
      ((pen.after first).draw c).1 = g := by
  induction before generalizing pen cs with
  | nil =>
    cases cs with
    | nil => cases split
    | cons c rest =>
      cases split
      exact ⟨[], c, rest, rfl, rfl, rfl⟩
  | cons h before ih =>
    cases cs with
    | nil => cases split
    | cons c rest =>
      obtain ⟨here, later⟩ := List.cons.inj split
      obtain ⟨first, c', rest', parts, drawn, last⟩ := ih later
      exact ⟨c :: first, c', rest', congrArg (c :: ·) parts, congrArg₂ List.cons here drawn, last⟩

theorem after_settled [LonghandLaws α] {pen : Pen α} (settled : pen.Settled)
    (cs : List (Command α)) : (pen.after cs).Settled := by
  induction cs generalizing pen with
  | nil => exact settled
  | cons c rest ih => exact ih (draw_settled settled c)

theorem drawAll_take (pen : Pen α) (cs : List (Command α)) (n : ℕ) :
    pen.drawAll (cs.take n) = (pen.drawAll cs).take n := by
  induction cs generalizing pen n with
  | nil =>
    rw [List.take_nil]
    exact List.take_nil.symm
  | cons c rest ih =>
    cases n with
    | zero => rfl
    | succ n => exact congrArg ((pen.draw c).1 :: ·) (ih (pen.draw c).2 n)

theorem drawAll_contiguous (pen : Pen α) (cs : List (Command α)) :
    (pen.drawAll cs).IsChain fun g h => g.stop = h.start := by
  induction cs generalizing pen with
  | nil => exact .nil
  | cons c rest ih =>
    cases rest with
    | nil => exact .singleton _
    | cons d rest => exact .cons_cons rfl (ih (pen.draw c).2)

theorem subpathStart_after (pen : Pen α) (cs : List (Command α)) :
    (pen.after cs).subpathStart =
      (((pen.drawAll cs).reverse.find? Segment.isMove).map Segment.stop).getD pen.subpathStart := by
  induction cs using List.reverseRecOn with
  | nil => rfl
  | append_singleton cs c ih =>
    rw [after_append, drawAll_append, List.reverse_append]
    change ((pen.after cs).draw c).2.subpathStart = _
    rw [draw_leaves]
    change _ = (((((pen.after cs).draw c).1 :: (pen.drawAll cs).reverse).find?
      Segment.isMove).map Segment.stop).getD _
    rw [List.find?_cons]
    cases ((pen.after cs).draw c).1.isMove with
    | true => rfl
    | false => exact ih

end Pen

section Runs

variable {cs : List (Command α)} {before after : List (Segment α)} {g : Segment α}

theorem longhand_closes (split : longhand cs = before ++ g :: after) (close : g.shape = .close) :
    g.stop = Segment.subpathStart before := by
  obtain ⟨first, c, _, _, rfl, rfl⟩ := Pen.drawAll_split split
  rw [Pen.draw_close close]
  exact Pen.subpathStart_after .initial first

theorem longhand_begins (first : (longhand cs).head? = some g) : g.start = .origin := by
  cases cs with
  | nil => cases first
  | cons c rest =>
    cases first
    rfl

theorem longhand_radii [LonghandLaws α] (drawn : g ∈ longhand cs) {e : EllipticArc α}
    (arc : g.shape = .arc e) : Scalar.abs e.rx = e.rx ∧ Scalar.abs e.ry = e.ry := by
  obtain ⟨before, after, split⟩ := List.append_of_mem drawn
  obtain ⟨first, c, _, _, _, rfl⟩ := Pen.drawAll_split split
  have settled := Pen.after_settled Pen.initial_settled first
  exact (Pen.draw_drawable settled c).radii e arc

end Runs
end Forms

structure Longhand (cs : List (Command Float)) : Prop where
  length : (longhand cs).length = cs.length
  begins : ∀ g, (longhand cs).head? = some g → g.start = .origin
  contiguous : (longhand cs).IsChain fun g h => g.stop = h.start
  closes : ∀ before g after, longhand cs = before ++ g :: after → g.shape = .close →
    g.stop = Segment.subpathStart before
  radii : ∀ g ∈ longhand cs, ∀ e, g.shape = .arc e →
    Scalar.abs e.rx = e.rx ∧ Scalar.abs e.ry = e.ry
  leading : ∀ n, longhand (cs.take n) = (longhand cs).take n
  again : longhand ((longhand cs).map Segment.command) = longhand cs
  replaced : ∀ n, longhand ((longhand (cs.take n)).map Segment.command ++ cs.drop n) = longhand cs

-- Bit by bit, and of any doubles: sums that overflow and zeros of either sign come out the same.
theorem longhand_normal (cs : List (Command Float)) : Longhand cs where
  length := Pen.drawAll_length .initial cs
  begins _ := longhand_begins
  contiguous := Pen.drawAll_contiguous .initial cs
  closes _ _ _ := longhand_closes
  radii _ drawn _ := longhand_radii drawn
  leading := Pen.drawAll_take .initial cs
  again := by
    have alike := writeOut_drawnAlike Pen.initial_settled cs cs.length
    rw [List.take_length, List.drop_length, List.append_nil] at alike
    exact alike.drawAll
  replaced n := (writeOut_drawnAlike Pen.initial_settled cs n).drawAll

end PathData
