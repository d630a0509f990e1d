import Mathlib
import PathData.Passes.Cleanup
import PathData.Passes.Mixed
import PathData.Proofs.FilterGrid
import PathData.Proofs.FilterRendering

namespace PathData

section Laying

variable {α : Type} [Scalar α]

-- Placed commands that the pen draws one after another from where it is.
def Laid (pen : Pen α) : List (Placed α) → Prop
  | [] => True
  | p :: rest =>
    p.start = pen.position ∧ p.stop = (pen.draw p.command).1.stop ∧
      Laid (pen.draw p.command).2 rest

def drawing (pen : Pen α) (cs : List (Command α)) : List (Segment α) :=
  (pen.drawAll cs).filter fun g => !g.isMove

theorem laid_append {pen : Pen α} {ps qs : List (Placed α)} :
    Laid pen (ps ++ qs) ↔ Laid pen ps ∧ Laid (pen.after (Placed.commands ps)) qs := by
  induction ps generalizing pen with
  | nil => simp [Laid, Placed.commands, Pen.after]
  | cons p rest ih =>
    change _ ∧ _ ∧ Laid _ (rest ++ qs) ↔ (_ ∧ _ ∧ Laid _ rest) ∧ _
    rw [ih, and_assoc, and_assoc]
    rfl

theorem laid_points {pen : Pen α} {ps : List (Placed α)} (laid : Laid pen ps) :
    (ps.map fun p => (p.start, p.stop)) =
      (pen.drawAll (Placed.commands ps)).map fun g => (g.start, g.stop) := by
  induction ps generalizing pen with
  | nil => rfl
  | cons p rest ih =>
    obtain ⟨start, stop, later⟩ := laid
    exact congrArg₂ List.cons (Prod.ext start stop) (ih later)

theorem laid_contiguous {pen : Pen α} {ps : List (Placed α)} (laid : Laid pen ps) :
    ps.IsChain fun p q => p.stop = q.start := by
  induction ps generalizing pen with
  | nil => exact .nil
  | cons p rest ih =>
    obtain ⟨_, stop, later⟩ := laid
    cases rest with
    | nil => exact .singleton p
    | cons q rest => exact .cons_cons (stop.trans later.1.symm) (ih later)

theorem traced_laid {entries : List (Placed α × Segment α)} {pen : Pen α}
    (traced : Filter.Traced entries pen) : Laid .initial (entries.map Prod.fst).reverse := by
  induction traced with
  | start => trivial
  | draw before starts ends ih =>
    rw [List.map_cons, List.reverse_cons, laid_append]
    refine ⟨ih, ?_⟩
    rw [(Filter.traced_longhand before).2]
    exact ⟨starts, ends, trivial⟩

theorem drawing_cons (pen : Pen α) (c : Command α) (cs : List (Command α)) :
    drawing pen (c :: cs) =
      (if c.isMove then [] else [(pen.draw c).1]) ++ drawing (pen.draw c).2 cs := by
  have isMove := Pen.draw_isMove pen c
  unfold drawing
  change List.filter _ ((pen.draw c).1 :: (pen.draw c).2.drawAll cs) = _
  rw [List.filter_cons, isMove]
  cases c.isMove <;> rfl

theorem Cleanup.draw_move {pen : Pen α} {c : Command α} (isMove : c.isMove = true) :
    (pen.draw c).2 = { position := (pen.draw c).1.stop, subpathStart := (pen.draw c).1.stop } := by
  have kind : c.kind = .move := of_decide_eq_true isMove
  have handle : (pen.draw c).2.handle = {} := Pen.handle_of_plain (by rw [kind]; rfl)
  unfold Pen.draw at handle ⊢
  dsimp only at handle ⊢
  rw [handle, isMove]
  rfl

end Laying

open scoped PathData.Exact

variable {α : Type} [Field α] [LinearOrder α] [FloorRing α] [Exact.Roots α]

namespace Grid

theorem shift_on {precision : ℤ} {b : Body α} {d : Point α} (on : ∀ x ∈ b.numbers, On precision x)
    (moved : PointOn precision d) : ∀ y ∈ (b.shift d).numbers, On precision y := by
  intro y member
  obtain ⟨x, earlier, same⟩ := forall₂_right (Body.related_shift d b).numbers member
  rcases same with rfl | rfl | rfl
  · exact on _ earlier
  · exact (on x earlier).add moved.1
  · exact (on x earlier).add moved.2

theorem toRelative_on {precision : ℤ} {c : Command α} {start : Point α}
    (on : CommandOn precision c) (starts : PointOn precision start) :
    CommandOn precision (c.toRelative start) := by
  unfold Command.toRelative
  split
  · exact on
  · exact shift_on on ⟨starts.1.neg, starts.2.neg⟩

theorem toAbsolute_on {precision : ℤ} {c : Command α} {start : Point α}
    (on : CommandOn precision c) (starts : PointOn precision start) :
    CommandOn precision (c.toAbsolute start) := by
  unfold Command.toAbsolute
  split
  · exact on
  · exact shift_on on starts

end Grid

namespace Body

theorem shift_back (b : Body α) (d : Point α) : (b.shift (-d)).shift d = b := by
  have back (p : Point α) : p + -d + d = p :=
    Point.ext (neg_add_cancel_right p.x d.x) (neg_add_cancel_right p.y d.y)
  cases b <;> simp only [shift, back]
  · exact congrArg horizontal (neg_add_cancel_right _ d.x)
  · exact congrArg vertical (neg_add_cancel_right _ d.y)

theorem endPoint_shift (b : Body α) (start subpathStart : Point α) :
    (b.shift start).endPoint .origin start subpathStart = b.endPoint start start subpathStart := by
  have swap (x y : α) : ((0 : ℕ) : α) + (x + y) = y + x := by
    rw [Nat.cast_zero, zero_add, add_comm]
  have point (p : Point α) : .origin + (p + start) = start + p :=
    Point.ext (swap p.x start.x) (swap p.y start.y)
  cases b with
  | horizontal x => exact Point.ext (swap x start.x) rfl
  | vertical y => exact Point.ext rfl (swap y start.y)
  | close => rfl
  | move p | line p | smoothQuadratic p | cubic _ _ p | smoothCubic _ p | quadratic _ p | arc _ p =>
    exact point p

end Body

namespace Pen

variable {pen : Pen α} {c : Command α}

theorem draw_toAbsolute (pen : Pen α) (c : Command α) :
    pen.draw (c.toAbsolute pen.position) = pen.draw c := by
  cases form : (!c.relative || c.kind = .close) with
  | true =>
    have same : c.toAbsolute pen.position = c := by simp [Command.toAbsolute, form]
    rw [same]
  | false =>
    have relative : c.relative = true := by
      cases tag : c.relative with
      | true => rfl
      | false => simp [tag] at form
    have absolute : c.toAbsolute pen.position =
        { c with body := c.body.shift pen.position, relative := false } := by
      simp [Command.toAbsolute, form]
    have twice : (c.toAbsolute pen.position).toAbsolute pen.position =
        c.toAbsolute pen.position := by
      simp [Command.toAbsolute, form]
    unfold draw Command.isMove
    rw [twice, Command.kind_toAbsolute]
    have stop : (c.toAbsolute pen.position).endPoint pen.position pen.subpathStart =
        c.endPoint pen.position pen.subpathStart := by
      rw [absolute]
      unfold Command.endPoint
      rw [relative]
      exact Body.endPoint_shift c.body pen.position pen.subpathStart
    rw [stop]

theorem draw_toRelative (pen : Pen α) (c : Command α) :
    pen.draw (c.toRelative pen.position) = pen.draw c := by
  cases form : (c.relative || c.kind = .close) with
  | true =>
    have same : c.toRelative pen.position = c := by simp [Command.toRelative, form]
    rw [same]
  | false =>
    obtain ⟨absolute, drawn⟩ := Bool.or_eq_false_iff.1 form
    have offsets : c.toRelative pen.position =
        { c with body := c.body.shift (-pen.position), relative := true } := by
      simp [Command.toRelative, form]
    have notClose : (c.toRelative pen.position).kind ≠ .close := by
      rw [Command.kind_toRelative]
      exact of_decide_eq_false drawn
    have back : (c.toRelative pen.position).toAbsolute pen.position = c := by
      unfold Command.toAbsolute
      rw [offsets] at notClose ⊢
      rw [if_neg (by simpa using notClose), Body.shift_back]
      cases c
      cases absolute
      rfl
    rw [← draw_toAbsolute, back]

end Pen

structure Retraces (pen : Pen α) (ps ps' : List (Placed α)) : Prop where
  laid : Laid pen ps'
  same : drawing pen (Placed.commands ps') = drawing pen (Placed.commands ps)

theorem retraces_cons {pen : Pen α} {p q : Placed α} {ps qs : List (Placed α)}
    (laid : Laid pen (p :: ps)) (same : pen.draw q.command = pen.draw p.command)
    (starts : q.start = p.start) (stops : q.stop = p.stop)
    (rest : Retraces (pen.draw p.command).2 ps qs) : Retraces pen (p :: ps) (q :: qs) := by
  obtain ⟨start, stop, _⟩ := laid
  refine ⟨⟨starts.trans start, ?_, same ▸ rest.laid⟩, ?_⟩
  · rw [stops, same]
    exact stop
  · have sameMove : q.command.isMove = p.command.isMove := by
      rw [← Pen.draw_isMove pen, ← Pen.draw_isMove pen, same]
    change drawing pen (q.command :: Placed.commands qs) =
      drawing pen (p.command :: Placed.commands ps)
    rw [drawing_cons, drawing_cons, sameMove, same, rest.same]

namespace Retraces

variable {pen : Pen α} {ps qs rs : List (Placed α)}

theorem refl (laid : Laid pen ps) : Retraces pen ps ps :=
  ⟨laid, rfl⟩

theorem trans (first : Retraces pen ps qs) (second : Retraces pen qs rs) : Retraces pen ps rs :=
  ⟨second.laid, second.same.trans first.same⟩

end Retraces

structure Redraws (precision : ℤ) (pen : Pen α) (ps ps' : List (Placed α)) : Prop where
  laid : Laid pen ps'
  on : ∀ p ∈ ps', Grid.PlacedOn precision p
  same : drawing pen (Placed.commands ps') = drawing pen (Placed.commands ps)

namespace Redraws

variable {precision : ℤ} {pen : Pen α} {ps qs rs : List (Placed α)}

theorem refl (laid : Laid pen ps) (on : ∀ p ∈ ps, Grid.PlacedOn precision p) :
    Redraws precision pen ps ps :=
  ⟨laid, on, rfl⟩

theorem trans (first : Redraws precision pen ps qs) (second : Redraws precision pen qs rs) :
    Redraws precision pen ps rs :=
  ⟨second.laid, second.on, second.same.trans first.same⟩

theorem cons {p q : Placed α} (laid : Laid pen (p :: ps))
    (same : pen.draw q.command = pen.draw p.command) (starts : q.start = p.start)
    (stops : q.stop = p.stop) (on : Grid.PlacedOn precision q)
    (rest : Redraws precision (pen.draw p.command).2 ps qs) :
    Redraws precision pen (p :: ps) (q :: qs) := by
  have retraced := retraces_cons laid same starts stops ⟨rest.laid, rest.same⟩
  exact ⟨retraced.laid, List.forall_mem_cons.2 ⟨on, rest.on⟩, retraced.same⟩

end Redraws

theorem retagFrom_retraces {pen : Pen α} {ps : List (Placed α)} (laid : Laid pen ps)
    (previous : Option (Command α)) : Retraces pen ps (Placed.retagFrom previous ps) := by
  induction ps generalizing pen previous with
  | nil => exact .refl laid
  | cons p rest ih =>
    exact retraces_cons laid (Pen.draw_tagAfter pen previous p.command) rfl rfl (ih laid.2.2 _)

omit [LinearOrder α] [FloorRing α] [Exact.Roots α] in
theorem retagFrom_on {precision : ℤ} {ps : List (Placed α)}
    (on : ∀ p ∈ ps, Grid.PlacedOn precision p) (previous : Option (Command α)) :
    ∀ p ∈ Placed.retagFrom previous ps, Grid.PlacedOn precision p := by
  induction ps generalizing previous with
  | nil => exact on
  | cons p rest ih =>
    obtain ⟨here, later⟩ := List.forall_mem_cons.1 on
    exact List.forall_mem_cons.2
      ⟨⟨here.command.tagAfter previous, here.start, here.stop⟩, ih later _⟩

namespace Cleanup

theorem mergeMove_stop {pen : Pen α} {p next : Placed α} (isMove : p.command.isMove = true)
    (stops : p.stop = (pen.draw p.command).1.stop) (starts : next.start = p.stop) :
    (mergeMove p next).command.isMove = true ∧
      (pen.draw (mergeMove p next).command).1.stop = next.stop := by
  have kind : p.command.body.kind = .move := of_decide_eq_true isMove
  cases body : p.command.body with
  | move offset =>
    refine ⟨?_, ?_⟩
    · unfold mergeMove Command.isMove Command.kind
      rw [body]
      cases p.command.relative <;> rfl
    · change (mergeMove p next).command.endPoint pen.position pen.subpathStart = next.stop
      change p.stop = p.command.endPoint pen.position pen.subpathStart at stops
      unfold Command.endPoint at stops ⊢
      unfold mergeMove
      rw [body] at stops
      cases relative : p.command.relative with
      | true =>
        rw [relative] at stops
        have settle (a o n : α) : a + (o + (n - (a + o))) = n := by ring
        have start : next.start = pen.position + offset := starts.trans stops
        simp only [body, start]
        exact Point.ext (settle _ _ _) (settle _ _ _)
      | false =>
        have zero (x : α) : ((0 : ℕ) : α) + x = x := by rw [Nat.cast_zero, zero_add]
        exact Point.ext (zero _) (zero _)
  | _ =>
    rw [body] at kind
    cases kind

theorem mergeMove_on {precision : ℤ} {p next : Placed α} (first : Grid.PlacedOn precision p)
    (second : Grid.PlacedOn precision next) : Grid.PlacedOn precision (mergeMove p next) := by
  have difference : Grid.PointOn precision (next.stop - next.start) :=
    ⟨second.stop.1.sub second.start.1, second.stop.2.sub second.start.2⟩
  refine ⟨?_, first.start, second.stop⟩
  have command := first.command
  unfold Grid.CommandOn at command ⊢
  unfold mergeMove
  intro x member
  dsimp only at member
  split at member
  · rename_i offset _ body
    have onX := command offset.x (by simp [body, Body.numbers, Body.args])
    have onY := command offset.y (by simp [body, Body.numbers, Body.args])
    have sum := Grid.add_on ⟨onX, onY⟩ difference
    rcases List.mem_pair.1 member with rfl | rfl
    · exact sum.1
    · exact sum.2
  · rcases List.mem_pair.1 member with rfl | rfl
    · exact second.stop.1
    · exact second.stop.2

theorem mergeFrom_retraces {pen : Pen α} {p : Placed α} {ps : List (Placed α)}
    (laid : Laid pen (p :: ps)) : Retraces pen (p :: ps) (mergeFrom p ps) := by
  induction ps generalizing pen p with
  | nil => exact .refl laid
  | cons next rest ih =>
    obtain ⟨start, stop, start', stop', later⟩ := laid
    unfold mergeFrom
    split
    · rename_i moves
      rw [Bool.and_eq_true] at moves
      have position : (pen.draw p.command).2.position = p.stop := stop.symm
      obtain ⟨isMove, ends⟩ := mergeMove_stop moves.2 stop (start'.trans position)
      have samePen : (pen.draw (mergeMove p next).command).2 =
          ((pen.draw p.command).2.draw next.command).2 := by
        rw [draw_move isMove, draw_move moves.1, ends, stop']
      have merged : Retraces pen (p :: next :: rest) (mergeMove p next :: rest) := by
        refine ⟨⟨start, ends.symm, samePen ▸ later⟩, ?_⟩
        change drawing pen ((mergeMove p next).command :: Placed.commands rest) =
          drawing pen (p.command :: next.command :: Placed.commands rest)
        rw [drawing_cons, drawing_cons, drawing_cons, isMove, moves.1, moves.2, samePen]
        rfl
      exact merged.trans (ih merged.laid)
    · exact retraces_cons ⟨start, stop, start', stop', later⟩ rfl rfl rfl (ih ⟨start', stop', later⟩)

theorem mergeFrom_on {precision : ℤ} {p : Placed α} {ps : List (Placed α)}
    (on : ∀ q ∈ p :: ps, Grid.PlacedOn precision q) :
    ∀ q ∈ mergeFrom p ps, Grid.PlacedOn precision q := by
  induction ps generalizing p with
  | nil => exact on
  | cons next rest ih =>
    obtain ⟨here, later⟩ := List.forall_mem_cons.1 on
    obtain ⟨after, others⟩ := List.forall_mem_cons.1 later
    unfold mergeFrom
    split
    · exact ih (List.forall_mem_cons.2 ⟨mergeMove_on here after, others⟩)
    · exact List.forall_mem_cons.2 ⟨here, ih later⟩

theorem mergeMoves_retraces {pen : Pen α} {ps : List (Placed α)} (laid : Laid pen ps) :
    Retraces pen ps (mergeMoves ps) := by
  cases ps with
  | nil => exact .refl laid
  | cons p rest => exact mergeFrom_retraces laid

theorem mergeMoves_on {precision : ℤ} {ps : List (Placed α)}
    (on : ∀ p ∈ ps, Grid.PlacedOn precision p) :
    ∀ p ∈ mergeMoves ps, Grid.PlacedOn precision p := by
  cases ps with
  | nil => exact on
  | cons p rest => exact mergeFrom_on on

theorem draw_origin {c c' : Command α} (body : c'.body = c.body) (isMove : c.isMove = true) :
    Pen.initial.draw c' = Pen.initial.draw c := by
  have kind : c.kind = .move := of_decide_eq_true isMove
  have kind' : c'.kind = c.kind := congrArg Body.kind body
  have stop (d : Command α) : d.endPoint Pen.initial.position Pen.initial.subpathStart =
      d.body.endPoint .origin Pen.initial.position Pen.initial.subpathStart := by
    unfold Command.endPoint
    split <;> rfl
  have shape (d : Command α) (isMove : d.kind = .move) :
      Pen.initial.shape (d.toAbsolute Pen.initial.position).body = (.move, {}) := by
    rw [← Command.kind_toAbsolute d Pen.initial.position] at isMove
    unfold Command.kind at isMove
    cases absolute : (d.toAbsolute Pen.initial.position).body <;> rw [absolute] at isMove <;>
      first | rfl | cases isMove
  unfold Pen.draw Command.isMove
  rw [stop c, stop c', body, shape c kind, shape c' (kind'.trans kind), kind']

theorem switchLeadingMove_retraces {ps : List (Placed α)} (laid : Laid .initial ps)
    (saving : Bool) : Retraces .initial ps (switchLeadingMove saving ps) := by
  unfold switchLeadingMove
  split
  · rename_i first second rest
    split
    · rename_i switches
      simp only [Bool.and_eq_true] at switches
      dsimp only
      split
      · have later : Laid (Pen.initial.draw first.command).2 (second :: rest) := laid.2.2
        have line : Retraces _ (second :: rest)
            ({ second with command := second.command.asImplicit } :: rest) :=
          retraces_cons later (Pen.draw_asImplicit _ _) rfl rfl (.refl later.2.2)
        exact retraces_cons laid (draw_origin rfl switches.1.1) rfl rfl line
      · exact .refl laid
    · exact .refl laid
  · exact .refl laid

theorem switchLeadingMove_on {precision : ℤ} {ps : List (Placed α)}
    (on : ∀ p ∈ ps, Grid.PlacedOn precision p) (saving : Bool) :
    ∀ p ∈ switchLeadingMove saving ps, Grid.PlacedOn precision p := by
  unfold switchLeadingMove
  split
  · rename_i first second rest
    split
    · dsimp only
      split
      · obtain ⟨here, later⟩ := List.forall_mem_cons.1 on
        obtain ⟨after, others⟩ := List.forall_mem_cons.1 later
        refine List.forall_mem_cons.2 ⟨⟨here.command, here.start, here.stop⟩, ?_⟩
        exact List.forall_mem_cons.2 ⟨⟨after.command, after.start, after.stop⟩, others⟩
      · exact on
    · exact on
  · exact on

theorem settleLoneMove_retraces {ps : List (Placed α)} (laid : Laid .initial ps) :
    Retraces .initial ps (settleLoneMove ps) := by
  unfold settleLoneMove
  split
  · split
    · rename_i settles
      rw [Bool.and_eq_true] at settles
      exact retraces_cons laid (draw_origin rfl settles.1) rfl rfl (.refl trivial)
    · exact .refl laid
  · exact .refl laid

omit [LinearOrder α] [FloorRing α] [Exact.Roots α] in
theorem settleLoneMove_on {precision : ℤ} {ps : List (Placed α)}
    (on : ∀ p ∈ ps, Grid.PlacedOn precision p) :
    ∀ p ∈ settleLoneMove ps, Grid.PlacedOn precision p := by
  unfold settleLoneMove
  split
  · split
    · have here := on _ List.mem_cons_self
      exact List.forall_mem_singleton.2 ⟨here.command, here.start, here.stop⟩
    · exact on
  · exact on

end Cleanup

theorem cleanup_retraces {ps : List (Placed α)} (laid : Laid .initial ps) (saving : Bool) :
    Retraces .initial ps (cleanup saving ps) := by
  have merged := Cleanup.mergeMoves_retraces laid
  have switched := Cleanup.switchLeadingMove_retraces merged.laid saving
  have settled := Cleanup.settleLoneMove_retraces switched.laid
  have retagged := retagFrom_retraces settled.laid none
  exact merged.trans (switched.trans (settled.trans retagged))

theorem cleanup_redraws {precision : ℤ} {ps : List (Placed α)} (laid : Laid .initial ps)
    (on : ∀ p ∈ ps, Grid.PlacedOn precision p) (saving : Bool) :
    Redraws precision .initial ps (cleanup saving ps) := by
  have retraced := cleanup_retraces laid saving
  have merged := Cleanup.mergeMoves_on on
  have settled := Cleanup.settleLoneMove_on (Cleanup.switchLeadingMove_on merged saving)
  exact ⟨retraced.laid, retagFrom_on settled none, retraced.same⟩

namespace Mixed

variable [IsStrictOrderedRing α]

theorem rounds_both {o : Options α} {c : Command α} {start : Point α} (error : α)
    (on : Grid.CommandOn o.precision c) (starts : Grid.PointOn o.precision start) :
    o.roundCommand error (c.toRelative start) = .ok (c.toRelative start) ∧
      o.roundCommand error (c.toAbsolute start) = .ok (c.toAbsolute start) :=
  ⟨Grid.roundCommand_of_on error (Grid.toRelative_on on starts),
    Grid.roundCommand_of_on error (Grid.toAbsolute_on on starts)⟩

theorem shorter_redraws {o : Options α} {pen : Pen α} {c : Command α} (error : α)
    (previous : Option (Command α)) (on : Grid.CommandOn o.precision c)
    (starts : Grid.PointOn o.precision pen.position) :
    ∃ c', shorter o error previous pen.position c = .ok c' ∧ pen.draw c' = pen.draw c ∧
      Grid.CommandOn o.precision c' := by
  obtain ⟨relative, absolute⟩ := rounds_both error on starts
  unfold shorter
  rw [relative, absolute]
  refine ⟨_, rfl, ?_, ?_⟩
  · split
    · exact Pen.draw_toAbsolute pen c
    · exact Pen.draw_toRelative pen c
  · split
    · exact Grid.toAbsolute_on on starts
    · exact Grid.toRelative_on on starts

theorem chooseFrom_redraws {o : Options α} {pen : Pen α} {ps : List (Placed α)} (error : α)
    (laid : Laid pen ps) (on : ∀ p ∈ ps, Grid.PlacedOn o.precision p)
    (previous : Option (Command α)) :
    ∃ ps', chooseFrom o error previous ps = .ok ps' ∧ Redraws o.precision pen ps ps' := by
  induction ps generalizing pen previous with
  | nil => exact ⟨[], rfl, .refl laid on⟩
  | cons p rest ih =>
    have here := on p List.mem_cons_self
    have command : Grid.CommandOn o.precision p.command.explicit := here.command
    have explicit := Pen.draw_explicit pen p.command
    have chosen : ∃ c, (if previous.isNone || p.command.explicit.kind = .close
          then pure p.command.explicit
          else shorter o error previous p.start p.command.explicit) = .ok c ∧
        pen.draw c = pen.draw p.command ∧ Grid.CommandOn o.precision c := by
      split
      · exact ⟨_, rfl, explicit, command⟩
      · rw [laid.1]
        obtain ⟨c, chose, same, onGrid⟩ :=
          shorter_redraws error previous command (laid.1 ▸ here.start)
        exact ⟨c, chose, same.trans explicit, onGrid⟩
    obtain ⟨c, chose, same, onGrid⟩ := chosen
    obtain ⟨ps', later, redraws⟩ := ih laid.2.2
      (fun q member => on q (List.mem_cons_of_mem _ member)) (some (Command.tagAfter previous c))
    refine ⟨{ p with command := Command.tagAfter previous c } :: ps', ?_, ?_⟩
    · unfold chooseFrom
      dsimp only
      split at chose
      · rename_i keeps
        rw [if_pos keeps]
        cases chose
        rw [pure_bind]
        exact Fault.bind_ok.2 ⟨ps', later, rfl⟩
      · rename_i rewrites
        rw [if_neg rewrites, chose]
        exact Fault.bind_ok.2 ⟨c, rfl, Fault.bind_ok.2 ⟨ps', later, rfl⟩⟩
    · exact .cons laid ((Pen.draw_tagAfter _ _ _).trans same) rfl rfl
        ⟨onGrid.tagAfter previous, here.start, here.stop⟩ redraws

end Mixed
end PathData
