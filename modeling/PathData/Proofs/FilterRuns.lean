import PathData.Proofs.FilterSteps

namespace PathData
namespace Filter

open scoped PathData.Scalar
open Fault (bind_ok pure_ok)

variable {α : Type} [Scalar α] {f : Setup α} {s : State α}

-- The states that a run comes to, with the number of sources that are done.
inductive Reached (f : Setup α) (sources : List (Source α)) : State α → Nat → Prop where
  | initial : Reached f sources .initial 0
  | step {s next : State α} {k taken : Nat} {source : Source α} {rest : List (Source α)}
      (before : Reached f sources s k) (ahead : sources.drop k = source :: rest)
      (visited : visit f s (k == 0) source rest = .ok (next, taken)) :
      Reached f sources next (k + 1 + taken)

theorem visit_within (visited : visit f s isFirst source rest = .ok (next, taken)) :
    taken ≤ rest.length := by
  cases visit_sound visited with
  | run _ _ covers => exact covers.within
  | _ => exact Nat.zero_le _

omit [Scalar α] in
theorem take_visited {sources : List (Source α)} (ahead : sources.drop k = source :: rest)
    (taken : Nat) :
    sources.take (k + 1 + taken) = sources.take k ++ source :: rest.take taken := by
  rw [Nat.add_assoc, List.take_add, ahead, Nat.add_comm 1, List.take_succ_cons]

theorem reached_zero {sources : List (Source α)} (reached : Reached f sources s k)
    (start : k = 0) : s = .initial := by
  cases reached with
  | initial => rfl
  | step => omega

-- A visit by its effect alone: nothing, a move, or the steps of some form, perhaps in place of the
-- last line.
inductive Effect (f : Setup α) (s : State α) (source : Source α) : State α → Nat → Prop where
  | dropped (allowed : f.removalAllowed = true) : Effect f s source s 0
  | moved {c : Command α} (shape : source.segment.shape = .move) (written : Written f c) :
      Effect f s source (s.emit { command := c }) 0
  | drawn {t : State α} {steps : List (Step α)} {taken : Nat}
      (notMove : source.segment.shape ≠ .move)
      (before : t = s ∨ ∃ stop, t = collapse f s stop) (writes : Writes f steps) :
      Effect f s source (t.emitAll steps) taken

omit [Scalar α] in
theorem uselessClose_allowed (useless : isUselessClose f s = true) : f.removalAllowed = true := by
  unfold isUselessClose at useless
  split at useless
  · cases useless
  · simp only [Setup.zeroLengthRemovalAllowed, Bool.or_eq_true, Bool.and_eq_true] at useless
    rcases useless with ⟨allowed, _⟩ | ⟨⟨allowed, _⟩, _⟩ <;> exact allowed

theorem useless_allowed {segment : Segment α} (useless : isUseless f s segment = true) :
    f.removalAllowed = true := by
  unfold isUseless Setup.zeroLengthRemovalAllowed at useless
  dsimp only at useless
  split at useless
  · split at useless
    · rename_i same
      rw [Bool.and_eq_true] at same
      exact same.1
    · simp only [Bool.and_eq_true] at useless
      exact useless.1.2.1
  · simp only [Bool.and_eq_true] at useless
    exact useless.1.1

theorem visits_effect (visits : Visits f s isFirst source rest next taken) :
    Effect f s source next taken := by
  cases visits with
  | move shape placed => exact .moved shape (.placed placed)
  | dropClose _ useless => exact .dropped (uselessClose_allowed useless)
  | drop _ _ useless => exact .dropped (useless_allowed useless)
  | close shape _ => exact .drawn (by simp [shape]) (.inl rfl) close_writes
  | run curve _ _ form =>
    exact .drawn (Segment.curve_not_move curve) (.inl rfl) (fitted_writes form)
  | line shape _ form =>
    exact .drawn (by simp [shape]) (.inr ⟨_, rfl⟩) (line_writes form)
  | arc shape _ form => exact .drawn (by simp [shape]) (.inl rfl) (arc_writes form)
  | curve curve _ form =>
    exact .drawn (Segment.curve_not_move curve) (.inl rfl) (curve_writes form)

theorem collapse_eq (f : Setup α) (s : State α) (stop : Point α) :
    collapse f s stop = s ∨ ∃ p, s.pop? = some (p, collapse f s stop) := by
  unfold collapse
  split
  · exact .inl rfl
  · split
    · exact .inl rfl
    · rename_i p before popped
      split
      · exact .inr ⟨p, popped⟩
      · exact .inl rfl

omit [Scalar α] in
theorem pop_output (popped : s.pop? = some (p, before)) : s.output = p :: before.output := by
  unfold State.pop? at popped
  split at popped
  · cases popped
  · rename_i output
    cases popped
    exact output

omit [Scalar α] in
theorem pop_cursor (popped : s.pop? = some (p, before)) : before.cursor = p.start := by
  unfold State.pop? at popped
  split at popped
  · cases popped
  · cases popped
    rfl

theorem reached_induction {P : State α → Prop} {sources : List (Source α)} (start : P .initial)
    (emits : ∀ s c handle, P s → Written f c → P (s.emit ⟨c, handle⟩))
    (pops : ∀ s p before, P s → s.pop? = some (p, before) → P before)
    (reached : Reached f sources s k) : P s := by
  have all (steps : List (Step α)) (t : State α) (before : P t)
      (written : ∀ step ∈ steps, Written f step.command) : P (t.emitAll steps) := by
    induction steps generalizing t with
    | nil => exact before
    | cons step rest ih =>
      exact ih _ (emits t step.command step.handle before (written step List.mem_cons_self))
        fun later member => written later (List.mem_cons_of_mem _ member)
  induction reached with
  | initial => exact start
  | step _ _ visited ih =>
    cases visits_effect (visit_sound visited) with
    | dropped => exact ih
    | moved _ written => exact emits _ _ _ ih written
    | drawn _ before writes =>
      refine all _ _ ?_ writes.written
      rcases before with rfl | ⟨stop, rfl⟩
      · exact ih
      · rcases collapse_eq f _ stop with same | ⟨p, popped⟩
        · exact same ▸ ih
        · exact pops _ p _ ih popped

theorem emitAll_written (s : State α) (steps : List (Step α)) :
    ∃ written, (s.emitAll steps).output = written ++ s.output ∧
      written.length = steps.length ∧
      ∀ p ∈ written, ∃ step ∈ steps, ∃ previous,
        p.command = Command.tagAfter previous step.command := by
  induction steps generalizing s with
  | nil => exact ⟨[], rfl, rfl, nofun⟩
  | cons step rest ih =>
    obtain ⟨later, output, counted, came⟩ := ih (s.emit step)
    let first : Placed α :=
      { command := Command.tagAfter s.previous step.command
        start := s.cursor
        stop := step.command.endPoint s.cursor s.subpathStart }
    refine ⟨later ++ [first], ?_, ?_, ?_⟩
    · exact output.trans (List.append_assoc later [first] s.output).symm
    · simp [counted]
    · intro p member
      rcases List.mem_append.1 member with inLater | isFirst
      · obtain ⟨step, member, tagged⟩ := came p inLater
        exact ⟨step, List.mem_cons_of_mem _ member, tagged⟩
      · rw [List.mem_singleton.1 isFirst]
        exact ⟨step, List.mem_cons_self, s.previous, rfl⟩

theorem emitAll_output {p : Placed α} (steps : List (Step α)) (earlier : p ∈ s.output) :
    p ∈ (s.emitAll steps).output := by
  induction steps generalizing s with
  | nil => exact earlier
  | cons step rest ih => exact ih (List.mem_cons_of_mem _ earlier)

theorem emitAll_draws {steps : List (Step α)} (writes : Writes f steps) :
    ∃ p ∈ (s.emitAll steps).output, p.command.kind ≠ .move := by
  cases steps with
  | nil => exact absurd rfl writes.nonempty
  | cons step rest =>
    have draws := writes.draws step List.mem_cons_self
    have kind := Command.kind_tagAfter s.previous step.command
    exact ⟨_, emitAll_output rest List.mem_cons_self, kind ▸ draws⟩

theorem reached_draws {sources : List (Source α)} (kept : f.removalAllowed = false)
    (reached : Reached f sources s k) (member : source ∈ sources.take k)
    (notMove : source.segment.shape ≠ .move) : ∃ p ∈ s.output, p.command.kind ≠ .move := by
  induction reached generalizing source with
  | initial => cases member
  | step _ ahead visited ih =>
    rename_i s next k taken here rest _
    cases visits_effect (visit_sound visited) with
    | dropped allowed => exact absurd (kept.symm.trans allowed) (by decide)
    | drawn _ _ writes => exact emitAll_draws writes
    | moved shape _ =>
      rw [List.take_add, List.take_add, ahead] at member
      simp only [List.take_zero, List.append_nil, List.mem_append, List.take_succ_cons,
        List.mem_singleton] at member
      rcases member with earlier | rfl
      · obtain ⟨p, written, draws⟩ := ih earlier notMove
        exact ⟨p, List.mem_cons_of_mem _ written, draws⟩
      · exact absurd shape notMove

theorem reached_visitAll {sources ahead : List (Source α)} (reached : Reached f sources s k)
    (left : sources.drop k = ahead.drop taken) (counted : k + ahead.length = sources.length + taken)
    (within : taken ≤ ahead.length) (first : isFirst = (k == 0)) (started : taken ≠ 0 → k ≠ 0)
    (ran : visitAll f s isFirst taken ahead = .ok last) :
    Reached f sources last sources.length := by
  induction ahead generalizing s k taken isFirst with
  | nil =>
    unfold visitAll at ran
    cases pure_ok.1 ran
    have done : k = sources.length := by
      simp only [List.length_nil] at counted within
      omega
    exact done ▸ reached
  | cons source rest ih =>
    cases taken with
    | succ taken =>
      have later := started (Nat.succ_ne_zero taken)
      simp only [List.length_cons] at counted within
      exact ih reached left (by omega) (by omega) (by simpa using later) (fun _ => later) ran
    | zero =>
      subst first
      unfold visitAll at ran
      obtain ⟨⟨next, more⟩, visited, ran⟩ := bind_ok.1 ran
      have fits := visit_within visited
      have ahead : sources.drop k = source :: rest := left
      refine ih (.step reached ahead visited) ?_ ?_ fits ?_ ?_ ran
      · rw [Nat.add_assoc, ← List.drop_drop, ahead, Nat.add_comm 1, List.drop_succ_cons]
      · simp only [List.length_cons] at counted
        omega
      · exact (beq_eq_false_iff_ne.2 (by omega)).symm
      · intro _
        omega

theorem reached_filterCommands {ps placed : List (Placed α)}
    (filtered : filterCommands fitter options style ps = .ok placed) :
    ∃ error s, options.error = .ok error ∧
      Reached ⟨options, style, error, fitter⟩ (sourcesOf (Placed.commands ps)) s
        (sourcesOf (Placed.commands ps)).length ∧ placed = s.output.reverse := by
  obtain ⟨error, unit, filtered⟩ := bind_ok.1 filtered
  obtain ⟨s, ran, made⟩ := bind_ok.1 filtered
  refine ⟨error, s, unit, ?_, (pure_ok.1 made).symm⟩
  exact reached_visitAll .initial rfl (Nat.add_comm _ _) (Nat.zero_le _) rfl (absurd rfl) ran

def sourcesFrom (pen : Pen α) (cs : List (Command α)) : List (Source α) :=
  List.zipWith Source.mk cs (pen.drawAll cs)

theorem sources_commands (pen : Pen α) (cs : List (Command α)) :
    (sourcesFrom pen cs).map Source.command = cs := by
  induction cs generalizing pen with
  | nil => rfl
  | cons c rest ih => exact congrArg (c :: ·) (ih (pen.draw c).2)

theorem sources_segments (pen : Pen α) (cs : List (Command α)) :
    (sourcesFrom pen cs).map Source.segment = pen.drawAll cs := by
  induction cs generalizing pen with
  | nil => rfl
  | cons c rest ih => exact congrArg ((pen.draw c).1 :: ·) (ih (pen.draw c).2)

theorem drop_sources (pen : Pen α) (cs : List (Command α)) (k : Nat) :
    (sourcesFrom pen cs).drop k = sourcesFrom (pen.after (cs.take k)) (cs.drop k) := by
  induction cs generalizing pen k with
  | nil => simp [sourcesFrom]
  | cons c rest ih =>
    cases k with
    | zero => rfl
    | succ k => exact ih (pen.draw c).2 k

structure Follows (pen : Pen α) (source : Source α) (next : Pen α) : Prop where
  starts : source.segment.start = pen.position
  position : next.position = source.segment.stop
  moves : source.segment.shape = .move → next.subpathStart = source.segment.stop
  keeps : source.segment.shape ≠ .move → next.subpathStart = pen.subpathStart
  closes : source.segment.shape = .close → source.segment.stop = pen.subpathStart

theorem draw_follows (pen : Pen α) (c : Command α) :
    Follows pen ⟨c, (pen.draw c).1⟩ (pen.draw c).2 := by
  have sameMove := Pen.draw_isMove pen c
  refine ⟨rfl, rfl, ?_, ?_, Pen.draw_close⟩
  · intro shape
    rw [Segment.isMove_iff.2 shape] at sameMove
    simp [Pen.draw, ← sameMove]
  · intro shape
    rw [Bool.eq_false_iff.2 (mt Segment.isMove_iff.1 shape)] at sameMove
    simp [Pen.draw, ← sameMove]

theorem source_ahead {pen : Pen α} {cs : List (Command α)}
    (ahead : (sourcesFrom pen cs).drop k = source :: rest) :
    ∃ next, Follows (pen.after (cs.take k)) source next ∧ next = pen.after (cs.take (k + 1)) ∧
      rest = sourcesFrom next (cs.drop (k + 1)) := by
  rw [drop_sources] at ahead
  cases left : cs.drop k with
  | nil =>
    rw [left] at ahead
    cases ahead
  | cons c later =>
    rw [left] at ahead
    cases ahead
    refine ⟨_, draw_follows _ c, ?_, ?_⟩
    · have within : k < cs.length := by
        have := congrArg List.length left
        simp only [List.length_drop, List.length_cons] at this
        omega
      have here : cs[k] = c := by
        have := List.drop_eq_getElem_cons within
        rw [left] at this
        exact (List.cons.inj this).1.symm
      rw [List.take_succ_eq_append_getElem within, here]
      exact (Pen.after_append _ _ [c]).symm
    · rw [← List.drop_drop, left]
      rfl

theorem after_position {pen : Pen α} {cs : List (Command α)} {g : Segment α}
    (drawn : (pen.drawAll cs)[j]? = some g) : (pen.after (cs.take (j + 1))).position = g.stop := by
  induction cs generalizing pen j with
  | nil => cases drawn
  | cons c rest ih =>
    cases j with
    | zero =>
      cases drawn
      rfl
    | succ j => exact ih drawn

theorem after_curves {pen : Pen α} {cs : List (Command α)}
    (sources : sourcesFrom pen cs = source :: rest) (curve : source.segment.isCurve = true)
    (within : count ≤ rest.length)
    (curves : ∀ next ∈ rest.take count, next.segment.isCurve = true) :
    (pen.after (cs.take (count + 1))).subpathStart = pen.subpathStart ∧
      (pen.after (cs.take (count + 1))).position = lastStop source rest count := by
  induction count generalizing pen cs source rest with
  | zero =>
    cases cs with
    | nil => cases sources
    | cons c later =>
      cases sources
      have follows := draw_follows pen c
      exact ⟨follows.keeps (Segment.curve_not_move curve), follows.position⟩
  | succ count ih =>
    cases cs with
    | nil => cases sources
    | cons c later =>
      obtain ⟨rfl, left⟩ := List.cons.inj sources
      have follows := draw_follows pen c
      cases rest with
      | nil => cases within
      | cons next rest =>
        obtain ⟨subpathStart, position⟩ := ih
          (show sourcesFrom (pen.draw c).2 later = next :: rest from left)
          (curves next List.mem_cons_self) (Nat.le_of_succ_le_succ within)
          fun source member => curves source (List.mem_cons_of_mem _ member)
        have last : lastStop ⟨c, (pen.draw c).1⟩ (next :: rest) (count + 1) =
            lastStop next rest count := by
          unfold lastStop
          simp [List.getLast?_cons]
        exact ⟨subpathStart.trans (follows.keeps (Segment.curve_not_move curve)),
          position.trans last.symm⟩

def noFit : ArcFitter α := fun _ _ _ _ => .ok none

end Filter
end PathData
