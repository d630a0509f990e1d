import PathData.Filter.Run
import PathData.Proofs.Commands

namespace PathData
namespace Filter

open scoped PathData.Scalar
open Fault (bind_ok pure_ok)

variable {α : Type} [Scalar α] {f : Setup α} {s : State α}

theorem longestFit_sound {taken rest : List (Source α)}
    (found : longestFit f best taken rest = .ok (some (count, fit))) :
    best = some (count, fit) ∨ ∃ n, n < rest.length ∧ count = taken.length + n ∧
      (∀ source ∈ rest.take (n + 1), source.segment.isCurve = true) ∧
      f.fit ((taken ++ rest.take (n + 1)).map Source.segment) = .ok (some fit) := by
  induction rest generalizing best taken with
  | nil => exact .inl (pure_ok.1 found)
  | cons next rest ih =>
    unfold longestFit at found
    cases curve : next.segment.isCurve with
    | false => exact .inl (pure_ok.1 (by simpa [curve] using found))
    | true =>
      simp only [curve, Bool.not_true, Bool.false_eq_true, if_false] at found
      obtain ⟨fits, fitted, found⟩ := bind_ok.1 found
      cases fits with
      | none => exact .inl (pure_ok.1 found)
      | some here =>
        have itself : some (taken.length, here) = some (count, fit) →
            ∃ n, n < (next :: rest).length ∧ count = taken.length + n ∧
              (∀ source ∈ (next :: rest).take (n + 1), source.segment.isCurve = true) ∧
              f.fit ((taken ++ (next :: rest).take (n + 1)).map Source.segment) =
                .ok (some fit) := by
          intro same
          cases same
          exact ⟨0, by simp, rfl, by simpa using curve, by simpa using fitted⟩
        dsimp only at found
        split at found
        · exact .inr (itself (pure_ok.1 found))
        · rcases ih found with same | ⟨n, within, counted, curves, longer⟩
          · exact .inr (itself same)
          · refine .inr ⟨n + 1, by simpa using within, ?_, ?_, ?_⟩
            · rw [counted, List.length_append, List.length_singleton]
              omega
            · intro source member
              rcases List.mem_cons.1 member with rfl | member
              · exact curve
              · exact curves source member
            · simpa using longer

theorem emit_subpathStart {step : Step α} (notMove : step.command.kind ≠ .move) :
    (s.emit step).subpathStart = s.subpathStart := by
  have stays : (Command.tagAfter s.previous step.command).isMove = false := by
    simp [Command.isMove, notMove]
  simp [State.emit, stays]

theorem collapse_subpathStart (f : Setup α) (s : State α) (stop : Point α) :
    (collapse f s stop).subpathStart = s.subpathStart := by
  unfold collapse State.pop?
  cases s.output with
  | nil => simp
  | cons p rest =>
    dsimp only
    split
    · rfl
    · split <;> rfl

-- A move and a close leave the pen at the start of a subpath.
def AtStart (s : State α) : Prop :=
  ∀ c, s.previous = some c → c.kind = .move ∨ c.kind = .close → s.cursor = s.subpathStart

theorem emit_atStart (s : State α) (step : Step α) : AtStart (s.emit step) := by
  intro c previous kind
  cases previous
  change (Command.tagAfter s.previous step.command).kind = _ ∨
    (Command.tagAfter s.previous step.command).kind = _ at kind
  rw [Command.kind_tagAfter] at kind
  rcases kind with isMove | isClose
  · have moves : (Command.tagAfter s.previous step.command).isMove = true := by
      simp [Command.isMove, isMove]
    simp [State.emit, moves]
  · rw [emit_subpathStart (by rw [isClose]; decide)]
    unfold Command.kind at isClose
    unfold State.emit Command.endPoint
    cases body : step.command.body <;> rw [body] at isClose <;> cases isClose
    rfl

theorem emitAll_atStart {steps : List (Step α)} (before : steps = [] → AtStart s) :
    AtStart (s.emitAll steps) := by
  induction steps generalizing s with
  | nil => exact before rfl
  | cons step rest ih => exact ih fun _ => emit_atStart s step

-- A command that the filter makes up: rounded for a place, or a close.
inductive Written (f : Setup α) : Command α → Prop where
  | placed {body : Body α} {start : Point α} {absolute : Bool} {c : Command α}
      (placed : f.place body start absolute = .ok c) : Written f c
  | close : Written f { body := .close }

structure Writes (f : Setup α) (steps : List (Step α)) : Prop where
  nonempty : steps ≠ []
  written : ∀ step ∈ steps, Written f step.command
  draws : ∀ step ∈ steps, step.command.kind ≠ .move

theorem Writes.single {c : Command α} (written : Written f c) (draws : c.kind ≠ .move)
    (handle : Handle α) : Writes f [{ command := c, handle }] := by
  constructor
  · simp
  · intro step member
    rw [List.mem_singleton.1 member]
    exact written
  · intro step member
    rw [List.mem_singleton.1 member]
    exact draws

theorem Writes.append {first second : List (Step α)} (before : Writes f first)
    (after : Writes f second) : Writes f (first ++ second) := by
  constructor
  · simp [before.nonempty]
  · intro step member
    rcases List.mem_append.1 member with inFirst | inSecond
    · exact before.written step inFirst
    · exact after.written step inSecond
  · intro step member
    rcases List.mem_append.1 member with inFirst | inSecond
    · exact before.draws step inFirst
    · exact after.draws step inSecond

theorem plain_writes (placed : f.place body start absolute = .ok c) (draws : body.kind ≠ .move)
    (handle : Handle α) : Writes f [{ command := c, handle }] :=
  .single (.placed placed) (Command.kind_place placed ▸ draws) handle

theorem close_writes : Writes f [{ command := { body := .close } }] :=
  .single .close nofun {}

theorem line_writes (form : LineForm f s stop own trailing steps) : Writes f steps := by
  cases form with
  | line placed | horizontal _ _ placed | vertical _ _ placed =>
    exact plain_writes placed nofun {}
  | close => exact close_writes

theorem fitted_writes (form : FittedForm f s fit trueStart stop steps) : Writes f steps := by
  cases form with
  | part _ _ placed => exact plain_writes placed nofun {}
  | turn _ leaves returns =>
    exact (plain_writes leaves nofun {}).append (plain_writes returns nofun {})

theorem arc_writes {segment : Segment α} (form : ArcForm f s segment e trailing steps) :
    Writes f steps := by
  cases form with
  | flat _ _ form | shallow _ _ _ _ _ form => exact line_writes form
  | arc _ placed => exact plain_writes placed nofun {}

theorem quadratic_writes {control : Point α}
    (form : QuadraticForm f s control stop shorthand steps) : Writes f steps := by
  cases form with
  | full placed | smooth _ _ placed => exact plain_writes placed nofun _

theorem curve_writes {segment : Segment α} (form : CurveForm f s segment kind trailing steps) :
    Writes f steps := by
  cases form with
  | cubic _ form =>
    cases form with
    | full placed | smooth _ _ placed => exact plain_writes placed nofun _
  | raised _ _ _ form | quadratic _ form => exact quadratic_writes form
  | straight _ _ form => exact line_writes form
  | fitted _ _ form => exact fitted_writes form

-- Forms by their cost, and among equal costs those that drop their letter first.
def rank (saving : Bool) (previous : Option (Command α)) (steps : List (Step α)) : Nat :=
  2 * costAfter saving previous steps + (spellsLetter previous steps).toNat

theorem isBetter_iff (saving : Bool) (previous : Option (Command α)) (a b : List (Step α)) :
    isBetter saving previous a b = true ↔ rank saving previous a < rank saving previous b := by
  unfold isBetter rank
  cases spellsLetter previous a <;> cases spellsLetter previous b <;> simp <;> omega

theorem choose_first (saving : Bool) (previous : Option (Command α)) (best : List (Step α))
    (others : List (List (Step α))) :
    ∃ before after, best :: others = before ++ choose saving previous best others :: after ∧
      (∀ other ∈ before,
        rank saving previous (choose saving previous best others) < rank saving previous other) ∧
      ∀ other ∈ after,
        rank saving previous (choose saving previous best others) ≤ rank saving previous other := by
  induction others generalizing best with
  | nil => exact ⟨[], [], rfl, nofun, nofun⟩
  | cons steps rest ih =>
    unfold choose
    split
    · rename_i better
      rw [isBetter_iff] at better
      obtain ⟨before, after, split, worse, least⟩ := ih steps
      refine ⟨best :: before, after, by rw [split, List.cons_append], ?_, least⟩
      rw [List.forall_mem_cons]
      refine ⟨?_, worse⟩
      cases before with
      | nil =>
        obtain ⟨chosen, _⟩ := List.cons.inj split
        rwa [← chosen]
      | cons first _ =>
        obtain ⟨rfl, _⟩ := List.cons.inj split
        exact Nat.lt_trans (worse _ List.mem_cons_self) better
    · rename_i kept
      rw [isBetter_iff, Nat.not_lt] at kept
      obtain ⟨before, after, split, worse, least⟩ := ih best
      cases before with
      | nil =>
        obtain ⟨chosen, rfl⟩ := List.cons.inj split
        refine ⟨[], steps :: rest, by rw [← chosen, List.nil_append], nofun, ?_⟩
        rw [List.forall_mem_cons]
        exact ⟨chosen ▸ kept, least⟩
      | cons first others =>
        obtain ⟨rfl, later⟩ := List.cons.inj split
        rw [List.forall_mem_cons] at worse
        obtain ⟨here, worse⟩ := worse
        refine ⟨best :: steps :: others, after, ?_, ?_, least⟩
        · rw [List.cons_append, List.cons_append]
          exact congrArg (best :: steps :: ·) later
        · rw [List.forall_mem_cons, List.forall_mem_cons]
          exact ⟨here, Nat.lt_of_lt_of_le here kept, worse⟩

theorem choose_mem (saving : Bool) (previous : Option (Command α)) (best : List (Step α))
    (others : List (List (Step α))) : choose saving previous best others ∈ best :: others := by
  obtain ⟨before, after, split, _⟩ := choose_first saving previous best others
  rw [split]
  exact List.mem_append_right before List.mem_cons_self

-- The curves that one arc can stand for, from `source` on, and where the last of them ends.
structure Covers (f : Setup α) (source : Source α) (rest : List (Source α)) (count : Nat)
    (fit : ArcFit α) : Prop where
  several : 0 < count
  within : count ≤ rest.length
  curves : ∀ next ∈ rest.take count, next.segment.isCurve = true
  fits : f.fit ((source :: rest.take count).map Source.segment) = .ok (some fit)

def lastStop (source : Source α) (rest : List (Source α)) (count : Nat) : Point α :=
  (((source :: rest.take count).getLast?).getD source).segment.stop

-- One visit, by what the source draws and what becomes of it.
inductive Visits (f : Setup α) (s : State α) (isFirst : Bool) (source : Source α)
    (rest : List (Source α)) : State α → Nat → Prop where
  | move {c : Command α} (shape : source.segment.shape = .move)
      (placed : f.place (.move source.segment.stop) s.cursor isFirst = .ok c) :
      Visits f s isFirst source rest (s.emit { command := c }) 0
  | dropClose (shape : source.segment.shape = .close) (useless : isUselessClose f s = true) :
      Visits f s isFirst source rest s 0
  | close (shape : source.segment.shape = .close) (needed : isUselessClose f s = false) :
      Visits f s isFirst source rest (s.emit { command := { body := .close } }) 0
  | run {count : Nat} {fit : ArcFit α} {steps : List (Step α)}
      (curve : source.segment.isCurve = true) (unmarked : f.style.hasMarkerMid = false)
      (covers : Covers f source rest count fit)
      (form : FittedForm f s fit source.segment.start (lastStop source rest count) steps) :
      Visits f s isFirst source rest (s.emitAll steps) count
  | drop (notMove : source.segment.shape ≠ .move) (notClose : source.segment.shape ≠ .close)
      (useless : isUseless f s source.segment = true) :
      Visits f s isFirst source rest s 0
  | line {steps : List (Step α)} (shape : source.segment.shape = .line)
      (needed : isUseless f s source.segment = false)
      (form : LineForm f (collapse f s source.segment.stop) source.segment.stop source.command.kind
        (isTrailing rest) steps) :
      Visits f s isFirst source rest ((collapse f s source.segment.stop).emitAll steps) 0
  | arc {e : EllipticArc α} {steps : List (Step α)} (shape : source.segment.shape = .arc e)
      (needed : isUseless f s source.segment = false)
      (form : ArcForm f s source.segment e (isTrailing rest) steps) :
      Visits f s isFirst source rest (s.emitAll steps) 0
  | curve {steps : List (Step α)} (curve : source.segment.isCurve = true)
      (needed : isUseless f s source.segment = false)
      (form : CurveForm f s source.segment source.command.kind (isTrailing rest) steps) :
      Visits f s isFirst source rest (s.emitAll steps) 0

theorem arcRun_sound (written : arcRun? f s source rest = .ok (some (next, count))) :
    f.style.hasMarkerMid = false ∧ ∃ fit steps replaced, Covers f source rest count fit ∧
      FittedForm f s fit source.segment.start (lastStop source rest count) steps ∧
      spelledLength f (source :: rest.take count) = .ok replaced ∧
      costAfter f.flags.negativeExtraSpace s.previous steps < replaced ∧
      next = s.emitAll steps := by
  unfold arcRun? at written
  split at written
  · cases written
  · rename_i offered
    obtain ⟨longest, found, written⟩ := bind_ok.1 written
    cases longest with
    | none => cases written
    | some best =>
      obtain ⟨steps, fitted, written⟩ := bind_ok.1 written
      obtain ⟨replaced, measured, written⟩ := bind_ok.1 written
      split at written
      · cases written
      · rename_i saves
        cases written
        simp only [Bool.or_eq_true, not_or, Bool.not_eq_true] at offered
        rcases longestFit_sound found with none | ⟨n, within, counted, curves, fits⟩
        · cases none
        · rw [List.length_singleton, Nat.add_comm] at counted
          refine ⟨offered.2, best.2, steps, replaced, ⟨?_, ?_, ?_, ?_⟩, fittedSteps_sound fitted,
            measured, Nat.not_le.1 saves, rfl⟩
          · omega
          · omega
          · rw [counted]
            exact curves
          · rw [counted]
            exact fits

-- The state that a segment is written from: a line may stand for the line before it as well.
def baseOf (f : Setup α) (s : State α) (segment : Segment α) : State α :=
  match segment.shape with
  | .line => collapse f s segment.stop
  | _ => s

def formsOf (f : Setup α) (s : State α) (source : Source α) (trailing : Bool) :
    Except Fault (List (List (Step α))) :=
  match source.segment.shape with
  | .line => lineCandidates f s source.segment.stop source.command.kind trailing
  | .arc e => arcCandidates f s source.segment e trailing
  | _ => curveCandidates f s source.segment source.command.kind trailing

theorem draw_chooses (drawn : draw f s source trailing = .ok next)
    (notMove : source.segment.shape ≠ .move) (notClose : source.segment.shape ≠ .close) :
    ∃ first others, formsOf f (baseOf f s source.segment) source trailing = .ok (first :: others) ∧
      next = (baseOf f s source.segment).emitAll
        (choose f.flags.negativeExtraSpace (baseOf f s source.segment).previous first others) := by
  unfold draw at drawn
  unfold formsOf baseOf
  cases shape : source.segment.shape with
  | move => exact absurd shape notMove
  | close => exact absurd shape notClose
  | line =>
    simp only [shape, pure_bind] at drawn
    obtain ⟨candidates, written, made⟩ := bind_ok.1 drawn
    obtain ⟨first, others, rfl⟩ := List.exists_cons_of_ne_nil (lineCandidates_nonempty written)
    exact ⟨first, others, written, (pure_ok.1 made).symm⟩
  | arc e =>
    simp only [shape, pure_bind] at drawn
    obtain ⟨candidates, written, made⟩ := bind_ok.1 drawn
    obtain ⟨first, others, rfl⟩ := List.exists_cons_of_ne_nil (arcCandidates_sound written).1
    exact ⟨first, others, written, (pure_ok.1 made).symm⟩
  | _ =>
    have curve : source.segment.isCurve = true := by
      simp [Segment.isCurve, Segment.kind, shape]
    simp only [shape, pure_bind] at drawn
    obtain ⟨candidates, written, made⟩ := bind_ok.1 drawn
    obtain ⟨first, others, rfl⟩ :=
      List.exists_cons_of_ne_nil ((curveCandidates_sound written).1 curve)
    exact ⟨first, others, written, (pure_ok.1 made).symm⟩

theorem draw_sound (drawn : draw f s source (isTrailing rest) = .ok next)
    (notMove : source.segment.shape ≠ .move) (notClose : source.segment.shape ≠ .close)
    (needed : isUseless f s source.segment = false) : Visits f s isFirst source rest next 0 := by
  obtain ⟨first, others, written, rfl⟩ := draw_chooses drawn notMove notClose
  have member := choose_mem f.flags.negativeExtraSpace (baseOf f s source.segment).previous first
    others
  unfold formsOf at written
  unfold baseOf at written member ⊢
  cases shape : source.segment.shape with
  | move => exact absurd shape notMove
  | close => exact absurd shape notClose
  | line =>
    simp only [shape] at written member ⊢
    exact .line shape needed (lineCandidates_sound written _ member)
  | arc e =>
    simp only [shape] at written member ⊢
    exact .arc shape needed ((arcCandidates_sound written).2 _ member)
  | _ =>
    have curve : source.segment.isCurve = true := by
      simp [Segment.isCurve, Segment.kind, shape]
    simp only [shape] at written member ⊢
    exact .curve curve needed ((curveCandidates_sound written).2 _ member)

inductive Handles (f : Setup α) (s : State α) (isFirst : Bool) (source : Source α)
    (rest : List (Source α)) : State α → Nat → Prop where
  | move {c : Command α} (shape : source.segment.shape = .move)
      (placed : f.place (.move source.segment.stop) s.cursor isFirst = .ok c) :
      Handles f s isFirst source rest (s.emit { command := c }) 0
  | dropClose (shape : source.segment.shape = .close) (useless : isUselessClose f s = true) :
      Handles f s isFirst source rest s 0
  | close (shape : source.segment.shape = .close) (needed : isUselessClose f s = false) :
      Handles f s isFirst source rest (s.emit { command := { body := .close } }) 0
  | run {next : State α} {count : Nat} (curve : source.segment.isCurve = true)
      (found : arcRun? f s source rest = .ok (some (next, count))) :
      Handles f s isFirst source rest next count
  | drop (notMove : source.segment.shape ≠ .move) (notClose : source.segment.shape ≠ .close)
      (useless : isUseless f s source.segment = true) :
      Handles f s isFirst source rest s 0
  | draw {next : State α} (notMove : source.segment.shape ≠ .move)
      (notClose : source.segment.shape ≠ .close) (needed : isUseless f s source.segment = false)
      (drawn : draw f s source (isTrailing rest) = .ok next) :
      Handles f s isFirst source rest next 0

theorem visit_handles (visited : visit f s isFirst source rest = .ok (next, taken)) :
    Handles f s isFirst source rest next taken := by
  unfold visit at visited
  dsimp only at visited
  split at visited
  · rename_i shape
    obtain ⟨c, placed, made⟩ := bind_ok.1 visited
    cases made
    exact .move shape placed
  · rename_i shape
    split at visited
    · rename_i useless
      cases visited
      exact .dropClose shape useless
    · rename_i needed
      cases visited
      exact .close shape (Bool.eq_false_iff.2 needed)
  · rename_i notMove notClose
    have drawn (left : (if isUseless f s source.segment = true then return (s, 0)
        else do return (← draw f s source (isTrailing rest), 0) : Except Fault (State α × Nat)) =
        .ok (next, taken)) : Handles f s isFirst source rest next taken := by
      split at left
      · rename_i useless
        cases left
        exact .drop notMove notClose useless
      · rename_i needed
        obtain ⟨written, drawn, made⟩ := bind_ok.1 left
        cases made
        exact .draw notMove notClose (Bool.eq_false_iff.2 needed) drawn
    split at visited
    · rename_i curve
      obtain ⟨run, searched, visited⟩ := bind_ok.1 visited
      cases run with
      | none => exact drawn visited
      | some result =>
        cases visited
        exact .run curve searched
    · exact drawn visited

theorem visit_sound (visited : visit f s isFirst source rest = .ok (next, taken)) :
    Visits f s isFirst source rest next taken := by
  cases visit_handles visited with
  | move shape placed => exact .move shape placed
  | dropClose shape useless => exact .dropClose shape useless
  | close shape needed => exact .close shape needed
  | drop notMove notClose useless => exact .drop notMove notClose useless
  | draw notMove notClose needed drawn => exact draw_sound drawn notMove notClose needed
  | run curve found =>
    obtain ⟨unmarked, fit, steps, _, covers, form, _, _, rfl⟩ := arcRun_sound found
    exact .run curve unmarked covers form

end Filter
end PathData
