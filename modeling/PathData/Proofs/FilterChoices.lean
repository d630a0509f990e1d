import PathData.Number.Double
import PathData.Proofs.FilterLicences
import PathData.Proofs.FilterOrigins

namespace PathData
namespace Printer

variable {α : Type} [Scalar α]

theorem joinAfter_saving (saving : Bool) (last : List Char) (ts : List (List Char)) :
    (joinAfter true last ts).length ≤ (joinAfter saving last ts).length := by
  induction ts generalizing last with
  | nil => exact Nat.le_refl _
  | cons t rest ih =>
    have here : needsSpace true last t = true → needsSpace saving last t = true := by
      unfold needsSpace
      cases saving <;> simp_all
    have later := ih t
    unfold joinAfter
    rw [List.length_append, List.length_append]
    split
    · rename_i spaced
      rw [if_pos (here spaced)]
      omega
    · split
      · rw [List.length_cons]
        omega
      · omega

theorem command_saving (saving : Bool) (previous : Option (Command α)) (c : Command α) :
    (command true previous c).length ≤ (command saving previous c).length := by
  unfold command
  split
  · exact joinAfter_saving saving _ _
  · exact Nat.succ_le_succ (joinAfter_saving saving _ _)

theorem spelled_saving (saving : Bool) (cs : List (Command α)) :
    (cs.flatMap (command true none)).length ≤ (cs.flatMap (command saving none)).length := by
  induction cs with
  | nil => exact Nat.le_refl _
  | cons c rest ih =>
    have here := command_saving saving none c
    simp only [List.flatMap_cons, List.length_append]
    omega

theorem commandsFrom_concat (saving : Bool) (previous : Option (Command α))
    (cs : List (Command α)) (c : Command α) :
    commandsFrom saving previous (cs ++ [c]) =
      commandsFrom saving previous cs ++ command saving (cs.getLast?.or previous) c := by
  induction cs generalizing previous with
  | nil => exact List.append_nil _
  | cons first rest ih =>
    have last : (first :: rest).getLast?.or previous = rest.getLast?.or (some first) := by
      rw [List.getLast?_cons]
      cases rest.getLast? <;> rfl
    rw [last, List.cons_append]
    unfold commandsFrom
    rw [ih, List.append_assoc]

end Printer

namespace Filter

open scoped PathData.Scalar
open Fault (bind_ok pure_ok)

variable {α : Type} [Scalar α] {f : Setup α} {s : State α}

def State.text (saving : Bool) (s : State α) : List Char :=
  print saving (Placed.commands s.output.reverse)

theorem emit_text (saving : Bool) (s : State α) (step : Step α) :
    (s.emit step).text saving = s.text saving ++
      Printer.command saving s.previous (Command.tagAfter s.previous step.command) := by
  have written : Placed.commands (s.emit step).output.reverse =
      Placed.commands s.output.reverse ++ [Command.tagAfter s.previous step.command] := by
    simp [State.emit, Placed.commands]
  have last : (Placed.commands s.output.reverse).getLast?.or none = s.previous := by
    simp [Placed.commands, State.previous]
  unfold State.text print
  rw [written, Printer.commandsFrom_concat, last]

theorem emitAll_text (saving : Bool) (s : State α) (steps : List (Step α)) :
    ∃ added, (s.emitAll steps).text saving = s.text saving ++ added ∧
      added.length = costAfter saving s.previous steps := by
  induction steps generalizing s with
  | nil => exact ⟨[], (List.append_nil _).symm, rfl⟩
  | cons step rest ih =>
    obtain ⟨added, text, counted⟩ := ih (s.emit step)
    refine ⟨Printer.command saving s.previous (Command.tagAfter s.previous step.command) ++ added,
      ?_, ?_⟩
    · rw [← List.append_assoc, ← emit_text]
      exact text
    · rw [List.length_append, counted]
      rfl

theorem emitAll_length (saving : Bool) (s : State α) (steps : List (Step α)) :
    ((s.emitAll steps).text saving).length =
      (s.text saving).length + costAfter saving s.previous steps := by
  obtain ⟨added, text, counted⟩ := emitAll_text saving s steps
  rw [text, List.length_append, counted]

def DropsLetter (s : State α) : List (Step α) → Prop
  | [] => False
  | step :: _ => (Command.tagAfter s.previous step.command).implicit = true

omit [Scalar α] in
theorem spellsLetter_iff (s : State α) (steps : List (Step α)) :
    spellsLetter s.previous steps = false ↔ DropsLetter s steps := by
  cases steps with
  | nil => simp [spellsLetter, DropsLetter]
  | cons step rest => simp [spellsLetter, DropsLetter]

def textWith (f : Setup α) (s : State α) (steps : List (Step α)) : List Char :=
  (s.emitAll steps).text f.flags.negativeExtraSpace

-- No form leads to a shorter text; of those that lead to one as short, one that drops its letter is
-- taken before the others, and then the earliest.
structure Best (f : Setup α) (s : State α) (forms : List (List (Step α)))
    (chosen : List (Step α)) : Prop where
  shortest : ∀ other ∈ forms, (textWith f s chosen).length ≤ (textWith f s other).length
  letter : ∀ other ∈ forms, (textWith f s other).length = (textWith f s chosen).length →
    DropsLetter s other → DropsLetter s chosen
  earliest : ∃ before after, forms = before ++ chosen :: after ∧
    ∀ other ∈ before, (textWith f s other).length = (textWith f s chosen).length →
      DropsLetter s chosen ∧ ¬ DropsLetter s other

theorem choose_best (f : Setup α) (s : State α) (first : List (Step α))
    (others : List (List (Step α))) :
    Best f s (first :: others) (choose f.flags.negativeExtraSpace s.previous first others) := by
  obtain ⟨before, after, split, worse, least⟩ :=
    choose_first f.flags.negativeExtraSpace s.previous first others
  generalize choose f.flags.negativeExtraSpace s.previous first others = chosen at *
  have length (steps : List (Step α)) : (textWith f s steps).length =
      (s.text f.flags.negativeExtraSpace).length +
        costAfter f.flags.negativeExtraSpace s.previous steps := emitAll_length _ _ _
  have all : ∀ other ∈ first :: others, rank f.flags.negativeExtraSpace s.previous chosen ≤
      rank f.flags.negativeExtraSpace s.previous other := by
    intro other member
    rw [split] at member
    rcases List.mem_append.1 member with earlier | here
    · exact Nat.le_of_lt (worse other earlier)
    · rcases List.mem_cons.1 here with rfl | later
      · exact Nat.le_refl _
      · exact least other later
  refine ⟨?_, ?_, before, after, split, ?_⟩
  · intro other member
    have ranked := all other member
    have letter := Bool.toNat_le (spellsLetter s.previous other)
    unfold rank at ranked
    rw [length, length]
    omega
  · intro other member same drops
    have ranked := all other member
    unfold rank at ranked
    rw [length, length] at same
    rw [← spellsLetter_iff] at drops ⊢
    rw [drops] at ranked
    refine Bool.toNat_eq_zero.1 ?_
    simp only [Bool.toNat_false] at ranked
    omega
  · intro other member same
    have ranked := worse other member
    unfold rank at ranked
    rw [length, length] at same
    rw [← spellsLetter_iff, ← spellsLetter_iff]
    have smaller : (spellsLetter s.previous chosen).toNat <
        (spellsLetter s.previous other).toNat := by omega
    cases own : spellsLetter s.previous chosen <;> cases its : spellsLetter s.previous other <;>
      simp [own, its] at smaller ⊢

-- A source command as it would be written: rounded, and with its letter.
def spelled (f : Setup α) (source : Source α) : Except Fault (Command α) :=
  f.options.roundCommand f.error source.command.explicit

theorem spelledLength_ok {run : List (Source α)} (measured : spelledLength f run = .ok size) :
    ∃ written, run.mapM (spelled f) = .ok written ∧
      size = (written.flatMap (Printer.command true none)).length := by
  induction run generalizing size with
  | nil => exact ⟨[], List.mapM_nil, (pure_ok.1 measured).symm⟩
  | cons source rest ih =>
    unfold spelledLength at measured
    obtain ⟨c, rounded, measured⟩ := bind_ok.1 measured
    obtain ⟨more, later, made⟩ := bind_ok.1 measured
    obtain ⟨written, spelledRest, counted⟩ := ih later
    refine ⟨c :: written, ?_, ?_⟩
    · rw [List.mapM_cons]
      exact bind_ok.2 ⟨c, rounded, bind_ok.2 ⟨written, spelledRest, rfl⟩⟩
    · rw [List.flatMap_cons, List.length_append, ← counted]
      exact (pure_ok.1 made).symm

-- What a visit adds to the text: the one form of a move or of a close, the best form of a segment,
-- arcs that are shorter than the curves that they stand for, or nothing for what is useless.
inductive Adds (f : Setup α) (s : State α) (source : Source α) (rest : List (Source α)) :
    State α → Nat → Prop where
  | move {c : Command α} (shape : source.segment.shape = .move) (kind : c.kind = .move) :
      Adds f s source rest (s.emit { command := c }) 0
  | dropClose (shape : source.segment.shape = .close) (useless : isUselessClose f s = true) :
      Adds f s source rest s 0
  | close (shape : source.segment.shape = .close) (needed : isUselessClose f s = false) :
      Adds f s source rest (s.emit { command := { body := .close } }) 0
  | drop (notMove : source.segment.shape ≠ .move) (notClose : source.segment.shape ≠ .close)
      (useless : isUseless f s source.segment = true) :
      Adds f s source rest s 0
  | form {forms : List (List (Step α))} {chosen : List (Step α)}
      (notMove : source.segment.shape ≠ .move) (notClose : source.segment.shape ≠ .close)
      (needed : isUseless f s source.segment = false)
      (offered : formsOf f (baseOf f s source.segment) source (isTrailing rest) = .ok forms)
      (best : Best f (baseOf f s source.segment) forms chosen) :
      Adds f s source rest ((baseOf f s source.segment).emitAll chosen) 0
  | run {count : Nat} {steps : List (Step α)} {written : List (Command α)} (several : 0 < count)
      (curves : ∀ next ∈ source :: rest.take count, next.segment.isCurve = true)
      (arcs : ∀ step ∈ steps, step.command.kind = .arc)
      (rounded : (source :: rest.take count).mapM (spelled f) = .ok written)
      (saves : ∀ saving, (textWith f s steps).length <
        (s.text f.flags.negativeExtraSpace).length +
          (written.flatMap (Printer.command saving none)).length) :
      Adds f s source rest (s.emitAll steps) count

theorem visit_adds (visited : visit f s isFirst source rest = .ok (next, taken)) :
    Adds f s source rest next taken := by
  cases visit_handles visited with
  | move shape placed => exact .move shape (Command.kind_place placed)
  | dropClose shape useless => exact .dropClose shape useless
  | close shape needed => exact .close shape needed
  | drop notMove notClose useless => exact .drop notMove notClose useless
  | draw notMove notClose needed drawn =>
    obtain ⟨first, others, offered, rfl⟩ := draw_chooses drawn notMove notClose
    exact .form notMove notClose needed offered (choose_best f _ first others)
  | run curve found =>
    obtain ⟨_, fit, steps, replaced, covers, form, measured, saves, rfl⟩ := arcRun_sound found
    obtain ⟨written, rounded, counted⟩ := spelledLength_ok measured
    refine .run covers.several (List.forall_mem_cons.2 ⟨curve, covers.curves⟩) (fitted_arcs form)
      rounded ?_
    intro saving
    have spaced := Printer.spelled_saving saving written
    have length := emitAll_length f.flags.negativeExtraSpace s steps
    unfold textWith
    omega

theorem text_minimised (f : Setup α) (s : State α) :
    (∀ steps, ∃ added, textWith f s steps = s.text f.flags.negativeExtraSpace ++ added ∧
      added.length = costAfter f.flags.negativeExtraSpace s.previous steps) ∧
    ∀ isFirst source rest next taken, visit f s isFirst source rest = .ok (next, taken) →
      Adds f s source rest next taken :=
  ⟨emitAll_text f.flags.negativeExtraSpace s, fun _ _ _ _ _ => visit_adds⟩

def merging : Setup Float := ⟨smoothing, {}, 0.001, alwaysFits⟩

def opened : State Float := State.initial.emit { command := { body := .move ⟨1, 0⟩ } }

theorem text_minimised_merging :
    ∃ curve line next last, (sourcesOf mergingPath)[1]? = some curve ∧
      visit merging opened false curve ((sourcesOf mergingPath).drop 2) = .ok (next, 1) ∧
      Adds merging opened curve ((sourcesOf mergingPath).drop 2) next 1 ∧
      (sourcesOf mergingPath)[3]? = some line ∧
      visit merging next false line ((sourcesOf mergingPath).drop 4) = .ok (last, 0) ∧
      Adds merging next line ((sourcesOf mergingPath).drop 4) last 0 ∧
      last.text true = "M1 0a1 1 0 0 1-1 1v1".toList := by
  have evaluated : ((sourcesOf mergingPath)[1]?.any fun curve =>
      (visit merging opened false curve ((sourcesOf mergingPath).drop 2)).toOption.any fun turn =>
        turn.2 == 1 && (sourcesOf mergingPath)[3]?.any fun line =>
          (visit merging turn.1 false line ((sourcesOf mergingPath).drop 4)).toOption.any fun turn =>
            turn.2 == 0 && turn.1.text true == "M1 0a1 1 0 0 1-1 1v1".toList) = true := by
    decide +kernel
  obtain ⟨curve, first, evaluated⟩ := (Option.any_eq_true _ _).1 evaluated
  obtain ⟨⟨next, taken⟩, visited, evaluated⟩ := Fault.ok_of_any evaluated
  rw [Bool.and_eq_true, beq_iff_eq] at evaluated
  obtain ⟨rfl, evaluated⟩ := evaluated
  obtain ⟨line, second, evaluated⟩ := (Option.any_eq_true _ _).1 evaluated
  obtain ⟨⟨last, taken⟩, visited', evaluated⟩ := Fault.ok_of_any evaluated
  rw [Bool.and_eq_true, beq_iff_eq, beq_iff_eq] at evaluated
  obtain ⟨rfl, text⟩ := evaluated
  exact ⟨curve, line, next, last, first, visited,
    (text_minimised merging opened).2 _ _ _ _ _ visited, second, visited',
    (text_minimised merging next).2 _ _ _ _ _ visited', text⟩

end Filter
end PathData
