import Mathlib
import PathData.Proofs.Outcomes
import PathData.Proofs.PassEffects
import PathData.Proofs.Redrawing

namespace PathData
namespace Pipeline

section Order

variable {α : Type} [Scalar α]

theorem hasDrawing_rebase (absolute : Bool) (path : List (Command α)) :
    hasDrawing (Placed.commands (rebase absolute path)) = hasDrawing path := by
  have byMoves (cs : List (Command α)) :
      hasDrawing cs = (cs.map Command.isMove).any fun isMove => !isMove := by
    rw [List.any_map]
    rfl
  rw [byMoves, byMoves, moves_rebase]

theorem source_of_drawing (pen : Pen α) {cs : List (Command α)} (draws : hasDrawing cs = true) :
    ∃ source ∈ Filter.sourcesFrom pen cs, source.segment.shape ≠ .move := by
  induction cs generalizing pen with
  | nil => cases draws
  | cons c rest ih =>
    cases isMove : c.isMove with
    | false =>
      refine ⟨⟨c, (pen.draw c).1⟩, List.mem_cons_self, ?_⟩
      intro shape
      have moves := Segment.isMove_iff.2 shape
      rw [Pen.draw_isMove, isMove] at moves
      cases moves
    | true =>
      have later : hasDrawing rest = true := by
        simpa [hasDrawing, isMove] using draws
      obtain ⟨source, member, notMove⟩ := ih (pen.draw c).2 later
      exact ⟨source, List.mem_cons_of_mem _ member, notMove⟩

theorem hasDrawing_iff (pen : Pen α) {cs : List (Command α)} :
    hasDrawing cs = true ↔ drawing pen cs ≠ [] := by
  induction cs generalizing pen with
  | nil => simp [hasDrawing, drawing, Pen.drawAll]
  | cons c rest ih =>
    rw [drawing_cons]
    cases isMove : c.isMove with
    | false => simp [hasDrawing, isMove]
    | true =>
      have same : hasDrawing (c :: rest) = hasDrawing rest := by simp [hasDrawing, isMove]
      rw [same]
      simpa using ih (pen.draw c).2

theorem filtered_draws {fitter : ArcFitter α} {job : Job α} {filtered : List (Placed α)}
    (filters : filterCommands fitter job.options job.style
      (rebase job.options.flags.forceAbsolutePath job.path) = .ok filtered)
    (marked : job.style.hasMarker = true) (draws : hasDrawing job.path = true) :
    hasDrawing (Placed.commands filtered) = true := by
  rw [← hasDrawing_rebase job.options.flags.forceAbsolutePath] at draws
  obtain ⟨source, member, notMove⟩ := source_of_drawing .initial draws
  obtain ⟨error, s, _, reached, rfl⟩ := Filter.reached_filterCommands filters
  have kept : Filter.Setup.removalAllowed ⟨job.options, job.style, error, fitter⟩ = false := by
    simp [Filter.Setup.removalAllowed, marked]
  obtain ⟨p, written, drawn⟩ :=
    Filter.reached_draws kept reached (List.take_length ▸ member) notMove
  refine List.any_eq_true.2 ⟨p.command, ?_, ?_⟩
  · exact List.mem_map_of_mem (List.mem_reverse.2 written)
  · simpa [Command.isMove] using drawn

end Order

open scoped PathData.Exact

variable {α : Type} [Field α] [LinearOrder α] [FloorRing α] [Exact.Roots α]
variable {fitter : ArcFitter α} {job : Job α} {filtered : List (Placed α)}

theorem keepVertex_redraws (filters : filterCommands fitter job.options job.style
      (rebase job.options.flags.forceAbsolutePath job.path) = .ok filtered)
    {ps : List (Placed α)} (redraws : Redraws job.options.precision .initial filtered ps) :
    keepVertex job (Placed.commands ps) = Placed.commands ps := by
  unfold keepVertex
  split
  · rename_i lost
    simp only [Bool.and_eq_true, Bool.not_eq_true'] at lost
    obtain ⟨⟨marked, draws⟩, none⟩ := lost
    have before := (hasDrawing_iff .initial).1 (filtered_draws filters marked draws)
    rw [← redraws.same] at before
    have after := (hasDrawing_iff .initial).2 before
    rw [none] at after
    cases after
  · rfl

variable [IsStrictOrderedRing α]

theorem filtered_laid {ps : List (Placed α)}
    (filters : filterCommands fitter options style ps = .ok filtered) :
    Laid .initial filtered ∧ ∀ p ∈ filtered, Grid.PlacedOn options.precision p := by
  obtain ⟨error, s, _, reached, rfl⟩ := Filter.reached_filterCommands filters
  obtain ⟨entries, pen, tracks, _⟩ := Filter.reached_tracks reached
  refine ⟨?_, ?_⟩
  · rw [tracks.output]
    exact traced_laid tracks.traced
  · intro p member
    exact (Filter.reached_on reached).output p (List.mem_reverse.1 member)

theorem rewritten_redraws (filters : filterCommands fitter job.options job.style
      (rebase job.options.flags.forceAbsolutePath job.path) = .ok filtered) :
    ∃ ps, rewritten fitter job = .ok ps ∧
      Redraws job.options.precision .initial filtered ps := by
  obtain ⟨laid, on⟩ := filtered_laid filters
  have formed : ∃ forms, respelled job filtered = .ok forms ∧
      Redraws job.options.precision .initial filtered forms := by
    unfold respelled
    split
    · obtain ⟨forms, chose, redraws⟩ :=
        Mixed.chooseFrom_redraws (1 / 10 ^ job.options.precision) laid on none
      exact ⟨forms, Fault.bind_ok.2 ⟨_, Exact.error_eq _, chose⟩, redraws⟩
    · exact ⟨filtered, rfl, .refl laid on⟩
  obtain ⟨forms, chose, redraws⟩ := formed
  refine ⟨_, Fault.bind_ok.2 ⟨_, filters, Fault.bind_ok.2 ⟨_, chose, rfl⟩⟩, ?_⟩
  exact redraws.trans
    (cleanup_redraws redraws.laid redraws.on job.options.flags.negativeExtraSpace)

theorem run_redraws (filters : filterCommands fitter job.options job.style
      (rebase job.options.flags.forceAbsolutePath job.path) = .ok filtered) :
    ∃ entries, run (registry fitter) job = .ok entries ∧ failures entries = [] ∧
      Redraws job.options.precision .initial filtered (result entries) := by
  obtain ⟨ps, made, redraws⟩ := rewritten_redraws filters
  have shows := runAll_shows fitter job
  rw [made] at shows
  exact ⟨_, run_eq fitter job, shows.1, shows.2 ▸ redraws⟩

theorem finish_redraws (filters : filterCommands fitter job.options job.style
      (rebase job.options.flags.forceAbsolutePath job.path) = .ok filtered)
    {ps : List (Placed α)} (redraws : Redraws job.options.precision .initial filtered ps) :
    finish job ps = .ok (Placed.commands ps) := by
  refine Fault.bind_ok.2 ⟨_, Exact.error_eq job.options, ?_⟩
  rw [keepVertex_redraws filters redraws]
  apply Fault.mapM_self
  intro c member
  obtain ⟨p, written, rfl⟩ := List.mem_map.1 member
  exact Grid.roundCommand_of_on _ (redraws.on p written).command

theorem later_passes_exact (filters : filterCommands fitter job.options job.style
      (rebase job.options.flags.forceAbsolutePath job.path) = .ok filtered) :
    (∀ p ∈ filtered, Grid.PlacedOn job.options.precision p ∧
      ∀ error,
        job.options.roundCommand error (p.command.explicit.toRelative p.start) =
          .ok (p.command.explicit.toRelative p.start) ∧
        job.options.roundCommand error (p.command.explicit.toAbsolute p.start) =
          .ok (p.command.explicit.toAbsolute p.start)) ∧
      ∃ entries, run (registry fitter) job = .ok entries ∧ failures entries = [] ∧
        finish job (result entries) = .ok (Placed.commands (result entries)) ∧
        (job.path ≠ [] →
          PathData.optimize fitter job = .ok (some (Placed.commands (result entries)))) ∧
        (longhand (Placed.commands (result entries))).filter (fun g => !g.isMove) =
          (longhand (Placed.commands filtered)).filter fun g => !g.isMove := by
  obtain ⟨laid, on⟩ := filtered_laid filters
  obtain ⟨entries, ran, succeeded, redraws⟩ := run_redraws filters
  have finished := finish_redraws filters redraws
  refine ⟨?_, entries, ran, succeeded, finished, ?_, redraws.same⟩
  · intro p member
    have here := on p member
    exact ⟨here, fun error => Mixed.rounds_both error here.command here.start⟩
  · intro nonempty
    unfold PathData.optimize Pipeline.optimize
    rw [if_neg (by simpa using nonempty), ran]
    dsimp only
    rw [succeeded, finished]
    rfl

-- Two moves in a row, and numbers that the precision cannot keep.
def steppedJob : Job ℚ where
  path :=
    [{ body := .move ⟨1 / 3, 1 / 7⟩ },
     { body := .line ⟨2 / 3, 1 / 9⟩, relative := true },
     { body := .move ⟨1 / 6, 1 / 3⟩, relative := true },
     { body := .move ⟨5, 5⟩, relative := true },
     { body := .quadratic ⟨7, 22 / 7⟩ ⟨8, 5⟩ },
     { body := .close }]
  options := { flags := { straightCurves := false }, makeArcs := none, precision := 2 }
  style := { hasMarker := true }

theorem later_passes_exact_stepped :
    ∃ filtered cs, filterCommands Filter.noFit steppedJob.options steppedJob.style
        (rebase false steppedJob.path) = .ok filtered ∧
      PathData.optimize Filter.noFit steppedJob = .ok (some cs) ∧
      (longhand cs).filter (fun g => !g.isMove) =
        (longhand (Placed.commands filtered)).filter fun g => !g.isMove := by
  have written : (match filterCommands Filter.noFit steppedJob.options steppedJob.style
        (rebase false steppedJob.path) with
      | .ok _ => true
      | .error _ => false) = true := by
    decide +kernel
  split at written
  · rename_i filtered filters
    obtain ⟨_, entries, _, _, _, optimized, same⟩ := later_passes_exact filters
    exact ⟨filtered, _, filters, optimized (List.cons_ne_nil _ _), same⟩
  · cases written

end Pipeline
end PathData
