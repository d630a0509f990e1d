import PathData.Pipeline
import PathData.Proofs.FilterForms

namespace PathData
namespace Pipeline

variable {α : Type}

variable [Scalar α]

def mixes (flags : Flags) : Bool :=
  flags.utilizeAbsolute && !flags.forceAbsolutePath

def ordered (fitter : ArcFitter α) (mixes : Bool) : List (Pass (Action α)) :=
  (passes fitter).filter fun pass => mixes || !pass.tags.contains absoluteTag

theorem without_skipped (fitter : ArcFitter α) (flags : Flags) :
    (registry fitter).without (skipped (registry fitter) flags) =
      .ok (ordered fitter (mixes flags)) := by
  unfold skipped ordered mixes
  cases flags.utilizeAbsolute <;> cases flags.forceAbsolutePath <;>
    simp [Registry.without, Registry.resolve, Registry.pool, Registry.expand, Registry.ids,
      Registry.dependenciesOf, Registry.tagged, registry, passes, Registry.arrange, Registry.order,
      Registry.waiting, Registry.byKey, Registry.place, Registry.drain, Registry.release,
      Pass.precedes, Stage.rank, List.filter, absoluteTag]

theorem run_eq (fitter : ArcFitter α) (job : Job α) :
    run (registry fitter) job = .ok (runAll job [] (ordered fitter (mixes job.options.flags))) := by
  unfold run
  rw [without_skipped]
  rfl

def respelled (job : Job α) (filtered : List (Placed α)) : Except Fault (List (Placed α)) :=
  if mixes job.options.flags then chooseForms job.options filtered else .ok filtered

def rewritten (fitter : ArcFitter α) (job : Job α) : Except Fault (List (Placed α)) := do
  let filtered ← filterCommands fitter job.options job.style
    (rebase job.options.flags.forceAbsolutePath job.path)
  let forms ← respelled job filtered
  return PathData.cleanup job.options.flags.negativeExtraSpace forms

def Shows (entries : List (Entry α)) : Except Fault (List (Placed α)) → Prop
  | .ok ps => failures entries = [] ∧ result entries = ps
  | .error _ => failures entries ≠ []

theorem runAll_shows (fitter : ArcFitter α) (job : Job α) :
    Shows (runAll job [] (ordered fitter (mixes job.options.flags))) (rewritten fitter job) := by
  unfold rewritten respelled
  cases filters : filterCommands fitter job.options job.style
      (rebase job.options.flags.forceAbsolutePath job.path) with
  | error cause =>
    cases mixes job.options.flags <;>
      simp [Shows, ordered, passes, List.filter, absoluteTag, runAll, relative, filter, action,
        filters, failures, bind, Except.bind]
  | ok filtered =>
    cases mixes job.options.flags with
    | false =>
      simp [Shows, ordered, passes, List.filter, absoluteTag, runAll, relative, filter, cleanup,
        action, filters, failures, result, bind, Except.bind, pure, Except.pure]
    | true =>
      cases chose : chooseForms job.options filtered <;>
        simp [Shows, ordered, passes, List.filter, runAll, relative, filter, mixed, cleanup,
          action, filters, chose, failures, result, bind, Except.bind, pure, Except.pure]

theorem optimize_run {r : Registry (Action α)} {job : Job α} {entries : List (Entry α)}
    (nonempty : job.path ≠ []) (ran : run r job = .ok entries) :
    Pipeline.optimize r job =
      if failures entries = [] then
        match finish job (result entries) with
        | .ok cs => .ok (some cs)
        | .error cause => .error (.fault cause)
      else .ok none := by
  unfold Pipeline.optimize
  rw [if_neg (by simpa using nonempty), ran]
  dsimp only
  by_cases succeeded : failures entries = []
  · rw [if_pos succeeded, succeeded]
    rfl
  · rw [if_neg succeeded]
    simp [succeeded]

theorem optimize_eq (fitter : ArcFitter α) {job : Job α} (nonempty : job.path ≠ []) :
    PathData.optimize fitter job =
      match rewritten fitter job with
      | .error _ => .ok none
      | .ok ps =>
        match finish job ps with
        | .ok cs => .ok (some cs)
        | .error cause => .error (.fault cause) := by
  have shows := runAll_shows fitter job
  unfold PathData.optimize
  rw [optimize_run nonempty (run_eq fitter job)]
  cases made : rewritten fitter job with
  | error cause =>
    rw [made] at shows
    rw [if_neg shows]
  | ok ps =>
    rw [made] at shows
    obtain ⟨succeeded, same⟩ := shows
    rw [if_pos succeeded, same]

end Pipeline
end PathData
