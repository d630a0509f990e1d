import Mathlib
import PathData.Proofs.FilterMarkers
import PathData.Proofs.LaterPasses
import PathData.Proofs.Rebasing
import PathData.Proofs.ValidOutput

namespace PathData

open Fault (bind_ok)

section Vertices

variable {α : Type} [Scalar α]

theorem laid_stops {pen : Pen α} {ps : List (Placed α)} (laid : Laid pen ps) :
    (pen.drawAll (Placed.commands ps)).map Segment.stop = ps.map Placed.stop := by
  have stops := congrArg (List.map Prod.snd) (laid_points laid)
  rw [List.map_map, List.map_map] at stops
  exact stops.symm

structure MarkersKept (close : Point α → Point α → Prop) (style : Style)
    (path cs : List (Command α)) : Prop where
  first : style.hasMarker = true → Meet close (vertices cs).head? (vertices path).head?
  last : style.hasMarker = true → Meet close (vertices cs).getLast? (vertices path).getLast?
  count : style.hasMarkerMid = true → (vertices cs).length = (vertices path).length

theorem leading_single {path : List (Command α)}
    (opens : ∃ c, path.head? = some c ∧ c.kind = .move)
    (apart : stacked (path.map Command.isMove) = 0) :
    (vertices (path.takeWhile Command.isMove)).getLast? = (vertices path).head? := by
  obtain ⟨c, first, kind⟩ := opens
  obtain ⟨rest, rfl⟩ := List.head?_eq_some_iff.1 first
  have isMove : c.isMove = true := decide_eq_true kind
  have alone : (c :: rest).takeWhile Command.isMove = [c] := by
    rw [List.takeWhile_cons_of_pos isMove]
    cases rest with
    | nil => rfl
    | cons next rest =>
      simp only [List.map_cons, stacked, isMove, Bool.true_and] at apart
      have draws : ¬ next.isMove = true := by
        intro moves
        rw [if_pos moves] at apart
        omega
      rw [List.takeWhile_cons_of_neg draws]
  rw [alone]
  rfl

namespace Pipeline

theorem rewritten_vertices {fitter : ArcFitter α} {job : Job α} {filtered ps : List (Placed α)}
    (opens : ∃ p, filtered.head? = some p ∧ p.command.kind = .move)
    (filters : filterCommands fitter job.options job.style
      (rebase job.options.flags.forceAbsolutePath job.path) = .ok filtered)
    (made : rewritten fitter job = .ok ps) :
    (ps.map Placed.stop).head? =
        ((filtered.takeWhile fun p => p.command.isMove).map Placed.stop).getLast? ∧
      (ps.map Placed.stop).getLast? = (filtered.map Placed.stop).getLast? ∧
      ps.length + stacked (filtered.map fun p => p.command.isMove) = filtered.length := by
  obtain ⟨found, same, made⟩ := bind_ok.1 made
  cases filters.symm.trans same
  obtain ⟨forms, respells, made⟩ := bind_ok.1 made
  cases made
  have forms_eq := respelled_reworded respells
  have cleaned := cleanup_reworded job.options.flags.negativeExtraSpace forms
  obtain ⟨p, first, kind⟩ := opens
  obtain ⟨rest, rfl⟩ := List.head?_eq_some_iff.1 first
  obtain ⟨q, others, here, later, rfl⟩ := List.forall₂_cons_left_iff.1 forms_eq
  have isMove : q.command.isMove = true := decide_eq_true (here.kind.trans kind)
  rw [Reworded.all_stops cleaned]
  refine ⟨?_, ?_, ?_⟩
  · rw [← Reworded.all_stops (Reworded.all_leading forms_eq)]
    exact Cleanup.mergeFrom_first isMove others
  · rw [← Reworded.all_stops forms_eq]
    exact Cleanup.mergeFrom_last q others
  · have moves := Reworded.all_views (fun p q here => here.isMove_eq) forms_eq
    rw [← moves, ← cleaned.length_eq, forms_eq.length_eq]
    exact Cleanup.mergeFrom_length q others

end Pipeline

end Vertices

open scoped PathData.Exact

variable {α : Type} [Field α] [LinearOrder α] [FloorRing α] [Exact.Roots α]

theorem vertices_rebase (absolute : Bool) (path : List (Command α)) :
    vertices (Placed.commands (rebase absolute path)) = vertices path :=
  congrArg (List.map Segment.stop) (longhand_rebase absolute path)

theorem leading_rebase (absolute : Bool) (path : List (Command α)) :
    vertices ((Placed.commands (rebase absolute path)).takeWhile Command.isMove) =
      vertices (path.takeWhile Command.isMove) := by
  have same := longhand_rebase absolute path
  unfold longhand at same
  unfold vertices longhand
  rw [Pen.drawAll_leading, Pen.drawAll_leading, same]

namespace Pipeline

variable [IsStrictOrderedRing α]
variable {fitter : ArcFitter α} {job : Job α} {filtered : List (Placed α)}

theorem optimize_rewritten (filters : filterCommands fitter job.options job.style
      (rebase job.options.flags.forceAbsolutePath job.path) = .ok filtered)
    (nonempty : job.path ≠ []) :
    ∃ ps, rewritten fitter job = .ok ps ∧ Laid .initial ps ∧
      PathData.optimize fitter job = .ok (some (Placed.commands ps)) := by
  obtain ⟨ps, made, redraws⟩ := rewritten_redraws filters
  refine ⟨ps, made, redraws.laid, ?_⟩
  rw [optimize_eq fitter nonempty, made]
  dsimp only
  rw [finish_redraws filters redraws]

end Pipeline

open Pipeline

variable [IsStrictOrderedRing α]

theorem rewritten_kept {fitter : ArcFitter α} {job : Job α} {filtered ps : List (Placed α)}
    (few : job.options.precision < 20) (unit : job.options.error = .ok error)
    (opens : ∃ c, job.path.head? = some c ∧ c.kind = .move)
    (filters : filterCommands fitter job.options job.style
      (rebase job.options.flags.forceAbsolutePath job.path) = .ok filtered)
    (made : rewritten fitter job = .ok ps) (laid : Laid .initial ps) :
    (job.style.hasMarker = true →
      Meet (Grid.Close error) (vertices (Placed.commands ps)).head?
        (vertices (job.path.takeWhile Command.isMove)).getLast? ∧
      Meet (Grid.Close error) (vertices (Placed.commands ps)).getLast?
        (vertices job.path).getLast?) ∧
    (job.style.hasMarkerMid = true →
      (Placed.commands ps).length + stacked (job.path.map Command.isMove) = job.path.length) := by
  have rebased := rebase_opens job.options.flags.forceAbsolutePath opens
  obtain ⟨first, last, length⟩ :=
    rewritten_vertices (Filter.filtered_opens rebased filters) filters made
  have drawn : vertices (Placed.commands ps) = ps.map Placed.stop := laid_stops laid
  refine ⟨?_, ?_⟩
  · intro marked
    rw [drawn, first, last]
    refine ⟨?_, ?_⟩
    · rw [← leading_rebase]
      exact Filter.filtered_first few unit marked rebased filters
    · rw [← vertices_rebase]
      exact Filter.filtered_last few unit rebased filters
  · intro marked
    have moves := Filter.filtered_moves marked filters
    rw [moves_rebase] at moves
    have count := congrArg List.length moves
    rw [List.length_map, List.length_map] at count
    rw [moves, count] at length
    unfold Placed.commands
    rw [List.length_map]
    exact length

omit [IsStrictOrderedRing α] in
theorem MarkersKept.refl {close : Point α → Point α → Prop} (near : ∀ p, close p p)
    (style : Style) {path : List (Command α)} (nonempty : path ≠ []) :
    MarkersKept close style path path := by
  obtain ⟨c, rest, rfl⟩ := List.exists_cons_of_ne_nil nonempty
  refine ⟨?_, ?_, fun _ => rfl⟩
  · exact fun _ => ⟨_, _, rfl, rfl, near _⟩
  · exact fun _ => ⟨_, _, List.getLast?_cons, List.getLast?_cons, near _⟩

theorem markers_kept (fitter : ArcFitter α) {job : Job α} (few : job.options.precision < 20)
    (unit : job.options.error = .ok error)
    (opens : ∃ c, job.path.head? = some c ∧ c.kind = .move) :
    ∃ answer, optimize fitter job = .ok answer ∧
      (stacked (job.path.map Command.isMove) = 0 →
        MarkersKept (Grid.Close error) job.style job.path (answer.getD job.path)) ∧
      ∀ cs, answer = some cs →
        (job.style.hasMarker = true →
          Meet (Grid.Close error) (vertices cs).head?
            (vertices (job.path.takeWhile Command.isMove)).getLast? ∧
          Meet (Grid.Close error) (vertices cs).getLast? (vertices job.path).getLast?) ∧
        (job.style.hasMarkerMid = true →
          cs.length + stacked (job.path.map Command.isMove) = job.path.length) := by
  have nonempty : job.path ≠ [] := by
    intro empty
    obtain ⟨c, first, _⟩ := opens
    rw [empty] at first
    cases first
  cases filters : filterCommands fitter job.options job.style
      (rebase job.options.flags.forceAbsolutePath job.path) with
  | error cause =>
    have failed : rewritten fitter job = .error cause := Fault.bind_error.2 (.inl filters)
    have near (p : Point α) : Grid.Close error p p := by
      rw [Exact.error_eq] at unit
      cases unit
      exact Grid.Close.refl (one_div_pos.2 (Grid.scale_pos _)) p
    refine ⟨none, ?_, fun _ => .refl near job.style nonempty, nofun⟩
    rw [optimize_eq fitter nonempty, failed]
  | ok filtered =>
    obtain ⟨ps, made, laid, optimized⟩ := optimize_rewritten filters nonempty
    have kept := rewritten_kept few unit opens filters made laid
    refine ⟨_, optimized, ?_, ?_⟩
    · intro apart
      refine ⟨?_, fun marked => (kept.1 marked).2, ?_⟩
      · intro marked
        rw [← leading_single opens apart]
        exact (kept.1 marked).1
      · intro marked
        have count := kept.2 marked
        rw [apart] at count
        rw [vertices_length, vertices_length]
        exact count
    · intro cs same
      cases same
      exact kept

def markedJob : Job ℚ where
  path :=
    [{ body := .move ⟨1 / 3, 1 / 7⟩ },
     { body := .line ⟨2 / 3, 1 / 9⟩, relative := true },
     { body := .line ⟨0, 0⟩, relative := true },
     { body := .quadratic ⟨7, 22 / 7⟩ ⟨8, 5⟩ },
     { body := .close },
     { body := .move ⟨1 / 6, 1 / 3⟩, relative := true },
     { body := .horizontal (5 / 3) }]
  options := { flags := { straightCurves := false }, makeArcs := none, precision := 2 }
  style := { hasMarker := true, hasMarkerMid := true }

theorem markers_kept_marked :
    ∃ error cs, markedJob.options.error = .ok error ∧
      optimize Filter.noFit markedJob = .ok (some cs) ∧
      MarkersKept (Grid.Close error) markedJob.style markedJob.path cs := by
  have unit := Exact.error_eq markedJob.options
  have some : (optimize Filter.noFit markedJob).toOption.any Option.isSome = true := by
    decide +kernel
  obtain ⟨answer, optimized, kept, _⟩ :=
    markers_kept Filter.noFit (by decide) unit ⟨_, rfl, rfl⟩
  rw [optimized] at some
  cases answer with
  | none => cases some
  | some cs => exact ⟨_, cs, unit, optimized, kept (by decide)⟩

-- Two moves in a row are merged whatever is drawn at their vertices.
def stackedJob : Job ℚ where
  path :=
    [{ body := .move ⟨0, 0⟩ }, { body := .move ⟨5, 5⟩ }, { body := .line ⟨6, 6⟩ }]
  options := { flags := {}, makeArcs := none, precision := 3 }
  style := { hasMarker := true, hasMarkerMid := true }

theorem markers_kept_stacked :
    ∃ cs, optimize Filter.noFit stackedJob = .ok (some cs) ∧
      (vertices cs).head? = some ⟨5, 5⟩ ∧ (vertices stackedJob.path).head? = some ⟨0, 0⟩ ∧
      ∀ close, ¬ MarkersKept close stackedJob.style stackedJob.path cs := by
  have merged : (optimize Filter.noFit stackedJob).toOption.any (fun answer => answer.any
      fun cs => (vertices cs).head? = some ⟨5, 5⟩ ∧ (vertices cs).length = 2) = true := by
    decide +kernel
  obtain ⟨answer, optimized, shape⟩ := Fault.ok_of_any merged
  cases answer with
  | none => cases shape
  | some cs =>
    obtain ⟨first, two⟩ := of_decide_eq_true shape
    refine ⟨cs, optimized, first, by decide +kernel, ?_⟩
    intro close kept
    have count := kept.count rfl
    rw [two] at count
    have three : (vertices stackedJob.path).length = 3 := vertices_length stackedJob.path
    omega

end PathData
