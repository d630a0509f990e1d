import PathData.Proofs.FilterRuns

namespace PathData
namespace Filter

variable {α : Type} [Scalar α] {f : Setup α} {s : State α}

structure Alike (source other : Source α) : Prop where
  segment : other.segment = source.segment
  kind : other.command.kind = source.command.kind
  curve : source.segment.isCurve = true → other.command.explicit = source.command.explicit

omit [Scalar α] in
theorem alike_segments {sources others : List (Source α)}
    (alike : List.Forall₂ Alike sources others) :
    others.map Source.segment = sources.map Source.segment := by
  induction alike with
  | nil => rfl
  | cons here _ ih => exact congrArg₂ List.cons here.segment ih

theorem longestFit_alike {taken rest taken' rest' : List (Source α)}
    (before : taken'.map Source.segment = taken.map Source.segment)
    (ahead : List.Forall₂ Alike rest rest') (best : Option (Nat × ArcFit α)) :
    longestFit f best taken' rest' = longestFit f best taken rest := by
  induction ahead generalizing taken taken' best with
  | nil => rfl
  | @cons next next' rest rest' here _ ih =>
    have run : (taken' ++ [next']).map Source.segment = (taken ++ [next]).map Source.segment := by
      rw [List.map_append, List.map_append, before]
      exact congrArg (_ ++ [·]) here.segment
    have counted : taken'.length = taken.length := by
      simpa using congrArg List.length before
    unfold longestFit
    dsimp only
    rw [here.segment, run, counted]
    split
    · rfl
    · apply bind_congr
      intro fits
      cases fits with
      | none => rfl
      | some fit =>
        dsimp only
        rw [ih run]

theorem spelledLength_alike {run run' : List (Source α)} (alike : List.Forall₂ Alike run run')
    (curves : ∀ source ∈ run, source.segment.isCurve = true) :
    spelledLength f run' = spelledLength f run := by
  induction alike with
  | nil => rfl
  | @cons source other run run' here _ ih =>
    obtain ⟨curve, later⟩ := List.forall_mem_cons.1 curves
    unfold spelledLength
    rw [here.curve curve, ih later]

omit [Scalar α] in
theorem lastStop_alike {source other : Source α} {rest rest' : List (Source α)}
    (here : Alike source other) (ahead : List.Forall₂ Alike rest rest') (count : Nat) :
    lastStop other rest' count = lastStop source rest count := by
  have stops (source : Source α) (rest : List (Source α)) :
      (lastStop source rest count) =
        (((source :: rest.take count).map Source.segment).getLast?.getD source.segment).stop := by
    unfold lastStop
    rw [List.getLast?_map, List.getLast?_cons]
    rfl
  have run := alike_segments (.cons here (List.forall₂_take count ahead))
  rw [stops, stops, run, here.segment]

-- What an arc would replace is measured for curves only, so that every other source is free to be
-- written in any form.
theorem arcRun_alike {source other : Source α} {rest rest' : List (Source α)}
    (here : Alike source other) (ahead : List.Forall₂ Alike rest rest')
    (curve : source.segment.isCurve = true) :
    arcRun? f s other rest' = arcRun? f s source rest := by
  have single : [other].map Source.segment = [source].map Source.segment :=
    congrArg ([·]) here.segment
  unfold arcRun?
  split
  · rfl
  · rw [longestFit_alike single ahead none]
    apply Fault.bind_congr_ok
    intro longest found
    cases longest with
    | none => rfl
    | some best =>
      obtain ⟨count, fit⟩ := best
      have curves : ∀ next ∈ source :: rest.take count, next.segment.isCurve = true := by
        rcases longestFit_sound found with none | ⟨n, _, counted, curves, _⟩
        · cases none
        · rw [List.length_singleton, Nat.add_comm] at counted
          exact List.forall_mem_cons.2 ⟨curve, counted ▸ curves⟩
      have run := List.Forall₂.cons here (List.forall₂_take count ahead)
      have length := spelledLength_alike (f := f) run curves
      have stop := lastStop_alike here ahead count
      unfold lastStop at stop
      dsimp only
      rw [stop, here.segment, length]

theorem draw_alike {source other : Source α} (here : Alike source other) (trailing : Bool) :
    draw f s other trailing = draw f s source trailing := by
  unfold draw
  rw [here.segment, here.kind]

omit [Scalar α] in
theorem isTrailing_alike {rest rest' : List (Source α)} (ahead : List.Forall₂ Alike rest rest') :
    isTrailing rest' = isTrailing rest := by
  cases ahead with
  | nil => rfl
  | cons here _ =>
    change (_ || _) = (_ || _)
    rw [here.segment]

theorem visit_alike {source other : Source α} {rest rest' : List (Source α)}
    (here : Alike source other) (ahead : List.Forall₂ Alike rest rest') (isFirst : Bool) :
    visit f s isFirst other rest' = visit f s isFirst source rest := by
  have drawn := draw_alike (f := f) (s := s) here (isTrailing rest)
  unfold visit
  rw [here.segment, isTrailing_alike ahead, drawn]
  dsimp only
  split
  · rfl
  · rfl
  · split
    · rename_i curve
      rw [arcRun_alike here ahead curve]
    · rfl

theorem visitAll_alike {sources others : List (Source α)}
    (alike : List.Forall₂ Alike sources others) (isFirst : Bool) (taken : Nat) :
    visitAll f s isFirst taken others = visitAll f s isFirst taken sources := by
  induction alike generalizing s isFirst taken with
  | nil => rfl
  | cons here ahead ih =>
    cases taken with
    | succ taken => exact ih false taken
    | zero =>
      unfold visitAll
      rw [visit_alike here ahead]
      apply bind_congr
      intro visited
      exact ih false visited.2

theorem filterCommands_alike {ps qs : List (Placed α)}
    (alike : List.Forall₂ Alike (sourcesOf (Placed.commands ps)) (sourcesOf (Placed.commands qs)))
    (fitter : ArcFitter α) (options : Options α) (style : Style) :
    filterCommands fitter options style qs = filterCommands fitter options style ps := by
  unfold filterCommands
  apply bind_congr
  intro error
  dsimp only
  rw [visitAll_alike alike]

end Filter
end PathData
