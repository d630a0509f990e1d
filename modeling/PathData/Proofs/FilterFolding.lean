import Mathlib
import PathData.Proofs.FilterLines
import PathData.Proofs.FilterMarkers
import PathData.Proofs.FilterOrigins
import PathData.Proofs.LaterPasses
import PathData.Proofs.Plane

namespace PathData

open scoped PathData.Exact
open Fault (bind_ok)

namespace Filter

section Entries

variable {α : Type} [Field α] [LinearOrder α]

-- A line of the output and the sources that it stands for: it starts where the first of them does
-- and ends where the last one does, and the vertices between are off by less than the error for
-- each source after them.
structure Folded (error : α) (p : Placed α) (own : List (Source α)) : Prop where
  first : own.head?.map (fun source => source.segment.start) = some p.start
  last : own.getLast?.map (fun source => source.segment.stop) = some p.stop
  near : ∀ front v later, own = front ++ v :: later → later ≠ [] →
    Plane.NearLine (later.length * error) v.segment.stop p.start p.stop

theorem Folded.single {error : α} {p : Placed α} {source : Source α}
    (start : source.segment.start = p.start) (stop : source.segment.stop = p.stop) :
    Folded error p [source] := by
  refine ⟨congrArg some start, congrArg some stop, ?_⟩
  intro front v later split nonempty
  rcases List.append_eq_cons_iff.1 split.symm with ⟨rfl, same⟩ | ⟨front, rfl, same⟩
  · cases same
    exact absurd rfl nonempty
  · simp at same

variable [IsStrictOrderedRing α]

theorem Folded.extend {error : α} {p q : Placed α} {own : List (Source α)} {source : Source α}
    (positive : 0 < error) (folded : Folded error p own) (start : q.start = p.start)
    (stop : source.segment.stop = q.stop) (near : Plane.NearLine error p.stop p.start q.stop) :
    Folded error q (own ++ [source]) := by
  refine ⟨?_, ?_, ?_⟩
  · have first := folded.first
    cases own with
    | nil => cases first
    | cons source own => exact first.trans (congrArg some start.symm)
  · rw [List.getLast?_concat]
    exact congrArg some stop
  · intro front v later split nonempty
    obtain ⟨between, final, rfl⟩ := (List.eq_nil_or_concat' later).resolve_left nonempty
    obtain ⟨rfl, same⟩ : own = front ++ v :: between ∧ source = final := by
      have split' : own ++ [source] = (front ++ v :: between) ++ [final] := by simpa using split
      simpa using List.append_inj' split' rfl
    rw [List.length_append, List.length_singleton, Nat.cast_add, Nat.cast_one, add_mul, one_mul]
    cases between with
    | nil =>
      have last := folded.last
      rw [List.getLast?_concat] at last
      have vertex : v.segment.stop = p.stop := Option.some.inj last
      rw [vertex, List.length_nil, Nat.cast_zero, zero_mul, zero_add, start]
      exact near
    | cons next between =>
      have earlier := folded.near front v (next :: between) rfl (List.cons_ne_nil _ _)
      rw [start]
      exact earlier.extend (mul_nonneg (Nat.cast_nonneg _) positive.le) near positive.le

end Entries

variable {α : Type} [Field α] [LinearOrder α] [IsStrictOrderedRing α] [FloorRing α] [Exact.Roots α]
variable {f : Setup α} {s : State α} {pen : Pen α}

omit [IsStrictOrderedRing α] in
theorem writtenFrom_folds (f : Setup α) (s : State α) (source : Source α) :
    writtenFrom f s source = s ∨ ∃ p, s.pop? = some (p, writtenFrom f s source) ∧
      canFold p source.segment.stop f.error = true := by
  unfold writtenFrom
  split
  · split
    · exact .inl rfl
    · unfold collapse
      split
      · exact .inl rfl
      · split
        · exact .inl rfl
        · rename_i p before popped
          split
          · rename_i folds
            exact .inr ⟨p, popped, (Bool.and_eq_true_iff.1 folds).2⟩
          · exact .inl rfl
  · exact .inl rfl

theorem canFold_near [Exact.Lengths α] {p : Placed α} {stop : Point α} {error : α}
    (folds : canFold p stop error = true) : Plane.NearLine error p.stop p.start stop := by
  unfold canFold at folds
  dsimp only at folds
  rw [Exact.literal_zero] at folds
  split at folds
  · cases folds
  · rename_i forward
    simp only [Bool.not_eq_true', Bool.or_eq_false_iff, beq_eq_false_iff_ne, ne_eq,
      decide_eq_false_iff_not] at folds
    obtain ⟨nonzero, small⟩ := folds
    have measured := Exact.Lengths.hypot_sq (stop.x - p.start.x) (stop.y - p.start.y)
    have size := Exact.Lengths.hypot_nonneg (stop.x - p.start.x) (stop.y - p.start.y)
    exact Plane.near_of_cross (not_le.1 forward) measured (lt_of_le_of_ne size (Ne.symm nonzero))
      (not_le.1 small)

theorem plots_folded [Exact.Lengths α] (keeps : Keeps f) (aligned : Aligned f s pen)
    {source : Source α} {origins : List (List (Source α))}
    (starts : source.segment.start = pen.position) (rest : List (Source α))
    (folded : List.Forall₂ (Folded f.error) s.output origins) (plots : Plots f s source next) :
    List.Forall₂ (Folded f.error) next.output (originsAfter f s source rest next 0 origins) := by
  cases plots with
  | dropped kept =>
    have output : s.output = [] ++ s.output := rfl
    rw [originsAfter_kept kept output]
    exact folded
  | @written step ends =>
    let entry : Placed α :=
      { command := Command.tagAfter (writtenFrom f s source).previous step.command
        start := (writtenFrom f s source).cursor
        stop := step.command.endPoint (writtenFrom f s source).cursor
          (writtenFrom f s source).subpathStart }
    have output : ((writtenFrom f s source).emit step).output =
      [entry] ++ (writtenFrom f s source).output := rfl
    rcases writtenFrom_folds f s source with kept | ⟨p, popped, folds⟩
    · have after : ((writtenFrom f s source).emit step).output = [entry] ++ s.output := by
        rw [output, kept]
      have there : source.segment.start = entry.start := by
        rw [starts, ← aligned.position]
        exact (congrArg State.cursor kept).symm
      rw [originsAfter_kept kept after, after]
      exact .cons (.single there ends.symm) folded
    · rw [pop_output popped] at folded
      cases folded with
      | @cons _ earlier _ others here later =>
        rw [originsAfter_folded (pop_output popped) output, output]
        have near := ends ▸ canFold_near folds
        exact .cons (here.extend keeps.positive (pop_cursor popped) ends.symm near) later

theorem sourced_folded [Exact.Lengths α] (keeps : Keeps f) {cs : List (Command α)}
    {origins : List (List (Source α))}
    (ruled : ∀ source ∈ sourcesOf cs, Ruled f.options.precision source)
    (sourced : Sourced f (sourcesOf cs) s k origins) :
    Aligned f s (Pen.initial.after (cs.take k)) ∧
      List.Forall₂ (Folded f.error) s.output origins := by
  induction sourced with
  | initial => exact ⟨.initial f, .nil⟩
  | step _ ahead visited ih =>
    rename_i source rest _ _
    obtain ⟨aligned, folded⟩ := ih
    have here := ruled source (List.mem_of_mem_drop (ahead ▸ List.mem_cons_self))
    obtain ⟨next, follows, isNext, _⟩ := source_ahead ahead
    obtain ⟨rfl, plots⟩ := visits_plots keeps aligned here (visit_sound visited)
    refine ⟨isNext ▸ plots_aligned aligned here follows plots, ?_⟩
    exact plots_folded keeps aligned follows.starts rest folded plots

theorem folded_lines_near [Exact.Lengths α] (fitter : ArcFitter α) (options : Options α)
    (style : Style) (few : options.precision < 20) {ps : List (Placed α)}
    (strokes : ∀ c ∈ Placed.commands ps, Grid.Stroke options.precision c) :
    ∃ error s origins, options.error = .ok error ∧
      filterCommands fitter options style ps = .ok s.output.reverse ∧
      Laid .initial s.output.reverse ∧
      Sourced ⟨options, style, error, fitter⟩ (sourcesOf (Placed.commands ps)) s
        (sourcesOf (Placed.commands ps)).length origins ∧
      List.Forall₂ (Folded error) s.output.reverse origins.reverse := by
  have unit := Exact.error_eq options
  let f : Setup α := ⟨options, style, 1 / 10 ^ options.precision, fitter⟩
  have keeps : Keeps f := ⟨few, unit⟩
  have origin : Grid.Vertex options.precision (Pen.initial : Pen α).position :=
    Grid.origin_vertex options.precision
  have ruled := sources_ruled strokes origin
  obtain ⟨last, ran⟩ := visitAll_total keeps (.initial f) ruled true
  have filtered : filterCommands fitter options style ps = .ok last.output.reverse :=
    bind_ok.2 ⟨_, unit, bind_ok.2 ⟨last, ran, rfl⟩⟩
  have reached : Reached f (sourcesOf (Placed.commands ps)) last
      (sourcesOf (Placed.commands ps)).length :=
    reached_visitAll .initial rfl (Nat.add_comm _ _) (Nat.zero_le _) rfl (absurd rfl) ran
  obtain ⟨origins, sourced⟩ := reached_sourced reached
  refine ⟨_, last, origins, unit, filtered, (Pipeline.filtered_laid filtered).1, sourced, ?_⟩
  exact List.rel_reverse (sourced_folded keeps ruled sourced).2

-- Two folds, each of which the last vertex allows.
def bulgingPath (α : Type) [Field α] : List (Command α) :=
  [{ body := .move ⟨0, 0⟩ },
   { body := .line ⟨3, 3⟩ },
   { body := .line ⟨4, 3⟩ },
   { body := .line ⟨15, 8⟩ }]

def wholeUnits (α : Type) : Options α where
  flags := { removeUseless := false, convertToZ := false }
  makeArcs := none
  precision := 0

theorem bulging_strokes (α : Type) [Field α] :
    ∀ c ∈ bulgingPath α, Grid.Stroke 0 c := by
  have whole (n : ℕ) : Grid.Multiple 0 (n : α) := ⟨n, by simp⟩
  have stroke {c : Command α} (kind : c.kind = .move ∨ c.kind.isLine = true) (m n : ℕ)
      (numbers : c.body.numbers = [(m : α), (n : α)]) : Grid.Stroke 0 c := by
    refine ⟨kind, ?_⟩
    rw [numbers]
    intro x member
    rcases List.mem_pair.1 member with rfl | rfl
    · exact whole m
    · exact whole n
  unfold bulgingPath
  simp only [List.forall_mem_cons, List.not_mem_nil, false_imp_iff, implies_true, and_true]
  refine ⟨stroke (.inl rfl) 0 0 ?_, stroke (.inr rfl) 3 3 ?_, stroke (.inr rfl) 4 3 ?_,
    stroke (.inr rfl) 15 8 ?_⟩ <;> simp [Body.numbers, Body.args]

theorem folded_lines_near_whole :
    ∃ error placed owns, (wholeUnits ℝ).error = .ok error ∧
      filterCommands noFit (wholeUnits ℝ) {} (rebase true (bulgingPath ℝ)) = .ok placed ∧
      List.Forall₂ (Folded error) placed owns := by
  have same : Placed.commands (rebase true (bulgingPath ℝ)) = bulgingPath ℝ := rfl
  obtain ⟨error, s, origins, unit, filtered, _, _, folded⟩ :=
    folded_lines_near noFit (wholeUnits ℝ) {} (show (0 : ℤ) < 20 by decide)
      (same ▸ bulging_strokes ℝ)
  exact ⟨error, _, _, unit, filtered, folded⟩

-- The first vertex is more than one unit away from the line that is left, and every length that was
-- asked for is whole.
theorem folded_lines_near_bulging :
    (∀ c ∈ bulgingPath ℚ, Grid.Stroke (wholeUnits ℚ).precision c) ∧
      ∃ error move line, (wholeUnits ℚ).error = .ok error ∧
        filterCommands noFit (wholeUnits ℚ) {} (rebase false (bulgingPath ℚ)) =
          .ok [move, line] ∧
        line.command.kind = .line ∧ line.start = ⟨0, 0⟩ ∧ line.stop = ⟨15, 8⟩ ∧
        (⟨4, 3⟩ : Point ℚ).length = 5 ∧ (⟨15, 8⟩ : Point ℚ).length = 17 ∧
        ⟨3, 3⟩ ∈ vertices (bulgingPath ℚ) ∧ ¬ Plane.NearLine error ⟨3, 3⟩ line.start line.stop := by
  have written : (filterCommands noFit (wholeUnits ℚ) {}
      (rebase false (bulgingPath ℚ))).toOption.any (fun placed =>
        placed.map (fun p => (p.command.kind, p.start, p.stop)) =
          [(.move, ⟨0, 0⟩, ⟨0, 0⟩), (.line, ⟨0, 0⟩, ⟨15, 8⟩)]) = true := by
    decide +kernel
  obtain ⟨placed, filtered, shape⟩ := Fault.ok_of_any written
  obtain ⟨move, _, rfl, _, left⟩ := List.map_eq_cons_iff.1 (of_decide_eq_true shape)
  obtain ⟨line, rfl, drawn⟩ := List.map_eq_singleton_iff.1 left
  obtain ⟨kind, start, stop⟩ : line.command.kind = .line ∧ line.start = ⟨0, 0⟩ ∧
      line.stop = ⟨15, 8⟩ := by simpa using drawn
  have passed : vertices (bulgingPath ℚ) = [⟨0, 0⟩, ⟨3, 3⟩, ⟨4, 3⟩, ⟨15, 8⟩] := by
    decide +kernel
  refine ⟨bulging_strokes ℚ, 1, move, line, by decide +kernel, filtered, kind, start, stop,
    by decide +kernel, by decide +kernel, by simp [passed], ?_⟩
  rw [start, stop]
  rintro ⟨t, _, _, near⟩
  unfold Plane.apart Plane.toward at near
  linarith [sq_nonneg (289 * t - 69)]

end Filter
end PathData
