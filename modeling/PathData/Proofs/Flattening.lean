import Mathlib
import PathData.Geometry.Polyline
import PathData.Geometry.Sample
import PathData.Proofs.LonghandForms

namespace PathData
namespace Polyline

open scoped PathData.Scalar

section Runs

variable {α : Type} {segments block rest run : List (Segment α)} {place : ℕ}

structure Run (run : List (Segment α)) : Prop where
  nonempty : run ≠ []
  draws : ∀ g ∈ run, g.shape ≠ .move
  unclosed : ∀ g ∈ run.dropLast, g.shape ≠ .close

-- A run at a place of a path that is part of no longer one.
def MaximalRun (segments : List (Segment α)) (place : ℕ) (run : List (Segment α)) : Prop :=
  Run run ∧ ∃ before after, segments = before ++ run ++ after ∧ before.length = place ∧
    ∀ first left right last, before = first ++ left → after = right ++ last →
      Run (left ++ run ++ right) → left = [] ∧ right = []

-- No run goes on from one part of a path to the next.
def Apart (block rest : List (Segment α)) : Prop :=
  ∀ left right, left <:+ block → right <+: rest → Run (left ++ right) → left = [] ∨ right = []

theorem apart_nil : Apart block [] := by
  intro left right _ within _
  exact .inr (List.prefix_nil.1 within)

theorem apart_before_move {g : Segment α} (move : g.shape = .move) : Apart block (g :: rest) := by
  intro left right _ within run
  obtain none | ⟨right, rfl, _⟩ := List.prefix_cons_iff.1 within
  · exact .inr none
  · exact absurd move (run.draws g (by simp))

theorem apart_after {g : Segment α} (cut : g.shape = .move ∨ g.shape = .close) :
    Apart (block ++ [g]) rest := by
  intro left right within _ run
  obtain none | ⟨left, rfl, _⟩ := List.suffix_concat_iff.1 within
  · exact .inl none
  · cases cut with
    | inl move => exact absurd move (run.draws g (by simp))
    | inr close =>
      by_contra both
      have more : right ≠ [] := fun none => both (.inr none)
      have member : g ∈ (left ++ [g] ++ right).dropLast := by
        rw [List.dropLast_append_of_ne_nil more]
        simp
      exact run.unclosed g member close

namespace MaximalRun

theorem left (apart : Apart block rest) (maximalRun : MaximalRun block place run) :
    MaximalRun (block ++ rest) place run := by
  obtain ⟨isRun, before, after, rfl, placed, maximal⟩ := maximalRun
  refine ⟨isRun, before, after ++ rest, by simp, placed, ?_⟩
  intro first left right last onLeft onRight longer
  obtain ⟨tail, rfl, rfl⟩ | ⟨tail, same, _⟩ := List.append_eq_append_iff.1 onRight
  · have inside : left ++ run ++ after <:+ before ++ run ++ after := by
      rw [onLeft, List.append_assoc first, List.append_assoc first]
      exact List.suffix_append first _
    rw [← List.append_assoc] at longer
    obtain none | rfl := apart _ tail inside (List.prefix_append tail last) longer
    · simp [isRun.nonempty] at none
    · rw [List.append_nil] at longer ⊢
      exact maximal first left after [] onLeft (List.append_nil _).symm longer
  · exact maximal first left right tail onLeft same longer

theorem right (apart : Apart block rest) (maximalRun : MaximalRun rest place run) :
    MaximalRun (block ++ rest) (block.length + place) run := by
  obtain ⟨isRun, before, after, rfl, rfl, maximal⟩ := maximalRun
  refine ⟨isRun, block ++ before, after, by simp, by simp, ?_⟩
  intro first left right last onLeft onRight longer
  obtain ⟨head, rfl, rfl⟩ | ⟨head, rfl, rfl⟩ := List.append_eq_append_iff.1 onLeft
  · exact maximal head left right last rfl onRight longer
  · have inside : before ++ run ++ right <+: before ++ run ++ after := by
      rw [onRight, ← List.append_assoc]
      exact List.prefix_append _ last
    rw [List.append_assoc, List.append_assoc, ← List.append_assoc before] at longer
    obtain rfl | none := apart head _ (List.suffix_append first head) inside longer
    · exact maximal [] before right last rfl onRight (by simpa using longer)
    · simp [isRun.nonempty] at none

theorem sides (apart : Apart block rest) (maximalRun : MaximalRun (block ++ rest) place run) :
    MaximalRun block place run ∨
      ∃ later, place = block.length + later ∧ MaximalRun rest later run := by
  obtain ⟨isRun, before, after, whole, placed, maximal⟩ := maximalRun
  rw [List.append_assoc] at whole
  obtain ⟨outer, rfl, rfl⟩ | ⟨inner, rfl, later⟩ := List.append_eq_append_iff.1 whole
  · refine .inr ⟨outer.length, ?_, isRun, outer, after, ?_, rfl, ?_⟩
    · rw [← placed, List.length_append]
    · exact (List.append_assoc ..).symm
    · intro first left right last same
      exact maximal (block ++ first) left right last (by rw [same, List.append_assoc])
  · obtain ⟨tail, rfl, rfl⟩ | ⟨tail, rfl, rfl⟩ := List.append_eq_append_iff.1 later
    · refine .inl ⟨isRun, before, tail, (List.append_assoc ..).symm, placed, ?_⟩
      intro first left right last onLeft onRight
      exact maximal first left right (last ++ rest) onLeft (by rw [onRight, List.append_assoc])
    · have inside := List.suffix_append before inner
      obtain rfl | rfl := apart inner tail inside (List.prefix_append tail after) isRun
      · refine .inr ⟨0, by simp [placed], isRun, [], after, rfl, rfl, ?_⟩
        intro first left right last onLeft onRight longer
        obtain ⟨rfl, rfl⟩ := List.append_eq_nil_iff.1 onLeft.symm
        exact maximal before [] right last (List.append_nil _).symm onRight longer
      · refine .inl ⟨isRun, before, [], by simp, placed, ?_⟩
        intro first left right last onLeft onRight longer
        obtain ⟨rfl, rfl⟩ := List.append_eq_nil_iff.1 onRight.symm
        exact maximal first left [] after onLeft rfl longer

end MaximalRun

-- What reaches over the border is no run, so a run of one side is as long in the whole.
theorem maximalRun_append (apart : Apart block rest) :
    MaximalRun (block ++ rest) place run ↔
      MaximalRun block place run ∨
        ∃ later, place = block.length + later ∧ MaximalRun rest later run := by
  constructor
  · exact MaximalRun.sides apart
  · intro sides
    obtain here | ⟨later, rfl, there⟩ := sides
    · exact here.left apart
    · exact there.right apart

theorem maximalRun_self (isRun : Run block) :
    MaximalRun block place run ↔ place = 0 ∧ run = block := by
  constructor
  · intro ⟨_, before, after, whole, placed, maximal⟩
    obtain ⟨rfl, rfl⟩ := maximal [] before after [] rfl (List.append_nil _).symm (whole ▸ isRun)
    exact ⟨placed.symm, by simpa using whole.symm⟩
  · intro ⟨start, same⟩
    subst start same
    refine ⟨isRun, [], [], by simp, rfl, ?_⟩
    intro first left right last onLeft onRight _
    exact ⟨(List.append_eq_nil_iff.1 onLeft.symm).2, (List.append_eq_nil_iff.1 onRight.symm).1⟩

theorem not_maximalRun_nil : ¬ MaximalRun [] place run := by
  intro ⟨isRun, before, after, whole, _⟩
  simp [isRun.nonempty] at whole

theorem not_maximalRun_move {g : Segment α} (move : g.shape = .move) :
    ¬ MaximalRun [g] place run := by
  intro ⟨isRun, before, after, whole, _⟩
  obtain ⟨h, run, rfl⟩ := List.exists_cons_of_ne_nil isRun.nonempty
  have member : h ∈ [g] := by
    rw [whole]
    simp
  rw [List.mem_singleton] at member
  exact isRun.draws h List.mem_cons_self (member ▸ move)

inductive Cut : ℕ → List (Segment α) → List (ℕ × List (Segment α)) → Prop where
  | nil (place : ℕ) : Cut place [] []
  | move {place : ℕ} {g : Segment α} {rest : List (Segment α)}
      {runs : List (ℕ × List (Segment α))} (move : g.shape = .move)
      (later : Cut (place + 1) rest runs) : Cut place (g :: rest) runs
  | run {place : ℕ} {block rest : List (Segment α)} {runs : List (ℕ × List (Segment α))}
      (isRun : Run block) (apart : Apart block rest) (later : Cut (place + block.length) rest runs) :
      Cut place (block ++ rest) ((place, block) :: runs)

def Unbroken (current : List (Segment α)) : Prop :=
  ∀ g ∈ current, g.shape ≠ .move ∧ g.shape ≠ .close

theorem run_of_unbroken (unbroken : Unbroken current) (draws : current ≠ []) :
    Run current.reverse where
  nonempty := by simpa using draws
  draws g member := (unbroken g (List.mem_reverse.1 member)).1
  unclosed g member := (unbroken g (List.mem_reverse.1 (List.mem_of_mem_dropLast member))).2

theorem run_of_close {g : Segment α} (unbroken : Unbroken current) (close : g.shape = .close) :
    Run (current.reverse ++ [g]) where
  nonempty := by simp
  draws h member := by
    obtain drawn | rfl := List.mem_append.1 member |>.imp id List.mem_singleton.1
    · exact (unbroken h (List.mem_reverse.1 drawn)).1
    · simp [close]
  unclosed h member := by
    rw [List.dropLast_concat] at member
    exact (unbroken h (List.mem_reverse.1 member)).2

theorem exists_cut (unbroken : Unbroken current) (rest : List (Segment α)) (place : ℕ) :
    ∃ runs, Cut place (current.reverse ++ rest) runs ∧
      runs.map Prod.snd = subpathsFrom current rest := by
  induction rest generalizing current place with
  | nil =>
    cases current with
    | nil => exact ⟨[], .nil place, rfl⟩
    | cons g current =>
      exact ⟨_, .run (run_of_unbroken unbroken nofun) apart_nil (.nil _), rfl⟩
  | cons g rest ih =>
    have fresh : Unbroken ([] : List (Segment α)) := nofun
    -- Lines, curves and arcs go on with what is being drawn.
    have goesOn (draws : g.shape ≠ .move) (goes : g.shape ≠ .close) :
        ∃ runs, Cut place (current.reverse ++ g :: rest) runs ∧
          runs.map Prod.snd = subpathsFrom (g :: current) rest := by
      have longer : Unbroken (g :: current) := List.forall_mem_cons.2 ⟨⟨draws, goes⟩, unbroken⟩
      simpa using ih longer place
    cases shape : g.shape with
    | line | cubic | quadratic | arc =>
      simp only [subpathsFrom, shape]
      exact goesOn (by simp [shape]) (by simp [shape])
    | move =>
      obtain ⟨runs, cut, same⟩ := ih fresh (place + current.reverse.length + 1)
      simp only [subpathsFrom, shape, ← same]
      cases current with
      | nil => exact ⟨runs, .move shape cut, rfl⟩
      | cons h current =>
        have isRun := run_of_unbroken unbroken nofun
        exact ⟨_, .run isRun (apart_before_move shape) (.move shape cut), rfl⟩
    | close =>
      obtain ⟨runs, cut, same⟩ := ih fresh (place + (current.reverse ++ [g]).length)
      simp only [subpathsFrom, shape, ← same]
      have isRun := run_of_close unbroken shape
      refine ⟨(place, current.reverse ++ [g]) :: runs, ?_, ?_⟩
      · rw [List.append_cons]
        exact .run isRun (apart_after (.inr shape)) cut
      · simp [finish]

theorem maximalRun_cons_move {g : Segment α} (move : g.shape = .move) :
    MaximalRun (g :: rest) place run ↔ ∃ later, place = 1 + later ∧ MaximalRun rest later run := by
  have apart : Apart ([] ++ [g]) rest := apart_after (.inl move)
  refine (maximalRun_append apart).trans ?_
  simp [not_maximalRun_move move]

theorem Cut.mem_iff {runs : List (ℕ × List (Segment α))} (cut : Cut start segments runs) :
    (place, run) ∈ runs ↔ ∃ later, place = start + later ∧ MaximalRun segments later run := by
  induction cut with
  | nil place => simp [not_maximalRun_nil]
  | @move start g rest runs move later ih =>
    rw [ih]
    constructor
    · intro ⟨later, placed, maximal⟩
      exact ⟨1 + later, by omega, (maximalRun_cons_move move).2 ⟨later, rfl, maximal⟩⟩
    · intro ⟨_, placed, whole⟩
      obtain ⟨later, rfl, maximal⟩ := (maximalRun_cons_move move).1 whole
      exact ⟨later, by omega, maximal⟩
  | @run start block rest runs isRun apart later ih =>
    simp only [List.mem_cons, ih, Prod.mk.injEq, maximalRun_append apart, maximalRun_self isRun]
    constructor
    · intro member
      obtain ⟨rfl, rfl⟩ | ⟨later, placed, maximal⟩ := member
      · exact ⟨0, rfl, .inl ⟨rfl, rfl⟩⟩
      · exact ⟨block.length + later, by omega, .inr ⟨later, rfl, maximal⟩⟩
    · intro ⟨_, placed, sides⟩
      obtain ⟨rfl, rfl⟩ | ⟨later, rfl, maximal⟩ := sides
      · exact .inl ⟨placed, rfl⟩
      · exact .inr ⟨later, by omega, maximal⟩

theorem Cut.ordered {runs : List (ℕ × List (Segment α))} (cut : Cut start segments runs) :
    runs.Pairwise fun r s => r.1 + r.2.length ≤ s.1 := by
  induction cut with
  | nil => exact .nil
  | move _ _ ih => exact ih
  | run _ _ later ih =>
    refine .cons ?_ ih
    intro r member
    obtain ⟨further, placed, _⟩ := later.mem_iff.1 member
    dsimp only
    omega

theorem Cut.drawn {runs : List (ℕ × List (Segment α))} (cut : Cut start segments runs) :
    runs.flatMap Prod.snd = segments.filter fun g => !g.isMove := by
  induction cut with
  | nil => rfl
  | @move _ g _ _ move _ ih =>
    rw [ih, List.filter_cons, Segment.isMove_iff.2 move]
    rfl
  | @run _ block _ _ isRun _ _ ih =>
    have all : ∀ g ∈ block, (!g.isMove) = true := by
      intro g member
      have draws := isRun.draws g member
      simpa [← Segment.isMove_iff] using draws
    rw [List.flatMap_cons, ih, List.filter_append, List.filter_eq_self.2 all]

end Runs

section Joints

variable {α : Type} {sample : Segment α → List (Point α)} {run : List (Segment α)}

-- Parts one after another, with every joint that two of them share written once.
inductive Joined : List (List (Point α)) → List (Point α) → Prop where
  | single (part : List (Point α)) : Joined [part] part
  | more {parts : List (List (Point α))} {front back : List (Point α)} {joint : Point α}
      (before : Joined parts (front ++ [joint])) :
      Joined (parts ++ [joint :: back]) (front ++ joint :: back)

structure Spans (points : List (Point α)) (g : Segment α) : Prop where
  first : points.head? = some g.start
  last : points.getLast? = some g.stop
  enough : 2 ≤ points.length

structure Traces (sample : Segment α → List (Point α)) (run : List (Segment α))
    (points : List (Point α)) : Prop where
  joined : Joined (run.map sample) points
  first : points.head? = run.head?.map Segment.start
  last : points.getLast? = run.getLast?.map Segment.stop
  enough : 2 ≤ points.length

theorem join_concat {parts : List (List (Point α))} (nonempty : parts ≠ [])
    (part : List (Point α)) : join (parts ++ [part]) = join parts ++ part.tail := by
  cases parts with
  | nil => exact absurd rfl nonempty
  | cons first parts => simp [join]

theorem traces_single {g : Segment α} (spans : Spans (sample g) g) :
    Traces sample [g] (join [sample g]) := by
  have same : join [sample g] = sample g := List.append_nil _
  rw [same]
  exact ⟨.single _, spans.first, spans.last, spans.enough⟩

theorem Traces.concat {g : Segment α} (traces : Traces sample run (join (run.map sample)))
    (last : run.getLast? = some h) (meets : h.stop = g.start) (spans : Spans (sample g) g) :
    Traces sample (run ++ [g]) (join ((run ++ [g]).map sample)) := by
  have drawn : run ≠ [] := by
    rintro rfl
    cases last
  obtain ⟨joined, first, ends, enough⟩ := traces
  rw [last] at ends
  obtain ⟨front, whole⟩ := List.getLast?_eq_some_iff.1 ends
  obtain ⟨back, part⟩ := List.head?_eq_some_iff.1 spans.first
  have points : join ((run ++ [g]).map sample) = front ++ g.start :: back := by
    rw [List.map_append, List.map_singleton, join_concat (by simpa using drawn), whole, part, meets]
    simp
  rw [points]
  rw [whole, meets] at joined first
  refine ⟨?_, ?_, ?_, ?_⟩
  · rw [List.map_append, List.map_singleton, part]
    exact .more joined
  · rw [List.head?_append_of_ne_nil _ drawn, ← first]
    cases front <;> rfl
  · have stop := spans.last
    rw [part] at stop
    rw [List.getLast?_append, stop]
    simp
  · have two := spans.enough
    rw [part] at two
    rw [List.length_append]
    omega

theorem join_traces (nonempty : run ≠ []) (chain : run.IsChain fun g h => g.stop = h.start)
    (spans : ∀ g ∈ run, Spans (sample g) g) : Traces sample run (join (run.map sample)) := by
  induction run using List.reverseRecOn with
  | nil => exact absurd rfl nonempty
  | append_singleton run g ih =>
    have here := spans g (by simp)
    obtain ⟨before, _, border⟩ := List.isChain_append.1 chain
    cases last : run.getLast? with
    | none =>
      obtain rfl := List.getLast?_eq_none_iff.1 last
      exact traces_single here
    | some h =>
      have drawn : run ≠ [] := by
        rintro rfl
        cases last
      have traces := ih drawn before fun g member => spans g (List.mem_append_left _ member)
      exact traces.concat last (border h last g rfl) here

end Joints

section Samples

theorem parameters_ends {count : ℕ} (enough : 2 ≤ count) :
    (Sample.parameters count).head? = some 0.0 ∧ (Sample.parameters count).getLast? = some 1.0 ∧
      (Sample.parameters count).length = count := by
  obtain ⟨more, rfl⟩ := Nat.exists_eq_add_of_le' enough
  unfold Sample.parameters
  refine ⟨?_, ?_, ?_⟩
  · simp [List.range_succ_eq_map]
  · simp [List.range_succ]
  · simp

theorem sampleWith_spans {g : Segment Float} {point : Float → Point Float} {count : ℕ}
    (enough : 2 ≤ count) (ends : g.isBent → point 0.0 = g.start ∧ point 1.0 = g.stop) :
    Spans (g.sampleWith point count) g := by
  unfold Segment.sampleWith
  split
  · rename_i bent
    obtain ⟨start, stop⟩ := ends bent
    obtain ⟨first, last, length⟩ := parameters_ends enough
    refine ⟨?_, ?_, ?_⟩
    · rw [List.head?_map, first]
      exact congrArg some start
    · rw [List.getLast?_map, last]
      exact congrArg some stop
    · rw [List.length_map, length]
      exact enough
  · exact ⟨rfl, rfl, le_refl 2⟩

end Samples

section Paths

theorem subpathStart_concat {α : Type} [Scalar α] (before : List (Segment α))
    {drawn : List (Segment α)} (draws : ∀ g ∈ drawn, g.shape ≠ .move) :
    Segment.subpathStart (before ++ drawn) = Segment.subpathStart before := by
  have none : drawn.reverse.find? Segment.isMove = none := by
    rw [List.find?_eq_none]
    intro g member move
    exact draws g (List.mem_reverse.1 member) (Segment.isMove_iff.1 move)
  unfold Segment.subpathStart
  rw [List.reverse_append, List.find?_append, none]
  rfl

variable {point : Segment Float → Float → Point Float} {cs : List (Command Float)}
  {place : ℕ} {run : List (Segment Float)}

def samples (point : Segment Float → Float → Point Float) (g : Segment Float) :
    List (Point Float) :=
  g.sampleWith (point g) Sample.perSegment

example (g : Segment Float) : samples Segment.point g = g.sample Sample.perSegment := rfl

theorem traces_of_maximal (maximal : MaximalRun (longhand cs) place run)
    (ends : ∀ g ∈ longhand cs, g.isBent → point g 0.0 = g.start ∧ point g 1.0 = g.stop) :
    Traces (samples point) run (join (run.map (samples point))) := by
  obtain ⟨isRun, before, after, whole, _⟩ := maximal
  have contiguous : (longhand cs).IsChain fun g h => g.stop = h.start :=
    Pen.drawAll_contiguous .initial cs
  rw [whole] at contiguous ends
  apply join_traces isRun.nonempty
  · exact contiguous.left_of_append.right_of_append
  · intro g member
    have inside : g ∈ before ++ run ++ after := by simp [member]
    exact sampleWith_spans (by decide) (ends g inside)

theorem closes_of_maximal (maximal : MaximalRun (longhand cs) place run)
    (last : run.getLast? = some g) (close : g.shape = .close) :
    g.stop = Segment.subpathStart ((longhand cs).take place) := by
  obtain ⟨isRun, before, after, whole, rfl, _⟩ := maximal
  obtain ⟨drawn, rfl⟩ := List.getLast?_eq_some_iff.1 last
  have split : longhand cs = (before ++ drawn) ++ g :: after := by
    rw [whole]
    simp
  have draws : ∀ h ∈ drawn, h.shape ≠ .move :=
    fun h member => isRun.draws h (List.mem_append_left _ member)
  rw [longhand_closes split close, subpathStart_concat before draws, split, List.append_assoc,
    List.take_left]

structure Flattened (point : Segment Float → Float → Point Float) (cs : List (Command Float))
    (runs : List (ℕ × List (Segment Float))) : Prop where
  maximal : ∀ place run, (place, run) ∈ runs ↔ MaximalRun (longhand cs) place run
  ordered : runs.Pairwise fun r s => r.1 + r.2.length ≤ s.1
  drawn : runs.flatMap Prod.snd = (longhand cs).filter fun g => !g.isMove
  traced : List.Forall₂ (fun r points => Traces (samples point) r.2 points) runs
    (flatten (samples point) (longhand cs))
  closed : ∀ place run g, (place, run) ∈ runs → run.getLast? = some g → g.shape = .close →
    g.stop = Segment.subpathStart ((longhand cs).take place)

theorem flatten_runs (point : Segment Float → Float → Point Float) (cs : List (Command Float))
    (ends : ∀ g ∈ longhand cs, g.isBent → point g 0.0 = g.start ∧ point g 1.0 = g.stop) :
    ∃ runs, Flattened point cs runs := by
  have fresh : Unbroken ([] : List (Segment Float)) := nofun
  obtain ⟨runs, cut, same⟩ := exists_cut fresh (longhand cs) 0
  have maximal (place : ℕ) (run : List (Segment Float)) :
      (place, run) ∈ runs ↔ MaximalRun (longhand cs) place run := by
    refine cut.mem_iff.trans ?_
    simp
  refine ⟨runs, maximal, cut.ordered, cut.drawn, ?_, ?_⟩
  · unfold flatten
    rw [← same, List.map_map, List.forall₂_map_right_iff, List.forall₂_same]
    intro r member
    exact traces_of_maximal ((maximal r.1 r.2).1 member) ends
  · intro place run g member
    exact closes_of_maximal ((maximal place run).1 member)

-- A curve and an arc up to a close, another close, and a line after two moves.
def sketch : List (Command Float) :=
  [{ body := .move ⟨1, 1⟩ }, { body := .quadratic ⟨2, 3⟩ ⟨4, 1⟩, relative := true },
    { body := .arc ⟨2, 2, 0, 0, 1⟩ ⟨8, 1⟩ }, { body := .close }, { body := .close },
    { body := .move ⟨0, 0⟩ }, { body := .move ⟨3, 3⟩ }, { body := .line ⟨4, 4⟩ }]

theorem flatten_runs_sketch :
    (∀ g ∈ longhand sketch, g.isBent → g.point 0.0 = g.start ∧ g.point 1.0 = g.stop) ∧
      ∃ runs, Flattened Segment.point sketch runs :=
  ⟨by decide +kernel, flatten_runs Segment.point sketch (by decide +kernel)⟩

end Paths
end Polyline
end PathData
