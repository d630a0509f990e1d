import PathData.Proofs.Exact
import PathData.Proofs.Outcomes
import PathData.Proofs.RunOrder

namespace PathData
namespace Pipeline

open Fault (bind_ok)

variable {α : Type} {job : Job α} {entries : List (Entry α)} {id : String}

-- What is there after some passes, where `start` was there before them.
def leftFrom (start : List (Placed α)) (entries : List (Entry α)) : List (Placed α) :=
  (entries.getLast?.map Entry.result).getD start

theorem leftFrom_cons (start : List (Placed α)) (entry : Entry α) (later : List (Entry α)) :
    leftFrom start (entry :: later) = leftFrom entry.result later := by
  unfold leftFrom
  rw [List.getLast?_cons]
  cases later.getLast? <;> rfl

-- An entry for each pass, in their order, with what came of calling it on what was left before. A
-- failure does not keep the next pass from being called, nor does it take back any change.
structure Calls (job : Job α) (ordered : List (Pass (Action α))) (entries : List (Entry α)) :
    Prop where
  ids : entries.map Entry.id = Registry.ids ordered
  answers : ∀ (i : Nat) (pass : Pass (Action α)), ordered[i]? = some pass →
    ∃ entry : Entry α, entries[i]? = some entry ∧
      (entry.result, entry.failure) = pass.run job (result (entries.take i))

theorem runAll_ids (job : Job α) (start : List (Placed α)) (ordered : List (Pass (Action α))) :
    (runAll job start ordered).map Entry.id = Registry.ids ordered := by
  induction ordered generalizing start with
  | nil => rfl
  | cons pass rest ih => exact congrArg (pass.id :: ·) (ih (pass.run job start).1)

theorem runAll_answers {start : List (Placed α)} {ordered : List (Pass (Action α))}
    {pass : Pass (Action α)} {i : Nat} (stands : ordered[i]? = some pass) :
    ∃ entry, (runAll job start ordered)[i]? = some entry ∧ (entry.result, entry.failure) =
      pass.run job (leftFrom start ((runAll job start ordered).take i)) := by
  induction ordered generalizing start i with
  | nil => cases stands
  | cons first rest ih =>
    cases i with
    | zero =>
      cases stands
      exact ⟨_, rfl, rfl⟩
    | succ i =>
      obtain ⟨entry, found, answers⟩ := @ih (first.run job start).1 i stands
      refine ⟨entry, found, answers.trans ?_⟩
      change _ = pass.run job (leftFrom start (_ :: (runAll job (first.run job start).1 rest).take i))
      rw [leftFrom_cons]

theorem runAll_calls (job : Job α) (ordered : List (Pass (Action α))) :
    Calls job ordered (runAll job [] ordered) :=
  ⟨runAll_ids job [] ordered, fun _ _ => runAll_answers⟩

theorem run_calls {r : Registry (Action α)} {ordered : List (Pass (Action α))}
    (resolved : r.without (skipped r job.options.flags) = .ok ordered) :
    ∃ entries, run r job = .ok entries ∧ Calls job ordered entries ∧
      (entries.map Entry.id).Nodup := by
  have order := Registry.runOrder_of_resolve resolved
  have calls := runAll_calls job ordered
  refine ⟨runAll job [] ordered, ?_, calls, ?_⟩
  · unfold run
    rw [resolved]
    rfl
  · rw [calls.ids]
    refine order.once.map_on ?_
    intro p member q member' same
    exact Registry.eq_of_id r.ids_nodup ((order.members p).1 member).registered
      ((order.members q).1 member').registered same

theorem mem_completed : id ∈ completed entries ↔ ∃ e ∈ entries, e.failure = none ∧ e.id = id := by
  simp [completed, and_assoc]

theorem mem_failed :
    id ∈ (failures entries).map Prod.fst ↔ ∃ e ∈ entries, e.failure ≠ none ∧ e.id = id := by
  simp only [failures, List.mem_map, List.mem_filterMap, Option.map_eq_some_iff]
  constructor
  · rintro ⟨_, ⟨e, member, failure, failed, rfl⟩, rfl⟩
    exact ⟨e, member, by simp [failed], rfl⟩
  · rintro ⟨e, member, failed, rfl⟩
    obtain ⟨failure, failed⟩ := Option.ne_none_iff_exists'.1 failed
    exact ⟨(e.id, failure), ⟨e, member, failure, failed, rfl⟩, rfl⟩

theorem failures_nil : failures entries = [] ↔ ∀ e ∈ entries, e.failure = none := by
  simp [failures]

theorem completed_disjoint (distinct : (entries.map Entry.id).Nodup) :
    (completed entries).Disjoint ((failures entries).map Prod.fst) := by
  intro id isCompleted isFailed
  obtain ⟨e, member, succeeded, named⟩ := mem_completed.1 isCompleted
  obtain ⟨e', member', failed, named'⟩ := mem_failed.1 isFailed
  have same : e = e' :=
    List.inj_on_of_nodup_map distinct member member' (named.trans named'.symm)
  exact failed (same ▸ succeeded)

theorem completed_or_failed :
    id ∈ completed entries ∨ id ∈ (failures entries).map Prod.fst ↔
      id ∈ entries.map Entry.id := by
  rw [mem_completed, mem_failed, List.mem_map]
  constructor
  · rintro (⟨e, member, _, named⟩ | ⟨e, member, _, named⟩) <;> exact ⟨e, member, named⟩
  · rintro ⟨e, member, named⟩
    by_cases succeeded : e.failure = none
    · exact .inl ⟨e, member, succeeded, named⟩
    · exact .inr ⟨e, member, succeeded, named⟩

-- What is added for markers, which are left without a vertex where a path that drew something has
-- only moves left.
def closing (job : Job α) (cs : List (Command α)) : List (Command α) :=
  if job.style.hasMarker = true ∧ (∃ c ∈ job.path, c.kind ≠ .move) ∧ ∀ c ∈ cs, c.kind = .move then
    [{ body := .close }]
  else []

theorem hasDrawing_iff_kind {cs : List (Command α)} :
    hasDrawing cs = true ↔ ∃ c ∈ cs, c.kind ≠ .move := by
  simp [hasDrawing, Command.isMove]

theorem keepVertex_eq (job : Job α) (cs : List (Command α)) :
    keepVertex job cs = cs ++ closing job cs := by
  have onlyMoves : hasDrawing cs = false ↔ ∀ c ∈ cs, c.kind = .move := by
    rw [← Bool.not_eq_true, hasDrawing_iff_kind]
    simp
  unfold keepVertex closing
  simp only [Bool.and_eq_true, Bool.not_eq_true', onlyMoves, hasDrawing_iff_kind, and_assoc]
  split
  · rfl
  · rw [List.append_nil]

variable [Scalar α]

theorem closing_rounded (o : Options α) (error : α) (job : Job α) (cs : List (Command α)) :
    (closing job cs).mapM (o.roundCommand error) = .ok (closing job cs) := by
  apply Fault.mapM_self
  intro c member
  unfold closing at member
  split at member
  · rw [List.mem_singleton.1 member]
    rfl
  · cases member

-- The commands that the passes have left, rounded one by one, and what markers ask for after them.
def Rounds (job : Job α) (left cs : List (Command α)) : Prop :=
  ∃ error rounded, job.options.error = .ok error ∧
    List.Forall₂ (fun c c' => job.options.roundCommand error c = .ok c') left rounded ∧
    cs = rounded ++ closing job left

theorem finish_ok {ps : List (Placed α)} {cs : List (Command α)} :
    finish job ps = .ok cs ↔ Rounds job (Placed.commands ps) cs := by
  unfold finish Rounds
  simp only [keepVertex_eq, List.mapM_append, closing_rounded, bind_ok, Fault.mapM_iff]
  constructor
  · rintro ⟨error, unit, rounded, mapped, added, same, made⟩
    cases same
    cases made
    exact ⟨error, rounded, unit, mapped, rfl⟩
  · rintro ⟨error, rounded, unit, mapped, rfl⟩
    exact ⟨error, unit, rounded, mapped, closing job (Placed.commands ps), rfl, rfl⟩

theorem optimize_all_or_nothing {r : Registry (Action α)} {ordered : List (Pass (Action α))}
    (nonempty : job.path ≠ [])
    (resolved : r.without (skipped r job.options.flags) = .ok ordered) :
    ∃ entries, run r job = .ok entries ∧ Calls job ordered entries ∧
      (Registry.ids ordered).Nodup ∧
      (completed entries).Disjoint ((failures entries).map Prod.fst) ∧
      (∀ id, id ∈ completed entries ∨ id ∈ (failures entries).map Prod.fst ↔
        id ∈ Registry.ids ordered) ∧
      (Pipeline.optimize r job = .ok none ↔ ∃ e ∈ entries, e.failure ≠ none) ∧
      ∀ cs, Pipeline.optimize r job = .ok (some cs) ↔
        (∀ e ∈ entries, e.failure = none) ∧ Rounds job (Placed.commands (result entries)) cs := by
  obtain ⟨entries, ran, calls, distinct⟩ := run_calls resolved
  refine ⟨entries, ran, calls, calls.ids ▸ distinct, completed_disjoint distinct, ?_, ?_, ?_⟩
  · intro id
    rw [← calls.ids]
    exact completed_or_failed
  · have someFailed : (∃ e ∈ entries, e.failure ≠ none) ↔ failures entries ≠ [] := by
      rw [ne_eq, failures_nil]
      simp
    rw [optimize_run nonempty ran, someFailed]
    split
    · rename_i succeeded
      cases finish job (result entries) <;> simp [succeeded]
    · rename_i failed
      simp [failed]
  · intro cs
    rw [optimize_run nonempty ran, ← failures_nil, ← finish_ok]
    split
    · rename_i succeeded
      cases finish job (result entries) <;> simp [succeeded]
    · rename_i failed
      simp [failed]

-- A pass that has drawn before it fails, if it does, and one that doubles what is there.
def spot : Placed ℚ := ⟨{ body := .move ⟨1, 1⟩ }, ⟨1, 1⟩, ⟨1, 1⟩⟩

def spotting (failure : Option PassFailure) : Pass (Action ℚ) :=
  ⟨"spot", .normalize, [], [], fun _ ps => (spot :: ps, failure)⟩

def doubling : Pass (Action ℚ) :=
  ⟨"double", .optimize, ["spot"], [], fun _ ps => (ps ++ ps, none)⟩

def spots (failure : Option PassFailure) : Registry (Action ℚ) where
  passes := [doubling, spotting failure]
  ids_nodup := by
    have distinct : ["double", "spot"].Nodup := by decide
    exact distinct

def markedLine : Job ℚ where
  path := [{ body := .move ⟨0, 0⟩ }, { body := .line ⟨2, 0⟩ }]
  options := { flags := {}, makeArcs := none, precision := 3 }
  style := { hasMarker := true }

open scoped Exact in
theorem optimize_all_or_nothing_spots :
    (∃ entries, run (spots (some (.other "no room"))) markedLine = .ok entries ∧
      entries.map Entry.result = [[spot], [spot, spot]]) ∧
      Pipeline.optimize (spots (some (.other "no room"))) markedLine = .ok none ∧
      Pipeline.optimize (spots none) markedLine =
        .ok (some [spot.command, spot.command, { body := .close }]) := by
  have resolved (failure : Option PassFailure) :
      (spots failure).without (skipped (spots failure) markedLine.options.flags) =
        .ok [spotting failure, doubling] := by
    cbv
  have ran (failure : Option PassFailure) : run (spots failure) markedLine =
      .ok [⟨"spot", [spot], failure⟩, ⟨"double", [spot, spot], none⟩] := by
    unfold run
    rw [resolved]
    rfl
  have nonempty : markedLine.path ≠ [] := List.cons_ne_nil _ _
  refine ⟨⟨_, ran _, rfl⟩, ?_, ?_⟩
  · obtain ⟨entries, same, _, _, _, _, kept, _⟩ :=
      optimize_all_or_nothing nonempty (resolved (some (.other "no room")))
    rw [ran] at same
    cases same
    exact kept.2 ⟨_, List.mem_cons_self, by simp⟩
  · obtain ⟨entries, same, _, _, _, _, _, rounded⟩ :=
      optimize_all_or_nothing nonempty (resolved none)
    rw [ran] at same
    cases same
    have stays : markedLine.options.roundCommand (1 / 10 ^ markedLine.options.precision)
        spot.command = .ok spot.command := by
      decide +kernel
    refine (rounded _).2 ⟨by simp, _, [spot.command, spot.command], Exact.error_eq _, ?_, ?_⟩
    · exact .cons stays (.cons stays .nil)
    · decide +kernel

end Pipeline
end PathData
