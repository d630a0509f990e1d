import Mathlib
import PathData.Filter.Radius
import PathData.Proofs.Exact
import PathData.Proofs.FilterForms

namespace PathData
namespace Radius

open Fault (bind_ok)

section Fuel

variable {α : Type} [Scalar α] {s : Search α} {β γ : Type}

def Agrees (fewer more : α → Except Fault (Option α)) : Prop :=
  ∀ radius answer, fewer radius = .ok answer → more radius = .ok answer

-- A part of the search whose result does not change when more questions are answered.
def Steady (part : (α → Except Fault (Option α)) → Except Fault β) : Prop :=
  ∀ fewer more, Agrees fewer more → ∀ result, part fewer = .ok result → part more = .ok result

omit [Scalar α] in
theorem steady_const (computed : Except Fault β) :
    Steady fun _ : α → Except Fault (Option α) => computed :=
  fun _ _ _ _ ran => ran

omit [Scalar α] in
theorem steady_ask (radius : α) : Steady fun ask : α → Except Fault (Option α) => ask radius :=
  fun _ _ agrees answer ran => agrees radius answer ran

omit [Scalar α] in
theorem steady_bind {part : (α → Except Fault (Option α)) → Except Fault β}
    {next : β → (α → Except Fault (Option α)) → Except Fault γ} (first : Steady part)
    (later : ∀ result, Steady (next result)) :
    Steady fun ask => part ask >>= fun result => next result ask := by
  intro fewer more agrees result ran
  obtain ⟨between, here, there⟩ := bind_ok.1 ran
  exact bind_ok.2 ⟨between, first _ _ agrees _ here, later between _ _ agrees _ there⟩

theorem accepts_steady (height candidate : α) :
    Steady fun ask => accepts s ask height candidate := by
  unfold accepts
  refine steady_bind (steady_const _) ?_
  intro measured
  cases measured with
  | none => exact steady_const _
  | some h =>
    dsimp only
    split
    · exact steady_const _
    · refine steady_bind (steady_ask candidate) ?_
      exact fun answer => steady_const _

theorem scan_steady (radius height : α) (left places : ℕ) :
    Steady fun ask => scan s ask radius height left places := by
  induction left generalizing places with
  | zero => exact steady_const _
  | succ left ih =>
    unfold scan
    refine steady_bind (steady_const _) ?_
    intro nearest
    split
    · exact steady_const _
    · refine steady_bind (steady_const _) ?_
      intro second
      refine steady_bind (accepts_steady height nearest) ?_
      intro accepted
      split
      · exact steady_const _
      · refine steady_bind (accepts_steady height second) ?_
        intro accepted
        split
        · exact steady_const _
        · exact ih (places + 1)

theorem step_steady (radius : α) : Steady fun ask => step s ask radius := by
  unfold step
  refine steady_bind (steady_const _) ?_
  intro measured
  cases measured with
  | none => exact steady_const _
  | some height => exact scan_steady radius height _ _

theorem plain_agrees {few many : ℕ} (fuel : few ≤ many) : Agrees (plain s few) (plain s many) := by
  induction few generalizing many with
  | zero => exact fun _ _ ran => nomatch ran
  | succ few ih =>
    obtain ⟨left, rfl, room⟩ : ∃ left, many = left + 1 ∧ few ≤ left := ⟨many - 1, by omega⟩
    exact fun radius => step_steady radius _ _ (ih room)

-- What the search answers when it has enough fuel.
def Finds (s : Search α) (radius : α) (answer : Option α) : Prop :=
  ∃ fuel, plain s fuel radius = .ok answer

def Stable (s : Search α) (radius : α) : Prop :=
  Finds s radius (some radius)

theorem Finds.unique {radius : α} {answer other : Option α} (finds : Finds s radius answer)
    (again : Finds s radius other) : answer = other := by
  obtain ⟨few, ran⟩ := finds
  obtain ⟨many, rerun⟩ := again
  have both := plain_agrees (Nat.le_max_left few many) _ _ ran
  rw [plain_agrees (Nat.le_max_right few many) _ _ rerun] at both
  exact (Except.ok.inj both).symm

end Fuel

section Stores

variable {α : Type} [Scalar α] {s : Search α} {β γ : Type} {fuel : ℕ}

def Sound (s : Search α) (store : Store α) : Prop :=
  ∀ entry ∈ store, Finds s entry.1 entry.2

omit [Scalar α] in
theorem stored_bind {part : Stored α β} {next : β → Stored α γ} {store after : Store α}
    {result : γ} :
    (part >>= next) store = .ok (result, after) ↔
      ∃ b between, part store = .ok (b, between) ∧ next b between = .ok (result, after) := by
  change (part store >>= fun ran => next ran.1 ran.2) = _ ↔ _
  rw [bind_ok, Prod.exists]

-- A part over the store that leaves a sound store sound, and gives what the part gives that
-- recomputes everything. It gives it whenever that part does so with no more fuel.
structure Recalls (s : Search α) (fuel : ℕ)
    (part : (α → Except Fault (Option α)) → Except Fault β) (stored : Stored α β) : Prop where
  steady : Steady part
  same : ∀ store result after, Sound s store → stored store = .ok (result, after) →
    (∃ fuel, part (plain s fuel) = .ok result) ∧ Sound s after
  answers : ∀ store result, Sound s store → part (plain s fuel) = .ok result →
    ∃ after, stored store = .ok (result, after)

theorem recalls_lift (computed : Except Fault β) :
    Recalls s fuel (fun _ => computed) (liftM computed) := by
  refine ⟨steady_const computed, ?_, ?_⟩
  · intro store _ _ sound ran
    obtain ⟨result, here, made⟩ := bind_ok.1 ran
    cases made
    exact ⟨⟨0, here⟩, sound⟩
  · intro store result _ here
    exact ⟨store, bind_ok.2 ⟨result, here, rfl⟩⟩

theorem recalls_pure (result : β) : Recalls s fuel (fun _ => pure result) (pure result) := by
  refine ⟨steady_const _, ?_, ?_⟩
  · intro store _ _ sound ran
    cases ran
    exact ⟨⟨0, rfl⟩, sound⟩
  · intro store _ _ ran
    cases ran
    exact ⟨store, rfl⟩

-- Each part had fuel enough of its own, and the more of it is enough for both.
theorem recalls_bind {part : (α → Except Fault (Option α)) → Except Fault β}
    {next : β → (α → Except Fault (Option α)) → Except Fault γ} {stored : Stored α β}
    {after : β → Stored α γ} (first : Recalls s fuel part stored)
    (later : ∀ result, Recalls s fuel (next result) (after result)) :
    Recalls s fuel (fun ask => part ask >>= fun result => next result ask) (stored >>= after) := by
  refine ⟨steady_bind first.steady fun result => (later result).steady, ?_, ?_⟩
  · intro store _ _ sound ran
    obtain ⟨result, between, here, there⟩ := stored_bind.1 ran
    obtain ⟨⟨few, plainly⟩, kept⟩ := first.same store result between sound here
    obtain ⟨⟨many, onward⟩, kept⟩ := (later result).same between _ _ kept there
    refine ⟨⟨max few many, bind_ok.2 ⟨result, ?_, ?_⟩⟩, kept⟩
    · exact first.steady _ _ (plain_agrees (Nat.le_max_left few many)) _ plainly
    · exact (later result).steady _ _ (plain_agrees (Nat.le_max_right few many)) _ onward
  · intro store _ sound ran
    obtain ⟨result, plainly, onward⟩ := bind_ok.1 ran
    obtain ⟨between, here⟩ := first.answers store result sound plainly
    obtain ⟨_, kept⟩ := first.same store result between sound here
    obtain ⟨last, there⟩ := (later result).answers between _ kept onward
    exact ⟨last, stored_bind.2 ⟨result, between, here, there⟩⟩

variable {shortest : α → Stored α (Option α)}

theorem accepts_recalls (asked : ∀ r, Recalls s fuel (fun ask => ask r) (shortest r))
    (height candidate : α) :
    Recalls s fuel (fun ask => accepts s ask height candidate)
      (accepts s shortest height candidate) := by
  unfold accepts
  refine recalls_bind (recalls_lift _) ?_
  intro measured
  cases measured with
  | none => exact recalls_pure false
  | some h =>
    dsimp only
    split
    · exact recalls_pure false
    · refine recalls_bind (asked candidate) ?_
      intro answer
      cases answer with
      | none => exact recalls_pure false
      | some r => exact recalls_pure (r == candidate)

theorem scan_recalls (asked : ∀ r, Recalls s fuel (fun ask => ask r) (shortest r))
    (radius height : α) (left places : ℕ) :
    Recalls s fuel (fun ask => scan s ask radius height left places)
      (scan s shortest radius height left places) := by
  induction left generalizing places with
  | zero => exact recalls_pure none
  | succ left ih =>
    unfold scan
    refine recalls_bind (recalls_lift _) ?_
    intro nearest
    split
    · exact recalls_pure _
    · refine recalls_bind (recalls_lift _) ?_
      intro second
      refine recalls_bind (accepts_recalls asked height nearest) ?_
      intro accepted
      split
      · exact recalls_pure _
      · refine recalls_bind (accepts_recalls asked height second) ?_
        intro accepted
        split
        · exact recalls_pure _
        · exact ih (places + 1)

theorem step_recalls (asked : ∀ r, Recalls s fuel (fun ask => ask r) (shortest r)) (radius : α) :
    Recalls s fuel (fun ask => step s ask radius) (step s shortest radius) := by
  unfold step
  refine recalls_bind (recalls_lift _) ?_
  intro measured
  cases measured with
  | none => exact recalls_pure _
  | some height => exact scan_recalls asked radius height _ _

end Stores

open scoped PathData.Exact

variable {α : Type} [Field α] [LinearOrder α] [FloorRing α] [Exact.Roots α] {s : Search α}

theorem get_sound {store : Store α} (sound : Sound s store)
    (found : Store.get? store radius = some answer) : Finds s radius answer := by
  obtain ⟨entry, first, rfl⟩ := Option.map_eq_some_iff.1 found
  have equal := List.find?_some first
  have same : entry.1 = radius := beq_iff_eq.1 equal
  exact same ▸ sound entry (List.mem_of_find?_eq_some first)

-- An answer that is new is the one of a step, which is what one more round of fuel gives.
theorem stored_recalls (fuel : ℕ) (radius : α) :
    Recalls s fuel (fun ask => ask radius) (stored s fuel radius) := by
  induction fuel generalizing radius with
  | zero =>
    refine ⟨steady_ask radius, ?_, ?_⟩
    · exact fun _ _ _ _ ran => nomatch ran
    · exact fun _ _ _ ran => nomatch ran
  | succ fuel ih =>
    have recalls := step_recalls ih radius
    refine ⟨steady_ask radius, ?_, ?_⟩
    · intro store answer after sound ran
      unfold stored at ran
      obtain ⟨_, _, got, ran⟩ := stored_bind.1 ran
      cases got
      cases found : Store.get? store radius with
      | some known =>
        rw [found] at ran
        cases ran
        exact ⟨get_sound sound found, sound⟩
      | none =>
        rw [found] at ran
        obtain ⟨_, between, stepped, ran⟩ := stored_bind.1 ran
        cases ran
        obtain ⟨⟨enough, plainly⟩, kept⟩ := recalls.same store answer between sound stepped
        have finds : Finds s radius answer := ⟨enough + 1, plainly⟩
        exact ⟨finds, List.forall_mem_cons.2 ⟨finds, kept⟩⟩
    · intro store answer sound ran
      unfold stored
      cases found : Store.get? store radius with
      | some known =>
        obtain rfl : known = answer := (get_sound sound found).unique ⟨fuel + 1, ran⟩
        refine ⟨store, stored_bind.2 ⟨store, store, rfl, ?_⟩⟩
        rw [found]
        rfl
      | none =>
        obtain ⟨between, stepped⟩ := recalls.answers store answer sound ran
        refine ⟨(radius, answer) :: between, stored_bind.2 ⟨store, store, rfl, ?_⟩⟩
        rw [found]
        exact stored_bind.2 ⟨answer, between, stepped, rfl⟩

theorem shortest_finds (found : Radius.shortest s radius = .ok answer) : Finds s radius answer := by
  unfold Radius.shortest at found
  obtain ⟨⟨result, store⟩, ran, made⟩ := bind_ok.1 found
  cases made
  exact ((stored_recalls (depth s) radius).same [] result store nofun ran).1

def Fits (s : Search α) (height r : α) : Prop :=
  ∃ h, s.height r = .ok (some h) ∧ |h - height| < s.error

structure Beside (radius : α) (places : ℕ) (r : α) : Prop where
  multiple : Grid.Multiple places r
  near : |r - radius| < 1 / 10 ^ (places : ℤ)

theorem accepts_iff {height candidate : α} {accepted : Bool}
    (ran : accepts s (plain s fuel) height candidate = .ok accepted) :
    accepted = true ↔ Fits s height candidate ∧ Stable s candidate := by
  obtain ⟨measured, found, ran⟩ := bind_ok.1 ran
  change s.height candidate = .ok measured at found
  have fits {h : α} (fits : Fits s height candidate) (here : measured = some h) :
      |h - height| < s.error := by
    obtain ⟨h', found', near⟩ := fits
    rw [found, here] at found'
    cases found'
    exact near
  cases measured with
  | none =>
    cases ran
    refine ⟨nofun, ?_⟩
    rintro ⟨⟨h, found', _⟩, _⟩
    rw [found] at found'
    cases found'
  | some h =>
    dsimp only at ran
    split at ran
    · rename_i far
      cases ran
      refine ⟨nofun, ?_⟩
      rintro ⟨near, _⟩
      exact absurd (fits near rfl) (not_lt.2 far)
    · rename_i near
      obtain ⟨answer, asked, ran⟩ := bind_ok.1 ran
      have finds : Finds s candidate answer := ⟨fuel, asked⟩
      have judged : accepted = true ↔ answer = some candidate := by
        cases answer with
        | none =>
          cases ran
          exact ⟨nofun, nofun⟩
        | some r =>
          cases ran
          rw [beq_iff_eq, Option.some.injEq]
      rw [judged]
      constructor
      · rintro rfl
        exact ⟨⟨h, found, not_le.1 near⟩, finds⟩
      · rintro ⟨_, stable⟩
        exact finds.unique stable

variable [IsStrictOrderedRing α]

theorem beside_either {radius low r : α} {places : ℕ} (multiple : Grid.Multiple places low)
    (above : low < radius) (below : radius < low + 1 / 10 ^ (places : ℤ))
    (beside : Beside radius places r) : r = low ∨ r = low + 1 / 10 ^ (places : ℤ) := by
  have unit : Grid.Multiple places (1 / 10 ^ (places : ℤ) : α) := ⟨1, by simp⟩
  obtain ⟨on, near⟩ := beside
  rw [abs_lt] at near
  rcases lt_or_ge r radius with less | more
  · refine .inl (on.eq_of_close multiple ?_)
    rw [abs_lt]
    constructor <;> linarith
  · refine .inr (on.eq_of_close (multiple.add unit) ?_)
    rw [abs_lt]
    constructor <;> linarith

theorem nearest_beside {radius nearest : α} {places : ℕ}
    (rounded : Rounding.toFixed radius places = .ok nearest) : Beside radius places nearest := by
  rw [Exact.toFixed_eq] at rounded
  cases rounded
  refine ⟨Grid.fixed_multiple radius places, lt_of_le_of_lt (Grid.fixed_near radius places) ?_⟩
  have positive := Grid.scale_pos (α := α) places
  gcongr
  norm_num

theorem other_eq {radius nearest : α} {places : ℕ} (multiple : Grid.Multiple places nearest) :
    other radius nearest places =
      .ok (if radius < nearest then nearest - 1 / 10 ^ (places : ℤ)
        else nearest + 1 / 10 ^ (places : ℤ)) := by
  have unit : Grid.Multiple places (1 / 10 ^ (places : ℤ) : α) := ⟨1, by simp⟩
  have size : |((10 : ℕ) : α) ^ (-(places : ℤ))| = 1 / 10 ^ (places : ℤ) := by
    rw [Nat.cast_ofNat, zpow_neg, ← one_div, abs_of_pos (one_div_pos.2 (Grid.scale_pos _))]
  change Rounding.toFixed (nearest +
    if radius - nearest < 0 then -|((10 : ℕ) : α) ^ (-(places : ℤ))|
    else |((10 : ℕ) : α) ^ (-(places : ℤ))|) places = _
  rw [size, Exact.toFixed_eq]
  rcases lt_or_ge radius nearest with less | more
  · rw [if_pos (sub_neg.2 less), if_pos less, ← sub_eq_add_neg,
      Grid.fixed_of_multiple (multiple.sub unit)]
  · rw [if_neg (not_lt.2 (sub_nonneg.2 more)), if_neg more.not_gt,
      Grid.fixed_of_multiple (multiple.add unit)]

theorem candidates {radius nearest second : α} {places : ℕ}
    (rounded : Rounding.toFixed radius places = .ok nearest) (apart : nearest ≠ radius)
    (beyond : other radius nearest places = .ok second) (r : α) :
    Beside radius places r ↔ r = nearest ∨ r = second := by
  have unit : Grid.Multiple places (1 / 10 ^ (places : ℤ) : α) := ⟨1, by simp⟩
  obtain ⟨multiple, near⟩ := nearest_beside rounded
  rw [other_eq multiple] at beyond
  have close := abs_lt.1 near
  rcases lt_or_gt_of_ne apart with less | more
  · rw [if_neg less.not_gt] at beyond
    cases beyond
    constructor
    · exact beside_either multiple less (by linarith)
    · rintro (rfl | rfl)
      · exact ⟨multiple, near⟩
      · refine ⟨multiple.add unit, ?_⟩
        rw [abs_lt]
        constructor <;> linarith
  · rw [if_pos more] at beyond
    cases beyond
    have low := multiple.sub unit
    constructor
    · intro beside
      have either := beside_either low (by linarith) (by linarith) beside
      rwa [sub_add_cancel, or_comm] at either
    · rintro (rfl | rfl)
      · exact ⟨multiple, near⟩
      · refine ⟨low, ?_⟩
        rw [abs_lt]
        constructor <;> linarith

-- A number of places that settles nothing: the radius has more, and no candidate will do.
structure Refused (s : Search α) (radius height : α) (places : ℕ) : Prop where
  off : ¬ Grid.Multiple places radius
  unfit : ∀ r, Beside radius places r → Fits s height r → ¬ Stable s r

-- What a scan over some numbers of places comes to. The first of them that settles it decides.
inductive Outcome (s : Search α) (radius height : α) (tried : ℕ → Prop) : Option α → Prop where
  | own {places : ℕ} (within : tried places)
      (before : ∀ d, tried d → d < places → Refused s radius height d)
      (on : Grid.Multiple places radius) : Outcome s radius height tried (some radius)
  | chosen {places : ℕ} {r : α} (within : tried places)
      (before : ∀ d, tried d → d < places → Refused s radius height d)
      (off : ¬ Grid.Multiple places radius) (beside : Beside radius places r)
      (fits : Fits s height r) (stable : Stable s r) : Outcome s radius height tried (some r)
  | none (refused : ∀ d, tried d → Refused s radius height d) :
      Outcome s radius height tried none

omit [IsStrictOrderedRing α] in
theorem Outcome.later {radius height : α} {answer : Option α} {places left : ℕ}
    (refused : Refused s radius height places)
    (outcome : Outcome s radius height (fun d => places + 1 ≤ d ∧ d < places + 1 + left) answer) :
    Outcome s radius height (fun d => places ≤ d ∧ d < places + (left + 1)) answer := by
  have extend {last : ℕ}
      (after : ∀ d, places + 1 ≤ d ∧ d < places + 1 + left → d < last → Refused s radius height d)
      (d : ℕ) (tried : places ≤ d ∧ d < places + (left + 1)) (early : d < last) :
      Refused s radius height d := by
    rcases Nat.eq_or_lt_of_le tried.1 with rfl | later
    · exact refused
    · exact after d (by omega) early
  cases outcome with
  | own within before on => exact .own (by omega) (extend before) on
  | chosen within before off beside fits stable =>
    exact .chosen (by omega) (extend before) off beside fits stable
  | none after =>
    exact .none fun d tried => extend (fun d tried _ => after d tried) d tried (Nat.lt_succ_self d)

theorem scan_outcome {radius height : α} {fuel left places : ℕ}
    (ran : scan s (plain s fuel) radius height left places = .ok answer) :
    Outcome s radius height (fun d => places ≤ d ∧ d < places + left) answer := by
  induction left generalizing places with
  | zero =>
    cases ran
    exact .none fun d tried => by omega
  | succ left ih =>
    have here : places ≤ places ∧ places < places + (left + 1) := by omega
    have before (d : ℕ) (tried : places ≤ d ∧ d < places + (left + 1)) (early : d < places) :
        Refused s radius height d := by omega
    obtain ⟨nearest, rounded, ran⟩ := bind_ok.1 ran
    split at ran
    · rename_i same
      cases ran
      exact .own here before (beq_iff_eq.1 same ▸ (nearest_beside rounded).1)
    · rename_i apart
      have apart : nearest ≠ radius := fun same => apart (beq_iff_eq.2 same)
      have off : ¬ Grid.Multiple places radius := by
        intro on
        rw [Exact.toFixed_eq, Grid.fixed_of_multiple on] at rounded
        exact apart (Except.ok.inj rounded).symm
      obtain ⟨second, beyond, ran⟩ := bind_ok.1 ran
      have beside := candidates rounded apart beyond
      obtain ⟨first, judged, ran⟩ := bind_ok.1 ran
      have firstJudged := accepts_iff judged
      split at ran
      · rename_i yes
        cases ran
        obtain ⟨fits, stable⟩ := firstJudged.1 yes
        exact .chosen here before off ((beside _).2 (.inl rfl)) fits stable
      · rename_i notFirst
        obtain ⟨other, judged, ran⟩ := bind_ok.1 ran
        have otherJudged := accepts_iff judged
        split at ran
        · rename_i yes
          cases ran
          obtain ⟨fits, stable⟩ := otherJudged.1 yes
          exact .chosen here before off ((beside _).2 (.inr rfl)) fits stable
        · rename_i notOther
          refine .later ⟨off, ?_⟩ (ih ran)
          intro r next fits stable
          rcases (beside r).1 next with rfl | rfl
          · exact notFirst (firstJudged.2 ⟨fits, stable⟩)
          · exact notOther (otherJudged.2 ⟨fits, stable⟩)

omit [IsStrictOrderedRing α] in
theorem finds_unmeasured (finds : Finds s radius answer) (none : s.height radius = .ok none) :
    answer = some radius := by
  obtain ⟨fuel, ran⟩ := finds
  cases fuel with
  | zero => cases ran
  | succ fuel =>
    obtain ⟨measured, found, ran⟩ := bind_ok.1 ran
    change s.height radius = .ok measured at found
    rw [none] at found
    cases found
    exact (Except.ok.inj ran).symm

theorem finds_outcome (finds : Finds s radius answer)
    (measured : s.height radius = .ok (some height)) :
    Outcome s radius height (· ≤ s.precision) answer := by
  obtain ⟨fuel, ran⟩ := finds
  cases fuel with
  | zero => cases ran
  | succ fuel =>
    obtain ⟨_, found, ran⟩ := bind_ok.1 ran
    change s.height radius = .ok _ at found
    rw [measured] at found
    cases found
    have outcome := scan_outcome ran
    have all : (fun d => 0 ≤ d ∧ d < 0 + (s.precision + 1)) = (· ≤ s.precision) := by
      funext d
      exact propext (by omega)
    rwa [all] at outcome

omit [IsStrictOrderedRing α] in
theorem finds_measured (finds : Finds s radius answer) :
    ∃ measured, s.height radius = .ok measured := by
  obtain ⟨fuel, ran⟩ := finds
  cases fuel with
  | zero => cases ran
  | succ fuel =>
    obtain ⟨measured, found, _⟩ := bind_ok.1 ran
    exact ⟨measured, found⟩

theorem Finds.stable (finds : Finds s radius (some r)) : Stable s r := by
  obtain ⟨measured, found⟩ := finds_measured finds
  cases measured with
  | none =>
    cases finds_unmeasured finds found
    exact finds
  | some height =>
    cases finds_outcome finds found with
    | own => exact finds
    | chosen _ _ _ _ _ stable => exact stable

def SameHeight (s : Search α) (radius r : α) : Prop :=
  ∃ height, s.height radius = .ok (some height) ∧ Fits s height r

def Replaceable (s : Search α) (radius : α) : Prop :=
  ∃ places r, places ≤ s.precision ∧ Beside radius places r ∧ SameHeight s radius r ∧ Stable s r

theorem finds_kept (positive : 0 < s.error) (finds : Finds s radius (some r))
    (measured : s.height radius = .ok (some height)) :
    Grid.Multiple s.precision r ∧ SameHeight s radius r ∧ Replaceable s radius := by
  cases finds_outcome finds measured with
  | own within _ on =>
    have itself : SameHeight s radius radius :=
      ⟨height, measured, height, measured, by rwa [sub_self, abs_zero]⟩
    have on : Grid.Multiple s.precision radius := on.of_le (by exact_mod_cast within)
    have beside : Beside radius s.precision radius :=
      ⟨on, by rw [sub_self, abs_zero]; exact one_div_pos.2 (Grid.scale_pos _)⟩
    exact ⟨on, itself, _, _, le_refl _, beside, itself, finds⟩
  | chosen within _ _ beside fits stable =>
    have kept : SameHeight s radius r := ⟨height, measured, fits⟩
    exact ⟨beside.1.of_le (by exact_mod_cast within), kept, _, _, within, beside, kept, stable⟩

theorem finds_nonneg (finds : Finds s radius (some r)) (nonneg : 0 ≤ radius) : 0 ≤ r := by
  obtain ⟨measured, found⟩ := finds_measured finds
  cases measured with
  | none => exact Option.some.inj (finds_unmeasured finds found) ▸ nonneg
  | some height =>
    cases finds_outcome finds found with
    | own => exact nonneg
    | chosen _ _ _ beside => exact beside.1.nonneg_of_close nonneg beside.2

theorem finds_none (finds : Finds s radius none) :
    ¬ Grid.Multiple s.precision radius ∧ ¬ Replaceable s radius := by
  obtain ⟨measured, found⟩ := finds_measured finds
  cases measured with
  | none => cases finds_unmeasured finds found
  | some height =>
    cases finds_outcome finds found with
    | none refused =>
      refine ⟨(refused _ (le_refl _)).off, ?_⟩
      rintro ⟨places, r, within, beside, ⟨height', found', fits⟩, stable⟩
      rw [found] at found'
      cases found'
      exact (refused places within).unfit r beside fits stable

end Radius
end PathData
