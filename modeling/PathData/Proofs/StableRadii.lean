import Mathlib
import PathData.Proofs.ArcRadii
import PathData.Proofs.Failures
import PathData.Proofs.Plane

namespace PathData

theorem Fault.bind_total {β γ : Type} {x : Except Fault β} {next : β → Except Fault γ} {b : β}
    (here : x = .ok b) (there : ∃ c, next b = .ok c) : ∃ c, x >>= next = .ok c := by
  obtain ⟨c, later⟩ := there
  exact ⟨c, bind_ok.2 ⟨b, here, later⟩⟩

namespace Radius

open Fault (bind_ok bind_total)
open scoped PathData.Exact

section Ending

variable {α : Type} [Field α] [LinearOrder α] [FloorRing α] [Exact.Roots α] {s : Search α}
  {ask : α → Except Fault (Option α)}

-- Heights may be undefined, but asking for one does not fail.
def Measured (s : Search α) : Prop :=
  ∀ r, ∃ height, s.height r = .ok height

def Shorter (r x : α) : Prop :=
  ∃ places : ℕ, Grid.Multiple places r ∧ ¬ Grid.Multiple places x

-- What the search looks at: a number next to the radius of no more decimals than the precision,
-- with the same height, that is its own answer.
def Candidate (s : Search α) (radius c : α) : Prop :=
  ∃ places ≤ s.precision, Beside radius places c ∧ SameHeight s radius c ∧
    Radius.shortest s c = .ok (some c)

structure Answers (s : Search α) (radius : α) (answer : Option α) : Prop where
  none_iff : answer = none ↔ (∃ height, s.height radius = .ok (some height)) ∧
    ¬ Grid.Multiple s.precision radius ∧ ∀ c, ¬ Candidate s radius c
  stable : ∀ r, answer = some r → Radius.shortest s r = .ok (some r)
  moved : ∀ r, answer = some r → r ≠ radius →
    Candidate s radius r ∧ Grid.Multiple s.precision r ∧ Shorter r radius
  fewest : ∀ r c, answer = some r → Candidate s radius c →
    ∀ places : ℕ, Grid.Multiple places c → Grid.Multiple places r

theorem Candidate.measured (candidate : Candidate s radius c) :
    ∃ height, s.height radius = .ok (some height) := by
  obtain ⟨_, _, _, ⟨height, found, _⟩, _⟩ := candidate
  exact ⟨height, found⟩

theorem accepts_total (measured : Measured s) (asked : ∃ answer, ask candidate = .ok answer)
    (height : α) : ∃ accepted, accepts s ask height candidate = .ok accepted := by
  obtain ⟨answer, asked⟩ := asked
  obtain ⟨h, found⟩ := measured candidate
  unfold accepts
  apply bind_total found
  cases h with
  | none => exact ⟨false, rfl⟩
  | some h =>
    dsimp only
    split
    · exact ⟨false, rfl⟩
    · apply bind_total asked
      cases answer with
      | none => exact ⟨false, rfl⟩
      | some r => exact ⟨r == candidate, rfl⟩

variable [IsStrictOrderedRing α]

-- A scan asks for nothing but numbers of a grid that the radius does not lie on.
theorem scan_total (measured : Measured s)
    (asked : ∀ (places : ℕ) (r : α), places ≤ s.precision → ¬ Grid.Multiple places radius →
      Grid.Multiple places r → ∃ answer, ask r = .ok answer)
    (height : α) {left places : ℕ} (within : places + left ≤ s.precision + 1) :
    ∃ answer, scan s ask radius height left places = .ok answer := by
  induction left generalizing places with
  | zero => exact ⟨none, rfl⟩
  | succ left ih =>
    have rounded := Exact.toFixed_eq radius places
    unfold scan
    apply bind_total rounded
    by_cases same : Grid.fixed radius places = radius
    · rw [if_pos (beq_iff_eq.2 same)]
      exact ⟨_, rfl⟩
    · have off : ¬ Grid.Multiple places radius := fun on => same (Grid.fixed_of_multiple on)
      have beyond : other radius (Grid.fixed radius places) places = _ :=
        other_eq (nearest_beside rounded).multiple
      rw [if_neg fun equal => same (beq_iff_eq.1 equal)]
      apply bind_total beyond
      have beside := candidates rounded same beyond
      have answers (r : α) (near : Beside radius places r) : ∃ answer, ask r = .ok answer :=
        asked places r (by omega) off near.multiple
      obtain ⟨first, judged⟩ := accepts_total measured (answers _ ((beside _).2 (.inl rfl))) height
      apply bind_total judged
      split
      · exact ⟨_, rfl⟩
      · obtain ⟨second, judged⟩ :=
          accepts_total measured (answers _ ((beside _).2 (.inr rfl))) height
        apply bind_total judged
        split
        · exact ⟨_, rfl⟩
        · exact ih (by omega)

theorem step_total (measured : Measured s)
    (asked : ∀ (places : ℕ) (r : α), places ≤ s.precision → ¬ Grid.Multiple places radius →
      Grid.Multiple places r → ∃ answer, ask r = .ok answer) :
    ∃ answer, step s ask radius = .ok answer := by
  obtain ⟨height, found⟩ := measured radius
  unfold step
  apply bind_total found
  cases height with
  | none => exact ⟨_, rfl⟩
  | some height => exact scan_total measured asked height (by omega)

-- By induction on the decimals: each candidate has fewer of them than the radius.
theorem plain_on_grid (measured : Measured s) {places : ℕ} (on : Grid.Multiple places radius) :
    ∃ answer, plain s (places + 1) radius = .ok answer := by
  induction places generalizing radius with
  | zero =>
    apply step_total measured
    intro d r _ off
    exact absurd (on.of_le (by omega)) off
  | succ places ih =>
    apply step_total measured
    intro d r _ off multiple
    have fewer : d ≤ places := by
      by_contra more
      exact off (on.of_le (by omega))
    exact ih (multiple.of_le (by omega))

theorem plain_total (measured : Measured s) (radius : α) :
    ∃ answer, plain s (s.precision + 2) radius = .ok answer := by
  apply step_total measured
  intro d r within _ multiple
  exact plain_on_grid measured (multiple.of_le (by omega))

theorem plain_of_finds (measured : Measured s) {answer : Option α} (finds : Finds s radius answer)
    {fuel : ℕ} (enough : s.precision + 2 ≤ fuel) : plain s fuel radius = .ok answer := by
  obtain ⟨result, ran⟩ := plain_total measured radius
  obtain rfl := finds.unique ⟨_, ran⟩
  exact plain_agrees enough _ _ ran

theorem finds_total (measured : Measured s) (radius : α) : ∃ answer, Finds s radius answer := by
  obtain ⟨answer, ran⟩ := plain_total measured radius
  exact ⟨answer, _, ran⟩

theorem stored_total (measured : Measured s) {answer : Option α} (finds : Finds s radius answer)
    {store : Store α} (sound : Sound s store) :
    ∃ after, stored s (depth s) radius store = .ok (answer, after) ∧ Sound s after := by
  have enough : s.precision + 2 ≤ depth s := by
    unfold depth
    omega
  have recalls := stored_recalls (s := s) (depth s) radius
  obtain ⟨after, ran⟩ :=
    recalls.answers store answer sound (plain_of_finds measured finds enough)
  exact ⟨after, ran, (recalls.same store answer after sound ran).2⟩

theorem shortest_iff (measured : Measured s) {answer : Option α} :
    Radius.shortest s radius = .ok answer ↔ Finds s radius answer := by
  refine ⟨shortest_finds, fun finds => ?_⟩
  have empty : Sound s [] := nofun
  obtain ⟨after, ran, _⟩ := stored_total measured finds empty
  exact bind_ok.2 ⟨(answer, after), ran, rfl⟩

theorem Beside.coarser {c : α} {places fewer : ℕ} (beside : Beside radius places c)
    (on : Grid.Multiple fewer c) (less : fewer ≤ places) : Beside radius fewer c := by
  refine ⟨on, beside.near.trans_le ?_⟩
  have scale : (10 : α) ^ (fewer : ℤ) ≤ 10 ^ (places : ℤ) :=
    zpow_le_zpow_right₀ (by norm_num) (by exact_mod_cast less)
  exact one_div_le_one_div_of_le (Grid.scale_pos _) scale

theorem Candidate.decimals (measured : Measured s) (height : s.height radius = .ok (some h))
    {last : ℕ} (before : ∀ d, d ≤ s.precision → d < last → Refused s radius h d)
    (candidate : Candidate s radius c) {places : ℕ} (on : Grid.Multiple places c) :
    last ≤ places := by
  obtain ⟨most, within, beside, ⟨h', found, fits⟩, stable⟩ := candidate
  rw [height] at found
  cases found
  have stable := (shortest_iff measured).1 stable
  by_contra early
  rcases le_total places most with less | less
  · exact (before places (by omega) (by omega)).unfit c (beside.coarser on less) fits stable
  · exact (before most within (by omega)).unfit c beside fits stable

theorem Candidate.replaceable (measured : Measured s) (candidate : Candidate s radius c) :
    Replaceable s radius := by
  obtain ⟨places, within, beside, kept, stable⟩ := candidate
  exact ⟨places, c, within, beside, kept, (shortest_iff measured).1 stable⟩

theorem finds_none_iff (measured : Measured s) {answer : Option α}
    (finds : Finds s radius answer) :
    answer = none ↔ (∃ height, s.height radius = .ok (some height)) ∧
      ¬ Grid.Multiple s.precision radius ∧ ∀ c, ¬ Candidate s radius c := by
  constructor
  · rintro rfl
    obtain ⟨height, found⟩ := finds_measured finds
    obtain ⟨off, alone⟩ := finds_none finds
    cases height with
    | none => cases finds_unmeasured finds found
    | some h => exact ⟨⟨h, found⟩, off, fun c candidate => alone (candidate.replaceable measured)⟩
  · intro ⟨⟨h, found⟩, off, alone⟩
    cases finds_outcome finds found with
    | own within _ on => exact absurd (on.of_le (by exact_mod_cast within)) off
    | @chosen places c within _ _ beside fits stable =>
      have itself := (shortest_iff measured).2 stable
      exact absurd ⟨places, within, beside, ⟨h, found, fits⟩, itself⟩ (alone c)
    | none => rfl

theorem moved_shorter (measured : Measured s) {r : α} (finds : Finds s radius (some r))
    (moved : r ≠ radius) :
    Candidate s radius r ∧ Grid.Multiple s.precision r ∧ Shorter r radius := by
  obtain ⟨height, found⟩ := finds_measured finds
  cases height with
  | none => exact absurd (Option.some.inj (finds_unmeasured finds found)) moved
  | some h =>
    cases finds_outcome finds found with
    | own => exact absurd rfl moved
    | @chosen places _ within _ off beside fits stable =>
      have itself := (shortest_iff measured).2 stable
      have on := beside.multiple
      exact ⟨⟨places, within, beside, ⟨h, found, fits⟩, itself⟩,
        on.of_le (by exact_mod_cast within), places, on, off⟩

theorem fewest_decimals (measured : Measured s) {r c : α} (finds : Finds s radius (some r))
    (candidate : Candidate s radius c) {places : ℕ} (on : Grid.Multiple places c) :
    Grid.Multiple places r := by
  obtain ⟨h, found⟩ := candidate.measured
  cases finds_outcome finds found with
  | own _ before itself =>
    have late := candidate.decimals measured found before on
    exact itself.of_le (by exact_mod_cast late)
  | chosen _ before _ beside =>
    have late := candidate.decimals measured found before on
    exact beside.multiple.of_le (by exact_mod_cast late)

theorem answers_of_finds (measured : Measured s) {answer : Option α}
    (finds : Finds s radius answer) : Answers s radius answer where
  none_iff := finds_none_iff measured finds
  stable _ found := (shortest_iff measured).2 (Finds.stable (found ▸ finds))
  moved _ found := moved_shorter measured (found ▸ finds)
  fewest _ _ found candidate _ := fewest_decimals measured (found ▸ finds) candidate

end Ending

section Caching

variable {α : Type} [Field α] [LinearOrder α] [FloorRing α] [Exact.Roots α]

structure Query (α : Type) where
  radius : α
  chord : α
  large : Bool

-- The answers of all searches that a filter makes. A height depends on the chord and on the side of
-- it, so there is a store for each.
abbrev Cache (α : Type) := α → Bool → Store α

namespace Cache

variable {searches : α → Bool → Search α} {cache after : Cache α}

def ask (searches : α → Bool → Search α) (cache : Cache α) (q : Query α) :
    Except Fault (Option α × Cache α) := do
  let search := searches q.chord q.large
  let (answer, store) ← stored search (depth search) q.radius (cache q.chord q.large)
  return (answer, fun chord large =>
    if chord = q.chord ∧ large = q.large then store else cache chord large)

inductive Filled (searches : α → Bool → Search α) : Cache α → Prop where
  | empty : Filled searches fun _ _ => []
  | asked {cache after : Cache α} {q : Query α} {answer : Option α}
      (before : Filled searches cache) (ran : cache.ask searches q = .ok (answer, after)) :
      Filled searches after

theorem Filled.sound (filled : Filled searches cache) (chord : α) (large : Bool) :
    Sound (searches chord large) (cache chord large) := by
  induction filled generalizing chord large with
  | empty => exact nofun
  | @asked cache after q answer _ ran ih =>
    obtain ⟨⟨result, store⟩, stores, made⟩ := bind_ok.1 ran
    cases made
    dsimp only
    split
    · rename_i same
      rw [same.1, same.2]
      exact ((stored_recalls _ q.radius).same _ _ _ (ih q.chord q.large) stores).2
    · exact ih chord large

theorem ask_total [IsStrictOrderedRing α] {q : Query α}
    (measured : Measured (searches q.chord q.large)) (filled : Filled searches cache)
    {answer : Option α} (finds : Finds (searches q.chord q.large) q.radius answer) :
    ∃ after, cache.ask searches q = .ok (answer, after) := by
  obtain ⟨store, ran, _⟩ := stored_total measured finds (filled.sound q.chord q.large)
  exact ⟨_, bind_ok.2 ⟨(answer, store), ran, rfl⟩⟩

end Cache
end Caching

section Settling

variable {α : Type} [Field α] [LinearOrder α] [FloorRing α] [Exact.Roots α] {s : Search α}

-- The radius that is settled on: the one asked for, where it has no height, then the answer for it,
-- and at last the answer for it rounded.
inductive Settled (s : Search α) (round : α → Except Fault α) (radius : α) : α → Prop where
  | unmeasured (none : s.height radius = .ok none) : Settled s round radius radius
  | found {r : α} (finds : Radius.shortest s radius = .ok (some r)) : Settled s round radius r
  | rounded {rounded r : α} (none : Radius.shortest s radius = .ok none)
      (rounds : round radius = .ok rounded) (finds : Radius.shortest s rounded = .ok (some r)) :
      Settled s round radius r

variable [IsStrictOrderedRing α]

theorem exists_settled (measured : Measured s) {o : Options α} (same : o.precision = s.precision)
    (error radius : α) : ∃ r, Settled s (o.round error) radius r := by
  obtain ⟨answer, finds⟩ := finds_total measured radius
  have first := (shortest_iff measured).2 finds
  cases answer with
  | some r => exact ⟨r, .found first⟩
  | none =>
    have rounds : o.round error radius = .ok (Grid.rounded o.precision error radius) :=
      Exact.round_eq o.precision error radius
    obtain ⟨again, finds⟩ := finds_total measured (Grid.rounded o.precision error radius)
    have second := (shortest_iff measured).2 finds
    cases again with
    | some r => exact ⟨r, .rounded first rounds second⟩
    | none =>
      have places : Grid.places o.precision ≤ s.precision := by
        unfold Grid.places
        split <;> omega
      have on := (Grid.rounded_multiple o.precision error radius).of_le places
      exact absurd on (finds_none finds).1

end Settling

end Radius

namespace Filter

open Fault (bind_ok)
open Radius (Settled)
open scoped PathData.Exact

variable {α : Type} [Field α] [LinearOrder α] [FloorRing α] [Exact.Roots α] {f : Setup α}
  {t : State α}

theorem heights_measured [IsStrictOrderedRing α]
    (roots : ∀ x : α, 0 ≤ x → ∃ y, Exact.Roots.sqrt x = .ok y) {chord : α} (nonneg : 0 ≤ chord)
    (large : Bool) : Radius.Measured (heights f chord large) := by
  intro r
  change ∃ height, sagitta r chord large = .ok height
  unfold sagitta
  rw [Exact.literal_ofNat, Exact.literal_ofNat]
  split
  · exact ⟨_, rfl⟩
  · rename_i reaches
    have square : 0 ≤ r * r - chord * chord / 4 := by nlinarith
    obtain ⟨offset, root⟩ := roots _ square
    exact Fault.bind_total root ⟨_, rfl⟩

theorem smartRadius_of_settled {line : Command α} {stop : Point α} {radius r : α} {large : Bool}
    (placed : f.place (.line stop) t.cursor false = .ok line) (decimals : 0 < f.options.precision)
    (settled : Settled
      (heights f (line.endPoint t.cursor t.subpathStart - t.cursor).length large)
      (f.options.round f.error) radius r) : smartRadius f t radius stop large = .ok r := by
  unfold smartRadius
  refine bind_ok.2 ⟨line, placed, ?_⟩
  rw [if_neg (not_le.2 decimals)]
  generalize (line.endPoint t.cursor t.subpathStart - t.cursor).length = chord at settled ⊢
  cases settled with
  | unmeasured short => exact bind_ok.2 ⟨none, short, rfl⟩
  | found finds =>
    have found := Radius.shortest_finds finds
    obtain ⟨height, measured⟩ := Radius.finds_measured found
    refine bind_ok.2 ⟨height, measured, ?_⟩
    cases height with
    | none =>
      cases Radius.finds_unmeasured found measured
      rfl
    | some height => exact bind_ok.2 ⟨some r, finds, rfl⟩
  | rounded nothing rounds finds =>
    have found := Radius.shortest_finds nothing
    obtain ⟨height, measured⟩ := Radius.finds_measured found
    refine bind_ok.2 ⟨height, measured, ?_⟩
    cases height with
    | none => cases Radius.finds_unmeasured found measured
    | some height =>
      exact bind_ok.2 ⟨none, nothing, bind_ok.2 ⟨_, rounds, bind_ok.2 ⟨some r, finds, rfl⟩⟩⟩

variable [IsStrictOrderedRing α]

theorem place_total (f : Setup α) (body : Body α) (start : Point α) (absolute : Bool) :
    ∃ c, f.place body start absolute = .ok c := by
  cases placed : f.place body start absolute with
  | ok c => exact ⟨c, rfl⟩
  | error cause =>
    obtain ⟨x, _, failed⟩ := Pipeline.roundCommand_error placed
    unfold Options.round at failed
    rw [Exact.round_eq] at failed
    cases failed

theorem smartRadius_settled [Exact.Lengths α]
    (roots : ∀ x : α, 0 ≤ x → ∃ y, Exact.Roots.sqrt x = .ok y) (f : Setup α) (t : State α)
    (radius : α) (stop : Point α) (large : Bool) :
    ∃ r, smartRadius f t radius stop large = .ok r ∧
      (f.options.precision ≤ 0 → r = radius) ∧
      (0 < f.options.precision → ∃ chord, RenderedChord f t stop chord ∧
        Settled (heights f chord large) (f.options.round f.error) radius r) := by
  obtain ⟨line, placed⟩ := place_total f (.line stop) t.cursor false
  rcases le_or_gt f.options.precision 0 with whole | decimals
  · refine ⟨radius, ?_, fun _ => rfl, fun decimals => absurd whole (not_le.2 decimals)⟩
    unfold smartRadius
    refine bind_ok.2 ⟨line, placed, ?_⟩
    rw [if_pos whole]
    rfl
  · have nonneg : 0 ≤ (line.endPoint t.cursor t.subpathStart - t.cursor).length :=
      Exact.Lengths.hypot_nonneg _ _
    have same : f.options.precision = (f.options.precision.toNat : ℤ) :=
      (Int.toNat_of_nonneg decimals.le).symm
    obtain ⟨r, settled⟩ :=
      Radius.exists_settled (heights_measured roots nonneg large) same f.error radius
    refine ⟨r, smartRadius_of_settled placed decimals settled, ?_, ?_⟩
    · exact fun whole => absurd decimals (not_lt.2 whole)
    · exact fun _ => ⟨_, ⟨line, placed, rfl⟩, settled⟩

end Filter

namespace Radius

open scoped PathData.Exact

def measuring {α : Type} (precision : ℕ) (error : α) (height : α → Option α) : Search α :=
  { precision, error, height := fun r => .ok (height r) }

theorem search_settles (precision : ℕ) (error : ℝ) (height : ℝ → Bool → ℝ → Option ℝ)
    (radius chord : ℝ) (large : Bool) :
    ∃ answer,
      (∀ fuel, precision + 2 ≤ fuel →
        plain (measuring precision error (height chord large)) fuel radius = .ok answer) ∧
      Radius.shortest (measuring precision error (height chord large)) radius = .ok answer ∧
      (∀ cache,
        Cache.Filled (fun chord large => measuring precision error (height chord large)) cache →
        ∃ after, cache.ask (fun chord large => measuring precision error (height chord large))
          ⟨radius, chord, large⟩ = .ok (answer, after)) ∧
      Answers (measuring precision error (height chord large)) radius answer ∧
      (∀ o : Options ℝ, o.precision = precision →
        ∃ r, Settled (measuring precision error (height chord large)) (o.round error) radius r) ∧
      ∀ (f : Filter.Setup ℝ) (t : Filter.State ℝ) (stop : Point ℝ),
        ∃ r, Filter.smartRadius f t radius stop large = .ok r ∧
          (f.options.precision ≤ 0 → r = radius) ∧
          (0 < f.options.precision → ∃ chord, Filter.RenderedChord f t stop chord ∧
            Settled (Filter.heights f chord large) (f.options.round f.error) radius r) := by
  have measured (chord : ℝ) (large : Bool) :
      Measured (measuring precision error (height chord large)) :=
    fun r => ⟨height chord large r, rfl⟩
  have roots (x : ℝ) (nonneg : 0 ≤ x) : ∃ y, Exact.Roots.sqrt x = .ok y :=
    ⟨√x, if_neg (not_lt.2 nonneg)⟩
  obtain ⟨answer, finds⟩ := finds_total (measured chord large) radius
  refine ⟨answer, ?_, ?_, ?_, ?_, ?_, ?_⟩
  · exact fun fuel enough => plain_of_finds (measured chord large) finds enough
  · exact (shortest_iff (measured chord large)).2 finds
  · intro cache filled
    exact Cache.ask_total (measured chord large) filled finds
  · exact answers_of_finds (measured chord large) finds
  · exact fun o same => exists_settled (measured chord large) same error radius
  · exact fun f t stop => Filter.smartRadius_settled roots f t radius stop large

end Radius
end PathData
