import Mathlib
import PathData.Proofs.FilterArcs

namespace PathData
namespace Filter

open scoped PathData.Exact

variable {α : Type} [Field α] [LinearOrder α] [FloorRing α] [Exact.Roots α] {f : Setup α}

structure KeepsHeight (f : Setup α) (chord : α) (large : Bool) (radius written : α) : Prop where
  reaches : chord ≤ 2 * written
  same : Radius.SameHeight (heights f chord large) radius written

structure HeightKept (f : Setup α) (chord : α) (large : Bool) (radius written : α) : Prop where
  kept : Radius.Replaceable (heights f chord large) radius →
    KeepsHeight f chord large radius written
  own : Grid.On f.options.precision radius → Radius.Replaceable (heights f chord large) radius
  settled : ¬ Radius.Replaceable (heights f chord large) radius →
    ∃ rounded, f.options.round f.error radius = .ok rounded ∧
      (chord ≤ 2 * rounded → KeepsHeight f chord large rounded written) ∧
      (2 * rounded < chord → written = rounded)

structure HeightsKept (f : Setup α) (p : Placed α) (own : List (Source α)) : Prop where
  circle : ∀ source e, own = [source] → source.segment.shape = .arc e → p.command.kind = .arc →
    e.rx = e.ry → 0 < e.rx →
    ∃ a stop, p.command.body = .arc a stop ∧ a.ry = a.rx ∧
      ((p.stop - p.start).length ≤ 2 * e.rx →
        HeightKept f (p.stop - p.start).length e.large e.rx a.rx)

variable [IsStrictOrderedRing α]

theorem keepsHeight_found (keeps : Keeps f) (decimals : 0 < f.options.precision)
    {chord radius height r written : α} {large : Bool}
    (measured : sagitta radius chord large = .ok (some height))
    (finds : Radius.Finds (heights f chord large) radius (some r))
    (rounds : f.options.round f.error r = .ok written) :
    KeepsHeight f chord large radius written := by
  obtain ⟨on, same, _⟩ := found_on keeps decimals measured finds
  rw [round_of_on on] at rounds
  cases rounds
  exact ⟨sameHeight_reach same, same⟩

-- A radius that was settled is on the grid, so rounding it once more does not change it.
theorem settles_kept (keeps : Keeps f) (decimals : 0 < f.options.precision)
    {chord radius r written : α} {large : Bool} (settles : Settles f chord large radius r)
    (reaches : chord ≤ 2 * radius) (rounds : f.options.round f.error r = .ok written) :
    HeightKept f chord large radius written := by
  cases settles with
  | unsearched whole => exact absurd decimals (not_lt.2 whole)
  | short measured => exact absurd (sagitta_short measured) (not_lt.2 reaches)
  | found _ measured finds =>
    have replaceable := (found_on keeps decimals measured finds).2.2
    exact ⟨fun _ => keepsHeight_found keeps decimals measured finds rounds, fun _ => replaceable,
      fun none => absurd replaceable none⟩
  | @rounded _ rounded answer _ _ none again finds =>
    obtain ⟨off, irreplaceable⟩ := Radius.finds_none none
    have on := round_on again
    refine ⟨fun replaceable => absurd replaceable irreplaceable,
      fun on => absurd ((heights_on keeps decimals).2 on) off, fun _ => ⟨rounded, again, ?_⟩⟩
    obtain ⟨measured, found⟩ := Radius.finds_measured finds
    cases answer with
    | none => exact absurd ((heights_on keeps decimals).2 on) (Radius.finds_none finds).1
    | some r =>
      cases measured with
      | none =>
        obtain rfl := Option.some.inj (Radius.finds_unmeasured finds found)
        change f.options.round f.error r = .ok written at rounds
        rw [round_of_on on] at rounds
        cases rounds
        exact ⟨fun reaches => absurd (sagitta_short found) (not_lt.2 reaches), fun _ => rfl⟩
      | some height =>
        refine ⟨fun _ => keepsHeight_found keeps decimals found finds rounds, ?_⟩
        exact fun short => absurd (sagitta_reach found) (not_le.2 short)

theorem WrittenFor.heights (keeps : Keeps f) (decimals : 0 < f.options.precision)
    (smart : f.flags.smartArcRounding = true) {source : Source α} {e : EllipticArc α}
    {entry : Placed α × Segment α} (written : WrittenFor f source e entry)
    (kind : entry.1.command.kind = .arc) (circle : e.rx = e.ry) (positive : 0 < e.rx) :
    ∃ a stop, entry.1.command.body = .arc a stop ∧ a.ry = a.rx ∧
      ((entry.1.stop - entry.1.start).length ≤ 2 * e.rx →
        HeightKept f (entry.1.stop - entry.1.start).length e.large e.rx a.rx) := by
  obtain ⟨_, _, _, start, stop, body, form⟩ := written
  obtain ⟨a, q, r, here, same, _, rounds, plain | ⟨_, settles⟩⟩ :=
    circle_written circle form ((congrArg Body.kind body).symm.trans kind)
  · obtain ⟨zero | off, _⟩ := plain
    · exact absurd zero positive.ne'
    · rw [smart] at off
      cases off
  · rw [start, stop, body]
    exact ⟨a, q, here, same, fun reaches => settles_kept keeps decimals settles reaches rounds⟩

theorem arc_heights_kept {fitter : ArcFitter α} {options : Options α} {style : Style}
    {ps placed : List (Placed α)} (decimals : 0 < options.precision)
    (few : options.precision < 20) (smart : options.flags.smartArcRounding = true)
    (filtered : filterCommands fitter options style ps = .ok placed) :
    ∃ error s origins, options.error = .ok error ∧ placed = s.output.reverse ∧
      Sourced ⟨options, style, error, fitter⟩ (sourcesOf (Placed.commands ps)) s
        (sourcesOf (Placed.commands ps)).length origins ∧
      List.Forall₂ (HeightsKept ⟨options, style, error, fitter⟩) s.output origins := by
  obtain ⟨error, s, unit, reached, rfl⟩ := reached_filterCommands filtered
  have keeps : Keeps (⟨options, style, error, fitter⟩ : Setup α) := ⟨few, unit⟩
  obtain ⟨origins, sourced⟩ := reached_sourced reached
  obtain ⟨_, entries, pen, tracks, written⟩ := sourced_written keeps sourced
  refine ⟨error, s, origins, unit, rfl, sourced, ?_⟩
  rw [tracks.output, List.forall₂_map_left_iff]
  refine written.imp ?_
  intro entry own come
  constructor
  intro source e single shape isArc circle positive
  exact (come source e single shape).heights keeps decimals smart isArc circle positive

def shallowPath : List (Command ℚ) :=
  [{ body := .move ⟨1 / 3, 1 / 7⟩ },
   { body := .arc ⟨51 / 40, 51 / 40, 0, 0, 1⟩ ⟨6 / 5, 0⟩, relative := true }]

def oneDecimal : Options ℚ := { flags := {}, makeArcs := none, precision := 1 }

theorem arc_heights_kept_shallow :
    ∃ (error : ℚ) (s : State ℚ) (origins : List (List (Source ℚ))), oneDecimal.error = .ok error ∧
      filterCommands noFit oneDecimal {} (rebase false shallowPath) = .ok s.output.reverse ∧
      s.output.map (fun p => p.command.kind) = [.arc, .move] ∧
      List.Forall₂ (HeightsKept ⟨oneDecimal, {}, error, noFit⟩) s.output origins := by
  have written : (filterCommands noFit oneDecimal {} (rebase false shallowPath)).toOption.any
      (fun placed => placed.map (fun p => p.command.kind) = [.move, .arc]) = true := by
    decide +kernel
  obtain ⟨placed, filtered, shape⟩ := Fault.ok_of_any written
  obtain ⟨error, s, origins, unit, rfl, _, kept⟩ :=
    arc_heights_kept (by decide) (by decide) rfl filtered
  have kinds := of_decide_eq_true shape
  rw [List.map_reverse, List.reverse_eq_iff] at kinds
  exact ⟨error, s, origins, unit, filtered, kinds, kept⟩

-- Whether a command is an arc of another height than a circle of the radius has over its chord.
def losesHeight (error radius : Float) (p : Placed Float) : Bool :=
  let chord := (p.stop - p.start).length
  match p.command.body, sagitta radius chord false with
  | .arc a _, .ok (some height) =>
    match sagitta a.rx chord false with
    | .ok (some h) => error ≤ Scalar.abs (h - height)
    | _ => true
  | _, _ => false

def soleArc (radius width : Float) : List (Command Float) :=
  [{ body := .move ⟨0, 0⟩ }, { body := .arc ⟨radius, radius, 0, 0, 1⟩ ⟨width, 0⟩ }]

def keeping (precision : ℤ) : Options Float := { flags := {}, makeArcs := none, precision }

-- Nothing else has the height of a circle whose diameter is hardly longer than the chord, and a
-- double is not always fixed by rounding to many decimals.
theorem arc_heights_kept_narrow :
    (∃ error placed, (keeping 3).error = .ok error ∧
      filterCommands noFit (keeping 3) {} (rebase false (soleArc 5.00005 10)) = .ok placed ∧
      ∃ p ∈ placed, losesHeight error 5.00005 p = true) ∧
    ∃ error placed, (keeping 19).error = .ok error ∧
      filterCommands noFit (keeping 19) {} (rebase false (soleArc 3779 6802)) = .ok placed ∧
      ∃ p ∈ placed, losesHeight error 3779 p = true := by
  have lost {precision : ℤ} {radius width : Float}
      (evaluated : ((keeping precision).error.toOption.any fun error =>
        (filterCommands noFit (keeping precision) {}
          (rebase false (soleArc radius width))).toOption.any
            fun placed => placed.any (losesHeight error radius)) = true) :
      ∃ error placed, (keeping precision).error = .ok error ∧
        filterCommands noFit (keeping precision) {} (rebase false (soleArc radius width)) =
          .ok placed ∧ ∃ p ∈ placed, losesHeight error radius p = true := by
    obtain ⟨error, unit, evaluated⟩ := Fault.ok_of_any evaluated
    obtain ⟨placed, filtered, evaluated⟩ := Fault.ok_of_any evaluated
    exact ⟨error, placed, unit, filtered, List.any_eq_true.1 evaluated⟩
  refine ⟨lost ?_, lost ?_⟩
  · decide +kernel
  · decide +kernel

end Filter
end PathData
