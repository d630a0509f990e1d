import Mathlib
import PathData.Proofs.FilterAccuracy
import PathData.Proofs.FilterGrid
import PathData.Proofs.FilterLicences
import PathData.Proofs.RadiusSearch

namespace PathData

open Fault (bind_ok)

namespace Filter

section Placing

variable {α : Type} [Scalar α] {f : Setup α} {s : State α}

theorem place_stop {body body' : Body α} {start : Point α}
    (placed : f.place body start absolute = .ok c) (placed' : f.place body' start absolute = .ok c')
    (stops : body.stop? = some p) (stops' : body'.stop? = some p) (subpathStart : Point α) :
    c.endPoint start subpathStart = c'.endPoint start subpathStart := by
  have opens {body : Body α} (stops : body.stop? = some p) : body.kind ≠ .close := by
    cases body <;> cases stops <;> nofun
  have sameForm : c.relative = c'.relative := by
    rw [place_relative placed, place_relative placed', decide_eq_false (opens stops),
      decide_eq_false (opens stops')]
  have lands {body : Body α} {c : Command α} (placed : f.place body start absolute = .ok c)
      (stops : body.stop? = some p) :
      ∃ q, c.body.stop? = some q ∧ (if c.relative then p + -start else p).Related
        (fun x y => f.options.round f.error x = .ok y) q := by
    have related := Command.place_related placed
    split at related
    · rename_i relative
      rw [if_pos relative]
      exact related.stop_eq (Body.stop_shift stops (-start))
    · rename_i relative
      rw [if_neg relative]
      exact related.stop_eq stops
  obtain ⟨q, here, onX, onY⟩ := lands placed stops
  obtain ⟨q', there, onX', onY'⟩ := lands placed' stops'
  rw [← sameForm] at onX' onY'
  have same : q = q' :=
    Point.ext (Except.ok.inj (onX.symm.trans onX')) (Except.ok.inj (onY.symm.trans onY'))
  unfold Command.endPoint
  rw [Body.endPoint_of_stop here, Body.endPoint_of_stop there, sameForm, same]

theorem placed_arc {shape : ArcShape α} {stop start : Point α} {c : Command α}
    (placed : f.place (.arc shape stop) start absolute = .ok c) :
    ∃ a q, c.body = .arc a q ∧ f.options.round f.error shape.rx = .ok a.rx ∧
      f.options.round f.error shape.ry = .ok a.ry ∧ a.large = shape.large := by
  have related := Command.place_related placed
  have arcs : ∃ q, (if c.relative then (Body.arc shape stop).shift (-start) else .arc shape stop) =
      .arc shape q := by
    split
    · exact ⟨_, rfl⟩
    · exact ⟨_, rfl⟩
  obtain ⟨q, same⟩ := arcs
  rw [same] at related
  cases body : c.body <;> rw [body] at related <;> cases related
  rename_i byX byY _ _
  exact ⟨_, _, rfl, byX, byY, rfl⟩

theorem arcForm_placed {source : Segment α} {trailing : Bool} {c : Command α} {handle : Handle α}
    (form : ArcForm f s source e trailing [{ command := c, handle }]) (kind : c.kind = .arc) :
    ∃ radii, arcRadii f s source.stop e = .ok radii ∧
      f.place (.arc ⟨radii.1, radii.2, e.rotation, flag e.large, flag e.sweep⟩ source.stop)
        s.cursor false = .ok c := by
  have notLine {own : Kind} (form : LineForm f s source.stop own trailing
      [{ command := c, handle }]) : False := by
    rcases line_kinds form _ List.mem_cons_self with line | close
    · rw [kind] at line
      cases line
    · cases kind.symm.trans close
  cases form with
  | flat _ _ form | shallow _ _ _ _ _ form => exact (notLine form).elim
  | arc chosen placed => exact ⟨_, chosen, placed⟩

-- The chord that a renderer will see of what is written to `stop`.
def RenderedChord (f : Setup α) (s : State α) (stop : Point α) (chord : α) : Prop :=
  ∃ line, f.place (.line stop) s.cursor false = .ok line ∧
    (line.endPoint s.cursor s.subpathStart - s.cursor).length = chord

theorem arc_chord {shape : ArcShape α} {stop : Point α} {chord : α}
    (placed : f.place (.arc shape stop) s.cursor false = .ok c)
    (rendered : RenderedChord f s stop chord) :
    (c.endPoint s.cursor s.subpathStart - s.cursor).length = chord := by
  obtain ⟨line, straight, rfl⟩ := rendered
  rw [place_stop placed straight rfl rfl]

def heights (f : Setup α) (chord : α) (large : Bool) : Radius.Search α where
  precision := f.options.precision.toNat
  error := f.error
  height := fun r => sagitta r chord large

-- The radius to write: the one that is asked for, where no search is made or the circle does not
-- reach over the chord, then what the search finds for it, and at last what it finds for that one
-- rounded.
inductive Settles (f : Setup α) (chord : α) (large : Bool) (radius : α) : α → Prop where
  | unsearched (whole : f.options.precision ≤ 0) : Settles f chord large radius radius
  | short (measured : sagitta radius chord large = .ok none) : Settles f chord large radius radius
  | found {height r : α} (decimals : 0 < f.options.precision)
      (measured : sagitta radius chord large = .ok (some height))
      (finds : Radius.Finds (heights f chord large) radius (some r)) :
      Settles f chord large radius r
  | rounded {height rounded : α} {answer : Option α} (decimals : 0 < f.options.precision)
      (measured : sagitta radius chord large = .ok (some height))
      (none : Radius.Finds (heights f chord large) radius none)
      (rounds : f.options.round f.error radius = .ok rounded)
      (finds : Radius.Finds (heights f chord large) rounded answer) :
      Settles f chord large radius (answer.getD rounded)

end Placing

open scoped PathData.Exact

variable {α : Type} [Field α] [LinearOrder α] [FloorRing α] [Exact.Roots α]
variable {f : Setup α} {s : State α}

theorem sagitta_reach {radius chord height : α} {large : Bool}
    (measured : sagitta radius chord large = .ok (some height)) :
    chord ≤ 2 * radius := by
  unfold sagitta at measured
  rw [Exact.literal_ofNat] at measured
  split at measured
  · cases measured
  · rename_i reaches
    exact not_lt.1 reaches

theorem sagitta_short {radius chord : α} {large : Bool}
    (measured : sagitta radius chord large = .ok none) : 2 * radius < chord := by
  unfold sagitta at measured
  rw [Exact.literal_ofNat] at measured
  split at measured
  · rename_i short
    exact short
  · obtain ⟨offset, _, made⟩ := bind_ok.1 measured
    cases made

theorem sameHeight_reach {chord radius r : α} {large : Bool}
    (same : Radius.SameHeight (heights f chord large) radius r) : chord ≤ 2 * r := by
  obtain ⟨_, _, _, measured, _⟩ := same
  exact sagitta_reach measured

theorem smartRadius_settles (chosen : smartRadius f s radius stop large = .ok r) :
    ∃ chord, RenderedChord f s stop chord ∧ Settles f chord large radius r := by
  unfold smartRadius at chosen
  obtain ⟨line, placed, chosen⟩ := bind_ok.1 chosen
  refine ⟨_, ⟨line, placed, rfl⟩, ?_⟩
  dsimp only at chosen
  split at chosen
  · rename_i whole
    cases chosen
    exact .unsearched whole
  · rename_i decimals
    obtain ⟨height, measured, chosen⟩ := bind_ok.1 chosen
    cases height with
    | none =>
      cases chosen
      exact .short measured
    | some height =>
      obtain ⟨answer, found, chosen⟩ := bind_ok.1 chosen
      have finds := Radius.shortest_finds found
      cases answer with
      | some r =>
        cases chosen
        exact .found (not_le.1 decimals) measured finds
      | none =>
        obtain ⟨rounded, rounds, chosen⟩ := bind_ok.1 chosen
        obtain ⟨again, found, chosen⟩ := bind_ok.1 chosen
        cases chosen
        exact .rounded (not_le.1 decimals) measured finds rounds (Radius.shortest_finds found)

theorem arcRadii_circle {e : EllipticArc α} (circle : e.rx = e.ry)
    (chosen : arcRadii f s stop e = .ok radii) :
    ∃ r, radii = (r, r) ∧
      ((e.rx = 0 ∨ f.flags.smartArcRounding = false) ∧ r = e.rx ∨
        f.flags.smartArcRounding = true ∧
          ∃ chord, RenderedChord f s stop chord ∧ Settles f chord e.large e.rx r) := by
  unfold arcRadii at chosen
  split at chosen
  · rename_i smart
    obtain ⟨r, settled, made⟩ := bind_ok.1 chosen
    cases made
    exact ⟨r, rfl, .inr ⟨(Bool.and_eq_true_iff.1 smart).2, smartRadius_settles settled⟩⟩
  · rename_i plain
    cases chosen
    refine ⟨e.rx, by rw [circle], .inl ⟨?_, rfl⟩⟩
    rw [← circle] at plain
    simp only [Exact.literal_zero, beq_self_eq_true, Bool.or_self, Bool.and_true, Bool.and_eq_true,
      Bool.not_eq_true', beq_eq_false_iff_ne, not_and, Bool.not_eq_true, ne_eq] at plain
    by_cases zero : e.rx = 0
    · exact .inl zero
    · exact .inr (plain zero)

theorem circle_written {source : Segment α} {trailing : Bool} {c : Command α} {handle : Handle α}
    (circle : e.rx = e.ry) (form : ArcForm f s source e trailing [{ command := c, handle }])
    (kind : c.kind = .arc) :
    ∃ a q r, c.body = .arc a q ∧ a.ry = a.rx ∧ a.large = flag e.large ∧
      f.options.round f.error r = .ok a.rx ∧
      ((e.rx = 0 ∨ f.flags.smartArcRounding = false) ∧ r = e.rx ∨
        f.flags.smartArcRounding = true ∧
          Settles f (c.endPoint s.cursor s.subpathStart - s.cursor).length e.large e.rx r) := by
  obtain ⟨radii, chosen, placed⟩ := arcForm_placed form kind
  obtain ⟨r, rfl, settled⟩ := arcRadii_circle circle chosen
  obtain ⟨a, q, body, byX, byY, large⟩ := placed_arc placed
  refine ⟨a, q, r, body, Except.ok.inj (byY.symm.trans byX), large, byX, settled.imp_right ?_⟩
  rintro ⟨smart, chord, rendered, settles⟩
  rw [arc_chord placed rendered]
  exact ⟨smart, settles⟩

variable [IsStrictOrderedRing α]

theorem round_on {x y : α} (rounds : f.options.round f.error x = .ok y) :
    Grid.On f.options.precision y := by
  unfold Options.round at rounds
  rw [Exact.round_eq] at rounds
  cases rounds
  exact Grid.rounded_multiple f.options.precision f.error x

theorem round_of_on {x : α} (on : Grid.On f.options.precision x) :
    f.options.round f.error x = .ok x := by
  unfold Options.round
  rw [Exact.round_eq, Grid.rounded_of_multiple f.error on]

omit [IsStrictOrderedRing α] in
theorem heights_on (keeps : Keeps f) (decimals : 0 < f.options.precision) {chord r : α}
    {large : Bool} :
    Grid.Multiple (heights f chord large).precision r ↔ Grid.On f.options.precision r := by
  have whole : ((heights f chord large).precision : ℤ) = f.options.precision :=
    Int.toNat_of_nonneg decimals.le
  rw [whole]
  unfold Grid.On Grid.places
  rw [if_pos ⟨decimals, keeps.few⟩]

theorem found_on (keeps : Keeps f) (decimals : 0 < f.options.precision) {chord radius height r : α}
    {large : Bool} (measured : sagitta radius chord large = .ok (some height))
    (finds : Radius.Finds (heights f chord large) radius (some r)) :
    Grid.On f.options.precision r ∧ Radius.SameHeight (heights f chord large) radius r ∧
      Radius.Replaceable (heights f chord large) radius := by
  obtain ⟨multiple, same, replaceable⟩ := Radius.finds_kept keeps.positive finds measured
  exact ⟨(heights_on keeps decimals).1 multiple, same, replaceable⟩

theorem finds_cases (keeps : Keeps f) (decimals : 0 < f.options.precision) {chord radius r : α}
    {large : Bool} (finds : Radius.Finds (heights f chord large) radius (some r)) :
    r = radius ∨ Grid.On f.options.precision r ∧ chord ≤ 2 * r := by
  obtain ⟨measured, found⟩ := Radius.finds_measured finds
  cases measured with
  | none => exact .inl (Option.some.inj (Radius.finds_unmeasured finds found))
  | some height =>
    obtain ⟨on, same, _⟩ := found_on keeps decimals found finds
    exact .inr ⟨on, sameHeight_reach same⟩

theorem settles_cases (keeps : Keeps f) {chord radius r : α} {large : Bool}
    (settles : Settles f chord large radius r) :
    r = radius ∨ f.options.round f.error radius = .ok r ∨
      Grid.On f.options.precision r ∧ chord ≤ 2 * r := by
  cases settles with
  | unsearched | short => exact .inl rfl
  | found decimals _ finds => exact (finds_cases keeps decimals finds).imp_right .inr
  | @rounded _ rounded answer decimals _ _ rounds finds =>
    cases answer with
    | none => exact .inr (.inl rounds)
    | some r =>
      rcases finds_cases keeps decimals finds with rfl | kept
      · exact .inr (.inl rounds)
      · exact .inr (.inr kept)

theorem settles_stable (keeps : Keeps f) (decimals : 0 < f.options.precision)
    {chord radius r : α} {large : Bool} (settles : Settles f chord large radius r) :
    2 * radius < chord ∨
      Grid.On f.options.precision r ∧ Radius.Stable (heights f chord large) r := by
  cases settles with
  | unsearched whole => exact absurd decimals (not_lt.2 whole)
  | short measured => exact .inl (sagitta_short measured)
  | found _ measured finds => exact .inr ⟨(found_on keeps decimals measured finds).1, finds.stable⟩
  | @rounded _ rounded answer _ _ _ rounds finds =>
    have on := round_on rounds
    cases answer with
    | none => exact absurd ((heights_on keeps decimals).2 on) (Radius.finds_none finds).1
    | some r =>
      rcases finds_cases keeps decimals finds with rfl | kept
      · exact .inr ⟨on, finds.stable⟩
      · exact .inr ⟨kept.1, finds.stable⟩

theorem round_nonneg (keeps : Keeps f) (decimals : 0 < f.options.precision) {x y : α}
    (rounds : f.options.round f.error x = .ok y) (nonneg : 0 ≤ x) : 0 ≤ y := by
  have on := round_on rounds
  unfold Grid.On Grid.places at on
  rw [if_pos ⟨decimals, keeps.few⟩] at on
  exact on.nonneg_of_close nonneg (keeps.error_eq ▸ round_off keeps rounds)

theorem settles_nonneg (keeps : Keeps f) {chord radius r : α} {large : Bool}
    (settles : Settles f chord large radius r) (nonneg : 0 ≤ radius) : 0 ≤ r := by
  cases settles with
  | unsearched | short => exact nonneg
  | found _ _ finds => exact Radius.finds_nonneg finds nonneg
  | @rounded _ _ answer decimals _ _ rounds finds =>
    have above := round_nonneg keeps decimals rounds nonneg
    cases answer with
    | none => exact above
    | some r => exact Radius.finds_nonneg finds above

end Filter
end PathData
