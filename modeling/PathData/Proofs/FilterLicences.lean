import PathData.Proofs.FilterRuns

namespace PathData

namespace Kind

def drawn : Kind → Kind
  | .line | .horizontal | .vertical => .line
  | .cubic | .smoothCubic => .cubic
  | .quadratic | .smoothQuadratic => .quadratic
  | kind => kind

def isCurve (kind : Kind) : Bool :=
  kind.drawn = .cubic || kind.drawn = .quadratic

theorem isLine_of_drawn {kind : Kind} (line : kind.drawn = .line) : kind.isLine = true := by
  cases kind <;> first | rfl | cases line

theorem move_of_drawn {kind : Kind} (move : kind.drawn = .move) : kind = .move := by
  cases kind <;> first | rfl | cases move

theorem arc_of_drawn {kind : Kind} (arc : kind.drawn = .arc) : kind = .arc := by
  cases kind <;> first | rfl | cases arc

theorem close_of_drawn {kind : Kind} (close : kind.drawn = .close) : kind = .close := by
  cases kind <;> first | rfl | cases close

end Kind

theorem Pen.draw_kind {α : Type} [Scalar α] (pen : Pen α) (c : Command α) :
    (pen.draw c).1.kind = c.kind.drawn := by
  rw [← Command.kind_toAbsolute c pen.position]
  unfold Pen.draw Segment.kind Command.kind
  cases (c.toAbsolute pen.position).body <;> rfl

namespace Filter

open scoped PathData.Scalar
open Fault (bind_ok)

variable {α : Type}

-- What it takes for a command of some kind to be written for a source of the kind `own`.
inductive Licensed (options : Options α) (style : Style) (own : Kind) : Kind → Prop where
  | move (same : own = .move) : Licensed options style own .move
  | line (lines : own.isLine = true ∨ options.flags.straightCurves = true) :
      Licensed options style own .line
  | horizontal (lines : own.isLine = true ∨ options.flags.straightCurves = true)
      (level : own = .horizontal ∨ options.flags.lineShorthands = true) :
      Licensed options style own .horizontal
  | vertical (lines : own.isLine = true ∨ options.flags.straightCurves = true)
      (plumb : own = .vertical ∨ options.flags.lineShorthands = true) :
      Licensed options style own .vertical
  | cubic (curve : own.drawn = .cubic) : Licensed options style own .cubic
  | smoothCubic (curve : own.drawn = .cubic)
      (smooth : own = .smoothCubic ∨ options.flags.curveSmoothShorthands = true) :
      Licensed options style own .smoothCubic
  | quadratic (curve : own.drawn = .quadratic ∨
        own.drawn = .cubic ∧ options.flags.convertToQ = true) :
      Licensed options style own .quadratic
  | smoothQuadratic (curve : own.drawn = .quadratic ∨
        own.drawn = .cubic ∧ options.flags.convertToQ = true)
      (smooth : own = .smoothQuadratic ∨ options.flags.curveSmoothShorthands = true) :
      Licensed options style own .smoothQuadratic
  | arc (arcs : own = .arc ∨ own.isCurve = true ∧ options.makeArcs.isSome = true) :
      Licensed options style own .arc
  | close (closes : own = .close ∨
        options.flags.convertToZ = true ∧ style.isSafeToUseZ = true) :
      Licensed options style own .close

variable [Scalar α] {f : Setup α} {s : State α}

def PlainFlags (b : Body α) : Prop :=
  ∀ shape stop, b = .arc shape stop →
    ∃ large sweep, shape.large = flag large ∧ shape.sweep = flag sweep

theorem place_relative {body : Body α} (placed : f.place body start absolute = .ok c) :
    c.relative = !(absolute || f.flags.forceAbsolutePath || body.kind = .close) := by
  obtain ⟨rounded, _, made⟩ := bind_ok.1 placed
  cases made
  cases absolute || f.flags.forceAbsolutePath with
  | true => rfl
  | false =>
    by_cases closes : body.kind = .close <;> simp [Command.toRelative, Command.kind, closes]

inductive Offers (f : Setup α) (own : Kind) : Command α → Prop where
  | placed {body : Body α} {start : Point α} {c : Command α}
      (placed : f.place body start false = .ok c) (plain : PlainFlags body)
      (draws : body.kind ≠ .move) (licensed : Licensed f.options f.style own body.kind) :
      Offers f own c
  | close (licensed : Licensed f.options f.style own .close) : Offers f own { body := .close }

theorem Offers.single {own : Kind} {c : Command α} (offers : Offers f own c) (handle : Handle α) :
    ∀ step ∈ [({ command := c, handle } : Step α)], Offers f own step.command := by
  intro step member
  rw [List.mem_singleton.1 member]
  exact offers

theorem line_offers {source : Kind} (same : own = source ∨ own = .line)
    (lines : source.isLine = true ∨ f.flags.straightCurves = true)
    (form : LineForm f s stop own trailing steps) :
    ∀ step ∈ steps, Offers f source step.command := by
  have shorthand {kind : Kind} (special : kind ≠ .line)
      (allowed : own = kind ∨ f.flags.lineShorthands = true) :
      source = kind ∨ f.flags.lineShorthands = true := by
    refine allowed.imp_left ?_
    rintro rfl
    rcases same with same | isLine
    · exact same.symm
    · exact absurd isLine special
  cases form with
  | line placed => exact Offers.single (.placed placed nofun nofun (.line lines)) {}
  | horizontal allowed _ placed =>
    exact Offers.single
      (.placed placed nofun nofun (.horizontal lines (shorthand nofun allowed))) {}
  | vertical allowed _ placed =>
    exact Offers.single (.placed placed nofun nofun (.vertical lines (shorthand nofun allowed))) {}
  | close allowed => exact Offers.single (.close (.close (.inr allowed))) {}

theorem circular_plain (radius : α) (large sweep : Bool) (stop : Point α) :
    PlainFlags (circular radius large sweep stop) := by
  intro shape stop same
  cases same
  exact ⟨large, sweep, rfl, rfl⟩

theorem fitted_offers {source : Kind} (curve : source.isCurve = true)
    (fits : f.options.makeArcs.isSome = true) (form : FittedForm f s fit trueStart stop steps) :
    ∀ step ∈ steps, Offers f source step.command := by
  have arc : Licensed f.options f.style source .arc := .arc (.inr ⟨curve, fits⟩)
  cases form with
  | part _ _ placed => exact Offers.single (.placed placed (circular_plain _ _ _ _) nofun arc) {}
  | turn _ leaves returns =>
    intro step member
    rcases List.mem_pair.1 member with rfl | rfl
    · exact .placed leaves (circular_plain _ _ _ _) nofun arc
    · exact .placed returns (circular_plain _ _ _ _) nofun arc

theorem arc_offers {segment : Segment α} {source : Kind} (arc : source = .arc)
    (form : ArcForm f s segment e trailing steps) :
    ∀ step ∈ steps, Offers f source step.command := by
  cases form with
  | flat _ allowed form | shallow allowed _ _ _ _ form =>
    exact line_offers (.inr rfl) (.inr allowed) form
  | arc _ placed =>
    have plain (radii : α × α) : PlainFlags (.arc ⟨radii.1, radii.2, e.rotation, flag e.large,
        flag e.sweep⟩ segment.stop) := by
      intro shape stop same
      cases same
      exact ⟨e.large, e.sweep, rfl, rfl⟩
    exact Offers.single (.placed placed (plain _) nofun (.arc (.inl arc))) {}

theorem quadratic_offers {source : Kind} {control : Point α}
    (curve : source.drawn = .quadratic ∨
      source.drawn = .cubic ∧ f.options.flags.convertToQ = true)
    (smooth : shorthand = true →
      source = .smoothQuadratic ∨ f.options.flags.curveSmoothShorthands = true)
    (form : QuadraticForm f s control stop shorthand steps) :
    ∀ step ∈ steps, Offers f source step.command := by
  cases form with
  | full placed => exact Offers.single (.placed placed nofun nofun (.quadratic curve)) _
  | smooth allowed _ placed =>
    exact Offers.single
      (.placed placed nofun nofun (.smoothQuadratic curve (smooth allowed))) _

theorem fit_allowed {segments : List (Segment α)} (fits : f.fit segments = .ok (some fit)) :
    f.options.makeArcs.isSome = true := by
  unfold Setup.fit at fits
  split at fits
  · cases fits
  · rename_i allowed
    rw [allowed]
    rfl

theorem curve_offers {segment : Segment α} {source : Kind} (expands : segment.kind = source.drawn)
    (curve : segment.isCurve = true) (form : CurveForm f s segment source trailing steps) :
    ∀ step ∈ steps, Offers f source step.command := by
  have isCurve : source.isCurve = true := by
    unfold Segment.isCurve at curve
    unfold Kind.isCurve
    rwa [← expands]
  cases form with
  | cubic shape form =>
    have cubic : source.drawn = .cubic := by
      rw [← expands]
      simp [Segment.kind, shape]
    cases form with
    | full placed =>
      refine Offers.single (.placed placed ?_ ?_ (.cubic cubic)) _
      · simp [PlainFlags]
      · simp [Body.kind]
    | smooth allowed _ placed =>
      refine Offers.single (.placed placed ?_ ?_ (.smoothCubic cubic allowed.symm)) _
      · simp [PlainFlags]
      · simp [Body.kind]
  | raised shape allowed _ form =>
    have cubic : source.drawn = .cubic := by
      rw [← expands]
      simp [Segment.kind, shape]
    exact quadratic_offers (.inr ⟨cubic, allowed⟩) .inr form
  | quadratic shape form =>
    have quadratic : source.drawn = .quadratic := by
      rw [← expands]
      simp [Segment.kind, shape]
    refine quadratic_offers (.inl quadratic) ?_ form
    intro shorthand
    rw [Bool.or_eq_true, decide_eq_true_eq] at shorthand
    exact shorthand.symm
  | straight allowed _ form => exact line_offers (.inr rfl) (.inr allowed) form
  | fitted fits _ form => exact fitted_offers isCurve (fit_allowed fits) form

-- The state that a source is written from: a line may take the last one back first.
def writtenFrom (f : Setup α) (s : State α) (source : Source α) : State α :=
  match source.segment.shape with
  | .line => if isUseless f s source.segment then s else collapse f s source.segment.stop
  | _ => s

theorem writtenFrom_eq {source : Source α} (notLine : source.segment.shape ≠ .line) :
    writtenFrom f s source = s := by
  unfold writtenFrom
  split
  · contradiction
  · rfl

theorem writtenFrom_useless {source : Source α} (useless : isUseless f s source.segment = true) :
    writtenFrom f s source = s := by
  unfold writtenFrom
  split
  · exact if_pos useless
  · rfl

theorem writtenFrom_needed {source : Source α} (shape : source.segment.shape = .line)
    (needed : isUseless f s source.segment = false) :
    writtenFrom f s source = collapse f s source.segment.stop := by
  unfold writtenFrom
  rw [shape]
  exact if_neg (by simp [needed])

theorem writtenFrom_cases (f : Setup α) (s : State α) (source : Source α) :
    writtenFrom f s source = s ∨
      source.segment.shape = .line ∧ f.options.flags.collapseRepeated = true ∧
        f.style.hasMarkerMid = false ∧
        ∃ p, s.pop? = some (p, writtenFrom f s source) ∧ p.command.kind.isLine = true := by
  unfold writtenFrom
  split
  · rename_i shape
    split
    · exact .inl rfl
    · unfold collapse
      split
      · exact .inl rfl
      · rename_i allowed
        simp only [Bool.or_eq_true, Bool.not_eq_true', not_or, Bool.not_eq_false,
          Bool.not_eq_true] at allowed
        split
        · exact .inl rfl
        · rename_i p before popped
          split
          · rename_i folds
            rw [Bool.and_eq_true] at folds
            exact .inr ⟨shape, allowed.1, allowed.2, p, popped, folds.1⟩
          · exact .inl rfl
  · exact .inl rfl

-- One visit by what it writes, in place of nothing or of the line that it takes back.
inductive Turns (f : Setup α) (s : State α) (isFirst : Bool) (source : Source α)
    (rest : List (Source α)) : State α → Nat → Prop where
  | moved {c : Command α} (own : source.command.kind = .move)
      (kept : writtenFrom f s source = s)
      (placed : f.place (.move source.segment.stop) s.cursor isFirst = .ok c) :
      Turns f s isFirst source rest (s.emit { command := c }) 0
  | dropped (kept : writtenFrom f s source = s) (allowed : f.removalAllowed = true) :
      Turns f s isFirst source rest s 0
  | drawn {steps : List (Step α)} (draws : source.command.kind ≠ .move) (single : steps.length = 1)
      (offers : ∀ step ∈ steps, Offers f source.command.kind step.command)
      (folded : source.command.kind.isLine = true →
        ∀ step ∈ steps, step.command.kind.isLine = true ∨ step.command.kind = .close) :
      Turns f s isFirst source rest ((writtenFrom f s source).emitAll steps) 0
  | run {steps : List (Step α)} {taken : Nat} (kept : writtenFrom f s source = s)
      (unmarked : f.style.hasMarkerMid = false) (fits : f.options.makeArcs.isSome = true)
      (within : taken ≤ rest.length)
      (curves : ∀ own ∈ source :: rest.take taken, own.segment.isCurve = true)
      (nonempty : steps ≠ [])
      (offers : ∀ step ∈ steps, Offers f source.command.kind step.command)
      (arcs : ∀ step ∈ steps, step.command.kind = .arc) :
      Turns f s isFirst source rest (s.emitAll steps) taken

theorem Turns.drawnKept {steps : List (Step α)} (kept : writtenFrom f s source = s)
    (draws : source.command.kind ≠ .move) (single : steps.length = 1)
    (offers : ∀ step ∈ steps, Offers f source.command.kind step.command)
    (folded : source.command.kind.isLine = true →
      ∀ step ∈ steps, step.command.kind.isLine = true ∨ step.command.kind = .close) :
    Turns f s isFirst source rest (s.emitAll steps) 0 := by
  have drawn : Turns f s isFirst source rest ((writtenFrom f s source).emitAll steps) 0 :=
    .drawn draws single offers folded
  rwa [kept] at drawn

theorem line_single (form : LineForm f s stop own trailing steps) : steps.length = 1 := by
  cases form <;> rfl

theorem line_kinds (form : LineForm f s stop own trailing steps) :
    ∀ step ∈ steps, step.command.kind.isLine = true ∨ step.command.kind = .close := by
  intro step member
  cases form with
  | line placed | horizontal _ _ placed | vertical _ _ placed =>
    rw [List.mem_singleton.1 member, Command.kind_place placed]
    exact .inl rfl
  | close =>
    rw [List.mem_singleton.1 member]
    exact .inr rfl

theorem arc_single {segment : Segment α} (form : ArcForm f s segment e trailing steps) :
    steps.length = 1 := by
  cases form with
  | flat _ _ form | shallow _ _ _ _ _ form => exact line_single form
  | arc => rfl

theorem curve_single {segment : Segment α} (form : CurveForm f s segment kind trailing steps) :
    steps.length = 1 := by
  cases form with
  | cubic _ form | raised _ _ _ form | quadratic _ form => cases form <;> rfl
  | straight _ _ form => exact line_single form
  | fitted _ part form =>
    cases form with
    | part => rfl
    | turn whole => cases part.symm.trans whole

theorem fitted_arcs (form : FittedForm f s fit trueStart stop steps) :
    ∀ step ∈ steps, step.command.kind = .arc := by
  intro step member
  cases form with
  | part _ _ placed =>
    rw [List.mem_singleton.1 member]
    exact Command.kind_place placed
  | turn _ leaves returns =>
    rcases List.mem_pair.1 member with rfl | rfl
    · exact Command.kind_place leaves
    · exact Command.kind_place returns

theorem visits_turns (expands : source.segment.kind = source.command.kind.drawn)
    (visits : Visits f s isFirst source rest next taken) :
    Turns f s isFirst source rest next taken := by
  cases visits with
  | move shape placed =>
    have own : source.command.kind = .move :=
      Kind.move_of_drawn (by simp [← expands, Segment.kind, shape])
    exact .moved own (writtenFrom_eq (by simp [shape])) placed
  | dropClose shape useless =>
    exact .dropped (writtenFrom_eq (by simp [shape])) (uselessClose_allowed useless)
  | close shape _ =>
    have own : source.command.kind = .close :=
      Kind.close_of_drawn (by simp [← expands, Segment.kind, shape])
    exact .drawnKept (writtenFrom_eq (by simp [shape])) (by simp [own]) rfl
      (Offers.single (.close (.close (.inl own))) {}) (by simp [own, Kind.isLine])
  | run curve unmarked covers form =>
    have isCurve : source.command.kind.isCurve = true := by
      unfold Segment.isCurve at curve
      unfold Kind.isCurve
      rwa [← expands]
    have fits := fit_allowed covers.fits
    refine .run (writtenFrom_eq (Segment.curve_not_line curve)) unmarked fits covers.within ?_
      (fitted_writes form).nonempty (fitted_offers isCurve fits form) (fitted_arcs form)
    intro own member
    rcases List.mem_cons.1 member with rfl | member
    · exact curve
    · exact covers.curves own member
  | drop _ _ useless =>
    exact .dropped (writtenFrom_useless useless) (useless_allowed useless)
  | line shape needed form =>
    have own : source.command.kind.isLine = true :=
      Kind.isLine_of_drawn (by simp [← expands, Segment.kind, shape])
    rw [← writtenFrom_needed shape needed]
    refine .drawn ?_ (line_single form) (line_offers (.inl rfl) (.inl own) form)
      fun _ => line_kinds form
    intro move
    simp [move, Kind.isLine] at own
  | arc shape _ form =>
    have own : source.command.kind = .arc :=
      Kind.arc_of_drawn (by simp [← expands, Segment.kind, shape])
    exact .drawnKept (writtenFrom_eq (by simp [shape])) (by simp [own]) (arc_single form)
      (arc_offers own form) (by simp [own, Kind.isLine])
  | curve curve _ form =>
    refine .drawnKept (writtenFrom_eq (Segment.curve_not_line curve)) ?_ (curve_single form)
      (curve_offers expands curve form) ?_
    · intro move
      simp [Segment.isCurve, expands, move, Kind.drawn] at curve
    · intro line
      cases kind : source.command.kind <;>
        simp [Segment.isCurve, expands, kind, Kind.drawn, Kind.isLine] at curve line

theorem sources_expand (pen : Pen α) (cs : List (Command α)) :
    ∀ source ∈ sourcesFrom pen cs, source.segment.kind = source.command.kind.drawn := by
  induction cs generalizing pen with
  | nil => nofun
  | cons c rest ih =>
    intro source member
    rcases List.mem_cons.1 member with rfl | later
    · exact Pen.draw_kind pen c
    · exact ih _ source later

theorem reached_commands {sources : List (Source α)} {P : Command α → Prop}
    (expands : ∀ source ∈ sources, source.segment.kind = source.command.kind.drawn)
    (tags : ∀ previous c, P c → P (Command.tagAfter previous c))
    (moves : ∀ stop start absolute c, f.place (.move stop) start absolute = .ok c → P c)
    (offered : ∀ own c, Offers f own c → P c) (reached : Reached f sources s k) :
    ∀ p ∈ s.output, P p.command := by
  have all (t : State α) (steps : List (Step α)) (before : ∀ p ∈ t.output, P p.command)
      (written : ∀ step ∈ steps, P step.command) : ∀ p ∈ (t.emitAll steps).output, P p.command := by
    obtain ⟨made, output, _, came⟩ := emitAll_written t steps
    intro p member
    rw [output] at member
    rcases List.mem_append.1 member with new | old
    · obtain ⟨step, member, previous, tagged⟩ := came p new
      exact tagged ▸ tags previous _ (written step member)
    · exact before p old
  induction reached with
  | initial => exact nofun
  | @step s next k taken source rest _ ahead visited ih =>
    have own := expands source (List.mem_of_mem_drop (ahead ▸ List.mem_cons_self))
    cases visits_turns own (visit_sound visited) with
    | dropped => exact ih
    | moved _ _ placed =>
      intro p member
      rcases List.mem_cons.1 member with rfl | old
      · exact tags _ _ (moves _ _ _ _ placed)
      · exact ih p old
    | run _ _ _ _ _ _ offers =>
      exact all _ _ ih fun step member => offered _ _ (offers step member)
    | drawn _ _ offers =>
      refine all _ _ ?_ fun step member => offered _ _ (offers step member)
      rcases writtenFrom_cases f s source with kept | ⟨_, _, _, q, popped, _⟩
      · rw [kept]
        exact ih
      · intro p member
        exact ih p (pop_output popped ▸ List.mem_cons_of_mem _ member)

end Filter
end PathData
