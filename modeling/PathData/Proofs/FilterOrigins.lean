import PathData.Number.Double
import PathData.Passes.Rebase
import PathData.Proofs.FilterLicences
import PathData.Proofs.WellFormed

namespace PathData
namespace Filter

open scoped PathData.Scalar

variable {α : Type}

-- What the flags and the style ask of a command, given the kinds of the sources it stands for.
structure Behind (options : Options α) (style : Style) (owns : List Kind) (written : Kind) :
    Prop where
  nonempty : owns ≠ []
  move : written = .move → owns = [.move]
  arc : written = .arc → owns = [.arc] ∨
    options.makeArcs.isSome = true ∧ ∀ own ∈ owns, own.isCurve = true
  close : written = .close → owns = [.close] ∨
    options.flags.convertToZ = true ∧ style.isSafeToUseZ = true
  horizontal : written = .horizontal → options.flags.lineShorthands = false →
    owns.getLast? = some .horizontal
  vertical : written = .vertical → options.flags.lineShorthands = false →
    owns.getLast? = some .vertical
  smoothCubic : written = .smoothCubic → options.flags.curveSmoothShorthands = false →
    owns = [.smoothCubic]
  smoothQuadratic : written = .smoothQuadratic → options.flags.curveSmoothShorthands = false →
    owns = [.smoothQuadratic]
  quadratic : written.drawn = .quadratic → options.flags.convertToQ = false →
    owns = [.quadratic] ∨ owns = [.smoothQuadratic]
  line : written.isLine = true → options.flags.straightCurves = false →
    ∀ own ∈ owns, own.isLine = true
  shared : 1 < owns.length → style.hasMarkerMid = false ∧
    ((written.isLine = true ∨ written = .close) ∧ options.flags.collapseRepeated = true ∧
        (∀ own ∈ owns.tail, own.isLine = true) ∨
      written = .arc ∧ options.makeArcs.isSome = true ∧ ∀ own ∈ owns, own.isCurve = true)

section Kinds

variable {options : Options α} {style : Style}

theorem quadratic_of_drawn {kind : Kind} (quadratic : kind.drawn = .quadratic) :
    kind = .quadratic ∨ kind = .smoothQuadratic := by
  cases kind <;> first | exact .inl rfl | exact .inr rfl | cases quadratic

theorem Behind.alone {own written : Kind} (licensed : Licensed options style own written) :
    Behind options style [own] written where
  nonempty := List.cons_ne_nil _ _
  move := by
    rintro rfl
    cases licensed with
    | move same => rw [same]
  arc := by
    rintro rfl
    cases licensed with
    | arc arcs =>
      refine arcs.imp (congrArg ([·])) ?_
      rintro ⟨curve, fits⟩
      exact ⟨fits, by simpa using curve⟩
  close := by
    rintro rfl
    cases licensed with
    | close closes => exact closes.imp_left (congrArg ([·]))
  horizontal := by
    rintro rfl off
    cases licensed with
    | horizontal _ level => exact congrArg some (level.resolve_right (by simp [off]))
  vertical := by
    rintro rfl off
    cases licensed with
    | vertical _ plumb => exact congrArg some (plumb.resolve_right (by simp [off]))
  smoothCubic := by
    rintro rfl off
    cases licensed with
    | smoothCubic _ smooth => exact congrArg ([·]) (smooth.resolve_right (by simp [off]))
  smoothQuadratic := by
    rintro rfl off
    cases licensed with
    | smoothQuadratic _ smooth => exact congrArg ([·]) (smooth.resolve_right (by simp [off]))
  quadratic := by
    intro drawn off
    have own : own.drawn = .quadratic := by
      cases licensed with
      | quadratic curve | smoothQuadratic curve => exact curve.resolve_right (by simp [off])
      | _ => cases drawn
    exact (quadratic_of_drawn own).imp (congrArg ([·])) (congrArg ([·]))
  line := by
    intro isLine off
    have own : own.isLine = true := by
      cases licensed with
      | line lines | horizontal lines | vertical lines => exact lines.resolve_right (by simp [off])
      | _ => cases isLine
    simpa using own
  shared := by simp

theorem Behind.folded {earlier : List Kind} {own before written : Kind}
    (behind : Behind options style earlier before) (beforeLine : before.isLine = true)
    (allowed : options.flags.collapseRepeated = true) (unmarked : style.hasMarkerMid = false)
    (ownLine : own.isLine = true) (lines : written.isLine = true ∨ written = .close)
    (licensed : Licensed options style own written) :
    Behind options style (earlier ++ [own]) written := by
  have itself : Behind options style [own] written := .alone licensed
  have last : (earlier ++ [own]).getLast? = [own].getLast? := by simp
  have only {kind : Kind} (drawn : kind.isLine = false) (opens : kind ≠ .close) :
      written ≠ kind := by
    rintro rfl
    rcases lines with line | close
    · simp [drawn] at line
    · exact opens close
  refine
    { nonempty := by simp
      move := fun same => absurd same (only rfl nofun)
      arc := fun same => absurd same (only rfl nofun)
      smoothCubic := fun same => absurd same (only rfl nofun)
      smoothQuadratic := fun same => absurd same (only rfl nofun)
      horizontal := fun same off => last.trans (itself.horizontal same off)
      vertical := fun same off => last.trans (itself.vertical same off)
      close := ?_, quadratic := ?_, line := ?_, shared := ?_ }
  · intro same
    refine .inr ((itself.close same).resolve_left ?_)
    rintro ⟨⟩
    cases ownLine
  · intro drawn
    rcases quadratic_of_drawn drawn with same | same <;> exact absurd same (only rfl nofun)
  · intro _ off kind member
    rcases List.mem_append.1 member with inEarlier | isOwn
    · exact behind.line beforeLine off kind inEarlier
    · exact List.mem_singleton.1 isOwn ▸ ownLine
  · intro _
    refine ⟨unmarked, .inl ⟨lines, allowed, ?_⟩⟩
    intro kind member
    rw [List.tail_append_of_ne_nil behind.nonempty] at member
    rcases List.mem_append.1 member with inTail | isOwn
    · have several : 1 < earlier.length := by
        have := List.length_pos_of_mem inTail
        rw [List.length_tail] at this
        omega
      rcases (behind.shared several).2 with ⟨_, _, linesOnly⟩ | ⟨arc, _⟩
      · exact linesOnly kind inTail
      · rw [arc] at beforeLine
        cases beforeLine
    · exact List.mem_singleton.1 isOwn ▸ ownLine

theorem Behind.run {owns : List Kind} (nonempty : owns ≠ [])
    (curves : ∀ own ∈ owns, own.isCurve = true) (fits : options.makeArcs.isSome = true)
    (unmarked : style.hasMarkerMid = false) : Behind options style owns .arc where
  nonempty := nonempty
  move := nofun
  arc _ := .inr ⟨fits, curves⟩
  close := nofun
  horizontal := nofun
  vertical := nofun
  smoothCubic := nofun
  smoothQuadratic := nofun
  quadratic := nofun
  line := nofun
  shared _ := ⟨unmarked, .inr ⟨rfl, fits, curves⟩⟩

end Kinds

variable [Scalar α] {f : Setup α} {s : State α}

-- The ledger after a visit: what it leaves stands for the sources it has handled, and for those of
-- the line that it takes back.
def originsAfter (f : Setup α) (s : State α) (source : Source α) (rest : List (Source α))
    (next : State α) (taken : Nat) (origins : List (List (Source α))) :
    List (List (Source α)) :=
  let base := writtenFrom f s source
  let back := s.output.length - base.output.length
  let written := next.output.length - base.output.length
  List.replicate written ((origins.take back).flatten ++ source :: rest.take taken) ++
    origins.drop back

inductive Sourced (f : Setup α) (sources : List (Source α)) :
    State α → Nat → List (List (Source α)) → Prop where
  | initial : Sourced f sources .initial 0 []
  | step {s next : State α} {k taken : Nat} {source : Source α} {rest : List (Source α)}
      {origins : List (List (Source α))} (before : Sourced f sources s k origins)
      (ahead : sources.drop k = source :: rest)
      (visited : visit f s (k == 0) source rest = .ok (next, taken)) :
      Sourced f sources next (k + 1 + taken) (originsAfter f s source rest next taken origins)

theorem reached_sourced {sources : List (Source α)} (reached : Reached f sources s k) :
    ∃ origins, Sourced f sources s k origins := by
  induction reached with
  | initial => exact ⟨[], .initial⟩
  | step _ ahead visited ih =>
    obtain ⟨origins, before⟩ := ih
    exact ⟨_, .step before ahead visited⟩

theorem originsAfter_kept {source : Source α} {origins : List (List (Source α))}
    (kept : writtenFrom f s source = s) (output : next.output = written ++ s.output) :
    originsAfter f s source rest next taken origins =
      List.replicate written.length (source :: rest.take taken) ++ origins := by
  simp [originsAfter, kept, output]

theorem originsAfter_folded {source : Source α} {origins : List (List (Source α))}
    (popped : s.output = p :: (writtenFrom f s source).output)
    (output : next.output = written ++ (writtenFrom f s source).output) :
    originsAfter f s source rest next taken (earlier :: origins) =
      List.replicate written.length (earlier ++ source :: rest.take taken) ++ origins := by
  simp [originsAfter, popped, output]

theorem Offers.licensed (offers : Offers f own c) : Licensed f.options f.style own c.kind := by
  cases offers with
  | placed placed _ _ licensed => exact Command.kind_place placed ▸ licensed
  | close licensed => exact licensed

-- An entry of the ledger: what stands behind a command, among the sources that are done.
def Recorded (f : Setup α) (done : List (Source α)) (p : Placed α) (own : List (Source α)) :
    Prop :=
  Behind f.options f.style (own.map fun source => source.command.kind) p.command.kind ∧
    own.Sublist done

theorem forall₂_replicate {R : β → γ → Prop} {xs : List β} {y : γ} (all : ∀ x ∈ xs, R x y) :
    List.Forall₂ R xs (List.replicate xs.length y) := by
  induction xs with
  | nil => exact .nil
  | cons x rest ih =>
    refine .cons (all x List.mem_cons_self) (ih ?_)
    exact fun y member => all y (List.mem_cons_of_mem _ member)

theorem recorded_kept {done : List (Source α)} {origins : List (List (Source α))}
    (recorded : List.Forall₂ (Recorded f done) s.output origins)
    (kept : writtenFrom f s source = s) (written : List (Placed α))
    (output : next.output = written ++ s.output)
    (behind : ∀ p ∈ written, Behind f.options f.style
      ((source :: rest.take taken).map fun source => source.command.kind) p.command.kind) :
    List.Forall₂ (Recorded f (done ++ source :: rest.take taken)) next.output
      (originsAfter f s source rest next taken origins) := by
  rw [originsAfter_kept kept output, output]
  refine List.rel_append (forall₂_replicate ?_) (recorded.imp ?_)
  · intro p member
    exact ⟨behind p member, List.sublist_append_right _ _⟩
  · rintro p own ⟨stands, within⟩
    exact ⟨stands, within.trans (List.sublist_append_left _ _)⟩

theorem recorded_folded {done : List (Source α)} {origins : List (List (Source α))}
    (recorded : List.Forall₂ (Recorded f done) s.output origins)
    (popped : s.output = p :: (writtenFrom f s source).output) (written : List (Placed α))
    (output : next.output = written ++ (writtenFrom f s source).output)
    (behind : ∀ earlier, Behind f.options f.style earlier p.command.kind →
      ∀ q ∈ written, Behind f.options f.style (earlier ++ [source.command.kind]) q.command.kind) :
    List.Forall₂ (Recorded f (done ++ [source])) next.output
      (originsAfter f s source rest next 0 origins) := by
  rw [popped] at recorded
  cases recorded with
  | @cons _ earlier _ others here later =>
    rw [originsAfter_folded popped output, output]
    refine List.rel_append (forall₂_replicate ?_) (later.imp ?_)
    · intro q member
      refine ⟨?_, here.2.append (List.Sublist.refl _)⟩
      rw [List.map_append]
      exact behind _ here.1 q member
    · rintro q own ⟨stands, within⟩
      exact ⟨stands, within.trans (List.sublist_append_left _ _)⟩

theorem turns_recorded {done : List (Source α)} {origins : List (List (Source α))}
    (expands : ∀ own ∈ source :: rest, own.segment.kind = own.command.kind.drawn)
    (recorded : List.Forall₂ (Recorded f done) s.output origins)
    (turns : Turns f s isFirst source rest next taken) :
    List.Forall₂ (Recorded f (done ++ source :: rest.take taken)) next.output
      (originsAfter f s source rest next taken origins) := by
  cases turns with
  | moved own kept placed =>
    refine recorded_kept recorded kept [_] rfl ?_
    intro p member
    rw [List.mem_singleton.1 member]
    have kind : (Command.tagAfter s.previous _).kind = .move :=
      (Command.kind_tagAfter _ _).trans (Command.kind_place placed)
    rw [kind, List.take_zero, List.map_singleton, own]
    exact .alone (.move rfl)
  | dropped kept => exact recorded_kept recorded kept [] rfl nofun
  | run kept unmarked fits _ curves _ _ arcs =>
    obtain ⟨written, output, _, came⟩ := emitAll_written s _
    refine recorded_kept recorded kept written output ?_
    intro p member
    obtain ⟨step, member, previous, tagged⟩ := came p member
    rw [tagged, Command.kind_tagAfter, arcs step member]
    refine .run (by simp) ?_ fits unmarked
    intro kind member
    obtain ⟨own, inRun, rfl⟩ := List.mem_map.1 member
    have ahead : own ∈ source :: rest := by
      rcases List.mem_cons.1 inRun with rfl | later
      · exact List.mem_cons_self
      · exact List.mem_cons_of_mem _ (List.mem_of_mem_take later)
    have curve := curves own inRun
    unfold Segment.isCurve at curve
    unfold Kind.isCurve
    rwa [← expands own ahead]
  | @drawn steps draws single offers folded =>
    obtain ⟨written, output, _, came⟩ := emitAll_written (writtenFrom f s source) steps
    have licensed {p : Placed α} (member : p ∈ written) :
        Licensed f.options f.style source.command.kind p.command.kind ∧
          (source.command.kind.isLine = true →
            p.command.kind.isLine = true ∨ p.command.kind = .close) := by
      obtain ⟨step, member, previous, tagged⟩ := came p member
      rw [tagged, Command.kind_tagAfter]
      exact ⟨(offers step member).licensed, fun line => folded line step member⟩
    rcases writtenFrom_cases f s source with kept | ⟨shape, allowed, unmarked, p, popped, isLine⟩
    · refine recorded_kept recorded kept written (output.trans (by rw [kept])) ?_
      intro p member
      exact .alone (licensed member).1
    · have ownLine : source.command.kind.isLine = true :=
        Kind.isLine_of_drawn (by simp [← expands source List.mem_cons_self, Segment.kind, shape])
      refine recorded_folded recorded (pop_output popped) written output ?_
      intro earlier behind q member
      obtain ⟨allows, lines⟩ := licensed member
      exact behind.folded isLine allowed unmarked ownLine (lines ownLine) allows

theorem Offers.absolute (offers : Offers f own c) (forced : f.flags.forceAbsolutePath = true) :
    c.relative = false := by
  cases offers with
  | placed placed => simpa [forced] using place_relative placed
  | close => rfl

-- Coordinates that count from the pen; what closes has none.
def Offset (c : Command α) : Prop :=
  c.args ≠ [] → c.relative = true

theorem place_offset {body : Body α} (placed : f.place body start false = .ok c)
    (free : f.flags.forceAbsolutePath = false) : Offset c := by
  intro args
  have opens : body.kind ≠ .close := by
    intro closes
    rw [← Command.kind_place placed] at closes
    exact args (List.eq_nil_of_length_eq_zero (by rw [Command.args_length, closes]; rfl))
  simpa [free, opens] using place_relative placed

theorem Offers.offset (offers : Offers f own c) (free : f.flags.forceAbsolutePath = false) :
    Offset c := by
  cases offers with
  | placed placed => exact place_offset placed free
  | close => exact absurd rfl

omit [Scalar α] in
theorem Offset.tagAfter (offset : Offset c) (previous : Option (Command α)) :
    Offset (Command.tagAfter previous c) := by
  intro args
  have same : (Command.tagAfter previous c).args = c.args :=
    congrArg Body.args (Command.body_tagAfter _ _)
  rw [Command.relative_tagAfter]
  exact offset (same ▸ args)

def Following (s : State α) : Prop :=
  ∀ p ∈ s.output.dropLast, Offset p.command

theorem emitAll_following {steps : List (Step α)} (following : Following s)
    (offsets : ∀ step ∈ steps, Offset step.command) : Following (s.emitAll steps) := by
  induction steps generalizing s with
  | nil => exact following
  | cons step rest ih =>
    refine ih ?_ fun later member => offsets later (List.mem_cons_of_mem _ member)
    intro p member
    cases output : s.output with
    | nil => simp [State.emit, output] at member
    | cons q earlier =>
      have last : (s.emit step).output.dropLast = _ :: (q :: earlier).dropLast :=
        (congrArg (fun ps => (_ :: ps).dropLast) output).trans List.dropLast_cons_cons
      rw [last] at member
      rcases List.mem_cons.1 member with rfl | member
      · exact (offsets step List.mem_cons_self).tagAfter _
      · exact following p (output ▸ member)

theorem writtenFrom_following (following : Following s) (source : Source α) :
    Following (writtenFrom f s source) := by
  rcases writtenFrom_cases f s source with kept | ⟨_, _, _, p, popped, _⟩
  · rw [kept]
    exact following
  · have output := pop_output popped
    intro q member
    have nonempty := List.ne_nil_of_mem (List.dropLast_subset _ member)
    apply following q
    rw [output, List.dropLast_cons_of_ne_nil nonempty]
    exact List.mem_cons_of_mem _ member

-- Only the first move of a run can be left in absolute form.
theorem turns_following {source : Source α} (free : f.flags.forceAbsolutePath = false)
    (following : Following s) (first : isFirst = true → s.output = [])
    (turns : Turns f s isFirst source rest next taken) : Following next := by
  cases turns with
  | dropped => exact following
  | drawn _ _ offers =>
    exact emitAll_following (writtenFrom_following following source) fun step member =>
      (offers step member).offset free
  | run _ _ _ _ _ _ offers =>
    exact emitAll_following following fun step member => (offers step member).offset free
  | @moved c _ _ placed =>
    cases isFirst with
    | true =>
      intro p member
      simp [State.emit, first rfl] at member
    | false =>
      have offset := place_offset placed free
      have emitted : Following (s.emitAll [{ command := c }]) := by
        refine emitAll_following following fun step member => ?_
        rw [List.mem_singleton.1 member]
        exact offset
      exact emitted

theorem reached_following {sources : List (Source α)} (free : f.flags.forceAbsolutePath = false)
    (expands : ∀ source ∈ sources, source.segment.kind = source.command.kind.drawn)
    (reached : Reached f sources s k) : Following s := by
  induction reached with
  | initial => exact nofun
  | step before ahead visited ih =>
    have own := expands _ (List.mem_of_mem_drop (ahead ▸ List.mem_cons_self))
    refine turns_following free ih ?_ (visits_turns own (visit_sound visited))
    intro first
    rw [reached_zero before (by simpa using first)]
    rfl

theorem sourced_recorded {sources : List (Source α)} {origins : List (List (Source α))}
    (expands : ∀ source ∈ sources, source.segment.kind = source.command.kind.drawn)
    (sourced : Sourced f sources s k origins) :
    List.Forall₂ (Recorded f (sources.take k)) s.output origins := by
  induction sourced with
  | initial => exact .nil
  | step _ ahead visited ih =>
    rename_i source rest _ _
    have later : ∀ own ∈ source :: rest, own.segment.kind = own.command.kind.drawn :=
      fun own member => expands own (List.mem_of_mem_drop (ahead ▸ member))
    rw [take_visited ahead]
    exact turns_recorded later ih
      (visits_turns (later source List.mem_cons_self) (visit_sound visited))

theorem rewrites_behind_flags {fitter : ArcFitter α} {options : Options α} {style : Style}
    {ps placed : List (Placed α)}
    (filtered : filterCommands fitter options style ps = .ok placed) :
    ∃ error s origins, options.error = .ok error ∧ placed = s.output.reverse ∧
      Sourced ⟨options, style, error, fitter⟩ (sourcesOf (Placed.commands ps)) s
        (sourcesOf (Placed.commands ps)).length origins ∧
      List.Forall₂
        (fun p own => own.Sublist (sourcesOf (Placed.commands ps)) ∧
          Behind options style (own.map fun source => source.command.kind) p.command.kind)
        placed origins.reverse ∧
      (options.flags.forceAbsolutePath = true → ∀ p ∈ placed, p.command.relative = false) ∧
      (options.flags.forceAbsolutePath = false →
        ∀ p ∈ placed.tail, p.command.args ≠ [] → p.command.relative = true) := by
  obtain ⟨error, s, unit, reached, rfl⟩ := reached_filterCommands filtered
  obtain ⟨origins, sourced⟩ := reached_sourced reached
  have expands := sources_expand .initial (Placed.commands ps)
  have recorded := sourced_recorded expands sourced
  change List.Forall₂ (Recorded _ ((sourcesOf _).take (sourcesOf _).length)) _ _ at recorded
  rw [List.take_length] at recorded
  refine ⟨error, s, origins, unit, rfl, sourced, ?_, ?_, ?_⟩
  · exact List.rel_reverse (recorded.imp fun p own entry => entry.symm)
  · intro forced p member
    refine reached_commands (P := fun c => c.relative = false) expands ?_ ?_ ?_ reached p
      (List.mem_reverse.1 member)
    · intro previous c absolute
      rwa [Command.relative_tagAfter]
    · intro stop start absolute c placed
      simpa [Setup.flags, forced] using place_relative placed
    · intro own c offers
      exact offers.absolute forced
  · intro free p member
    rw [List.tail_reverse] at member
    exact reached_following (f := ⟨options, style, error, fitter⟩) free expands reached p
      (List.mem_reverse.1 member)

def alwaysFits : ArcFitter Float :=
  fun _ _ _ _ => .ok (some ⟨1, false, true, ⟨0, 0⟩, 1, false⟩)

-- Curves that one arc takes the place of, and lines that one line does.
def mergingPath : List (Command Float) :=
  [{ body := .move ⟨1, 0⟩ },
   { body := .cubic ⟨1.125, 0.375⟩ ⟨0.875, 0.625⟩ ⟨0.75, 0.875⟩ },
   { body := .cubic ⟨0.625, 0.875⟩ ⟨0.375, 1.125⟩ ⟨0, 1⟩ },
   { body := .line ⟨0, 2⟩ },
   { body := .line ⟨0, 3⟩ }]

def smoothing : Options Float := { flags := {}, makeArcs := some .default, precision := 3 }

theorem rewrites_behind_flags_merging :
    ∃ placed, filterCommands alwaysFits smoothing {} (rebase false mergingPath) = .ok placed ∧
      placed.map (fun p => p.command.kind) = [.move, .arc, .vertical] ∧
      ∃ owns, List.Forall₂ (fun p own => Behind smoothing {} own p.command.kind) placed owns ∧
        ∀ p ∈ placed.tail, p.command.args ≠ [] → p.command.relative = true := by
  have written : (match filterCommands alwaysFits smoothing {} (rebase false mergingPath) with
      | .ok placed => placed.map (fun p => p.command.kind) = [.move, .arc, .vertical]
      | .error _ => false) = true := by
    decide +kernel
  split at written
  · rename_i placed filtered
    obtain ⟨error, s, origins, _, _, _, recorded, _, offsets⟩ := rewrites_behind_flags filtered
    refine ⟨placed, filtered, of_decide_eq_true written,
      origins.reverse.map fun own => own.map fun source => source.command.kind, ?_, offsets rfl⟩
    exact List.forall₂_map_right_iff.2 (recorded.imp fun p own entry => entry.2)
  · cases written

end Filter
end PathData
