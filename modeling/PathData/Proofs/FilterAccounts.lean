import Mathlib
import PathData.Proofs.FilterMarkers

namespace PathData
namespace Filter

section Ledger

variable {α : Type}

-- `met` is the state that the visit starts from. The newest of the commands comes first. The line
-- that has taken one of them back is the last entry.
structure Account (α : Type) where
  met : State α
  sources : List (Source α)
  written : List (Placed α)
  foldedInto : Option (Source α) := none

-- Takes the newest command out of the accounts, where the newest account comes first.
def foldInto (line : Source α) : List (Account α) → List (Account α)
  | [] => []
  | a :: earlier =>
    match a.written with
    | [] => a :: foldInto line earlier
    | _ :: left => { a with written := left, foldedInto := some line } :: earlier

theorem foldInto_sources (line : Source α) (accounts : List (Account α)) :
    (foldInto line accounts).map Account.sources = accounts.map Account.sources := by
  induction accounts with
  | nil => rfl
  | cons a earlier ih =>
    unfold foldInto
    split
    · exact congrArg (a.sources :: ·) ih
    · rfl

theorem foldInto_written (line : Source α) {accounts : List (Account α)}
    (written : accounts.flatMap Account.written = p :: left) :
    (foldInto line accounts).flatMap Account.written = left := by
  induction accounts with
  | nil => cases written
  | cons a earlier ih =>
    rw [List.flatMap_cons] at written
    unfold foldInto
    split
    · rename_i empty
      rw [empty] at written
      rw [List.flatMap_cons, empty]
      exact ih written
    · rename_i newest others whole
      rw [whole] at written
      exact (List.cons.inj written).2

variable {f : Setup α} {accounts : List (Account α)} {may : State α → Source α → Prop}

-- What can become of the sources of an account, if a source may be removed only where `may` says so.
inductive Fate (f : Setup α) (may : State α → Source α → Prop) : Account α → Prop where
  | own {met : State α} {source : Source α} {p : Placed α} : Fate f may ⟨met, [source], [p], none⟩
  | folded {met : State α} {source line : Source α} (isLine : line.segment.shape = .line)
      (allowed : f.options.flags.collapseRepeated = true)
      (unmarked : f.style.hasMarkerMid = false) : Fate f may ⟨met, [source], [], some line⟩
  | run {met : State α} {sources : List (Source α)} {written : List (Placed α)}
      (several : 2 ≤ sources.length) (curves : ∀ own ∈ sources, own.segment.isCurve = true)
      (fits : f.options.makeArcs.isSome = true) (unmarked : f.style.hasMarkerMid = false)
      (nonempty : written ≠ []) (arcs : ∀ p ∈ written, p.command.kind = .arc) :
      Fate f may ⟨met, sources, written, none⟩
  | removed {met : State α} {source : Source α} (useless : may met source) :
      Fate f may ⟨met, [source], [], none⟩

theorem Fate.imp {might : State α → Source α → Prop}
    (more : ∀ met source, may met source → might met source) (fate : Fate f may a) :
    Fate f might a := by
  cases fate with
  | own => exact .own
  | folded isLine allowed unmarked => exact .folded isLine allowed unmarked
  | run several curves fits unmarked nonempty arcs =>
    exact .run several curves fits unmarked nonempty arcs
  | removed useless => exact .removed (more _ _ useless)

theorem Fate.marked (marked : f.style.hasMarkerMid = true)
    (never : ∀ met source, ¬ may met source) (fate : Fate f may a) :
    ∃ source p, a.sources = [source] ∧ a.written = [p] := by
  cases fate with
  | own => exact ⟨_, _, rfl, rfl⟩
  | folded _ _ unmarked | run _ _ _ unmarked => cases marked.symm.trans unmarked
  | removed useless => exact absurd useless (never _ _)

theorem foldInto_fates {line : Source α}
    (isLine : line.segment.shape = .line) (allowed : f.options.flags.collapseRepeated = true)
    (unmarked : f.style.hasMarkerMid = false) (fates : ∀ a ∈ accounts, Fate f may a)
    (written : accounts.flatMap Account.written = p :: left) (folds : p.command.kind.isLine = true) :
    ∀ a ∈ foldInto line accounts, Fate f may a := by
  induction accounts with
  | nil => exact fates
  | cons a earlier ih =>
    obtain ⟨here, later⟩ := List.forall_mem_cons.1 fates
    rw [List.flatMap_cons] at written
    unfold foldInto
    cases here with
    | own => exact List.forall_mem_cons.2 ⟨.folded isLine allowed unmarked, later⟩
    | folded isLine' allowed' unmarked' =>
      exact List.forall_mem_cons.2 ⟨.folded isLine' allowed' unmarked', ih later written⟩
    | removed useless =>
      exact List.forall_mem_cons.2 ⟨.removed useless, ih later written⟩
    | run _ _ _ _ nonempty arcs =>
      obtain ⟨q, others, rfl⟩ := List.exists_cons_of_ne_nil nonempty
      obtain ⟨rfl, _⟩ := List.cons.inj written
      rw [arcs q List.mem_cons_self] at folds
      cases folds

variable [Scalar α] {s : State α}

-- The accounts after a visit. Where `collapse` takes a command back before the source is written, the
-- output is shorter than it was, and the account of that command is folded into the source.
def accountsAfter (f : Setup α) (s : State α) (source : Source α) (rest : List (Source α))
    (next : State α) (taken : Nat) (accounts : List (Account α)) : List (Account α) :=
  let base := writtenFrom f s source
  { met := s
    sources := source :: rest.take taken
    written := next.output.take (next.output.length - base.output.length) } ::
    if base.output.length < s.output.length then foldInto source accounts else accounts

inductive Accounted (f : Setup α) (sources : List (Source α)) :
    State α → Nat → List (Account α) → Prop where
  | initial : Accounted f sources .initial 0 []
  | step {s next : State α} {k taken : Nat} {source : Source α} {rest : List (Source α)}
      {accounts : List (Account α)} (before : Accounted f sources s k accounts)
      (ahead : sources.drop k = source :: rest)
      (visited : visit f s (k == 0) source rest = .ok (next, taken)) :
      Accounted f sources next (k + 1 + taken) (accountsAfter f s source rest next taken accounts)

theorem reached_accounted {sources : List (Source α)} (reached : Reached f sources s k) :
    ∃ accounts, Accounted f sources s k accounts := by
  induction reached with
  | initial => exact ⟨[], .initial⟩
  | step _ ahead visited ih =>
    obtain ⟨accounts, before⟩ := ih
    exact ⟨_, .step before ahead visited⟩

theorem accountsAfter_kept (kept : writtenFrom f s source = s)
    (output : next.output = written ++ s.output) :
    accountsAfter f s source rest next taken accounts =
      ⟨s, source :: rest.take taken, written, none⟩ :: accounts := by
  simp [accountsAfter, kept, output]

theorem accountsAfter_folded (popped : s.output = p :: (writtenFrom f s source).output)
    (output : next.output = written ++ (writtenFrom f s source).output) :
    accountsAfter f s source rest next taken accounts =
      ⟨s, source :: rest.take taken, written, none⟩ :: foldInto source accounts := by
  simp [accountsAfter, popped, output]

inductive Useless (f : Setup α) (met : State α) (source : Source α) : Prop where
  | close (shape : source.segment.shape = .close) (useless : isUselessClose f met = true)
  | drawing (notMove : source.segment.shape ≠ .move) (notClose : source.segment.shape ≠ .close)
      (useless : isUseless f met source.segment = true)

theorem emitAll_single {steps : List (Step α)} (single : steps.length = 1) (s : State α) :
    ∃ p, (s.emitAll steps).output = [p] ++ s.output := by
  obtain ⟨step, rfl⟩ := List.length_eq_one_iff.1 single
  exact ⟨_, rfl⟩

theorem visits_fate (visits : Visits f s isFirst source rest next taken) :
    ∃ written, next.output = written ++ (writtenFrom f s source).output ∧
      Fate f (Useless f) ⟨s, source :: rest.take taken, written, none⟩ := by
  cases visits with
  | move shape _ =>
    rw [writtenFrom_eq (by simp [shape])]
    exact ⟨[_], rfl, .own⟩
  | dropClose shape useless =>
    rw [writtenFrom_eq (by simp [shape])]
    exact ⟨[], rfl, .removed (.close shape useless)⟩
  | close shape _ =>
    rw [writtenFrom_eq (by simp [shape])]
    exact ⟨[_], rfl, .own⟩
  | drop notMove notClose useless =>
    rw [writtenFrom_useless useless]
    exact ⟨[], rfl, .removed (.drawing notMove notClose useless)⟩
  | line shape needed form =>
    rw [← writtenFrom_needed shape needed]
    obtain ⟨p, output⟩ := emitAll_single (line_single form) (writtenFrom f s source)
    exact ⟨[p], output, .own⟩
  | arc shape _ form =>
    rw [writtenFrom_eq (by simp [shape])]
    obtain ⟨p, output⟩ := emitAll_single (arc_single form) s
    exact ⟨[p], output, .own⟩
  | curve curve _ form =>
    rw [writtenFrom_eq (Segment.curve_not_line curve)]
    obtain ⟨p, output⟩ := emitAll_single (curve_single form) s
    exact ⟨[p], output, .own⟩
  | @run taken fit steps curve unmarked covers form =>
    rw [writtenFrom_eq (Segment.curve_not_line curve)]
    obtain ⟨written, output, counted, came⟩ := emitAll_written s steps
    refine ⟨written, output, .run ?_ ?_ (fit_allowed covers.fits) unmarked ?_ ?_⟩
    · have several := covers.several
      have within := covers.within
      rw [List.length_cons, List.length_take]
      omega
    · exact List.forall_mem_cons.2 ⟨curve, covers.curves⟩
    · have some := List.length_pos_iff.2 (fitted_writes form).nonempty
      exact List.ne_nil_of_length_pos (counted ▸ some)
    · intro p member
      obtain ⟨step, isStep, previous, tagged⟩ := came p member
      rw [tagged, Command.kind_tagAfter]
      exact fitted_arcs form step isStep

structure Balanced (f : Setup α) (s : State α) (done : List (Source α))
    (accounts : List (Account α)) : Prop where
  written : accounts.flatMap Account.written = s.output
  sources : accounts.reverse.flatMap Account.sources = done
  fates : ∀ a ∈ accounts, Fate f (Useless f) a

theorem visits_balanced {done : List (Source α)} (balanced : Balanced f s done accounts)
    (visits : Visits f s isFirst source rest next taken) :
    Balanced f next (done ++ source :: rest.take taken)
      (accountsAfter f s source rest next taken accounts) := by
  obtain ⟨written, output, fate⟩ := visits_fate visits
  rcases writtenFrom_cases f s source with kept | ⟨isLine, allowed, unmarked, p, popped, folds⟩
  · rw [kept] at output
    rw [accountsAfter_kept kept output]
    refine ⟨?_, ?_, List.forall_mem_cons.2 ⟨fate, balanced.fates⟩⟩
    · rw [List.flatMap_cons, balanced.written, output]
    · rw [List.reverse_cons, List.flatMap_append, balanced.sources]
      simp
  · have before := pop_output popped
    have outputs := balanced.written.trans before
    rw [accountsAfter_folded before output]
    refine ⟨?_, ?_, List.forall_mem_cons.2 ⟨fate, ?_⟩⟩
    · rw [List.flatMap_cons, foldInto_written source outputs, output]
    · have same := balanced.sources
      rw [List.flatMap_def, List.map_reverse] at same ⊢
      rw [List.map_cons, foldInto_sources, List.reverse_cons, List.flatten_append, same]
      simp
    · exact foldInto_fates isLine allowed unmarked balanced.fates outputs folds

theorem accounted_balanced {sources : List (Source α)}
    (accounted : Accounted f sources s k accounts) :
    Balanced f s (sources.take k) accounts := by
  induction accounted with
  | initial => exact ⟨rfl, rfl, List.forall_mem_nil _⟩
  | step _ ahead visited ih =>
    rw [take_visited ahead]
    exact visits_balanced ih (visit_sound visited)

theorem Useless.allowed (useless : Useless f s source) : f.removalAllowed = true := by
  cases useless with
  | close _ useless => exact uselessClose_allowed useless
  | drawing _ _ useless => exact useless_allowed useless

-- An arc that ends exactly where it starts, and a close after a close.
inductive Void (met : State α) (source : Source α) : Prop where
  | arc {e : EllipticArc α} (shape : source.segment.shape = .arc e)
      (returns : (source.segment.start == source.segment.stop) = true)
  | close {c : Command α} (shape : source.segment.shape = .close) (previous : met.previous = some c)
      (closed : c.kind = .close)

theorem Useless.void (stroke : f.style.maybeHasStroke = true)
    (capped : f.style.maybeHasLinecap = true) (useless : Useless f s source) : Void s source := by
  have shown : f.zeroLengthRemovalAllowed = false := by
    simp [Setup.zeroLengthRemovalAllowed, stroke, capped]
  cases useless with
  | close shape useless =>
    unfold isUselessClose at useless
    split at useless
    · cases useless
    · rename_i c previous
      simp only [shown, Bool.false_and, Bool.or_false, Bool.and_eq_true, decide_eq_true_eq]
        at useless
      exact .close shape previous useless.2
  | drawing _ _ useless =>
    unfold isUseless at useless
    dsimp only at useless
    split at useless
    · rename_i e shape
      split at useless
      · rename_i same
        exact .arc shape (Bool.and_eq_true_iff.1 same).2
      · simp [shown] at useless
    · simp [shown] at useless

structure Gated (f : Setup α) (accounts : List (Account α)) : Prop where
  fates : ∀ a ∈ accounts, Fate f (Useless f) a
  marked : f.style.hasMarkerMid = true →
    ∀ a ∈ accounts, ∃ source p, a.sources = [source] ∧ a.written = [p]
  kept : f.style.hasMarker = true ∨ f.style.hasMarkerMid = true ∨ f.flags.removeUseless = false →
    ∀ a ∈ accounts, Fate f (fun _ _ => False) a
  capped : f.style.maybeHasStroke = true → f.style.maybeHasLinecap = true →
    ∀ a ∈ accounts, Fate f Void a

theorem Balanced.gated {done : List (Source α)} (balanced : Balanced f s done accounts) :
    Gated f accounts := by
  have never (off : f.removalAllowed = false) (met : State α) (source : Source α) :
      ¬ Useless f met source :=
    fun useless => nomatch off.symm.trans useless.allowed
  refine ⟨balanced.fates, ?_, ?_, ?_⟩
  · intro marked a member
    have off : f.removalAllowed = false := by simp [Setup.removalAllowed, marked]
    exact (balanced.fates a member).marked marked (never off)
  · intro gate a member
    have off : f.removalAllowed = false := by
      rcases gate with marker | marker | flag
      · simp [Setup.removalAllowed, marker]
      · simp [Setup.removalAllowed, marker]
      · simp [Setup.removalAllowed, flag]
    exact (balanced.fates a member).imp (never off)
  · intro stroke capped a member
    exact (balanced.fates a member).imp fun _ _ useless => useless.void stroke capped

theorem filtered_gated {fitter : ArcFitter α} {options : Options α} {style : Style}
    {ps placed : List (Placed α)}
    (filtered : filterCommands fitter options style ps = .ok placed) :
    ∃ error s accounts, options.error = .ok error ∧
      Accounted ⟨options, style, error, fitter⟩ (sourcesOf (Placed.commands ps)) s
        (sourcesOf (Placed.commands ps)).length accounts ∧
      accounts.flatMap Account.written = placed.reverse ∧
      accounts.reverse.flatMap Account.sources = sourcesOf (Placed.commands ps) ∧
      Gated ⟨options, style, error, fitter⟩ accounts := by
  obtain ⟨error, s, unit, reached, rfl⟩ := reached_filterCommands filtered
  obtain ⟨accounts, accounted⟩ := reached_accounted reached
  have balanced := accounted_balanced accounted
  rw [List.take_length] at balanced
  refine ⟨error, s, accounts, unit, accounted, ?_, balanced.sources, balanced.gated⟩
  rw [List.reverse_reverse]
  exact balanced.written

theorem filtered_length {fitter : ArcFitter α} {options : Options α} {style : Style}
    {ps placed : List (Placed α)} (marked : style.hasMarkerMid = true)
    (filtered : filterCommands fitter options style ps = .ok placed) :
    placed.length = ps.length := by
  have counted := congrArg List.length (filtered_moves marked filtered)
  rw [List.length_map, List.length_map] at counted
  exact counted.trans (List.length_map _)

end Ledger

section Ends

open scoped PathData.Exact

variable {α : Type} [Field α] [LinearOrder α] [IsStrictOrderedRing α] [FloorRing α] [Exact.Roots α]
variable {f : Setup α} {s : State α}

theorem reached_ends (marked : f.style.hasMarkerMid = true) (keeps : Keeps f)
    {cs : List (Command α)} (reached : Reached f (sourcesOf cs) s k) :
    List.Forall₂ (Grid.Close f.error) (s.output.reverse.map Placed.stop)
      (((sourcesOf cs).take k).map fun source => source.segment.stop) := by
  induction reached with
  | initial => exact .nil
  | @step s next k taken source rest before ahead visited ih =>
    have expands := sources_expand .initial cs source
      (List.mem_of_mem_drop (ahead ▸ List.mem_cons_self))
    obtain ⟨rfl, p, output, _⟩ :=
      turns_single marked (visits_turns expands (visit_sound visited))
    have reached : Reached f (sourcesOf cs) next (k + 1) := .step before ahead visited
    obtain ⟨_, follows, rfl, _⟩ := source_ahead ahead
    have close := (reached_accurate keeps reached).cursor
    rw [follows.position, ← reached_cursor reached p (by rw [output]; rfl)] at close
    rw [take_visited ahead, output, List.reverse_cons, List.map_append, List.map_append]
    exact List.rel_append ih (.cons close .nil)

theorem filtered_ends {fitter : ArcFitter α} {options : Options α} {style : Style} {error : α}
    {ps placed : List (Placed α)} (marked : style.hasMarkerMid = true)
    (few : options.precision < 20) (unit : options.error = .ok error)
    (filtered : filterCommands fitter options style ps = .ok placed) :
    List.Forall₂ (Grid.Close error) (placed.map Placed.stop) (vertices (Placed.commands ps)) := by
  obtain ⟨found, s, same, reached, rfl⟩ := reached_filterCommands filtered
  cases unit.symm.trans same
  have keeps : Keeps ⟨options, style, error, fitter⟩ := ⟨few, unit⟩
  have ends := reached_ends marked keeps reached
  rw [List.take_length] at ends
  unfold vertices longhand
  rw [← sources_segments, List.map_map]
  exact ends

end Ends

open scoped PathData.Exact

theorem removal_behind_style :
    (∀ (α : Type) [Scalar α] (fitter : ArcFitter α) (options : Options α) (style : Style)
      (ps placed : List (Placed α)), filterCommands fitter options style ps = .ok placed →
      (∃ error s accounts, options.error = .ok error ∧
        Accounted ⟨options, style, error, fitter⟩ (sourcesOf (Placed.commands ps)) s
          (sourcesOf (Placed.commands ps)).length accounts ∧
        accounts.flatMap Account.written = placed.reverse ∧
        accounts.reverse.flatMap Account.sources = sourcesOf (Placed.commands ps) ∧
        Gated ⟨options, style, error, fitter⟩ accounts) ∧
      (style.hasMarkerMid = true → placed.length = ps.length)) ∧
    ∀ (α : Type) [Field α] [LinearOrder α] [IsStrictOrderedRing α] [FloorRing α] [Exact.Roots α]
      (fitter : ArcFitter α) (options : Options α) (style : Style) (error : α)
      (ps placed : List (Placed α)), style.hasMarkerMid = true → options.precision < 20 →
      options.error = .ok error → filterCommands fitter options style ps = .ok placed →
      List.Forall₂ (Grid.Close error) (placed.map Placed.stop)
        (vertices (Placed.commands ps)) := by
  refine ⟨?_, ?_⟩
  · intro α _ fitter options style ps placed filtered
    exact ⟨filtered_gated filtered, fun marked => filtered_length marked filtered⟩
  · intro α _ _ _ _ _ fitter options style error ps placed marked few unit filtered
    exact filtered_ends marked few unit filtered

def idlePath : List (Command ℚ) :=
  [{ body := .move ⟨1 / 3, 0⟩ },
   { body := .line ⟨4 / 3, 0⟩ },
   { body := .line ⟨8 / 3, 0⟩ },
   { body := .arc ⟨1, 1, 0, 1, 0⟩ ⟨8 / 3, 0⟩ },
   { body := .close },
   { body := .close }]

theorem removal_behind_style_idle :
    (∃ placed accounts error s,
      filterCommands noFit coarse { maybeHasStroke := true, maybeHasLinecap := true }
        (rebase false idlePath) = .ok placed ∧
      placed.map (fun p => p.command.kind) = [.move, .horizontal, .close] ∧
      Accounted ⟨coarse, { maybeHasStroke := true, maybeHasLinecap := true }, error, noFit⟩
        (sourcesOf (Placed.commands (rebase false idlePath))) s 6 accounts ∧
      ∀ a ∈ accounts, Fate
        ⟨coarse, { maybeHasStroke := true, maybeHasLinecap := true }, error, noFit⟩ Void a) ∧
      ∃ placed error, filterCommands noFit coarse { hasMarkerMid := true }
          (rebase false driftingPath) = .ok placed ∧
        placed.length = 4 ∧ coarse.error = .ok error ∧
        List.Forall₂ (Grid.Close error) (placed.map Placed.stop)
          (vertices (Placed.commands (rebase false driftingPath))) := by
  obtain ⟨gated, ends⟩ := removal_behind_style
  refine ⟨?_, ?_⟩
  · have written : (filterCommands noFit coarse
        { maybeHasStroke := true, maybeHasLinecap := true } (rebase false idlePath)).toOption.any
        (fun placed => placed.map (fun p => p.command.kind) = [.move, .horizontal, .close]) =
          true := by
      decide +kernel
    have six : (sourcesOf (Placed.commands (rebase false idlePath))).length = 6 := by
      decide +kernel
    obtain ⟨placed, filtered, kinds⟩ := Fault.ok_of_any written
    obtain ⟨⟨error, s, accounts, _, accounted, _, _, gates⟩, _⟩ := gated ℚ _ _ _ _ _ filtered
    rw [six] at accounted
    exact ⟨placed, accounts, error, s, filtered, of_decide_eq_true kinds, accounted,
      gates.capped rfl rfl⟩
  · have unit := Exact.error_eq coarse
    have written : (filterCommands noFit coarse { hasMarkerMid := true }
        (rebase false driftingPath)).toOption.any (fun _ => true) = true := by
      decide +kernel
    obtain ⟨placed, filtered, _⟩ := Fault.ok_of_any written
    have counted := (gated ℚ _ _ _ _ _ filtered).2 rfl
    exact ⟨placed, _, filtered, counted, unit, ends ℚ _ _ _ _ _ _ rfl (by decide) unit filtered⟩

end Filter
end PathData
