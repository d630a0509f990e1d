import Mathlib.Data.List.Chain
import PathData.Number.Double
import PathData.Passes.Rebase
import PathData.Proofs.FilterRuns

namespace PathData
namespace Filter

open scoped PathData.Scalar

variable {α : Type} [Scalar α] {f : Setup α} {s : State α} {pen : Pen α}

def State.commands (s : State α) : List (Command α) :=
  Placed.commands s.output.reverse

-- Each command of the output with what it draws, the newest first.
def State.drawn (s : State α) : List (Placed α × Segment α) :=
  s.output.zip (longhand s.commands).reverse

-- The state agrees with the expansion of its output.
structure Mirrors (s : State α) : Prop where
  ends : (longhand s.commands).map (fun g => (g.start, g.stop)) =
    s.output.reverse.map fun p => (p.start, p.stop)
  joined : s.output.reverse.IsChain fun p q => p.stop = q.start
  cursor : (Pen.initial.after s.commands).position = s.cursor
  subpathStart : (Pen.initial.after s.commands).subpathStart = s.subpathStart
  handle : s.handle = ((longhand s.commands).getLast?.map Segment.handle).getD {}

-- The control points that a curve without its first one can stand for. A cubic can also stand
-- there for the quadratic that it was raised from.
inductive Replaces (f : Setup α) (source : Segment α) : Kind → Point α → Prop where
  | cubic {c1 c2 : Point α} (shape : source.shape = .cubic c1 c2) :
      Replaces f source .smoothCubic c1
  | quadratic {control : Point α} (shape : source.shape = .quadratic control) :
      Replaces f source .smoothQuadratic control
  | raised {c1 c2 control : Point α} (shape : source.shape = .cubic c1 c2)
      (raises : asQuadratic? source.start c1 c2 source.stop f.error = some control) :
      Replaces f source .smoothQuadratic control

-- What is drawn for a curve without its first control point leaves for a point near the one that is
-- left out.
def DrawnNear (f : Setup α) (source : Segment α) (kind : Kind) (drawn : Segment α) : Prop :=
  kind = .smoothCubic ∨ kind = .smoothQuadratic →
    ∃ control implied, Replaces f source kind control ∧ drawn.control? = some implied ∧
      implied.near control f.error = true

inductive Traced : List (Placed α × Segment α) → Pen α → Prop where
  | start : Traced [] .initial
  | draw {entries : List (Placed α × Segment α)} {pen : Pen α} {p : Placed α}
      (before : Traced entries pen) (starts : p.start = pen.position)
      (ends : p.stop = (pen.draw p.command).1.stop) :
      Traced ((p, (pen.draw p.command).1) :: entries) (pen.draw p.command).2

-- Between taking a line back and writing the next command the handle is not known.
structure Tracks (s : State α) (entries : List (Placed α × Segment α)) (pen : Pen α) : Prop where
  output : s.output = entries.map Prod.fst
  traced : Traced entries pen
  position : pen.position = s.cursor
  subpathStart : pen.subpathStart = s.subpathStart

theorem traced_longhand {entries : List (Placed α × Segment α)} (traced : Traced entries pen) :
    longhand (Placed.commands (entries.map Prod.fst).reverse) = (entries.map Prod.snd).reverse ∧
      Pen.initial.after (Placed.commands (entries.map Prod.fst).reverse) = pen := by
  induction traced with
  | start => exact ⟨rfl, rfl⟩
  | draw before starts ends ih =>
    rename_i entries pen p
    obtain ⟨drawn, here⟩ := ih
    have snoc : Placed.commands (((p, (pen.draw p.command).1) :: entries).map Prod.fst).reverse =
        Placed.commands (entries.map Prod.fst).reverse ++ [p.command] := by
      simp [Placed.commands]
    rw [snoc]
    constructor
    · unfold longhand at drawn ⊢
      rw [Pen.drawAll_append, drawn, here]
      simp [Pen.drawAll]
    · unfold Pen.after at here ⊢
      rw [List.foldl_append, here]
      rfl

theorem traced_ends {entries : List (Placed α × Segment α)} (traced : Traced entries pen) :
    ∀ entry ∈ entries, entry.2.start = entry.1.start ∧ entry.2.stop = entry.1.stop := by
  induction traced with
  | start => simp
  | draw before starts ends ih =>
    intro entry member
    rcases List.mem_cons.1 member with rfl | member
    · exact ⟨starts.symm, ends.symm⟩
    · exact ih entry member

theorem traced_position {entries : List (Placed α × Segment α)} (traced : Traced entries pen) :
    ∀ entry ∈ entries.head?, entry.1.stop = pen.position := by
  cases traced with
  | start => simp
  | draw before starts ends =>
    intro entry isHead
    cases isHead
    exact ends

theorem traced_joined {entries : List (Placed α × Segment α)} (traced : Traced entries pen) :
    (entries.map Prod.fst).IsChain fun q p => p.stop = q.start := by
  induction traced with
  | start => exact .nil
  | draw before starts ends ih =>
    rename_i entries pen p
    cases entries with
    | nil => exact .singleton _
    | cons entry rest =>
      exact .cons_cons ((traced_position before entry rfl).trans starts.symm) ih

theorem traced_handle {entries : List (Placed α × Segment α)} (traced : Traced entries pen) :
    pen.handle = ((entries.map Prod.snd).head?.map Segment.handle).getD {} := by
  cases traced with
  | start => rfl
  | draw => exact Pen.draw_handle _ _

theorem tracks_drawn {entries : List (Placed α × Segment α)} (tracks : Tracks s entries pen) :
    s.drawn = entries := by
  have drawn : longhand s.commands = (entries.map Prod.snd).reverse := by
    unfold State.commands
    rw [tracks.output]
    exact (traced_longhand tracks.traced).1
  unfold State.drawn
  rw [drawn, tracks.output, List.reverse_reverse]
  exact (List.zip_of_prod rfl rfl).symm

theorem tracks_mirrors {entries : List (Placed α × Segment α)} (tracks : Tracks s entries pen)
    (handle : pen.handle = s.handle) : Mirrors s := by
  obtain ⟨drawn, after⟩ := traced_longhand tracks.traced
  have output := tracks.output
  constructor
  · unfold State.commands
    rw [output, drawn]
    simp only [List.map_reverse, List.map_map, List.reverse_inj]
    apply List.map_congr_left
    intro entry member
    obtain ⟨starts, ends⟩ := traced_ends tracks.traced entry member
    exact Prod.ext starts ends
  · rw [output, List.isChain_reverse]
    exact traced_joined tracks.traced
  · unfold State.commands
    rw [output, after]
    exact tracks.position
  · unfold State.commands
    rw [output, after]
    exact tracks.subpathStart
  · unfold State.commands
    rw [output, drawn, List.getLast?_reverse, ← handle]
    exact traced_handle tracks.traced

theorem emit_tracks {entries : List (Placed α × Segment α)} (tracks : Tracks s entries pen)
    (step : Step α) :
    ∃ p, p.command.kind = step.command.kind ∧
      Tracks (s.emit step) ((p, (pen.draw step.command).1) :: entries)
        (pen.draw step.command).2 := by
  have tagged := Pen.draw_tagAfter pen s.previous step.command
  have stop : (pen.draw step.command).1.stop = step.command.endPoint s.cursor s.subpathStart := by
    unfold Pen.draw
    rw [tracks.position, tracks.subpathStart]
  refine ⟨⟨Command.tagAfter s.previous step.command, s.cursor,
    step.command.endPoint s.cursor s.subpathStart⟩, Command.kind_tagAfter _ _, ?_, ?_, ?_, ?_⟩
  · simp [State.emit, tracks.output]
  · rw [← tagged]
    exact .draw tracks.traced tracks.position.symm (by rw [tagged, stop])
  · exact stop
  · have sameMove := congrArg (fun kind => decide (kind = Kind.move))
      (Command.kind_tagAfter s.previous step.command)
    unfold Pen.draw State.emit Command.isMove
    dsimp only at sameMove ⊢
    rw [tracks.position, tracks.subpathStart, sameMove]

-- Only a line can be taken back, and a line leaves no handle and starts no subpath.
theorem pop_tracks {entries : List (Placed α × Segment α)} (tracks : Tracks s entries pen)
    (popped : s.pop? = some (p, before)) (line : p.command.kind.isLine = true) :
    ∃ entry rest pen', entries = entry :: rest ∧ Tracks before rest pen' := by
  unfold State.pop? at popped
  cases tracks.traced with
  | start =>
    rw [tracks.output] at popped
    cases popped
  | draw traced starts ends =>
    rename_i entries pen q
    rw [tracks.output] at popped
    cases popped
    refine ⟨_, _, pen, rfl, rfl, traced, starts.symm, ?_⟩
    have kept := tracks.subpathStart
    have notMove : q.command.isMove = false := by
      unfold Command.isMove
      cases kind : q.command.kind <;> simp [kind, Kind.isLine] at line ⊢
    simpa [Pen.draw, notMove] using kept

def Faithful (f : Setup α) (source : Segment α) (pen : Pen α) : List (Step α) → Prop
  | [] => True
  | step :: rest =>
    (pen.draw step.command).2.handle = step.handle ∧
      DrawnNear f source step.command.kind (pen.draw step.command).1 ∧
      Faithful f source (pen.draw step.command).2 rest

theorem plain_faithful {source : Segment α} {c : Command α} {rest : List (Step α)}
    (plain : c.kind.degree = 0) (later : Faithful f source (pen.draw c).2 rest) :
    Faithful f source pen ({ command := c } :: rest) := by
  refine ⟨Pen.handle_of_plain plain, ?_, later⟩
  intro smooth
  rcases smooth with smooth | smooth <;> rw [smooth] at plain <;> cases plain

theorem emitAll_tracks {source : Segment α} {entries : List (Placed α × Segment α)}
    {steps : List (Step α)} (tracks : Tracks s entries pen) (faithful : Faithful f source pen steps)
    (known : steps = [] → pen.handle = s.handle) :
    ∃ written pen', Tracks (s.emitAll steps) (written ++ entries) pen' ∧
      pen'.handle = (s.emitAll steps).handle ∧
      ∀ entry ∈ written, DrawnNear f source entry.1.command.kind entry.2 := by
  induction steps generalizing s pen entries with
  | nil => exact ⟨[], pen, tracks, known rfl, by simp⟩
  | cons step rest ih =>
    obtain ⟨handle, near, later⟩ := faithful
    obtain ⟨p, kind, emitted⟩ := emit_tracks tracks step
    obtain ⟨written, pen', tracks, handle, nears⟩ := ih emitted later fun _ => handle
    refine ⟨written ++ [(p, (pen.draw step.command).1)], pen', ?_, handle, ?_⟩
    · rw [List.append_assoc]
      exact tracks
    · intro entry member
      rcases List.mem_append.1 member with member | isFirst
      · exact nears entry member
      · rw [List.mem_singleton.1 isFirst]
        exact kind ▸ near

theorem line_faithful {source : Segment α} (form : LineForm f s stop own trailing steps) :
    Faithful f source pen steps := by
  cases form with
  | close => exact plain_faithful rfl trivial
  | line placed | horizontal _ _ placed | vertical _ _ placed =>
    exact plain_faithful (by rw [Command.kind_place placed]; rfl) trivial

theorem fitted_faithful {source : Segment α} (form : FittedForm f s fit trueStart stop steps) :
    Faithful f source pen steps := by
  cases form with
  | turn _ leaves returns =>
    exact plain_faithful (by rw [Command.kind_place leaves]; rfl)
      (plain_faithful (by rw [Command.kind_place returns]; rfl) trivial)
  | part _ _ placed => exact plain_faithful (by rw [Command.kind_place placed]; rfl) trivial

theorem arc_faithful {source segment : Segment α} (form : ArcForm f s segment e trailing steps) :
    Faithful f source pen steps := by
  cases form with
  | flat _ _ form | shallow _ _ _ _ _ form => exact line_faithful form
  | arc _ placed => exact plain_faithful (by rw [Command.kind_place placed]; rfl) trivial

theorem cubic_faithful {source : Segment α} (shape : source.shape = .cubic c1 c2)
    (position : pen.position = s.cursor) (handle : pen.handle = s.handle)
    (form : CubicForm f s c1 c2 stop kind steps) : Faithful f source pen steps := by
  cases form with
  | full placed =>
    have cubic := Command.kind_place placed
    refine ⟨?_, ?_, trivial⟩
    · rw [Pen.handle_of_cubic (by rw [cubic]; rfl), position]
    · intro smooth
      rcases smooth with smooth | smooth <;> cases cubic.symm.trans smooth
  | smooth _ near placed =>
    have smooth := Command.kind_place placed
    refine ⟨?_, ?_, trivial⟩
    · rw [Pen.handle_of_cubic (by rw [smooth]; rfl), position]
    · intro _
      refine ⟨c1, s.handle.implied 3 s.cursor, smooth ▸ .cubic shape, ?_, near⟩
      rw [Pen.control_of_smooth (.inl smooth), smooth, handle, position]
      rfl

theorem quadratic_faithful {source : Segment α} {control : Point α}
    (replaces : Replaces f source .smoothQuadratic control)
    (position : pen.position = s.cursor) (handle : pen.handle = s.handle)
    (form : QuadraticForm f s control stop shorthand steps) :
    Faithful f source pen steps := by
  cases form with
  | full placed =>
    have quadratic := Command.kind_place placed
    refine ⟨?_, ?_, trivial⟩
    · rw [Pen.handle_of_quadratic (by rw [quadratic]; rfl), position]
    · intro smooth
      rcases smooth with smooth | smooth <;> cases quadratic.symm.trans smooth
  | smooth _ near placed =>
    have smooth := Command.kind_place placed
    refine ⟨?_, ?_, trivial⟩
    · rw [Pen.handle_of_smoothQuadratic smooth, position, handle]
    · intro _
      refine ⟨control, s.handle.implied 2 s.cursor, smooth ▸ replaces, ?_, near⟩
      rw [Pen.control_of_smooth (.inr smooth), smooth, handle, position]
      rfl

theorem curve_faithful {source : Segment α} (position : pen.position = s.cursor)
    (handle : pen.handle = s.handle) (form : CurveForm f s source kind trailing steps) :
    Faithful f source pen steps := by
  cases form with
  | cubic shape form => exact cubic_faithful shape position handle form
  | raised shape _ raises form =>
    exact quadratic_faithful (.raised shape raises) position handle form
  | quadratic shape form => exact quadratic_faithful (.quadratic shape) position handle form
  | straight _ _ form => exact line_faithful form
  | fitted _ _ form => exact fitted_faithful form

theorem collapse_tracks {entries : List (Placed α × Segment α)} (tracks : Tracks s entries pen)
    (stop : Point α) :
    ∃ kept pen', kept <:+ entries ∧ Tracks (collapse f s stop) kept pen' := by
  unfold collapse
  split
  · exact ⟨entries, pen, List.suffix_refl _, tracks⟩
  · split
    · exact ⟨entries, pen, List.suffix_refl _, tracks⟩
    · rename_i p before popped
      split
      · rename_i folds
        rw [Bool.and_eq_true] at folds
        obtain ⟨entry, rest, pen', rfl, before⟩ := pop_tracks tracks popped folds.1
        exact ⟨rest, pen', List.suffix_cons _ _, before⟩
      · exact ⟨entries, pen, List.suffix_refl _, tracks⟩

-- One visit keeps the agreement. It may take back the last line, and what it writes without a first
-- control point is drawn near the point that the source has there.
theorem visits_tracks {entries : List (Placed α × Segment α)} (tracks : Tracks s entries pen)
    (handle : pen.handle = s.handle) (visits : Visits f s isFirst source rest next taken) :
    ∃ written kept pen', kept <:+ entries ∧ Tracks next (written ++ kept) pen' ∧
      pen'.handle = next.handle ∧
      ∀ entry ∈ written, DrawnNear f source.segment entry.1.command.kind entry.2 := by
  have writes {steps : List (Step α)} (writes : Writes f steps)
      (faithful : Faithful f source.segment pen steps) :
      ∃ written kept pen', kept <:+ entries ∧ Tracks (s.emitAll steps) (written ++ kept) pen' ∧
        pen'.handle = (s.emitAll steps).handle ∧
        ∀ entry ∈ written, DrawnNear f source.segment entry.1.command.kind entry.2 := by
    obtain ⟨written, pen', tracked⟩ := emitAll_tracks tracks faithful (absurd · writes.nonempty)
    exact ⟨written, entries, pen', List.suffix_refl _, tracked⟩
  cases visits with
  | dropClose | drop => exact ⟨[], entries, pen, List.suffix_refl _, tracks, handle, by simp⟩
  | move _ placed =>
    have faithful : Faithful f source.segment pen [{ command := _ }] :=
      plain_faithful (by rw [Command.kind_place placed]; rfl) trivial
    obtain ⟨written, pen', tracked⟩ := emitAll_tracks tracks faithful nofun
    exact ⟨written, entries, pen', List.suffix_refl _, tracked⟩
  | close => exact writes close_writes (plain_faithful rfl trivial)
  | run _ _ _ form => exact writes (fitted_writes form) (fitted_faithful form)
  | arc _ _ form => exact writes (arc_writes form) (arc_faithful form)
  | curve _ _ form => exact writes (curve_writes form) (curve_faithful tracks.position handle form)
  | line _ _ form =>
    obtain ⟨kept, pen', isSuffix, tracks⟩ := collapse_tracks (f := f) tracks source.segment.stop
    have faithful : Faithful f source.segment pen' _ := line_faithful form
    obtain ⟨written, last, tracked⟩ :=
      emitAll_tracks tracks faithful (absurd · (line_writes form).nonempty)
    exact ⟨written, kept, last, isSuffix, tracked⟩

theorem reached_tracks {sources : List (Source α)} (reached : Reached f sources s k) :
    ∃ entries pen, Tracks s entries pen ∧ pen.handle = s.handle := by
  induction reached with
  | initial => exact ⟨[], .initial, ⟨rfl, .start, rfl, rfl⟩, rfl⟩
  | step _ _ visited ih =>
    obtain ⟨entries, pen, tracks, handle⟩ := ih
    obtain ⟨written, kept, pen', _, tracks, handle, _⟩ :=
      visits_tracks tracks handle (visit_sound visited)
    exact ⟨written ++ kept, pen', tracks, handle⟩

theorem filter_mirrors_renderer {sources : List (Source α)} (reached : Reached f sources s k) :
    Mirrors s ∧
      ∀ source rest next taken, sources.drop k = source :: rest →
        visit f s (k == 0) source rest = .ok (next, taken) →
        ∃ written kept, kept <:+ s.drawn ∧ next.drawn = written ++ kept ∧
          ∀ entry ∈ written, DrawnNear f source.segment entry.1.command.kind entry.2 := by
  obtain ⟨entries, pen, tracks, handle⟩ := reached_tracks reached
  refine ⟨tracks_mirrors tracks handle, ?_⟩
  intro source rest next taken _ visited
  obtain ⟨written, kept, pen', isSuffix, after, _, near⟩ :=
    visits_tracks tracks handle (visit_sound visited)
  refine ⟨written, kept, ?_, tracks_drawn after, near⟩
  rw [tracks_drawn tracks]
  exact isSuffix

def swayingPath : List (Command Float) :=
  [{ body := .move ⟨1, 2⟩ },
   { body := .cubic ⟨1, 3⟩ ⟨4, 6⟩ ⟨5, 5⟩ },
   { body := .cubic ⟨6, 4⟩ ⟨9, 3⟩ ⟨10, 5⟩ }]

def withoutArcs : Options Float := { flags := {}, makeArcs := none, precision := 3 }

theorem filter_mirrors_renderer_swaying :
    ∃ f s, Reached f (sourcesOf (Placed.commands (rebase false swayingPath))) s 3 ∧ Mirrors s ∧
      ∃ p ∈ s.output, p.command.kind = .smoothCubic := by
  have written : (match filterCommands noFit withoutArcs {} (rebase false swayingPath) with
      | .ok placed => placed.any fun p => p.command.kind = .smoothCubic
      | .error _ => false) = true := by
    decide +kernel
  split at written
  · rename_i placed filtered
    obtain ⟨error, s, _, reached, rfl⟩ := reached_filterCommands filtered
    obtain ⟨p, member, smooth⟩ := List.any_eq_true.1 written
    exact ⟨_, s, reached, (filter_mirrors_renderer reached).1, p, List.mem_reverse.1 member,
      of_decide_eq_true smooth⟩
  · cases written

end Filter
end PathData
