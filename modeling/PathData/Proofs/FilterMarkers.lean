import Mathlib
import PathData.Proofs.FilterAccuracy
import PathData.Proofs.FilterOutput
import PathData.Proofs.FilterRendering

namespace PathData

theorem takeWhile_front {β : Type} {P : β → Bool} {front rest : List β}
    (stops : (∃ x ∈ front, P x = false) ∨ ∀ x ∈ rest.head?, P x = false) :
    (front ++ rest).takeWhile P = front.takeWhile P := by
  induction front with
  | nil =>
    rcases stops with ⟨x, member, _⟩ | stops
    · cases member
    · cases rest with
      | nil => rfl
      | cons x rest => exact List.takeWhile_cons_of_neg (by simpa using stops x rfl)
  | cons x front ih =>
    rw [List.cons_append, List.takeWhile_cons, List.takeWhile_cons]
    split
    · rename_i goes
      refine congrArg (x :: ·) (ih ?_)
      refine stops.imp_left ?_
      rintro ⟨y, member, stop⟩
      rcases List.mem_cons.1 member with rfl | later
      · cases goes.symm.trans stop
      · exact ⟨y, later, stop⟩
    · rfl

theorem leading_last {β : Type} {P : β → Bool} {xs : List β}
    (opens : ∃ x, xs.head? = some x ∧ P x = true) : ∃ x, (xs.takeWhile P).getLast? = some x := by
  obtain ⟨x, first, goes⟩ := opens
  obtain ⟨rest, rfl⟩ := List.head?_eq_some_iff.1 first
  rw [List.takeWhile_cons_of_pos goes]
  exact ⟨_, List.getLast?_cons⟩

section Vertices

variable {α : Type} [Scalar α]

-- The points that markers are drawn at: where the commands end.
def vertices (cs : List (Command α)) : List (Point α) :=
  (longhand cs).map Segment.stop

theorem vertices_length (cs : List (Command α)) : (vertices cs).length = cs.length := by
  unfold vertices
  rw [List.length_map]
  exact Pen.drawAll_length .initial cs

theorem after_last {cs : List (Command α)} {p : Point α} (last : (vertices cs).getLast? = some p) :
    (Pen.initial.after cs).position = p := by
  unfold vertices at last
  rw [List.getLast?_map, Option.map_eq_some_iff] at last
  obtain ⟨g, drawn, rfl⟩ := last
  rw [List.getLast?_eq_getElem?] at drawn
  have whole : cs.take ((longhand cs).length - 1 + 1) = cs := by
    have length := Pen.drawAll_length .initial cs
    change (longhand cs).length = cs.length at length
    refine List.take_of_length_le ?_
    omega
  have position := Filter.after_position drawn
  rwa [whole] at position

def Meet (close : Point α → Point α → Prop) (p q : Option (Point α)) : Prop :=
  ∃ here there, p = some here ∧ q = some there ∧ close here there

theorem vertices_leading (cs : List (Command α)) :
    vertices (cs.takeWhile Command.isMove) =
      ((Filter.sourcesOf cs).takeWhile fun source => source.segment.isMove).map fun source =>
        source.segment.stop := by
  unfold vertices longhand
  rw [Pen.drawAll_leading, ← Filter.sources_segments, List.takeWhile_map, List.map_map]
  rfl

end Vertices

namespace Filter

section Turns

open scoped PathData.Scalar

variable {α : Type} [Scalar α] {f : Setup α} {s : State α}

theorem Offers.draws (offers : Offers f own c) : c.isMove = false := by
  refine decide_eq_false ?_
  cases offers with
  | placed placed _ draws => exact Command.kind_place placed ▸ draws
  | close => exact nofun

omit [Scalar α] in
theorem segment_isMove {source : Source α}
    (expands : source.segment.kind = source.command.kind.drawn) :
    source.segment.isMove = source.command.isMove := by
  unfold Segment.isMove Command.isMove
  rw [expands]
  cases source.command.kind <;> rfl

-- What a visit does where nothing may be removed: a move for a move, and for what draws something
-- that draws, perhaps in place of the last line.
inductive Marks (f : Setup α) (s : State α) (isFirst : Bool) (source : Source α) :
    State α → Nat → Prop where
  | moved {c : Command α} (own : source.segment.isMove = true) (isMove : c.isMove = true)
      (placed : f.place (.move source.segment.stop) s.cursor isFirst = .ok c) :
      Marks f s isFirst source (s.emit { command := c }) 0
  | drawn {next : State α} {written back base : List (Placed α)} {taken : Nat}
      (own : source.segment.isMove = false) (before : s.output = back ++ base)
      (after : next.output = written ++ base) (nonempty : written ≠ [])
      (draws : ∀ p ∈ written ++ back, p.command.isMove = false) :
      Marks f s isFirst source next taken

theorem emitAll_marks {steps : List (Step α)} {base : State α} {back : List (Placed α)}
    (own : source.segment.isMove = false) (before : s.output = back ++ base.output)
    (lines : ∀ p ∈ back, p.command.isMove = false) (nonempty : steps ≠ [])
    (offers : ∀ step ∈ steps, Offers f source.command.kind step.command) :
    Marks f s isFirst source (base.emitAll steps) taken := by
  obtain ⟨written, output, counted, came⟩ := emitAll_written base steps
  refine .drawn own before output ?_ ?_
  · exact List.ne_nil_of_length_pos (counted ▸ List.length_pos_iff.2 nonempty)
  · intro p member
    rcases List.mem_append.1 member with new | line
    · obtain ⟨step, member, previous, tagged⟩ := came p new
      rw [tagged, Command.isMove_tagAfter]
      exact (offers step member).draws
    · exact lines p line

theorem turns_marks (kept : f.removalAllowed = false)
    (expands : source.segment.kind = source.command.kind.drawn)
    (turns : Turns f s isFirst source rest next taken) :
    Marks f s isFirst source next taken := by
  have own := segment_isMove expands
  cases turns with
  | dropped _ allowed => cases kept.symm.trans allowed
  | moved isMove _ placed =>
    exact .moved (own.trans (decide_eq_true isMove)) (decide_eq_true (Command.kind_place placed))
      placed
  | run _ _ _ _ curves nonempty offers =>
    have draws := Segment.curve_not_move (curves source List.mem_cons_self)
    have isDrawn := Bool.eq_false_iff.2 (mt Segment.isMove_iff.1 draws)
    exact emitAll_marks isDrawn (List.nil_append _).symm nofun nonempty offers
  | drawn draws single offers =>
    have nonempty : _ ≠ [] := List.ne_nil_of_length_pos (single ▸ Nat.one_pos)
    have isDrawn := own.trans (decide_eq_false draws)
    rcases writtenFrom_cases f s source with same | ⟨_, _, _, p, popped, isLine⟩
    · rw [same]
      exact emitAll_marks isDrawn (List.nil_append _).symm nofun nonempty offers
    · have line : ∀ q ∈ [p], q.command.isMove = false := by
        intro q member
        rw [List.mem_singleton.1 member]
        refine decide_eq_false fun isMove => ?_
        rw [isMove] at isLine
        cases isLine
      exact emitAll_marks isDrawn (pop_output popped) line nonempty offers

theorem turns_single (marked : f.style.hasMarkerMid = true)
    (turns : Turns f s isFirst source rest next taken) :
    taken = 0 ∧ ∃ p, next.output = p :: s.output ∧
      p.command.isMove = source.command.isMove := by
  have kept : f.removalAllowed = false := by simp [Setup.removalAllowed, marked]
  cases turns with
  | dropped _ allowed => cases kept.symm.trans allowed
  | run _ unmarked => cases marked.symm.trans unmarked
  | moved isMove _ placed =>
    refine ⟨rfl, _, rfl, ?_⟩
    rw [Command.isMove_tagAfter]
    exact (decide_eq_true (Command.kind_place placed)).trans (decide_eq_true isMove).symm
  | @drawn steps draws single offers =>
    have same : writtenFrom f s source = s := by
      rcases writtenFrom_cases f s source with same | ⟨_, _, unmarked, _⟩
      · exact same
      · cases marked.symm.trans unmarked
    obtain ⟨step, rfl⟩ := List.length_eq_one_iff.1 single
    rw [same]
    refine ⟨rfl, _, rfl, ?_⟩
    rw [Command.isMove_tagAfter]
    exact (offers step List.mem_cons_self).draws.trans (decide_eq_false draws).symm

theorem reached_single {sources : List (Source α)} (marked : f.style.hasMarkerMid = true)
    (expands : ∀ source ∈ sources, source.segment.kind = source.command.kind.drawn)
    (reached : Reached f sources s k) :
    s.output.reverse.map (fun p => p.command.isMove) =
      (sources.take k).map fun source => source.command.isMove := by
  induction reached with
  | initial => rfl
  | step _ ahead visited ih =>
    have own := expands _ (List.mem_of_mem_drop (ahead ▸ List.mem_cons_self))
    obtain ⟨rfl, p, output, same⟩ :=
      turns_single marked (visits_turns own (visit_sound visited))
    rw [take_visited ahead, output, List.reverse_cons, List.map_append, List.map_append, ih]
    simp [same]

theorem filtered_moves {fitter : ArcFitter α} {options : Options α} {style : Style}
    {ps placed : List (Placed α)} (marked : style.hasMarkerMid = true)
    (filtered : filterCommands fitter options style ps = .ok placed) :
    placed.map (fun p => p.command.isMove) = (Placed.commands ps).map Command.isMove := by
  obtain ⟨error, s, _, reached, rfl⟩ := reached_filterCommands filtered
  have expands : ∀ source ∈ sourcesOf (Placed.commands ps), _ := sources_expand .initial _
  rw [reached_single marked expands reached, List.take_length]
  change List.map (Command.isMove ∘ Source.command) _ = _
  rw [← List.map_map]
  exact congrArg _ (sources_commands .initial _)

theorem reached_cursor {sources : List (Source α)}
    (reached : Reached f sources s k) : ∀ p ∈ s.output.head?, p.stop = s.cursor := by
  obtain ⟨entries, pen, tracks, _⟩ := reached_tracks reached
  intro p newest
  rw [tracks.output, List.head?_map, Option.mem_map] at newest
  obtain ⟨entry, isHead, rfl⟩ := newest
  exact (traced_position tracks.traced entry isHead).trans tracks.position

end Turns

open scoped PathData.Exact

variable {α : Type} [Field α] [LinearOrder α] [IsStrictOrderedRing α] [FloorRing α] [Exact.Roots α]
variable {f : Setup α} {s : State α}

-- The moves that the output opens with are those of the sources, and the last ones are near.
structure Leads (f : Setup α) (s : State α) (done : List (Source α)) : Prop where
  moves : (∀ p ∈ s.output, p.command.isMove = true) ↔
    ∀ source ∈ done, source.segment.isMove = true
  last : ∀ p source, (s.output.reverse.takeWhile fun p => p.command.isMove).getLast? = some p →
    (done.takeWhile fun source => source.segment.isMove).getLast? = some source →
      Grid.Close f.error p.stop source.segment.stop

theorem emit_leads (keeps : Keeps f) {done : List (Source α)} (leads : Leads f s done)
    (own : source.segment.isMove = true) (isMove : c.isMove = true)
    (placed : f.place (.move source.segment.stop) s.cursor isFirst = .ok c) :
    Leads f (s.emit { command := c }) (done ++ [source]) := by
  have tagged := (Command.isMove_tagAfter s.previous c).trans isMove
  refine ⟨?_, ?_⟩
  · change (∀ p ∈ _ :: s.output, _) ↔ _
    rw [List.forall_mem_cons, List.forall_mem_append, List.forall_mem_singleton, leads.moves]
    exact ⟨fun all => ⟨all.2, own⟩, fun all => ⟨tagged, all.1⟩⟩
  · intro p last
    change (List.takeWhile _ (_ :: s.output).reverse).getLast? = _ → _
    rw [List.reverse_cons]
    by_cases all : ∀ p ∈ s.output, p.command.isMove = true
    · intro isLast isLast'
      rw [List.takeWhile_append_of_pos (by simpa using all)] at isLast
      rw [List.takeWhile_append_of_pos (leads.moves.1 all)] at isLast'
      simp [tagged] at isLast
      simp [own] at isLast'
      subst isLast isLast'
      exact place_close keeps placed rfl s.subpathStart
    · have stops : ∃ p ∈ s.output.reverse, p.command.isMove = false := by simpa using all
      have stops' : ∃ source ∈ done, source.segment.isMove = false := by
        simpa using mt leads.moves.2 all
      rw [takeWhile_front (.inl stops), takeWhile_front (.inl stops')]
      exact leads.last p last

omit [IsStrictOrderedRing α] [FloorRing α] [Exact.Roots α] in
theorem drawn_leads {done more : List (Source α)} (leads : Leads f s done)
    (own : source.segment.isMove = false) {written back base : List (Placed α)}
    (before : s.output = back ++ base) (after : next.output = written ++ base)
    (nonempty : written ≠ []) (draws : ∀ p ∈ written ++ back, p.command.isMove = false) :
    Leads f next (done ++ source :: more) := by
  obtain ⟨drawn, isWritten⟩ := List.exists_mem_of_ne_nil written nonempty
  have front {ps : List (Placed α)} (among : ∀ p ∈ ps, p ∈ written ++ back) :
      (ps ++ base).reverse.takeWhile (fun p => p.command.isMove) =
        base.reverse.takeWhile fun p => p.command.isMove := by
    rw [List.reverse_append]
    refine takeWhile_front (.inr fun p isHead => draws p (among p ?_))
    exact List.mem_reverse.1 (List.mem_of_mem_head? isHead)
  refine ⟨iff_of_false ?_ ?_, ?_⟩
  · intro all
    have isMove := all drawn (after ▸ List.mem_append_left base isWritten)
    cases isMove.symm.trans (draws drawn (List.mem_append_left back isWritten))
  · intro all
    have isMove := all source (List.mem_append_right done List.mem_cons_self)
    cases own.symm.trans isMove
  · have sources : (done ++ source :: more).takeWhile (fun source => source.segment.isMove) =
        done.takeWhile fun source => source.segment.isMove :=
      takeWhile_front (.inr (by simpa using own))
    rw [after, sources, front fun p => List.mem_append_left back,
      ← front fun p => List.mem_append_right written, ← before]
    exact leads.last

theorem marks_leads (keeps : Keeps f) {done more : List (Source α)} (leads : Leads f s done)
    (single : source.segment.isMove = true → more = [])
    (marks : Marks f s isFirst source next taken) :
    Leads f next (done ++ source :: more) := by
  cases marks with
  | moved own isMove placed =>
    obtain rfl := single own
    exact emit_leads keeps leads own isMove placed
  | drawn own before after nonempty draws =>
    exact drawn_leads leads own before after nonempty draws

theorem reached_leads (keeps : Keeps f) (kept : f.removalAllowed = false)
    {sources : List (Source α)}
    (expands : ∀ source ∈ sources, source.segment.kind = source.command.kind.drawn)
    (reached : Reached f sources s k) : Leads f s (sources.take k) := by
  induction reached with
  | initial =>
    have none : (State.initial : State α).output = [] := rfl
    refine ⟨?_, ?_⟩
    · rw [none, List.take_zero]
      exact iff_of_true nofun nofun
    · intro p _ last
      rw [none] at last
      cases last
  | step _ ahead visited ih =>
    have own := expands _ (List.mem_of_mem_drop (ahead ▸ List.mem_cons_self))
    have visits := visit_sound visited
    rw [take_visited ahead]
    refine marks_leads keeps ih ?_ (turns_marks kept own (visits_turns own visits))
    intro isMove
    obtain ⟨_, _, _, rfl⟩ := visits_move (Segment.isMove_iff.1 isMove) visits
    rfl

section Runs

variable {fitter : ArcFitter α} {options : Options α} {style : Style} {ps placed : List (Placed α)}

theorem filtered_last (few : options.precision < 20) (unit : options.error = .ok error)
    (opens : ∃ p, ps.head? = some p ∧ p.command.kind = .move)
    (filtered : filterCommands fitter options style ps = .ok placed) :
    Meet (Grid.Close error) (placed.map Placed.stop).getLast?
      (vertices (Placed.commands ps)).getLast? := by
  obtain ⟨found, s, same, reached, rfl⟩ := reached_filterCommands filtered
  cases unit.symm.trans same
  have keeps : Keeps ⟨options, style, error, fitter⟩ := ⟨few, unit⟩
  have accurate := (reached_accurate keeps reached).cursor
  have whole : (Placed.commands ps).take (sourcesOf (Placed.commands ps)).length =
      Placed.commands ps := by
    refine List.take_of_length_le (le_of_eq ?_)
    exact (congrArg List.length (sources_commands .initial _)).symm.trans (List.length_map _)
  rw [whole] at accurate
  obtain ⟨p, first, _⟩ := filtered_opens opens filtered
  obtain ⟨newest, isNewest⟩ : ∃ newest, s.output.head? = some newest := by
    cases output : s.output with
    | nil =>
      rw [output] at first
      cases first
    | cons newest earlier => exact ⟨newest, rfl⟩
  obtain ⟨q, last⟩ : ∃ q, (vertices (Placed.commands ps)).getLast? = some q := by
    obtain ⟨first, isHead, _⟩ := opens
    obtain ⟨rest, rfl⟩ := List.head?_eq_some_iff.1 isHead
    exact ⟨_, List.getLast?_cons⟩
  refine ⟨newest.stop, q, ?_, last, ?_⟩
  · rw [List.map_reverse, List.getLast?_reverse, List.head?_map, isNewest]
    rfl
  · rw [reached_cursor reached newest isNewest, ← after_last last]
    exact accurate

theorem filtered_first (few : options.precision < 20) (unit : options.error = .ok error)
    (marked : style.hasMarker = true)
    (opens : ∃ p, ps.head? = some p ∧ p.command.kind = .move)
    (filtered : filterCommands fitter options style ps = .ok placed) :
    Meet (Grid.Close error)
      ((placed.takeWhile fun p => p.command.isMove).map Placed.stop).getLast?
      (vertices ((Placed.commands ps).takeWhile Command.isMove)).getLast? := by
  obtain ⟨q, isFirst, kind⟩ := filtered_opens opens filtered
  obtain ⟨found, s, same, reached, rfl⟩ := reached_filterCommands filtered
  cases unit.symm.trans same
  have kept : Setup.removalAllowed ⟨options, style, error, fitter⟩ = false := by
    simp [Setup.removalAllowed, marked]
  have expands : ∀ source ∈ sourcesOf (Placed.commands ps), _ := sources_expand .initial _
  have keeps : Keeps ⟨options, style, error, fitter⟩ := ⟨few, unit⟩
  have leads := reached_leads keeps kept expands reached
  rw [List.take_length] at leads
  obtain ⟨p, last⟩ := leading_last (P := fun p => p.command.isMove)
    ⟨q, isFirst, decide_eq_true kind⟩
  obtain ⟨source, last'⟩ : ∃ source, ((sourcesOf (Placed.commands ps)).takeWhile fun source =>
      source.segment.isMove).getLast? = some source := by
    obtain ⟨first, isHead, isMove⟩ := opens
    obtain ⟨rest, rfl⟩ := List.head?_eq_some_iff.1 isHead
    exact leading_last ⟨_, rfl, (Pen.draw_isMove _ _).trans (decide_eq_true isMove)⟩
  refine ⟨p.stop, source.segment.stop, ?_, ?_, leads.last p source last last'⟩
  · rw [List.getLast?_map, last]
    rfl
  · rw [vertices_leading, List.getLast?_map, last']
    rfl

end Runs

end Filter
end PathData
