import PathData.Proofs.FilterLicences

namespace PathData

open scoped PathData.Scalar

variable {α : Type} [Scalar α]

namespace Command

-- The flags of an arc say yes or no, and closing has its one form.
structure Tidy (c : Command α) : Prop where
  flags : Filter.PlainFlags c.body
  close : c.kind = .close → c.relative = false

theorem plain_related {R : α → α → Prop} {b b' : Body α} (related : b.Related R b')
    (plain : Filter.PlainFlags b) : Filter.PlainFlags b' := by
  intro shape stop same
  cases related with
  | arc =>
    cases same
    obtain ⟨large, sweep, isLarge, isSweep⟩ := plain _ _ rfl
    exact ⟨large, sweep, isLarge, isSweep⟩
  | _ => cases same

theorem Tidy.tagAfter {c : Command α} (tidy : c.Tidy) (previous : Option (Command α)) :
    (Command.tagAfter previous c).Tidy := by
  refine ⟨?_, ?_⟩
  · rw [body_tagAfter]
    exact tidy.flags
  · rw [kind_tagAfter, relative_tagAfter]
    exact tidy.close

theorem Tidy.toRelative {c : Command α} (tidy : c.Tidy) (start : Point α) :
    (c.toRelative start).Tidy := by
  unfold Command.toRelative
  split
  · exact tidy
  · rename_i form
    rw [Bool.or_eq_true, not_or, decide_eq_true_eq] at form
    refine ⟨plain_related (Body.related_shift _ _) tidy.flags, ?_⟩
    intro closes
    exact absurd ((Body.kind_shift _ _).symm.trans closes) form.2

theorem Tidy.toAbsolute {c : Command α} (tidy : c.Tidy) (start : Point α) :
    (c.toAbsolute start).Tidy := by
  unfold Command.toAbsolute
  split
  · exact tidy
  · exact ⟨plain_related (Body.related_shift _ _) tidy.flags, fun _ => rfl⟩

theorem Tidy.rounded {o : Options α} {c c' : Command α} (tidy : c.Tidy)
    (rounded : o.roundCommand error c = .ok c') : c'.Tidy := by
  obtain ⟨body, mapped, made⟩ := Fault.bind_ok.1 rounded
  cases made
  have related := Body.mapNumbers_ok.1 mapped
  refine ⟨plain_related related tidy.flags, fun closes => tidy.close ?_⟩
  exact related.kind_eq.symm.trans closes

theorem close_tidy : ({ body := .close } : Command α).Tidy :=
  ⟨nofun, fun _ => rfl⟩

end Command

namespace Filter

variable {f : Setup α} {s : State α}

theorem place_tidy {body : Body α} (placed : f.place body start absolute = .ok c)
    (plain : PlainFlags body) : c.Tidy := by
  refine ⟨?_, ?_⟩
  · have related := Command.place_related placed
    split at related
    · exact Command.plain_related related (Command.plain_related (Body.related_shift _ _) plain)
    · exact Command.plain_related related plain
  · intro closes
    rw [Command.kind_place placed] at closes
    simp [place_relative placed, closes]

theorem Offers.tidy (offers : Offers f own c) : c.Tidy := by
  cases offers with
  | placed placed plain => exact place_tidy placed plain
  | close => exact Command.close_tidy

theorem reached_tidy {sources : List (Source α)}
    (expands : ∀ source ∈ sources, source.segment.kind = source.command.kind.drawn)
    (reached : Reached f sources s k) : ∀ p ∈ s.output, p.command.Tidy :=
  reached_commands expands (fun previous _ tidy => tidy.tagAfter previous)
    (fun _ _ _ _ placed => place_tidy placed nofun) (fun _ _ offers => offers.tidy) reached

theorem visits_move (shape : source.segment.shape = .move)
    (visits : Visits f s isFirst source rest next taken) :
    ∃ c, f.place (.move source.segment.stop) s.cursor isFirst = .ok c ∧
      next = s.emit { command := c } ∧ taken = 0 := by
  cases visits with
  | move _ placed => exact ⟨_, placed, rfl, rfl⟩
  | dropClose other | close other | line other | arc other => cases shape.symm.trans other
  | drop notMove => exact absurd shape notMove
  | run curve | curve curve => exact absurd shape (Segment.curve_not_move curve)

def Opens (s : State α) : Prop :=
  ∃ p, s.output.getLast? = some p ∧ p.command.kind = .move

theorem emitAll_opens (opens : Opens s) (steps : List (Step α)) : Opens (s.emitAll steps) := by
  obtain ⟨p, oldest, isMove⟩ := opens
  obtain ⟨written, output, _⟩ := emitAll_written s steps
  refine ⟨p, ?_, isMove⟩
  rw [output, List.getLast?_append, oldest, Option.some_or]

theorem writtenFrom_opens (opens : Opens s) (source : Source α) :
    Opens (writtenFrom f s source) := by
  rcases writtenFrom_cases f s source with kept | ⟨_, _, _, q, popped, isLine⟩
  · rwa [kept]
  · obtain ⟨p, oldest, isMove⟩ := opens
    rw [pop_output popped] at oldest
    cases before : (writtenFrom f s source).output with
    | nil =>
      rw [before] at oldest
      obtain rfl : q = p := by simpa using oldest
      rw [isMove] at isLine
      cases isLine
    | cons r earlier =>
      rw [before, List.getLast?_cons_cons] at oldest
      exact ⟨p, before ▸ oldest, isMove⟩

theorem reached_opens {sources : List (Source α)}
    (expands : ∀ source ∈ sources, source.segment.kind = source.command.kind.drawn)
    (first : ∀ source ∈ sources.head?, source.command.kind = .move)
    (reached : Reached f sources s k) (started : k ≠ 0) : Opens s := by
  induction reached with
  | initial => exact absurd rfl started
  | @step s next k taken source rest before ahead visited ih =>
    have visits := visit_sound visited
    have own := expands source (List.mem_of_mem_drop (ahead ▸ List.mem_cons_self))
    by_cases start : k = 0
    · subst start
      have isMove : source.command.kind = .move := first source (by
        have here : sources = source :: rest := ahead
        rw [here]
        rfl)
      have shape : source.segment.shape = .move := by
        rw [isMove] at own
        exact Segment.isMove_iff.1 (decide_eq_true own)
      obtain ⟨c, placed, written, _⟩ := visits_move shape visits
      rw [written, reached_zero before rfl]
      have kind := (Command.kind_tagAfter (State.initial : State α).previous c).trans
        (Command.kind_place placed)
      exact ⟨_, rfl, kind⟩
    · have opens := ih start
      cases visits_turns own visits with
      | dropped => exact opens
      | moved => exact emitAll_opens opens [_]
      | run => exact emitAll_opens opens _
      | drawn => exact emitAll_opens (writtenFrom_opens opens source) _

section Runs

variable {fitter : ArcFitter α} {ps placed : List (Placed α)}

theorem filtered_tidy (filtered : filterCommands fitter options style ps = .ok placed) :
    ∀ p ∈ placed, p.command.Tidy := by
  obtain ⟨error, s, _, reached, rfl⟩ := reached_filterCommands filtered
  intro p member
  exact reached_tidy (sources_expand .initial _) reached p (List.mem_reverse.1 member)

theorem filtered_opens (opens : ∃ p, ps.head? = some p ∧ p.command.kind = .move)
    (filtered : filterCommands fitter options style ps = .ok placed) :
    ∃ p, placed.head? = some p ∧ p.command.kind = .move := by
  obtain ⟨error, s, _, reached, rfl⟩ := reached_filterCommands filtered
  obtain ⟨p, first, isMove⟩ := opens
  obtain ⟨rest, rfl⟩ := List.head?_eq_some_iff.1 first
  have own : ∀ source ∈ (sourcesOf (Placed.commands (p :: rest))).head?,
      source.command.kind = .move := by
    rintro source ⟨⟩
    exact isMove
  obtain ⟨q, oldest, stays⟩ :=
    reached_opens (sources_expand .initial _) own reached (Nat.succ_ne_zero _)
  exact ⟨q, List.head?_reverse.trans oldest, stays⟩

end Runs

end Filter
end PathData
