import PathData.Geometry.Fitting
import PathData.Proofs.Outcomes
import PathData.Proofs.PassEffects
import PathData.Proofs.Reading
import PathData.Proofs.RoundTrip
import PathData.Proofs.RoundedDoubles

namespace PathData

open scoped PathData.Scalar
open Fault (bind_ok)

variable {α : Type}

namespace Command

def TaggedAfter (previous : Option (Command α)) : List (Command α) → Prop
  | [] => True
  | c :: rest =>
    (c.implicit = true ↔ c.kind ≠ .close ∧ impliedLetter previous = some c.letter) ∧
      TaggedAfter (some c) rest

theorem implicit_tagAfter (previous : Option (Command α)) (c : Command α) :
    (tagAfter previous c).implicit = true ↔
      (tagAfter previous c).kind ≠ .close ∧
        impliedLetter previous = some (tagAfter previous c).letter := by
  rw [kind_tagAfter, letter_tagAfter]
  unfold tagAfter
  split
  · rename_i implied
    exact iff_of_true rfl implied
  · rename_i spelled
    exact iff_of_false nofun spelled

theorem retagFrom_tagged (previous : Option (Command α)) (ps : List (Placed α)) :
    TaggedAfter previous (Placed.commands (Placed.retagFrom previous ps)) := by
  induction ps generalizing previous with
  | nil => trivial
  | cons p rest ih => exact ⟨implicit_tagAfter previous p.command, ih _⟩

theorem TaggedAfter.close {previous : Option (Command α)} {cs : List (Command α)}
    (tagged : TaggedAfter previous cs) : TaggedAfter previous (cs ++ [{ body := .close }]) := by
  induction cs generalizing previous with
  | nil => exact ⟨iff_of_false nofun fun implied => implied.1 rfl, trivial⟩
  | cons c rest ih => exact ⟨tagged.1, ih tagged.2⟩

structure SameForm (c c' : Command α) : Prop where
  kind : c'.kind = c.kind
  relative : c'.relative = c.relative
  implicit : c'.implicit = c.implicit

theorem SameForm.letter {c c' : Command α} (same : SameForm c c') : c'.letter = c.letter := by
  unfold Command.letter
  rw [same.kind, same.relative]

theorem SameForm.impliedLetter {c c' : Command α} (same : SameForm c c') :
    impliedLetter (some c') = impliedLetter (some c) := by
  simp only [Command.impliedLetter, same.kind, same.relative, same.letter]

theorem TaggedAfter.sameForm {previous previous' : Option (Command α)} {cs cs' : List (Command α)}
    (tagged : TaggedAfter previous cs) (implied : impliedLetter previous' = impliedLetter previous)
    (same : List.Forall₂ SameForm cs cs') : TaggedAfter previous' cs' := by
  induction same generalizing previous previous' with
  | nil => trivial
  | cons here _ ih =>
    refine ⟨?_, ih tagged.2 here.impliedLetter⟩
    rw [here.implicit, here.kind, here.letter, implied]
    exact tagged.1

variable [Scalar α]

theorem round_sameForm {o : Options α} {c c' : Command α}
    (rounded : o.roundCommand error c = .ok c') : SameForm c c' := by
  have kind := kind_roundCommand rounded
  obtain ⟨body, _, made⟩ := bind_ok.1 rounded
  cases made
  exact ⟨kind, rfl, rfl⟩

theorem kinds_rounded {o : Options α} {cs cs' : List (Command α)}
    (rounded : List.Forall₂ (fun c c' => o.roundCommand error c = .ok c') cs cs') :
    cs'.map kind = cs.map kind := by
  induction rounded with
  | nil => rfl
  | cons here _ ih => exact congrArg₂ List.cons (kind_roundCommand here) ih

-- A valid path, but for the size of its numbers.
structure Valid (cs : List (Command α)) : Prop where
  opens : ∃ c, cs.head? = some c ∧ c.kind = .move
  apart : (cs.map kind).IsChain fun kind next => ¬ (kind = .move ∧ next = .move)
  tidy : ∀ c ∈ cs, c.Tidy
  tagged : TaggedAfter none cs

theorem Valid.close {cs : List (Command α)} (valid : Valid cs) :
    Valid (cs ++ [{ body := .close }]) where
  opens := by
    obtain ⟨c, first, isMove⟩ := valid.opens
    exact ⟨c, by rw [List.head?_append, first, Option.some_or], isMove⟩
  apart := by
    rw [List.map_append, List.isChain_append]
    refine ⟨valid.apart, .singleton _, ?_⟩
    rintro kind _ next isNext ⟨_, isMove⟩
    cases isNext
    cases isMove
  tidy := by
    intro c member
    rcases List.mem_append.1 member with before | isClose
    · exact valid.tidy c before
    · exact List.mem_singleton.1 isClose ▸ close_tidy
  tagged := valid.tagged.close

theorem Valid.rounded {o : Options α} {cs cs' : List (Command α)} (valid : Valid cs)
    (rounded : List.Forall₂ (fun c c' => o.roundCommand error c = .ok c') cs cs') : Valid cs' where
  opens := by
    obtain ⟨c, first, isMove⟩ := valid.opens
    cases rounded with
    | nil => cases first
    | cons here _ =>
      cases first
      exact ⟨_, rfl, (kind_roundCommand here).trans isMove⟩
  apart := by
    rw [kinds_rounded rounded]
    exact valid.apart
  tidy := by
    intro c' member
    obtain ⟨c, before, here⟩ := forall₂_right rounded member
    exact (valid.tidy c before).rounded here
  tagged := valid.tagged.sameForm rfl (rounded.imp fun _ _ here => round_sameForm here)

end Command

namespace Body

theorem number_or_flag {b : Body α} (member : x ∈ b.args) : x ∈ b.numbers ∨
    ∃ shape stop, b = .arc shape stop ∧ (x = shape.large ∨ x = shape.sweep) := by
  cases b with
  | arc shape stop =>
    simp only [args, numbers, List.mem_cons, arc.injEq] at member ⊢
    rcases member with rx | ry | rotation | large | sweep | stop
    · exact .inl (.inl rx)
    · exact .inl (.inr (.inl ry))
    · exact .inl (.inr (.inr (.inl rotation)))
    · exact .inr ⟨_, _, ⟨rfl, rfl⟩, .inl large⟩
    · exact .inr ⟨_, _, ⟨rfl, rfl⟩, .inr sweep⟩
    · exact .inl (.inr (.inr (.inr stop)))
  | _ => exact .inl member

theorem flag_slot {b : Body α} {p : Slot × α} (member : p ∈ b.kind.slots.zip b.args)
    (isFlag : p.1 = .flag) :
    ∃ shape stop, b = .arc shape stop ∧ (p.2 = shape.large ∨ p.2 = shape.sweep) := by
  cases b with
  | arc shape stop =>
    refine ⟨shape, stop, rfl, ?_⟩
    simp only [kind, Kind.slots, args, List.zip_cons_cons, List.zip_nil_left, List.mem_cons,
      List.not_mem_nil, or_false] at member
    rcases member with rfl | rfl | rfl | rfl | rfl | rfl | rfl
    · cases isFlag
    · cases isFlag
    · cases isFlag
    · exact .inl rfl
    · exact .inr rfl
    · cases isFlag
    · cases isFlag
  | _ =>
    have slot := (List.of_mem_zip member).1
    rw [isFlag] at slot
    simp [kind, Kind.slots] at slot

end Body

namespace Command

theorem flag_double (b : Bool) :
    IsFlag (Filter.flag b : Float) ∧ Scalar.Finite (Filter.flag b : Float) := by
  cases b <;> decide +kernel

theorem Tidy.wellFormed {c : Command Float} (tidy : c.Tidy)
    (finite : ∀ x ∈ c.body.numbers, Scalar.Finite x) : c.WellFormed := by
  have flags {x : Float} (isFlag : ∃ shape stop, c.body = .arc shape stop ∧
      (x = shape.large ∨ x = shape.sweep)) : IsFlag x ∧ Scalar.Finite x := by
    obtain ⟨shape, stop, isArc, same⟩ := isFlag
    obtain ⟨large, sweep, isLarge, isSweep⟩ := tidy.flags shape stop isArc
    rcases same with rfl | rfl
    · exact isLarge ▸ flag_double large
    · exact isSweep ▸ flag_double sweep
  refine ⟨?_, ?_, tidy.close⟩
  · intro x member
    rcases Body.number_or_flag member with number | flag
    · exact finite x number
    · exact (flags flag).2
  · intro p member isFlag
    exact (flags (Body.flag_slot member isFlag)).1

theorem TaggedAfter.wellFormed {previous : Option (Command Float)} {cs : List (Command Float)}
    (tagged : TaggedAfter previous cs) (all : ∀ c ∈ cs, c.WellFormed) :
    WellFormedAfter previous cs := by
  induction cs generalizing previous with
  | nil => trivial
  | cons c rest ih =>
    obtain ⟨here, later⟩ := List.forall_mem_cons.1 all
    exact ⟨here, fun implicit => (tagged.1.1 implicit).2, ih tagged.2 later⟩

theorem Valid.wellFormed {cs : List (Command Float)} (valid : Valid cs)
    (finite : ∀ c ∈ cs, ∀ x ∈ c.body.numbers, Scalar.Finite x) : WellFormedPath cs := by
  have all : ∀ c ∈ cs, c.WellFormed := fun c member =>
    (valid.tidy c member).wellFormed (finite c member)
  refine ⟨?_, valid.tagged.wellFormed all⟩
  obtain ⟨c, first, isMove⟩ := valid.opens
  obtain ⟨rest, rfl⟩ := List.head?_eq_some_iff.1 first
  intro d isFirst
  cases isFirst
  refine ⟨decide_eq_true isMove, ?_⟩
  cases tag : c.implicit with
  | false => rfl
  | true => cases (valid.tagged.1.1 tag).2

end Command

namespace Pipeline

section Passes

variable [Scalar α]

theorem cleanup_valid (saving : Bool) {ps : List (Placed α)}
    (opens : ∃ p, ps.head? = some p ∧ p.command.kind = .move)
    (tidy : ∀ p ∈ ps, p.command.Tidy) :
    Command.Valid (Placed.commands (PathData.cleanup saving ps)) := by
  obtain ⟨p, first, isMove⟩ := opens
  obtain ⟨rest, rfl⟩ := List.head?_eq_some_iff.1 first
  have reworded := cleanup_reworded saving (p :: rest)
  obtain ⟨q, later, made, kind, _⟩ := Cleanup.mergeFrom_head p rest
  refine ⟨?_, cleanup_apart saving (p :: rest), ?_, Command.retagFrom_tagged none _⟩
  · change List.Forall₂ Reworded (Cleanup.mergeFrom p rest) _ at reworded
    rw [made] at reworded
    obtain ⟨r, others, here, _, same⟩ := List.forall₂_cons_left_iff.1 reworded
    rw [same]
    exact ⟨r.command, rfl, here.kind.trans (kind.trans isMove)⟩
  · intro c member
    obtain ⟨r, written, rfl⟩ := List.mem_map.1 member
    exact Reworded.all_tidy reworded (Cleanup.mergeFrom_tidy tidy) r written

theorem respelled_reworded {job : Job α} {filtered forms : List (Placed α)}
    (respells : respelled job filtered = .ok forms) : List.Forall₂ Reworded filtered forms := by
  unfold respelled at respells
  split at respells
  · obtain ⟨error, _, chosen⟩ := bind_ok.1 respells
    exact Mixed.chooseFrom_reworded chosen
  · cases respells
    exact Reworded.all_refl filtered

theorem rewritten_valid {fitter : ArcFitter α} {job : Job α} {ps : List (Placed α)}
    (opens : ∃ c, job.path.head? = some c ∧ c.kind = .move)
    (made : rewritten fitter job = .ok ps) : Command.Valid (Placed.commands ps) := by
  obtain ⟨filtered, filters, made⟩ := bind_ok.1 made
  obtain ⟨forms, respells, made⟩ := bind_ok.1 made
  cases made
  have reworded := respelled_reworded respells
  refine cleanup_valid _ ?_ (Reworded.all_tidy reworded (Filter.filtered_tidy filters))
  obtain ⟨p, isFirst, isMove⟩ := Filter.filtered_opens (rebase_opens _ opens) filters
  obtain ⟨rest, rfl⟩ := List.head?_eq_some_iff.1 isFirst
  obtain ⟨q, others, here, _, rfl⟩ := List.forall₂_cons_left_iff.1 reworded
  exact ⟨q, rfl, here.kind.trans isMove⟩

theorem finish_valid {job : Job α} {ps : List (Placed α)}
    (valid : Command.Valid (Placed.commands ps)) (finished : finish job ps = .ok cs) :
    Command.Valid cs := by
  obtain ⟨error, _, rounded⟩ := bind_ok.1 finished
  refine Command.Valid.rounded ?_ (Fault.mapM_ok rounded)
  unfold keepVertex
  split
  · exact valid.close
  · exact valid

theorem run_rewritten {fitter : ArcFitter α} {job : Job α}
    (ran : run (registry fitter) job = .ok entries) (succeeded : failures entries = []) :
    rewritten fitter job = .ok (result entries) := by
  have shows := runAll_shows fitter job
  rw [run_eq] at ran
  cases ran
  cases made : rewritten fitter job with
  | error cause =>
    rw [made] at shows
    exact absurd succeeded shows
  | ok ps =>
    rw [made] at shows
    rw [shows.2]

end Passes

theorem finish_finite {job : Job Float} {ps : List (Placed Float)}
    (finished : finish job ps = .ok cs) :
    ∀ c ∈ cs, ∀ x ∈ c.body.numbers, Scalar.Finite x := by
  obtain ⟨error, _, rounded⟩ := bind_ok.1 finished
  intro c member
  obtain ⟨before, _, here⟩ := forall₂_right (Fault.mapM_ok rounded) member
  obtain ⟨body, mapped, made⟩ := bind_ok.1 here
  cases made
  intro x number
  obtain ⟨y, _, here⟩ := forall₂_right (Body.mapNumbers_ok.1 mapped).numbers number
  exact Double.round_finite here

end Pipeline

open Pipeline

theorem optimize_valid {fitter : ArcFitter Float} {options : Options Float} {style : Style}
    {text : List Char} {path cs : List (Command Float)} {entries : List (Entry Float)}
    (read : parse text = .ok path) (nonempty : path ≠ [])
    (ran : run (registry fitter) ⟨path, options, style⟩ = .ok entries)
    (succeeded : failures entries = [])
    (finished : finish ⟨path, options, style⟩ (result entries) = .ok cs) :
    optimize fitter ⟨path, options, style⟩ = .ok (some cs) ∧
      cs ≠ [] ∧ Command.WellFormedPath cs ∧
      (cs.map Command.kind).IsChain (fun kind next => ¬ (kind = .move ∧ next = .move)) ∧
      Command.TaggedAfter none cs ∧
      ∀ saving, (∀ c ∈ cs, ∀ x ∈ c.args, Printer.ReadsBack x) →
        ∃ cs', parse (print saving cs) = .ok cs' ∧ List.Forall₂ Command.Same cs cs' := by
  have made := run_rewritten ran succeeded
  have opens : ∃ c, path.head? = some c ∧ c.kind = .move := by
    obtain ⟨c, rest, rfl⟩ := List.exists_cons_of_ne_nil nonempty
    exact ⟨c, rfl, parse_opens read c rfl⟩
  have valid : Command.Valid cs := by
    refine finish_valid (rewritten_valid ?_ made) finished
    exact opens
  have wellFormed := valid.wellFormed (finish_finite finished)
  refine ⟨?_, ?_, wellFormed, valid.apart, valid.tagged, ?_⟩
  · rw [optimize_eq, made]
    · dsimp only
      rw [finished]
    · exact nonempty
  · rintro rfl
    obtain ⟨c, first, _⟩ := valid.opens
    cases first
  · intro saving readsBack
    obtain ⟨cs', renders, same⟩ :=
      Printer.print_renders Printer.plainUnits_double saving wellFormed readsBack
    exact ⟨cs', Parser.parse_of_renders renders, same⟩

def mixedText : List Char := "m1 1M3 3l4 0 4 0H5a5 6 0 0 1 7.25 8zm1 1L2 2".toList

theorem optimize_valid_mixed :
    ∃ path entries cs, parse mixedText = .ok path ∧
      run (registry Fitting.fitSegments) ⟨path, .default, {}⟩ = .ok entries ∧
      finish ⟨path, .default, {}⟩ (result entries) = .ok cs ∧ Command.WellFormedPath cs ∧
      ∃ cs', parse (print true cs) = .ok cs' ∧ List.Forall₂ Command.Same cs cs' := by
  have succeeds : (parse mixedText).toOption.any (fun path : List (Command Float) =>
      (run (registry Fitting.fitSegments) ⟨path, .default, {}⟩).toOption.any fun entries =>
        (finish ⟨path, .default, {}⟩ (result entries)).toOption.any fun cs =>
          path ≠ [] ∧ failures entries = [] ∧
            ∀ c ∈ cs, ∀ x ∈ c.args, Printer.ReadsBack x) = true := by
    decide +kernel
  obtain ⟨path, read, succeeds⟩ := Fault.ok_of_any succeeds
  obtain ⟨entries, ran, succeeds⟩ := Fault.ok_of_any succeeds
  obtain ⟨cs, finished, succeeds⟩ := Fault.ok_of_any succeeds
  obtain ⟨nonempty, succeeded, readsBack⟩ := of_decide_eq_true succeeds
  obtain ⟨_, _, wellFormed, _, _, reads⟩ :=
    optimize_valid read nonempty ran succeeded finished
  exact ⟨path, entries, cs, read, ran, finished, wellFormed, reads true readsBack⟩

end PathData
