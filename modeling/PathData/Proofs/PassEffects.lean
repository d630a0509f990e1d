import PathData.Passes.Cleanup
import PathData.Passes.Mixed
import PathData.Passes.Rebase
import PathData.Proofs.FilterOutput

namespace PathData

open scoped PathData.Scalar
open Fault (bind_ok)

variable {α : Type}

theorem Command.letter_tagAfter (previous : Option (Command α)) (c : Command α) :
    (tagAfter previous c).letter = c.letter := by
  unfold letter
  rw [kind_tagAfter, relative_tagAfter]

variable [Scalar α]

namespace Rebase

theorem kind_step (absolute : Bool) (s : State α) (c : Command α) :
    (step absolute s c).1.command.kind = c.kind := by
  have kept (previous : Option (Command α)) (c : Command α) :
      (keepTag previous c).kind = c.kind := by
    unfold keepTag
    split <;> rfl
  unfold step
  dsimp only
  rw [kept]
  split
  · exact Command.kind_toAbsolute _ _
  · exact Command.kind_toRelative _ _

theorem kinds_stepAll (absolute : Bool) (s : State α) (cs : List (Command α)) :
    (Placed.commands (stepAll absolute s cs)).map Command.kind = cs.map Command.kind := by
  induction cs generalizing s with
  | nil => rfl
  | cons c rest ih => exact congrArg₂ List.cons (kind_step absolute s c) (ih _)

end Rebase

theorem kinds_rebase (absolute : Bool) (path : List (Command α)) :
    (Placed.commands (rebase absolute path)).map Command.kind = path.map Command.kind := by
  cases path with
  | nil => rfl
  | cons c rest =>
    exact congrArg₂ List.cons (Rebase.kind_step true _ c) (Rebase.kinds_stepAll absolute _ rest)

theorem moves_rebase (absolute : Bool) (path : List (Command α)) :
    (Placed.commands (rebase absolute path)).map Command.isMove = path.map Command.isMove := by
  have kinds := kinds_rebase absolute path
  have moves := congrArg (List.map fun kind => decide (kind = Kind.move)) kinds
  rw [List.map_map, List.map_map] at moves
  exact moves

theorem rebase_opens (absolute : Bool) {path : List (Command α)}
    (opens : ∃ c, path.head? = some c ∧ c.kind = .move) :
    ∃ p, (rebase absolute path).head? = some p ∧ p.command.kind = .move := by
  obtain ⟨c, first, isMove⟩ := opens
  obtain ⟨rest, rfl⟩ := List.head?_eq_some_iff.1 first
  exact ⟨_, rfl, (Rebase.kind_step true _ c).trans isMove⟩

-- How many of the marked elements follow another one directly.
def stacked : List Bool → Nat
  | before :: here :: rest => (if before && here then 1 else 0) + stacked (here :: rest)
  | _ => 0

structure Reworded (p q : Placed α) : Prop where
  kind : q.command.kind = p.command.kind
  start : q.start = p.start
  stop : q.stop = p.stop
  tidy : p.command.Tidy → q.command.Tidy

namespace Reworded

theorem refl (p : Placed α) : Reworded p p :=
  ⟨rfl, rfl, rfl, id⟩

theorem trans {p q r : Placed α} (first : Reworded p q) (second : Reworded q r) : Reworded p r :=
  ⟨second.kind.trans first.kind, second.start.trans first.start, second.stop.trans first.stop,
    fun tidy => second.tidy (first.tidy tidy)⟩

theorem all_refl (ps : List (Placed α)) : List.Forall₂ Reworded ps ps :=
  List.forall₂_same.2 fun p _ => refl p

theorem all_trans {ps qs rs : List (Placed α)} (first : List.Forall₂ Reworded ps qs)
    (second : List.Forall₂ Reworded qs rs) : List.Forall₂ Reworded ps rs := by
  induction first generalizing rs with
  | nil => exact second
  | cons here _ ih =>
    cases second with
    | cons here' later => exact .cons (here.trans here') (ih later)

theorem tagAfter (p : Placed α) (previous : Option (Command α)) :
    Reworded p { p with command := Command.tagAfter previous p.command } :=
  ⟨Command.kind_tagAfter _ _, rfl, rfl, fun tidy => tidy.tagAfter previous⟩

theorem all_views {β : Type} {view : Placed α → β} {ps qs : List (Placed α)}
    (kept : ∀ p q, Reworded p q → view q = view p) (reworded : List.Forall₂ Reworded ps qs) :
    qs.map view = ps.map view := by
  induction reworded with
  | nil => rfl
  | cons here _ ih => exact congrArg₂ List.cons (kept _ _ here) ih

theorem isMove_eq {p q : Placed α} (reworded : Reworded p q) :
    q.command.isMove = p.command.isMove := by
  unfold Command.isMove
  rw [reworded.kind]

theorem all_kinds {ps qs : List (Placed α)} (reworded : List.Forall₂ Reworded ps qs) :
    (Placed.commands qs).map Command.kind = (Placed.commands ps).map Command.kind := by
  unfold Placed.commands
  rw [List.map_map, List.map_map]
  exact all_views (fun _ _ here => here.kind) reworded

theorem all_stops {ps qs : List (Placed α)} (reworded : List.Forall₂ Reworded ps qs) :
    qs.map Placed.stop = ps.map Placed.stop :=
  all_views (fun _ _ here => here.stop) reworded

theorem all_leading {ps qs : List (Placed α)} (reworded : List.Forall₂ Reworded ps qs) :
    List.Forall₂ Reworded (ps.takeWhile fun p => p.command.isMove)
      (qs.takeWhile fun p => p.command.isMove) := by
  induction reworded with
  | nil => exact .nil
  | cons here _ ih =>
    rw [List.takeWhile_cons, List.takeWhile_cons, here.isMove_eq]
    split
    · exact .cons here ih
    · exact .nil

theorem all_tidy {ps qs : List (Placed α)} (reworded : List.Forall₂ Reworded ps qs)
    (tidy : ∀ p ∈ ps, p.command.Tidy) : ∀ q ∈ qs, q.command.Tidy := by
  intro q member
  obtain ⟨p, before, here⟩ := forall₂_right reworded member
  exact here.tidy (tidy p before)

end Reworded

theorem retagFrom_reworded (previous : Option (Command α)) (ps : List (Placed α)) :
    List.Forall₂ Reworded ps (Placed.retagFrom previous ps) := by
  induction ps generalizing previous with
  | nil => exact .nil
  | cons p rest ih => exact .cons (.tagAfter p previous) (ih _)

namespace Mixed

theorem shorter_reworded {o : Options α} {p : Placed α}
    (chosen : shorter o error previous p.start p.command = .ok c) :
    Reworded p { p with command := c } := by
  obtain ⟨relative, offsets, chosen⟩ := bind_ok.1 chosen
  obtain ⟨absolute, coordinates, made⟩ := bind_ok.1 chosen
  cases made
  split
  · exact ⟨(Command.kind_roundCommand coordinates).trans (Command.kind_toAbsolute _ _), rfl, rfl,
      fun tidy => (tidy.toAbsolute _).rounded coordinates⟩
  · exact ⟨(Command.kind_roundCommand offsets).trans (Command.kind_toRelative _ _), rfl, rfl,
      fun tidy => (tidy.toRelative _).rounded offsets⟩

theorem chooseFrom_reworded {o : Options α} {ps qs : List (Placed α)}
    (chosen : chooseFrom o error previous ps = .ok qs) : List.Forall₂ Reworded ps qs := by
  induction ps generalizing previous qs with
  | nil =>
    cases chosen
    exact .nil
  | cons p rest ih =>
    have explicit : Reworded p { p with command := p.command.explicit } :=
      ⟨rfl, rfl, rfl, fun tidy => ⟨tidy.flags, tidy.close⟩⟩
    have first {c : Command α} (here : Reworded p { p with command := c })
        {later : List (Placed α)} (others : List.Forall₂ Reworded rest later) :
        List.Forall₂ Reworded (p :: rest)
          ({ p with command := Command.tagAfter previous c } :: later) :=
      .cons (here.trans (.tagAfter { p with command := c } previous)) others
    unfold chooseFrom at chosen
    dsimp only at chosen
    split at chosen
    · obtain ⟨c, kept, chosen⟩ := bind_ok.1 chosen
      cases kept
      obtain ⟨later, left, made⟩ := bind_ok.1 chosen
      cases made
      exact first explicit (ih left)
    · obtain ⟨c, here, chosen⟩ := bind_ok.1 chosen
      obtain ⟨later, left, made⟩ := bind_ok.1 chosen
      cases made
      have reworded := explicit.trans (shorter_reworded here)
      exact first reworded (ih left)

end Mixed

namespace Cleanup

theorem switchLeadingMove_reworded (saving : Bool) (ps : List (Placed α)) :
    List.Forall₂ Reworded ps (switchLeadingMove saving ps) := by
  unfold switchLeadingMove
  split
  · rename_i first second rest
    split
    · rename_i switches
      simp only [Bool.and_eq_true] at switches
      dsimp only
      split
      · have isMove : first.command.kind = .move := of_decide_eq_true switches.1.1
        refine .cons ⟨rfl, rfl, rfl, fun tidy => ⟨tidy.flags, ?_⟩⟩
          (.cons ⟨rfl, rfl, rfl, fun tidy => ⟨tidy.flags, tidy.close⟩⟩ (Reworded.all_refl rest))
        intro closes
        cases isMove.symm.trans closes
      · exact Reworded.all_refl _
    · exact Reworded.all_refl _
  · exact Reworded.all_refl _

theorem settleLoneMove_reworded (ps : List (Placed α)) :
    List.Forall₂ Reworded ps (settleLoneMove ps) := by
  unfold settleLoneMove
  split
  · split
    · exact .cons ⟨rfl, rfl, rfl, fun tidy => ⟨tidy.flags, fun _ => rfl⟩⟩ .nil
    · exact Reworded.all_refl _
  · exact Reworded.all_refl _

theorem kind_mergeMove (p next : Placed α) : (mergeMove p next).command.kind = .move := by
  unfold mergeMove Command.kind
  dsimp only
  split <;> rfl

theorem mergeMove_tidy (p next : Placed α) : (mergeMove p next).command.Tidy := by
  refine ⟨?_, fun closes => absurd ((kind_mergeMove p next).symm.trans closes) nofun⟩
  intro shape stop isArc
  have kind := kind_mergeMove p next
  unfold Command.kind at kind
  rw [isArc] at kind
  cases kind

theorem mergeFrom_head (p : Placed α) (ps : List (Placed α)) :
    ∃ q later, mergeFrom p ps = q :: later ∧ q.command.kind = p.command.kind ∧
      q.command.implicit = p.command.implicit := by
  induction ps generalizing p with
  | nil => exact ⟨p, [], rfl, rfl, rfl⟩
  | cons next rest ih =>
    unfold mergeFrom
    split
    · rename_i moves
      rw [Bool.and_eq_true] at moves
      have isMove : p.command.kind = .move := of_decide_eq_true moves.2
      obtain ⟨q, later, made, kind, implicit⟩ := ih (mergeMove p next)
      exact ⟨q, later, made, kind.trans ((kind_mergeMove p next).trans isMove.symm), implicit⟩
    · exact ⟨p, _, rfl, rfl, rfl⟩

theorem mergeFrom_tidy {p : Placed α} {ps : List (Placed α)}
    (tidy : ∀ q ∈ p :: ps, q.command.Tidy) : ∀ q ∈ mergeFrom p ps, q.command.Tidy := by
  induction ps generalizing p with
  | nil => exact tidy
  | cons next rest ih =>
    obtain ⟨first, later⟩ := List.forall_mem_cons.1 tidy
    unfold mergeFrom
    split
    · exact ih (List.forall_mem_cons.2 ⟨mergeMove_tidy p next, (List.forall_mem_cons.1 later).2⟩)
    · exact List.forall_mem_cons.2 ⟨first, ih later⟩

def Apart (ps : List (Placed α)) : Prop :=
  ((Placed.commands ps).map Command.kind).IsChain fun kind next => ¬ (kind = .move ∧ next = .move)

theorem mergeFrom_apart (p : Placed α) (ps : List (Placed α)) : Apart (mergeFrom p ps) := by
  unfold Apart
  induction ps generalizing p with
  | nil => exact .singleton _
  | cons next rest ih =>
    unfold mergeFrom
    split
    · exact ih _
    · rename_i stays
      obtain ⟨q, later, made, kind, _⟩ := mergeFrom_head next rest
      have apart := ih next
      rw [made] at apart ⊢
      refine .cons_cons ?_ apart
      rintro ⟨isMove, follows⟩
      exact stays (Bool.and_eq_true_iff.2
        ⟨decide_eq_true (kind.symm.trans follows), decide_eq_true isMove⟩)

theorem mergeMoves_apart (ps : List (Placed α)) : Apart (mergeMoves ps) := by
  cases ps with
  | nil => exact .nil
  | cons p rest => exact mergeFrom_apart p rest

theorem mergeFrom_last (p : Placed α) (ps : List (Placed α)) :
    ((mergeFrom p ps).map Placed.stop).getLast? = ((p :: ps).map Placed.stop).getLast? := by
  induction ps generalizing p with
  | nil => rfl
  | cons next rest ih =>
    unfold mergeFrom
    split
    · exact ih (mergeMove p next)
    · obtain ⟨q, later, made, _⟩ := mergeFrom_head next rest
      have last := ih next
      rw [made] at last ⊢
      exact last

theorem mergeFrom_first {p : Placed α} (isMove : p.command.isMove = true) (ps : List (Placed α)) :
    ((mergeFrom p ps).map Placed.stop).head? =
      (((p :: ps).takeWhile fun p => p.command.isMove).map Placed.stop).getLast? := by
  induction ps generalizing p with
  | nil => simp [mergeFrom, isMove]
  | cons next rest ih =>
    unfold mergeFrom
    split
    · rename_i moves
      rw [Bool.and_eq_true] at moves
      have merged : (mergeMove p next).command.isMove = true :=
        decide_eq_true (kind_mergeMove p next)
      rw [ih merged, List.takeWhile_cons, List.takeWhile_cons, List.takeWhile_cons, if_pos merged,
        if_pos isMove, if_pos moves.1]
      rfl
    · rename_i stays
      have draws : next.command.isMove = false := by simpa [isMove] using stays
      simp [isMove, draws]

theorem mergeFrom_length (p : Placed α) (ps : List (Placed α)) :
    (mergeFrom p ps).length + stacked ((p :: ps).map fun p => p.command.isMove) =
      (p :: ps).length := by
  induction ps generalizing p with
  | nil => rfl
  | cons next rest ih =>
    simp only [List.map_cons, List.length_cons, stacked] at ih ⊢
    unfold mergeFrom
    split
    · rename_i moves
      have merged : (mergeMove p next).command.isMove = true :=
        decide_eq_true (kind_mergeMove p next)
      have later := ih (mergeMove p next)
      rw [Bool.and_comm, if_pos moves]
      rw [merged, ← (Bool.and_eq_true_iff.1 moves).1] at later
      omega
    · rename_i stays
      have later := ih next
      rw [Bool.and_comm, if_neg stays]
      rw [List.length_cons]
      omega

end Cleanup

theorem cleanup_reworded (saving : Bool) (ps : List (Placed α)) :
    List.Forall₂ Reworded (Cleanup.mergeMoves ps) (cleanup saving ps) :=
  Reworded.all_trans (Cleanup.switchLeadingMove_reworded saving _)
    (Reworded.all_trans (Cleanup.settleLoneMove_reworded _) (retagFrom_reworded none _))

theorem cleanup_apart (saving : Bool) (ps : List (Placed α)) :
    Cleanup.Apart (cleanup saving ps) := by
  unfold Cleanup.Apart
  rw [Reworded.all_kinds (cleanup_reworded saving ps)]
  exact Cleanup.mergeMoves_apart ps

end PathData
