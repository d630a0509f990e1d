import PathData.Number.Double
import PathData.Passes.Mixed
import PathData.Proofs.Commands

namespace PathData

open Fault (bind_ok)

namespace Printer

variable {α : Type} [Scalar α]

theorem joinAfter_length (saving : Bool) (last : List Char) (ts : List (List Char)) :
    (joinAfter saving [] ts).length ≤ (joinAfter saving last ts).length ∧
      (joinAfter saving last ts).length ≤ (joinAfter saving [] ts).length + 1 := by
  cases ts with
  | nil => exact ⟨Nat.le_refl _, Nat.le_succ _⟩
  | cons t rest =>
    have alone : needsSpace saving [] t = false := rfl
    simp only [joinAfter, alone, Bool.false_eq_true, if_false, List.length_append]
    split
    · rw [List.length_cons]
      omega
    · omega

end Printer

namespace Mixed

open Command Printer

variable {α : Type} [Scalar α]

omit [Scalar α] in
@[simp] theorem tagAfter_explicit (previous : Option (Command α)) (c : Command α) :
    tagAfter previous c.explicit = tagAfter previous c := by
  have letter : c.explicit.letter = c.letter := rfl
  have kind : c.explicit.kind = c.kind := rfl
  unfold tagAfter
  rw [letter, kind]
  rfl

theorem tokens_tagAfter (previous : Option (Command α)) (c : Command α) :
    tokens (tagAfter previous c) = tokens c := by
  unfold tokens args
  rw [kind_tagAfter, body_tagAfter]

@[simp] theorem cost_explicit (saving : Bool) (previous : Option (Command α)) (c : Command α) :
    cost saving previous c.explicit = cost saving previous c := by
  unfold cost
  rw [tagAfter_explicit]

-- Commands that are told apart by their tags alone leave the same to what follows.
structure Alike (p q : Command α) : Prop where
  body : p.body = q.body
  relative : p.relative = q.relative

omit [Scalar α] in
theorem Alike.tagged (c : Command α) (previous previous' : Option (Command α)) :
    Alike (tagAfter previous c) (tagAfter previous' c) :=
  ⟨by rw [body_tagAfter, body_tagAfter], by rw [relative_tagAfter, relative_tagAfter]⟩

theorem Alike.cost_eq {p q : Command α} (alike : Alike p q) (saving : Bool) (c : Command α) :
    cost saving (some p) c = cost saving (some q) c := by
  have kind : p.kind = q.kind := congrArg Body.kind alike.body
  have implied : impliedLetter (some p) = impliedLetter (some q) := by
    simp only [impliedLetter, letter, kind, alike.relative]
  have last : lastToken (some p) = lastToken (some q) := by
    simp only [lastToken, tokens, args, kind, alike.body]
  have tagged : tagAfter (some p) c = tagAfter (some q) c := by
    unfold tagAfter
    rw [implied]
  unfold cost command
  rw [tagged, last]

theorem cost_bounds (saving : Bool) (previous : Option (Command α)) (c : Command α) :
    (joinAfter saving [] (tokens c)).length ≤ cost saving previous c ∧
      cost saving previous c ≤ (joinAfter saving [] (tokens c)).length + 1 := by
  unfold cost command
  rw [tokens_tagAfter]
  split
  · exact joinAfter_length saving _ _
  · rw [List.length_cons]
    omega

theorem cost_paid {p q : Command α} {saved : Nat} (paid : Alike p q ∨ 0 < saved) (saving : Bool)
    (c : Command α) :
    ∃ spent ≤ saved, cost saving (some p) c ≤ cost saving (some q) c + spent := by
  rcases paid with alike | positive
  · exact ⟨0, Nat.zero_le _, Nat.le_of_eq (alike.cost_eq saving c)⟩
  · have upper := (cost_bounds saving (some p) c).2
    have lower := (cost_bounds saving (some q) c).1
    exact ⟨1, positive, by omega⟩

theorem cost_close (saving : Bool) (previous previous' : Option (Command α)) {c : Command α}
    (closes : c.kind = .close) : cost saving previous c = cost saving previous' c := by
  have spelled (previous : Option (Command α)) : tagAfter previous c = c.explicit := by
    unfold tagAfter
    rw [if_neg fun implied => implied.1 closes]
  unfold cost
  rw [spelled, spelled]
  rfl

theorem commandsFrom_length (saving : Bool) (previous : Option (Command α)) (c : Command α)
    (rest : List (Command α)) :
    (commandsFrom saving previous (tagAfter previous c :: rest)).length =
      cost saving previous c + (commandsFrom saving (some (tagAfter previous c)) rest).length :=
  List.length_append

variable {o : Options α} {error : α}

def offset (o : Options α) (error : α) (p : Placed α) : Except Fault (Command α) :=
  if p.command.kind = .close then return p.command
  else o.roundCommand error (p.command.toRelative p.start)

-- Both forms of a command can be rounded. Closing has only one, which holds no number.
def Rounds (o : Options α) (error : α) (p : Placed α) : Prop :=
  p.command.kind ≠ .close → (o.roundCommand error (p.command.toRelative p.start)).isOk ∧
    (o.roundCommand error (p.command.toAbsolute p.start)).isOk

instance (o : Options α) (error : α) (p : Placed α) : Decidable (Rounds o error p) :=
  inferInstanceAs (Decidable (_ → _))

theorem round_explicit {c c' : Command α} (rounded : o.roundCommand error c = .ok c') :
    o.roundCommand error c.explicit = .ok c'.explicit := by
  obtain ⟨body, mapped, made⟩ := bind_ok.1 rounded
  cases made
  exact bind_ok.2 ⟨body, mapped, rfl⟩

theorem toRelative_explicit (c : Command α) (start : Point α) :
    c.explicit.toRelative start = (c.toRelative start).explicit := by
  unfold toRelative
  rw [apply_ite explicit]
  rfl

theorem toAbsolute_explicit (c : Command α) (start : Point α) :
    c.explicit.toAbsolute start = (c.toAbsolute start).explicit := by
  unfold toAbsolute
  rw [apply_ite explicit]
  rfl

theorem ok_of_isOk {β : Type} {x : Except Fault β} (succeeds : x.isOk = true) : ∃ b, x = .ok b := by
  cases x with
  | error => cases succeeds
  | ok b => exact ⟨b, rfl⟩

theorem shorter_total (rounds : Rounds o error p) (opens : p.command.kind ≠ .close)
    (previous : Option (Command α)) :
    ∃ c r, shorter o error previous p.start p.command.explicit = .ok c ∧ offset o error p = .ok r ∧
      (c = r.explicit ∨ cost o.flags.negativeExtraSpace previous c <
        cost o.flags.negativeExtraSpace previous r) := by
  obtain ⟨relative, absolute⟩ := rounds opens
  obtain ⟨r, relative⟩ := ok_of_isOk relative
  obtain ⟨a, absolute⟩ := ok_of_isOk absolute
  have offsets : offset o error p = .ok r := (if_neg opens).trans relative
  unfold shorter
  rw [toRelative_explicit, toAbsolute_explicit, round_explicit relative, round_explicit absolute]
  by_cases better : cost o.flags.negativeExtraSpace previous a.explicit <
      cost o.flags.negativeExtraSpace previous r.explicit
  · rw [cost_explicit _ previous r] at better
    refine ⟨a.explicit, r, ?_, offsets, .inr better⟩
    exact congrArg Except.ok (if_pos better)
  · refine ⟨r.explicit, r, ?_, offsets, .inl rfl⟩
    exact congrArg Except.ok (if_neg better)

def form (o : Options α) (error : α) (previous : Option (Command α)) (p : Placed α) :
    Except Fault (Command α) :=
  if previous.isNone || p.command.kind = .close then return p.command.explicit
  else shorter o error previous p.start p.command.explicit

theorem chooseFrom_cons {p : Placed α} {rest qs : List (Placed α)} {c : Command α}
    (here : form o error previous p = .ok c)
    (later : chooseFrom o error (some (tagAfter previous c)) rest = .ok qs) :
    chooseFrom o error previous (p :: rest) =
      .ok ({ p with command := tagAfter previous c } :: qs) := by
  have kind : p.command.explicit.kind = p.command.kind := rfl
  unfold form at here
  unfold chooseFrom
  dsimp only
  rw [kind]
  split at here <;> rename_i kept
  · rw [if_pos kept]
    cases here
    exact bind_ok.2 ⟨_, rfl, bind_ok.2 ⟨qs, later, rfl⟩⟩
  · rw [if_neg kept]
    exact bind_ok.2 ⟨c, here, bind_ok.2 ⟨qs, later, rfl⟩⟩

theorem offsets_cons {p : Placed α} {rest : List (Placed α)} {r : Command α}
    {rs : List (Command α)} (here : offset o error p = .ok r)
    (later : rest.mapM (offset o error) = .ok rs) :
    (p :: rest).mapM (offset o error) = .ok (r :: rs) := by
  rw [List.mapM_cons, here, later]
  rfl

-- An absolute form can cost the command after it a letter or a space, so what it has saved is kept
-- to pay for that. The commands before are `p` in the mixed path and `q` in the one in offsets,
-- which is longer by `saved` characters so far. With nothing saved they are alike.
theorem chooseFrom_length {p q : Command α} {ps : List (Placed α)} {saved : Nat}
    (paid : Alike p q ∨ 0 < saved) (rounds : ∀ r ∈ ps, Rounds o error r) :
    ∃ qs rs, chooseFrom o error (some p) ps = .ok qs ∧ ps.mapM (offset o error) = .ok rs ∧
      (commandsFrom o.flags.negativeExtraSpace (some p) (Placed.commands qs)).length ≤
        (commandsFrom o.flags.negativeExtraSpace (some q) (retagFrom (some q) rs)).length +
          saved := by
  induction ps generalizing p q saved with
  | nil => exact ⟨[], [], rfl, List.mapM_nil, Nat.zero_le _⟩
  | cons head rest ih =>
    have later := fun r member => rounds r (List.mem_cons_of_mem _ member)
    -- The next command is `c` in the mixed path and `r` in offsets, and leaves `left` in hand.
    have next (left : Nat) {c r : Command α}
        (here : form o error (some p) head = .ok c)
        (offset : offset o error head = .ok r)
        (paid : Alike (tagAfter (some p) c) (tagAfter (some q) r) ∨ 0 < left)
        (spent : cost o.flags.negativeExtraSpace (some p) c + left ≤
          cost o.flags.negativeExtraSpace (some q) r + saved) :
        ∃ qs rs, chooseFrom o error (some p) (head :: rest) = .ok qs ∧
          (head :: rest).mapM (Mixed.offset o error) = .ok rs ∧
          (commandsFrom o.flags.negativeExtraSpace (some p) (Placed.commands qs)).length ≤
            (commandsFrom o.flags.negativeExtraSpace (some q) (retagFrom (some q) rs)).length +
              saved := by
      obtain ⟨qs, rs, chosen, offsets, shorter⟩ := ih paid later
      refine ⟨_, _, chooseFrom_cons here chosen, offsets_cons offset offsets, ?_⟩
      have mixed := commandsFrom_length o.flags.negativeExtraSpace (some p) c (Placed.commands qs)
      have plain := commandsFrom_length o.flags.negativeExtraSpace (some q) r
        (retagFrom (some (tagAfter (some q) r)) rs)
      change (commandsFrom _ _ (tagAfter (some p) c :: Placed.commands qs)).length ≤
        (commandsFrom _ _ (tagAfter (some q) r :: retagFrom (some (tagAfter (some q) r)) rs)).length
          + saved
      omega
    by_cases closes : head.command.kind = .close
    · have kept : ((some p).isNone || decide (head.command.kind = .close)) = true :=
        decide_eq_true closes
      refine next saved (if_pos kept) (if_pos closes) (.inl ?_) ?_
      · rw [tagAfter_explicit]
        exact .tagged _ _ _
      · exact Nat.le_of_eq (by rw [cost_explicit, cost_close _ (some p) (some q) closes])
    · have drawn : ¬ ((some p).isNone || decide (head.command.kind = .close)) = true :=
        fun kept => closes (of_decide_eq_true kept)
      obtain ⟨c, r, chosen, offset, better⟩ :=
        shorter_total (rounds head List.mem_cons_self) closes (some p)
      have here : form o error (some p) head = .ok c := (if_neg drawn).trans chosen
      obtain ⟨spent, within, bound⟩ := cost_paid paid o.flags.negativeExtraSpace r
      rcases better with rfl | shorter
      · refine next (saved - spent) here offset (.inl ?_) ?_
        · rw [tagAfter_explicit]
          exact .tagged _ _ _
        · have spelled := cost_explicit o.flags.negativeExtraSpace (some p) r
          omega
      · refine next (saved - spent + 1) here offset (.inr (Nat.succ_pos _)) ?_
        omega

def offsets (o : Options α) (ps : List (Placed α)) : Except Fault (List (Command α)) := do
  let error ← o.error
  match ps with
  | [] => return []
  | p :: rest => return retag (p.command.explicit :: (← rest.mapM (offset o error)))

end Mixed

-- No rounding has to fail for it, but those of the two forms of each command.
theorem mixed_no_longer {α : Type} [Scalar α] {o : Options α} {error : α} {ps : List (Placed α)}
    (unit : o.error = .ok error) (rounds : ∀ p ∈ ps.tail, Mixed.Rounds o error p) :
    ∃ qs rs, chooseForms o ps = .ok qs ∧ Mixed.offsets o ps = .ok rs ∧
      (print o.flags.negativeExtraSpace (Placed.commands qs)).length ≤
        (print o.flags.negativeExtraSpace rs).length := by
  unfold chooseForms Mixed.offsets
  cases ps with
  | nil =>
    exact ⟨[], [], bind_ok.2 ⟨error, unit, rfl⟩, bind_ok.2 ⟨error, unit, rfl⟩, Nat.le_refl _⟩
  | cons p rest =>
    have paid : Mixed.Alike (Command.tagAfter none p.command.explicit)
        (Command.tagAfter none p.command.explicit) ∨ 0 < 0 :=
      .inl (.tagged p.command.explicit none none)
    obtain ⟨qs, rs, chosen, offsets, shorter⟩ := Mixed.chooseFrom_length paid rounds
    have first : Mixed.form o error none p = .ok p.command.explicit := rfl
    refine ⟨_, Command.retag (p.command.explicit :: rs),
      bind_ok.2 ⟨error, unit, Mixed.chooseFrom_cons first chosen⟩,
      bind_ok.2 ⟨error, unit, bind_ok.2 ⟨rs, offsets, rfl⟩⟩, ?_⟩
    change (Printer.commandsFrom _ _ (Command.tagAfter none p.command.explicit ::
      Placed.commands qs)).length ≤ (Printer.commandsFrom _ _ (Command.tagAfter none
        p.command.explicit :: Command.retagFrom _ rs)).length
    rw [Mixed.commandsFrom_length, Mixed.commandsFrom_length]
    exact Nat.add_le_add_left shorter _

-- The first line is shorter in absolute form, and then the second one has to spell its letter.
def returning : List (Placed Float) :=
  [⟨{ body := .move ⟨100, 100⟩ }, ⟨0, 0⟩, ⟨100, 100⟩⟩,
   ⟨{ body := .line ⟨-95, -95⟩, relative := true }, ⟨100, 100⟩, ⟨5, 5⟩⟩,
   ⟨{ body := .line ⟨1, 2⟩, relative := true, implicit := true }, ⟨5, 5⟩, ⟨6, 7⟩⟩,
   ⟨{ body := .close }, ⟨6, 7⟩, ⟨100, 100⟩⟩]

theorem mixed_no_longer_returning :
    Options.default.error = .ok (0.001 : Float) ∧
      (∀ p ∈ returning.tail, Mixed.Rounds .default 0.001 p) ∧
      ∃ qs rs, chooseForms .default returning = .ok qs ∧ Mixed.offsets .default returning = .ok rs ∧
        (print true (Placed.commands qs)).length ≤ (print true rs).length :=
  have unit : Options.default.error = .ok (0.001 : Float) := by decide +kernel
  have rounds : ∀ p ∈ returning.tail, Mixed.Rounds .default 0.001 p := by decide +kernel
  ⟨unit, rounds, mixed_no_longer unit rounds⟩

end PathData
