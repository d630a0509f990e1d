import PathData.Number.Double
import PathData.Proofs.Acceptance
import PathData.Proofs.WellFormed

namespace PathData
namespace Parser

open Text

variable {α : Type} [Scalar α]

-- Text that may stand in the place of `rest` without adding to a number before it. The mark of an
-- exponent may not: what follows it decides whether it belongs to the number.
def Resumes (rest other : List Char) : Prop :=
  ∀ c ∈ other.head?, isSeparator c = true ∨ (rest.head? = some c ∧ c ≠ 'e' ∧ c ≠ 'E')

def Unmarked (taken : List Char) : Prop :=
  ∀ c ∈ taken.head?, c ≠ 'e' ∧ c ≠ 'E'

-- What is read off the front of `s` is read as well when other text resumes after it.
def Detaches (reads : List Char → List Char → Prop) (s rest : List Char) : Prop :=
  ∃ taken, s = taken ++ rest ∧ Unmarked taken ∧
    ∀ other, Resumes rest other → reads (taken ++ other) other

-- What is left where reading stops can be replaced by text with which it ends well.
def Mends (reads : List Char → List Char → Prop) (s left : List Char) : Prop :=
  ∃ taken more, s = taken ++ left ∧ Resumes s (taken ++ more) ∧ reads (taken ++ more) []

def Then (first second : List Char → List Char → Prop) (s rest : List Char) : Prop :=
  ∃ middle, first s middle ∧ second middle rest

theorem resumes_nil (rest : List Char) : Resumes rest [] :=
  nofun

theorem resumes_append {taken rest other : List Char} (unmarked : Unmarked taken)
    (resumes : Resumes rest other) : Resumes (taken ++ rest) (taken ++ other) := by
  cases taken with
  | nil => exact resumes
  | cons d taken =>
    intro c first
    cases first
    exact .inr ⟨rfl, unmarked _ rfl⟩

theorem unmarked_append {a b : List Char} (left : Unmarked a) (right : Unmarked b) :
    Unmarked (a ++ b) := by
  cases a with
  | nil => exact right
  | cons d a => exact left

variable {first second reads : List Char → List Char → Prop} {s middle rest left : List Char}

theorem Detaches.imp (detaches : Detaches first s rest)
    (implies : ∀ s rest, first s rest → second s rest) : Detaches second s rest := by
  obtain ⟨taken, split, unmarked, again⟩ := detaches
  exact ⟨taken, split, unmarked, fun other resumes => implies _ _ (again other resumes)⟩

theorem Mends.imp (mends : Mends first s left) (implies : ∀ s, first s [] → second s []) :
    Mends second s left := by
  obtain ⟨taken, more, split, resumes, done⟩ := mends
  exact ⟨taken, more, split, resumes, implies _ done⟩

theorem Detaches.append (one : Detaches first s middle) (two : Detaches second middle rest) :
    Detaches (Then first second) s rest := by
  obtain ⟨a, rfl, unmarked, again⟩ := one
  obtain ⟨b, rfl, unmarked', again'⟩ := two
  refine ⟨a ++ b, by simp, unmarked_append unmarked unmarked', ?_⟩
  intro other resumes
  rw [List.append_assoc]
  exact ⟨b ++ other, again _ (resumes_append unmarked' resumes), again' other resumes⟩

theorem Detaches.mends (one : Detaches first s middle) (two : Mends second middle left) :
    Mends (Then first second) s left := by
  obtain ⟨a, rfl, unmarked, again⟩ := one
  obtain ⟨b, more, rfl, resumes, done⟩ := two
  refine ⟨a ++ b, more, by simp, ?_, ?_⟩
  · rw [List.append_assoc]
    exact resumes_append unmarked resumes
  · rw [List.append_assoc]
    exact ⟨_, again _ resumes, done⟩

theorem mends_here (done : reads [] []) : Mends reads left left :=
  ⟨[], [], rfl, resumes_nil _, done⟩

theorem separator_ends {c : Char} (separator : isSeparator c = true) :
    digitValue? c = none ∧ c ≠ 'e' ∧ c ≠ 'E' ∧ c ≠ '.' := by
  have differs {d : Char} (other : isSeparator d = false) : c ≠ d := by
    rintro rfl
    cases separator.symm.trans other
  refine ⟨?_, differs (by decide), differs (by decide), differs (by decide)⟩
  by_contra isDigit
  have opens : OpensNumber c := .inr (.inr (.inr (Option.isSome_iff_ne_none.mpr isDigit)))
  exact absurd separator (by simp [opens_not_separator opens])

theorem opens_unmarked {c : Char} (opens : OpensNumber c) : c ≠ 'e' ∧ c ≠ 'E' := by
  have marks : ¬ OpensNumber 'e' ∧ ¬ OpensNumber 'E' := by
    unfold OpensNumber
    decide
  exact ⟨fun small => marks.1 (small ▸ opens), fun large => marks.2 (large ▸ opens)⟩

theorem separators_trans (one : Separators s middle) (two : Separators middle rest) :
    Separators s rest := by
  obtain ⟨a, rfl, all⟩ := one
  obtain ⟨b, rfl, all'⟩ := two
  refine ⟨a ++ b, by simp, ?_⟩
  intro c member
  rcases List.mem_append.mp member with before | after
  · exact all c before
  · exact all' c after

theorem separators_detach (separated : Separators s rest) : Detaches Separators s rest := by
  obtain ⟨run, rfl, all⟩ := separated
  refine ⟨run, rfl, ?_, fun other _ => ⟨run, rfl, all⟩⟩
  intro c first
  have ends := separator_ends (all c (List.mem_of_mem_head? first))
  exact ⟨ends.2.1, ends.2.2.1⟩

theorem ends_separator (l : Literal.Lexeme) {other : List Char}
    (separated : ∀ c ∈ other.head?, isSeparator c = true) : l.Ends other := by
  intro c first
  obtain ⟨notDigit, notSmall, notLarge, notPoint⟩ := separator_ends (separated c first)
  exact ⟨notDigit, fun _ => ⟨notSmall, notLarge, fun _ => notPoint⟩⟩

theorem longest_resumes {l : Literal.Lexeme} (longest : Literal.Longest l s rest)
    {other : List Char} (resumes : Resumes rest other) : l.Ends other := by
  intro c first
  rcases resumes c first with separator | ⟨same, notSmall, notLarge⟩
  · refine ends_separator l (fun d first' => ?_) c first
    cases first.symm.trans first'
    exact separator
  · obtain ⟨notDigit, notPoint⟩ := longest.stops c same
    exact ⟨notDigit, fun power => ⟨notSmall, notLarge, notPoint power⟩⟩

theorem argument_detaches {slot : Slot} {x : α} (argument : Argument slot s x rest) :
    Detaches (fun s rest => Argument slot s x rest) s rest := by
  cases argument with
  | number plain longest =>
    obtain ⟨c, tail, text, opens⟩ := lexeme_opens longest.valid
    refine ⟨_, longest.text, ?_, ?_⟩
    · intro d first
      rw [text] at first
      cases first
      exact opens_unmarked opens
    · intro other resumes
      exact .number plain (Literal.longest_of_ends longest.valid (longest_resumes longest resumes))
  | off => exact ⟨['0'], rfl, by simp [Unmarked], fun other _ => .off⟩
  | on => exact ⟨['1'], rfl, by simp [Unmarked], fun other _ => .on⟩

theorem arguments_detach {slots : List Slot} {xs : List α} (arguments : Arguments slots s xs rest) :
    Detaches (fun s rest => Arguments slots s xs rest) s rest := by
  induction arguments with
  | nil => exact ⟨[], rfl, nofun, fun other _ => .nil⟩
  | cons separated argument _ ih =>
    have both := ((separators_detach separated).append (argument_detaches argument)).append ih
    exact both.imp fun _ _ ⟨_, ⟨_, separated, argument⟩, others⟩ => .cons separated argument others

-- Arguments of which some are still missing where reading stops.
def Unfinished (α : Type) [Scalar α] (slots : List Slot) (s left : List Char) : Prop :=
  ∃ front slot back next, ∃ xs : List α,
    slots = front ++ slot :: back ∧ Arguments front s xs next ∧ Separators next left

def fill (slots : List Slot) : List Char :=
  slots.flatMap fun _ => [' ', '0']

theorem fill_separated (slots : List Slot) : ∀ c ∈ (fill slots).head?, isSeparator c = true := by
  cases slots with
  | nil => exact nofun
  | cons slot slots =>
    intro c first
    cases first
    decide

theorem fill_resumes (slots : List Slot) (rest : List Char) : Resumes rest (fill slots) :=
  fun c first => .inl (fill_separated slots c first)

theorem fill_arguments (slots : List Slot) : ∃ xs : List α, Arguments slots (fill slots) xs [] := by
  induction slots with
  | nil => exact ⟨[], .nil⟩
  | cons slot slots ih =>
    obtain ⟨xs, others⟩ := ih
    have zero : ∃ x : α, Argument slot ('0' :: fill slots) x (fill slots) := by
      by_cases isFlag : slot = .flag
      · rw [isFlag]
        exact ⟨_, .off⟩
      · have ends := ends_separator Literal.Lexeme.zero (fill_separated slots)
        exact ⟨_, .number isFlag (Literal.longest_of_ends Literal.Lexeme.zero_valid ends)⟩
    obtain ⟨x, argument⟩ := zero
    exact ⟨x :: xs, .cons (separators_space _) argument others⟩

def Fills (α : Type) [Scalar α] (slots : List Slot) (s rest : List Char) : Prop :=
  ∃ xs : List α, Arguments slots s xs rest

theorem Unfinished.mends {slots : List Slot} (unfinished : Unfinished α slots s left) :
    Mends (Fills α slots) s left := by
  obtain ⟨front, slot, back, next, xs, rfl, arguments, separated⟩ := unfinished
  obtain ⟨ys, others⟩ := fill_arguments (α := α) (slot :: back)
  have missing : Mends (Fills α (slot :: back)) left left :=
    ⟨[], fill (slot :: back), rfl, fill_resumes _ _, ys, others⟩
  have all := (arguments_detach arguments).mends ((separators_detach separated).mends missing)
  refine all.imp ?_
  rintro s ⟨next, front, first, separated, zs, rest⟩
  cases rest with
  | cons separated' argument others =>
    exact ⟨_, arguments_append front
      (.cons (separators_trans separated separated') argument others)⟩

-- What is left where reading stops is not what is asked for there.
def Cause.Blocks (rest : List Char) : Cause → Prop
  | .unknownCommand c => rest.head? = some c ∧ Kind.read? c = none
  | .expectedNumber found => rest.head? = found ∧ ∀ l : Literal.Lexeme, l.Valid → ¬ l.text <+: rest
  | .expectedFlag found => rest.head? = found ∧ found ≠ some '0' ∧ found ≠ some '1'
  | .missingMove => ∃ c kind relative,
      rest.head? = some c ∧ Kind.read? c = some (kind, relative) ∧ kind ≠ .move

structure ReadsSlots (α : Type) [Scalar α] {β : Type} (slots : List Slot) (r : Reader β) :
    Prop where
  filled {s rest : List Char} {x : β} : r s = .ok (x, rest) → Fills α slots s rest
  stopped {s : List Char} {stop : Stop} : r s = .error stop →
    Unfinished α slots s stop.rest ∧ stop.cause.Blocks stop.rest

section Readers

variable {β γ : Type} {slots more : List Slot}

theorem result_error {x : Except Stop β} {next : β → Except Stop γ} {stop : Stop} :
    (x >>= next) = .error stop ↔ x = .error stop ∨ ∃ a, x = .ok a ∧ next a = .error stop := by
  cases x with
  | error stop' => simp [bind, Except.bind]
  | ok a => simp [bind, Except.bind]

theorem read_error {r : Reader β} {next : β → Reader γ} {stop : Stop} :
    (r >>= next) s = .error stop ↔
      r s = .error stop ∨ ∃ x s', r s = .ok (x, s') ∧ next x s' = .error stop := by
  change (r s >>= fun read => next read.1 read.2) = _ ↔ _
  rw [result_error, Prod.exists]

theorem Unfinished.append (unfinished : Unfinished α slots s left) (more : List Slot) :
    Unfinished α (slots ++ more) s left := by
  obtain ⟨front, slot, back, next, xs, rfl, arguments, separated⟩ := unfinished
  exact ⟨front, slot, back ++ more, next, xs, by simp, arguments, separated⟩

theorem Unfinished.after {xs : List α} (arguments : Arguments more s xs middle)
    (unfinished : Unfinished α slots middle left) : Unfinished α (more ++ slots) s left := by
  obtain ⟨front, slot, back, next, ys, rfl, others, separated⟩ := unfinished
  exact ⟨more ++ front, slot, back, next, xs ++ ys, by simp, arguments_append arguments others,
    separated⟩

theorem Unfinished.separated (separated : Separators s middle)
    (unfinished : Unfinished α slots middle left) : Unfinished α slots s left := by
  obtain ⟨front, slot, back, next, xs, rfl, arguments, after⟩ := unfinished
  cases arguments with
  | nil => exact ⟨[], slot, back, s, [], rfl, .nil, separators_trans separated after⟩
  | cons before argument others =>
    exact ⟨_, slot, back, next, _, rfl,
      .cons (separators_trans separated before) argument others, after⟩

theorem ReadsSlots.pure (x : β) : ReadsSlots α [] (Pure.pure x : Reader β) where
  filled := by
    intro s rest y read
    obtain ⟨_, rfl⟩ := read_pure.1 read
    exact ⟨[], .nil⟩
  stopped := nofun

theorem ReadsSlots.bind {r : Reader β} {next : β → Reader γ} (one : ReadsSlots α slots r)
    (two : ∀ x, ReadsSlots α more (next x)) : ReadsSlots α (slots ++ more) (r >>= next) where
  filled := by
    intro s rest y read
    obtain ⟨x, s', first, second⟩ := read_bind.1 read
    obtain ⟨xs, front⟩ := one.filled first
    obtain ⟨ys, back⟩ := (two x).filled second
    exact ⟨xs ++ ys, arguments_append front back⟩
  stopped := by
    intro s stop stopped
    rcases read_error.1 stopped with here | ⟨x, s', first, later⟩
    · obtain ⟨unfinished, blocks⟩ := one.stopped here
      exact ⟨unfinished.append more, blocks⟩
    · obtain ⟨xs, front⟩ := one.filled first
      obtain ⟨unfinished, blocks⟩ := (two x).stopped later
      exact ⟨unfinished.after front, blocks⟩

theorem ReadsSlots.separated {slot : Slot} {r : Reader β} (one : ReadsSlots α (slot :: slots) r) :
    ReadsSlots α (slot :: slots) (do separators; r) where
  filled := by
    intro s rest x read
    obtain ⟨first, separated, read⟩ := separators_then read
    obtain ⟨xs, arguments⟩ := one.filled read
    cases arguments with
    | cons before argument others =>
      exact ⟨_, .cons (separators_trans separated before) argument others⟩
  stopped := by
    intro s stop stopped
    rcases read_error.1 stopped with never | ⟨_, first, skipped, later⟩
    · cases never
    · cases skipped
      obtain ⟨unfinished, blocks⟩ := one.stopped later
      exact ⟨unfinished.separated (skip_separated s), blocks⟩

theorem Unfinished.here (slot : Slot) (s : List Char) : Unfinished α [slot] s s :=
  ⟨[], slot, [], s, [], rfl, .nil, separators_nil s⟩

theorem number_slot {slot : Slot} (plain : slot ≠ .flag) :
    ReadsSlots α [slot] (number : Reader α) where
  filled := by
    intro s rest x read
    exact ⟨[x], .cons (separators_nil s) (number_argument plain read) .nil⟩
  stopped := by
    intro s stop stopped
    unfold number at stopped
    split at stopped
    · cases stopped
    · rename_i none
      cases stopped
      refine ⟨.here slot s, rfl, ?_⟩
      rintro l valid ⟨rest, rfl⟩
      obtain ⟨d, rest', scanned, _⟩ := Literal.scan_takes valid rest
      cases none.symm.trans scanned

theorem flag_slot : ReadsSlots α [.flag] (flag : Reader α) where
  filled := by
    intro s rest x read
    exact ⟨[x], .cons (separators_nil s) (flag_argument read) .nil⟩
  stopped := by
    intro s stop stopped
    unfold flag at stopped
    split at stopped
    · cases stopped
    · cases stopped
    · rename_i notZero notOne
      cases stopped
      refine ⟨.here _ s, rfl, ?_, ?_⟩
      · intro isZero
        obtain ⟨rest, rfl⟩ := List.head?_eq_some_iff.1 isZero
        exact notZero rest rfl
      · intro isOne
        obtain ⟨rest, rfl⟩ := List.head?_eq_some_iff.1 isOne
        exact notOne rest rfl

theorem point_slots : ReadsSlots α [.x, .y] (point : Reader (Point α)) := by
  have x : ReadsSlots α [.x] number := number_slot (by decide)
  have y : ReadsSlots α [.y] number := number_slot (by decide)
  exact x.bind fun _ => (y.bind fun _ => .pure _).separated

theorem nextPoint_slots : ReadsSlots α [.x, .y] (nextPoint : Reader (Point α)) :=
  point_slots.separated

theorem arcShape_slots :
    ReadsSlots α [.measure, .measure, .measure, .flag, .flag] (arcShape : Reader (ArcShape α)) := by
  have measure : ReadsSlots α [.measure] number := number_slot (by decide)
  refine measure.bind fun _ => .separated ?_
  refine measure.bind fun _ => .separated ?_
  refine measure.bind fun _ => .separated ?_
  refine flag_slot.bind fun _ => .separated ?_
  exact flag_slot.bind fun _ => .pure _

theorem body_slots {kind : Kind} :
    ReadsSlots α kind.slots (body kind : Reader (Body α)) := by
  cases kind with
  | move | line | smoothQuadratic => exact point_slots.bind fun _ => .pure _
  | horizontal | vertical => exact (number_slot (by decide)).bind fun _ => .pure _
  | cubic =>
    refine point_slots.bind fun _ => nextPoint_slots.bind fun _ => ?_
    exact nextPoint_slots.bind fun _ => .pure _
  | smoothCubic | quadratic => exact point_slots.bind fun _ => nextPoint_slots.bind fun _ => .pure _
  | arc => exact arcShape_slots.bind fun _ => nextPoint_slots.bind fun _ => .pure _
  | close => exact .pure _

end Readers

theorem group_of_fills {kind : Kind} (opening : kind ≠ .close) (fills : Fills α kind.slots s rest) :
    ∃ first, ∃ b : Body α, Separators s first ∧ Group kind first b rest := by
  obtain ⟨xs, arguments⟩ := fills
  obtain ⟨b, shaped, _, _⟩ := Body.ofArgs_exists (arguments_length arguments)
  generalize slots : kind.slots = all at arguments
  cases arguments with
  | nil => exact absurd slots (Command.slots_ne_nil opening)
  | cons separated argument others => exact ⟨_, b, separated, .intro slots argument others shaped⟩

theorem fills_of_group {kind : Kind} {b : Body α} (group : Group kind s b rest) :
    Fills α kind.slots s rest := by
  cases group with
  | intro slots argument others shaped =>
    rw [slots]
    exact ⟨_, .cons (separators_nil s) argument others⟩

def Chain (α : Type) [Scalar α] (relative : Bool) (kind : Kind) : List Char → List Char → Prop :=
  Then (Fills α kind.slots) fun s rest =>
    ∃ more : List (Command α), Repeats relative (repeated kind) s more rest

theorem fills_detach {slots : List Slot} (fills : Fills α slots s rest) :
    Detaches (Fills α slots) s rest := by
  obtain ⟨xs, arguments⟩ := fills
  exact (arguments_detach arguments).imp fun _ _ arguments => ⟨xs, arguments⟩

theorem repeats_of_fills {relative : Bool} {kind : Kind} {more : List (Command α)}
    (opening : kind ≠ .close) (separated : Separators s middle)
    (fills : Fills α kind.slots middle left) (repeats : Repeats relative kind left more rest) :
    ∃ cs : List (Command α), Repeats relative kind s cs rest := by
  obtain ⟨first, b, before, group⟩ := group_of_fills opening fills
  exact ⟨_, .more (separators_trans separated before) group repeats⟩

theorem repeats_detach {relative : Bool} {kind : Kind} {cs : List (Command α)}
    (opening : kind ≠ .close) (repeats : Repeats relative kind s cs rest) :
    Detaches (fun s rest => ∃ more : List (Command α), Repeats relative kind s more rest)
      s rest := by
  induction repeats with
  | done => exact ⟨[], rfl, nofun, fun other _ => ⟨[], .done⟩⟩
  | more separated group _ ih =>
    have one := (separators_detach separated).append (fills_detach (fills_of_group group))
    refine (one.append ih).imp ?_
    rintro s rest ⟨_, ⟨_, separated, fills⟩, more, others⟩
    exact repeats_of_fills opening separated fills others

theorem chain_detach {relative : Bool} {kind : Kind} (opening : kind ≠ .close)
    (chain : Chain α relative kind s rest) : Detaches (Chain α relative kind) s rest := by
  obtain ⟨middle, fills, more, repeats⟩ := chain
  exact (fills_detach fills).append (repeats_detach (repeated_opening opening) repeats)

-- By induction on the fuel: a group that cannot be read is mended, and those before it are kept.
theorem groups_stopped {relative implicit : Bool} {kind : Kind} {fuel : Nat} {stop : Stop}
    (opening : kind ≠ .close)
    (stopped : (groups relative fuel kind implicit : Reader (List (Command α))) s = .error stop) :
    Mends (Chain α relative kind) s stop.rest ∧ stop.cause.Blocks stop.rest := by
  induction fuel generalizing kind implicit s with
  | zero => cases stopped
  | succ fuel ih =>
    rcases read_error.1 stopped with here | ⟨b, s₁, body, stopped⟩
    · obtain ⟨unfinished, blocks⟩ := body_slots.stopped here
      refine ⟨unfinished.mends.imp ?_, blocks⟩
      exact fun s fills => ⟨[], fills, [], .done⟩
    · rcases read_error.1 stopped with never | ⟨_, first, skipped, stopped⟩
      · cases never
      cases skipped
      rcases read_error.1 stopped with never | ⟨_, _, same, stopped⟩
      · cases never
      cases same
      split at stopped
      · cases stopped
      rcases read_error.1 stopped with later | ⟨_, _, _, never⟩
      · obtain ⟨mends, blocks⟩ := ih (repeated_opening opening) later
        have front := fills_detach (body_slots.filled body)
        have all := front.mends ((separators_detach (skip_separated s₁)).mends mends)
        refine ⟨all.imp ?_, blocks⟩
        rintro s ⟨next, fills, first, separated, middle, fills', more, others⟩
        rw [repeated_repeated] at others
        exact ⟨next, fills, repeats_of_fills (repeated_opening opening) separated fills' others⟩
      · cases never

theorem letter_detaches {c : Char} (letter : (Kind.read? c).isSome) (s : List Char) :
    Detaches (fun s rest => s = c :: rest) (c :: s) s := by
  refine ⟨[c], rfl, ?_, fun other _ => rfl⟩
  intro d first
  cases first
  obtain ⟨_, notSmall, notLarge, _⟩ := letter_ends letter
  exact ⟨notSmall, notLarge⟩

def Completes (α : Type) [Scalar α] (isFirst : Bool) (s rest : List Char) : Prop :=
  rest = [] ∧ ∃ cs : List (Command α), Units isFirst s cs

theorem completes_nil (isFirst : Bool) : Completes α isFirst [] [] :=
  ⟨rfl, [], .done⟩

theorem completes_draw {isFirst relative : Bool} {c : Char} {kind : Kind} {cs : List (Command α)}
    {ended : List Char} (letter : Kind.read? c = some (kind, relative)) (opening : kind ≠ .close)
    (first : isFirst = true → kind = .move) (separated : Separators s middle)
    (chain : Chain α relative kind middle ended) (after : Separators ended rest)
    (units : Units false rest cs) : Completes α isFirst (c :: s) [] := by
  obtain ⟨_, fills, more, repeats⟩ := chain
  obtain ⟨_, b, before, group⟩ := group_of_fills opening fills
  exact ⟨rfl, _, .draw letter opening first (separators_trans separated before) group repeats
    after units⟩

theorem units_stopped {isFirst : Bool} {fuel : Nat} {stop : Stop}
    (stopped : (units fuel isFirst s : Except Stop (List (Command α))) = .error stop)
    (enough : s.length ≤ fuel) :
    Mends (Completes α isFirst) s stop.rest ∧ stop.cause.Blocks stop.rest := by
  induction fuel generalizing isFirst s with
  | zero => cases stopped
  | succ fuel ih =>
    cases s with
    | nil => cases stopped
    | cons c s =>
      have room : s.length ≤ fuel := Nat.le_of_succ_le_succ enough
      have separated := skip_separated s
      have length := separators_length separated
      simp only [units] at stopped
      split at stopped
      · rename_i unknown
        cases stopped
        exact ⟨mends_here (completes_nil isFirst), rfl, unknown⟩
      · rename_i kind relative letter
        have opens :=
          (letter_detaches (c := c) (by simp [letter]) s).append (separators_detach separated)
        split at stopped
        · rename_i late
          cases stopped
          have notMove : kind ≠ .move := by simpa using (Bool.and_eq_true_iff.1 late).2
          exact ⟨mends_here (completes_nil isFirst), c, kind, relative, rfl, letter, notMove⟩
        · rename_i first
          have first : isFirst = true → kind = .move := by simpa using first
          split at stopped
          · rename_i closing
            subst closing
            rcases result_error.1 stopped with later | ⟨_, _, never⟩
            · obtain ⟨mends, blocks⟩ := ih later (Nat.le_trans length room)
              refine ⟨(opens.mends mends).imp ?_, blocks⟩
              rintro _ ⟨_, ⟨_, rfl, separated⟩, _, cs, units⟩
              have notFirst : isFirst = false := by
                cases isFirst with
                | false => rfl
                | true => cases first rfl
              exact ⟨rfl, _, .close letter notFirst separated units⟩
            · cases never
          · rename_i opening
            rcases result_error.1 stopped with here | ⟨⟨group, rest⟩, grouped, stopped⟩
            · obtain ⟨mends, blocks⟩ := groups_stopped opening here
              refine ⟨(opens.mends mends).imp ?_, blocks⟩
              rintro _ ⟨_, ⟨_, rfl, separated⟩, chain⟩
              exact completes_draw letter opening first separated chain (separators_nil []) .done
            · rcases result_error.1 stopped with later | ⟨_, _, never⟩
              · obtain ⟨b, more, s₁, s₂, rfl, group, repeats, ended, _⟩ :=
                  groups_derived opening (by omega) grouped
                have shorter : rest.length ≤ fuel := by
                  have fewer := draw_length group repeats ended
                  omega
                obtain ⟨mends, blocks⟩ := ih later shorter
                have chain : Chain α relative kind (skipSeparators s) s₂ :=
                  ⟨_, fills_of_group group, _, repeats⟩
                have front := (opens.append (chain_detach opening chain)).append
                  (separators_detach ended)
                refine ⟨(front.mends mends).imp ?_, blocks⟩
                rintro _ ⟨_, ⟨_, ⟨_, ⟨_, rfl, separated⟩, chain⟩, after⟩, _, cs, units⟩
                exact completes_draw letter opening first separated chain after units
              · cases never

theorem cut_before {front rest text : List Char} (whole : front ++ rest = text) :
    text.take (text.length - rest.length) = front ∧
      text.drop (text.length - rest.length) = rest := by
  subst whole
  simp

end Parser

open PathData.Parser

theorem parse_stops_viable {α : Type} [Scalar α] {text : List Char} {e : Failure}
    (refused : (parse text : Except Failure (List (Command α))) = .error e) :
    e.offset ≤ text.length ∧ e.cause.Blocks (text.drop e.offset) ∧
      ∃ more, ∃ cs : List (Command α), parse (text.take e.offset ++ more) = .ok cs := by
  unfold parse at refused
  dsimp only at refused
  split at refused
  · cases refused
  · rename_i stop stopped
    cases refused
    obtain ⟨⟨taken, more, split, _, _, cs, units⟩, blocks⟩ :=
      units_stopped stopped (Nat.le_refl _)
    have whole : (text.takeWhile Text.isBlank ++ taken) ++ stop.rest = text := by
      rw [List.append_assoc, ← split, List.takeWhile_append_dropWhile]
    obtain ⟨before, after⟩ := cut_before whole
    refine ⟨Nat.sub_le _ _, after.symm ▸ blocks, more, cs, ?_⟩
    apply parse_of_renders
    rw [before]
    exact ⟨_, _, List.append_assoc .., fun _ => List.mem_takeWhile_imp, units⟩

-- The second flag of an arc is missing, after numbers that stand close together.
def brokenArc : List Char := " m1.5.25-3e4+2 ,A6 7 0 1x5".toList

theorem parse_stops_viable_broken :
    (parse brokenArc : Except Failure (List (Command Float))) =
        .error ⟨.expectedFlag (some 'x'), 24⟩ ∧
      ∃ more, ∃ cs : List (Command Float), parse (brokenArc.take 24 ++ more) = .ok cs := by
  have refused : (parse brokenArc : Except Failure (List (Command Float))) =
      .error ⟨.expectedFlag (some 'x'), 24⟩ := by
    decide +kernel
  exact ⟨refused, (parse_stops_viable refused).2.2⟩

end PathData
