import PathData.Proofs.Grammar
import PathData.Proofs.Reading

namespace PathData
namespace Parser

open Text

variable {α : Type} [Scalar α]

theorem skip_separated (s : List Char) : Separators s (skipSeparators s) :=
  ⟨s.takeWhile isSeparator, List.takeWhile_append_dropWhile.symm, fun _ => List.mem_takeWhile_imp⟩

theorem number_argument {slot : Slot} (plain : slot ≠ .flag) {s rest : List Char} {x : α}
    (read : number s = .ok (x, rest)) : Argument slot s x rest := by
  unfold number at read
  split at read
  · rename_i d left scanned
    obtain ⟨l, longest, rfl⟩ := Literal.scan_iff_longest.1 scanned
    cases read
    exact .number plain longest
  · cases read

theorem flag_argument {s rest : List Char} {x : α} (read : flag s = .ok (x, rest)) :
    Argument .flag s x rest := by
  unfold flag at read
  split at read
  · cases read
    exact .off
  · cases read
    exact .on
  · cases read

theorem separators_then {γ : Type} {next : Reader γ} {s rest : List Char} {y : γ}
    (read : (do separators; next) s = .ok (y, rest)) :
    ∃ first, Separators s first ∧ next first = .ok (y, rest) := by
  rw [reader_bind (separators_read s)] at read
  exact ⟨_, skip_separated s, read⟩

theorem arguments_append {slots more : List Slot} {s next rest : List Char} {xs ys : List α}
    (front : Arguments slots s xs next) (back : Arguments more next ys rest) :
    Arguments (slots ++ more) s (xs ++ ys) rest := by
  induction front with
  | nil => exact back
  | cons separated argument _ ih => exact .cons separated argument (ih back)

theorem arguments_length {slots : List Slot} {s rest : List Char} {xs : List α}
    (arguments : Arguments slots s xs rest) : xs.length = slots.length := by
  induction arguments with
  | nil => rfl
  | cons _ _ _ ih => simp [ih]

theorem point_arguments {s rest : List Char} {p : Point α} (read : point s = .ok (p, rest)) :
    ∃ next, Argument .x s p.x next ∧ Arguments [.y] next [p.y] rest := by
  obtain ⟨x, next, first, read⟩ := read_bind.1 read
  obtain ⟨middle, separated, read⟩ := separators_then read
  obtain ⟨y, left, second, made⟩ := read_bind.1 read
  obtain ⟨rfl, rfl⟩ := read_pure.1 made
  exact ⟨next, number_argument (by decide) first,
    .cons separated (number_argument (by decide) second) .nil⟩

theorem nextPoint_arguments {s rest : List Char} {p : Point α}
    (read : nextPoint s = .ok (p, rest)) : Arguments [.x, .y] s [p.x, p.y] rest := by
  obtain ⟨first, separated, read⟩ := separators_then read
  obtain ⟨next, argument, others⟩ := point_arguments read
  exact .cons separated argument others

theorem arcShape_arguments {s rest : List Char} {shape : ArcShape α}
    (read : arcShape s = .ok (shape, rest)) :
    ∃ next, Argument .measure s shape.rx next ∧
      Arguments [.measure, .measure, .flag, .flag] next
        [shape.ry, shape.rotation, shape.large, shape.sweep] rest := by
  obtain ⟨rx, next, first, read⟩ := read_bind.1 read
  obtain ⟨_, sep₁, read⟩ := separators_then read
  obtain ⟨ry, _, second, read⟩ := read_bind.1 read
  obtain ⟨_, sep₂, read⟩ := separators_then read
  obtain ⟨rotation, _, third, read⟩ := read_bind.1 read
  obtain ⟨_, sep₃, read⟩ := separators_then read
  obtain ⟨large, _, fourth, read⟩ := read_bind.1 read
  obtain ⟨_, sep₄, read⟩ := separators_then read
  obtain ⟨sweep, _, fifth, made⟩ := read_bind.1 read
  obtain ⟨rfl, rfl⟩ := read_pure.1 made
  exact ⟨next, number_argument (by decide) first,
    .cons sep₁ (number_argument (by decide) second)
      (.cons sep₂ (number_argument (by decide) third)
        (.cons sep₃ (flag_argument fourth) (.cons sep₄ (flag_argument fifth) .nil)))⟩

theorem body_group {kind : Kind} (opening : kind ≠ .close) {s rest : List Char} {b : Body α}
    (read : body kind s = .ok (b, rest)) : Group kind s b rest := by
  cases kind with
  | close => exact absurd rfl opening
  | move | line | smoothQuadratic =>
    obtain ⟨p, _, point, made⟩ := read_bind.1 read
    obtain ⟨rfl, rfl⟩ := read_pure.1 made
    obtain ⟨next, argument, others⟩ := point_arguments point
    exact .intro rfl argument others rfl
  | horizontal | vertical =>
    obtain ⟨x, _, number, made⟩ := read_bind.1 read
    obtain ⟨rfl, rfl⟩ := read_pure.1 made
    exact .intro rfl (number_argument (by decide) number) .nil rfl
  | smoothCubic | quadratic =>
    obtain ⟨c, _, control, read⟩ := read_bind.1 read
    obtain ⟨p, _, point, made⟩ := read_bind.1 read
    obtain ⟨rfl, rfl⟩ := read_pure.1 made
    obtain ⟨next, argument, others⟩ := point_arguments control
    exact .intro rfl argument (arguments_append others (nextPoint_arguments point)) rfl
  | cubic =>
    obtain ⟨c₁, _, first, read⟩ := read_bind.1 read
    obtain ⟨c₂, _, second, read⟩ := read_bind.1 read
    obtain ⟨p, _, point, made⟩ := read_bind.1 read
    obtain ⟨rfl, rfl⟩ := read_pure.1 made
    obtain ⟨next, argument, others⟩ := point_arguments first
    exact .intro rfl argument (arguments_append others
      (arguments_append (nextPoint_arguments second) (nextPoint_arguments point))) rfl
  | arc =>
    obtain ⟨shape, _, arc, read⟩ := read_bind.1 read
    obtain ⟨p, _, point, made⟩ := read_bind.1 read
    obtain ⟨rfl, rfl⟩ := read_pure.1 made
    obtain ⟨next, argument, others⟩ := arcShape_arguments arc
    exact .intro rfl argument (arguments_append others (nextPoint_arguments point)) rfl

theorem repeated_opening {kind : Kind} (opening : kind ≠ .close) : repeated kind ≠ .close := by
  cases kind <;> first | exact opening | decide

-- By induction on the fuel, which every group leaves enough of: what goes on is not empty, and it
-- is shorter than what the group was read from.
theorem groups_derived {relative implicit : Bool} {kind : Kind} {fuel : Nat} {s rest : List Char}
    {cs : List (Command α)} (opening : kind ≠ .close) (enough : s.length ≤ fuel + 1)
    (read : groups relative (fuel + 1) kind implicit s = .ok (cs, rest)) :
    ∃ b more s₁ s₂, cs = ⟨b, relative, implicit⟩ :: more ∧ Group kind s b s₁ ∧
      Repeats relative (repeated kind) s₁ more s₂ ∧ Separators s₂ rest ∧ AtUnit rest := by
  induction fuel generalizing kind implicit s cs with
  | zero =>
    obtain ⟨b, s₁, body, read⟩ := read_bind.1 read
    have group := body_group opening body
    obtain ⟨_, tail, rfl, _, shorter⟩ := group_opens group
    rw [List.length_cons] at enough
    obtain rfl : s₁ = [] := List.length_eq_zero_iff.mp (by omega)
    obtain ⟨rfl, rfl⟩ := read_pure.1 read
    exact ⟨b, [], [], [], rfl, group, .done, separators_nil _, .inl rfl⟩
  | succ fuel ih =>
    obtain ⟨b, s₁, body, read⟩ := read_bind.1 read
    have group := body_group opening body
    obtain ⟨first, separated, read⟩ := separators_then read
    obtain ⟨_, _, same, read⟩ := read_bind.1 read
    cases same
    split at read
    · rename_i stop
      obtain ⟨rfl, rfl⟩ := read_pure.1 read
      exact ⟨b, [], s₁, s₁, rfl, group, .done, separated, by simpa [AtUnit] using stop⟩
    · obtain ⟨later, left, next, made⟩ := read_bind.1 read
      obtain ⟨rfl, rfl⟩ := read_pure.1 made
      obtain ⟨_, tail, rfl, _, shorter⟩ := group_opens group
      have length := separators_length separated
      have room : first.length ≤ fuel + 1 := by
        rw [List.length_cons] at enough
        omega
      obtain ⟨b', more, s₂, s₃, rfl, group', repeats, ended, at_⟩ :=
        ih (repeated_opening opening) room next
      rw [repeated_repeated] at repeats
      exact ⟨b, _, s₁, s₃, rfl, group, .more separated group' repeats, ended, at_⟩

theorem units_derived {isFirst : Bool} {fuel : Nat} {s : List Char} {cs : List (Command α)}
    (enough : s.length ≤ fuel) (read : Parser.units fuel isFirst s = .ok cs) :
    Units isFirst s cs := by
  induction fuel generalizing isFirst s cs with
  | zero =>
    obtain rfl := List.length_eq_zero_iff.mp (Nat.le_zero.mp enough)
    cases read
    exact .done
  | succ fuel ih =>
    cases s with
    | nil =>
      cases read
      exact .done
    | cons c s =>
      have room : s.length ≤ fuel := Nat.le_of_succ_le_succ enough
      have separated := skip_separated s
      have length := separators_length separated
      simp only [Parser.units] at read
      split at read
      · cases read
      · rename_i kind relative letter
        split at read
        · cases read
        · rename_i opens
          have first : isFirst = true → kind = .move := by simpa using opens
          split at read
          · rename_i closing
            subst closing
            obtain ⟨later, next, made⟩ := result_bind.1 read
            cases made
            refine .close letter ?_ separated (ih (Nat.le_trans length room) next)
            cases isFirst with
            | false => rfl
            | true => cases first rfl
          · rename_i opening
            obtain ⟨⟨group, left⟩, grouped, read⟩ := result_bind.1 read
            obtain ⟨later, next, made⟩ := result_bind.1 read
            cases made
            obtain ⟨b, more, s₁, s₂, rfl, group, repeats, ended, _⟩ :=
              groups_derived opening (by omega) grouped
            have shorter : left.length ≤ fuel := by
              have fewer := draw_length group repeats ended
              omega
            exact .draw letter opening first separated group repeats ended (ih shorter next)

theorem renders_of_parse {text : List Char} {cs : List (Command α)} (read : parse text = .ok cs) :
    Renders text cs := by
  unfold parse at read
  dsimp only at read
  split at read
  · rename_i units
    cases read
    exact ⟨text.takeWhile isBlank, _, List.takeWhile_append_dropWhile.symm,
      fun _ => List.mem_takeWhile_imp, units_derived (Nat.le_refl _) units⟩
  · cases read

end Parser

open PathData.Parser

theorem parse_exact {α : Type} [Scalar α] (text : List Char) :
    (∀ cs : List (Command α), parse text = .ok cs ↔ Renders text cs) ∧
      ((∃ e, (parse text : Except Failure (List (Command α))) = .error e) ↔
        ¬ ∃ cs : List (Command α), Renders text cs) := by
  have reads (cs : List (Command α)) : parse text = .ok cs ↔ Renders text cs :=
    ⟨renders_of_parse, parse_of_renders⟩
  refine ⟨reads, ?_, ?_⟩
  · rintro ⟨e, refused⟩ ⟨cs, renders⟩
    have read := (reads cs).2 renders
    rw [refused] at read
    cases read
  · intro none
    cases result : (parse text : Except Failure (List (Command α))) with
    | error e => exact ⟨e, rfl⟩
    | ok cs => exact absurd ⟨cs, (reads cs).1 result⟩ none

end PathData
