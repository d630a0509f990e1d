import PathData.Path.Parser

namespace PathData
namespace Parser

variable {α : Type} [Scalar α] {β γ : Type}

theorem result_bind {x : Except Stop β} {next : β → Except Stop γ} {y : γ} :
    (x >>= next) = .ok y ↔ ∃ a, x = .ok a ∧ next a = .ok y := by
  cases x with
  | error stop => simp [bind, Except.bind]
  | ok a => simp [bind, Except.bind]

theorem read_bind {r : Reader β} {next : β → Reader γ} {s rest : List Char} {y : γ} :
    (r >>= next) s = .ok (y, rest) ↔ ∃ x s', r s = .ok (x, s') ∧ next x s' = .ok (y, rest) := by
  change (r s >>= fun read => next read.1 read.2) = _ ↔ _
  rw [result_bind, Prod.exists]

theorem read_pure {x y : β} {s rest : List Char} :
    (pure x : Reader β) s = .ok (y, rest) ↔ x = y ∧ s = rest := by
  change Except.ok (x, s) = .ok (y, rest) ↔ _
  rw [Except.ok.injEq, Prod.mk.injEq]

theorem body_kind {kind : Kind} {b : Body α} {s rest : List Char}
    (read : body kind s = .ok (b, rest)) : b.kind = kind := by
  cases kind with
  | close =>
    obtain ⟨rfl, _⟩ := read_pure.1 read
    rfl
  | move | line | horizontal | vertical | smoothQuadratic =>
    obtain ⟨_, _, _, made⟩ := read_bind.1 read
    obtain ⟨rfl, _⟩ := read_pure.1 made
    rfl
  | smoothCubic | quadratic | arc =>
    obtain ⟨_, _, _, read⟩ := read_bind.1 read
    obtain ⟨_, _, _, made⟩ := read_bind.1 read
    obtain ⟨rfl, _⟩ := read_pure.1 made
    rfl
  | cubic =>
    obtain ⟨_, _, _, read⟩ := read_bind.1 read
    obtain ⟨_, _, _, read⟩ := read_bind.1 read
    obtain ⟨_, _, _, made⟩ := read_bind.1 read
    obtain ⟨rfl, _⟩ := read_pure.1 made
    rfl

theorem groups_kind {relative implicit : Bool} {fuel : Nat} {kind : Kind} {s rest : List Char}
    {cs : List (Command α)} (read : groups relative (fuel + 1) kind implicit s = .ok (cs, rest)) :
    ∃ c later, cs = c :: later ∧ c.kind = kind := by
  obtain ⟨b, _, body, read⟩ := read_bind.1 read
  obtain ⟨_, _, _, read⟩ := read_bind.1 read
  obtain ⟨_, _, _, read⟩ := read_bind.1 read
  split at read
  · obtain ⟨rfl, _⟩ := read_pure.1 read
    exact ⟨_, [], rfl, body_kind body⟩
  · obtain ⟨_, _, _, made⟩ := read_bind.1 read
    obtain ⟨rfl, _⟩ := read_pure.1 made
    exact ⟨_, _, rfl, body_kind body⟩

theorem units_open {fuel : Nat} {s : List Char} {cs : List (Command α)}
    (read : units fuel true s = .ok cs) : ∀ c ∈ cs.head?, c.kind = .move := by
  intro c first
  unfold units at read
  split at read
  · cases read
    cases first
  · cases read
    cases first
  · split at read
    · cases read
    · rename_i kind relative _
      split at read
      · cases read
      · rename_i opens
        have move : kind = .move := by simpa using opens
        subst move
        dsimp only at read
        rw [if_neg nofun] at read
        simp only [bind, Except.bind] at read
        split at read
        · cases read
        · rename_i found group
          split at read
          · cases read
          · cases read
            obtain ⟨head, later, made, isMove⟩ := groups_kind group
            rw [made] at first
            cases first
            exact isMove

end Parser

theorem parse_opens {α : Type} [Scalar α] {text : List Char} {cs : List (Command α)}
    (read : parse text = .ok cs) : ∀ c ∈ cs.head?, c.kind = .move := by
  unfold parse at read
  dsimp only at read
  split at read
  · rename_i units
    cases read
    exact Parser.units_open units
  · cases read

end PathData
