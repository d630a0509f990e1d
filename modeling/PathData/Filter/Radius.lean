import PathData.Number.Rounding

namespace PathData
namespace Radius

open scoped PathData.Scalar

-- The height of an arc is any function of its radius that may be undefined.
structure Search (α : Type) where
  precision : Nat
  error : α
  height : α → Except Fault (Option α)

-- The search runs in any monad: in `Except Fault` it computes every answer again, and over a store
-- it looks them up.
variable {α : Type} [Scalar α] {m : Type → Type} [Monad m] [MonadLiftT (Except Fault) m]

-- The grid value on the other side of `radius` from the nearest one.
def other (radius nearest : α) (places : Nat) : Except Fault α := do
  let step := Scalar.copySign (← Scalar.tenPow (-(places : Int))) (radius - nearest)
  Rounding.toFixed (nearest + step) places

def accepts (s : Search α) (shortest : α → m (Option α)) (height candidate : α) : m Bool := do
  match ← liftM (s.height candidate) with
  | none => return false
  | some h =>
    if s.error ≤ Scalar.abs (h - height) then return false
    else
      match ← shortest candidate with
      | none => return false
      | some r => return r == candidate

-- Goes through the numbers of places from `places` on. At each there are two candidates, the grid
-- values around the radius, the nearer one first. A radius on the grid is the answer.
def scan (s : Search α) (shortest : α → m (Option α)) (radius height : α) :
    Nat → Nat → m (Option α)
  | 0, _ => return none
  | left + 1, places => do
    let nearest ← liftM (Rounding.toFixed radius places)
    if nearest == radius then return some radius
    let second ← liftM (other radius nearest places)
    if ← accepts s shortest height nearest then return some nearest
    if ← accepts s shortest height second then return some second
    scan s shortest radius height left (places + 1)

def step (s : Search α) (shortest : α → m (Option α)) (radius : α) : m (Option α) := do
  match ← liftM (s.height radius) with
  | none => return some radius
  | some height => scan s shortest radius height (s.precision + 1) 0

-- A candidate has fewer decimals than the radius it stands for, so the precision bounds the depth.
-- Doubles of sixteen digits may need two rounds for a place.
def depth (s : Search α) : Nat :=
  2 * s.precision + 4

def plain (s : Search α) : Nat → α → Except Fault (Option α)
  | 0, _ => throw .tooDeep
  | fuel + 1, radius => step s (plain s fuel) radius

-- Answers by radius, the newest first.
abbrev Store (α : Type) := List (α × Option α)

def Store.get? (store : Store α) (radius : α) : Option (Option α) :=
  (store.find? fun entry => entry.1 == radius).map Prod.snd

abbrev Stored (α : Type) := StateT (Store α) (Except Fault)

def stored (s : Search α) : Nat → α → Stored α (Option α)
  | 0, _ => throw .tooDeep
  | fuel + 1, radius => do
    match Store.get? (← get) radius with
    | some answer => return answer
    | none =>
      let answer ← step s (stored s fuel) radius
      modify fun store => (radius, answer) :: store
      return answer

-- None when the radius has more decimals than the precision keeps and no candidate will do.
def shortest (s : Search α) (radius : α) : Except Fault (Option α) :=
  (stored s (depth s) radius).run' []

end Radius
end PathData
