namespace PathData

inductive Stage where
  | normalize
  | optimize
  | spelling
  | cleanup
  deriving DecidableEq, Repr, Inhabited

def Stage.rank : Stage → Nat
  | .normalize => 0
  | .optimize => 1
  | .spelling => 2
  | .cleanup => 3

-- `run` is what the pass does; the registry does not look at it.
structure Pass (ρ : Type) where
  id : String
  stage : Stage
  dependencies : List String
  tags : List String
  run : ρ
  deriving Repr

-- Passes in the order in which they were registered, no two under the same id.
structure Registry (ρ : Type) where
  passes : List (Pass ρ)
  ids_nodup : (passes.map Pass.id).Nodup

inductive RegistryError where
  | duplicate (id : String)
  | circular (ids : List String)
  deriving DecidableEq, Repr, Inhabited

-- The ids that are stuck are a set, whose order is not fixed. The message lists them sorted, and
-- without the braces and quotes of a set.
def RegistryError.message : RegistryError → String
  | .duplicate id => "Duplicate pass ID: " ++ id
  | .circular ids => "Circular dependency detected among: " ++ ", ".intercalate ids

namespace Pass

variable {ρ : Type}

def precedes (p q : Pass ρ) : Bool :=
  p.stage.rank < q.stage.rank || (p.stage.rank == q.stage.rank && p.id < q.id)

end Pass

namespace Registry

variable {ρ : Type}

def empty : Registry ρ := ⟨[], List.nodup_nil⟩

def ids (ps : List (Pass ρ)) : List String :=
  ps.map Pass.id

def sorted (names : List String) : List String :=
  names.mergeSort fun a b => !decide (b < a)

theorem nodup_append_singleton {passes : List (Pass ρ)} {p : Pass ρ}
    (distinct : (passes.map Pass.id).Nodup) (fresh : p.id ∉ passes.map Pass.id) :
    ((passes ++ [p]).map Pass.id).Nodup := by
  rw [List.map_append, List.nodup_append]
  refine ⟨distinct, by simp, ?_⟩
  intro a inPasses b isLast same
  simp only [List.map_cons, List.map_nil, List.mem_singleton] at isLast
  exact fresh (isLast ▸ same ▸ inPasses)

def register (r : Registry ρ) (p : Pass ρ) : Except RegistryError (Registry ρ) :=
  if fresh : p.id ∈ r.passes.map Pass.id then .error (.duplicate p.id)
  else .ok ⟨r.passes ++ [p], nodup_append_singleton r.ids_nodup fresh⟩

def tagged (r : Registry ρ) (tag : String) : List String :=
  ids (r.passes.filter fun p => p.tags.contains tag)

-- Names that no pass is registered under are met as well, and lead no further.
def dependenciesOf (passes : List (Pass ρ)) (id : String) : List String :=
  match passes.find? fun p => p.id == id with
  | some p => p.dependencies
  | none => []

-- The names that are met from `stack` on, the last one added first. The fuel bounds how many names
-- are taken from the stack.
def expand (passes : List (Pass ρ)) : Nat → List String → List String → List String
  | 0, _, expanded => expanded
  | _ + 1, [], expanded => expanded
  | fuel + 1, id :: stack, expanded =>
    if expanded.contains id then expand passes fuel stack expanded
    else expand passes fuel ((dependenciesOf passes id).reverse ++ stack) (id :: expanded)

-- The passes that take part when `requested` is asked for. Every list of dependencies goes onto the
-- stack once at most.
def pool (passes : List (Pass ρ)) (requested : Option (List String)) : List (Pass ρ) :=
  match requested with
  | none => passes
  | some names =>
    let fuel := names.length + (passes.flatMap Pass.dependencies).length
    let expanded := expand passes fuel names.reverse []
    passes.filter fun p => expanded.contains p.id

structure Waiting (ρ : Type) where
  pass : Pass ρ
  count : Int

-- A dependency that is listed twice is waited for twice.
def waiting (pool : List (Pass ρ)) : List (Waiting ρ) :=
  pool.map fun p => ⟨p, (p.dependencies.filter fun d => (ids pool).contains d).length⟩

def place (p : Pass ρ) : List (Pass ρ) → List (Pass ρ)
  | [] => [p]
  | q :: rest => if p.precedes q then p :: q :: rest else q :: place p rest

def byKey (ps : List (Pass ρ)) : List (Pass ρ) :=
  ps.foldl (fun sorted p => place p sorted) []

-- The pass under `id` has been listed: whatever depends on it waits for one entry less, and goes to
-- the queue when that was the last one.
def release (id : String) :
    List (Waiting ρ) → List (Pass ρ) → List (Waiting ρ) × List (Pass ρ)
  | [], queue => ([], queue)
  | w :: rest, queue =>
    if w.pass.dependencies.contains id then
      let left := w.count - 1
      let (rest, queue) := release id rest (if left = 0 then byKey (queue ++ [w.pass]) else queue)
      (⟨w.pass, left⟩ :: rest, queue)
    else
      let (rest, queue) := release id rest queue
      (w :: rest, queue)

-- The passes in the order in which they leave the queue. No pass enters it twice, so a fuel of one
-- for each is enough.
def drain : Nat → List (Waiting ρ) → List (Pass ρ) → List (Pass ρ) → List (Pass ρ)
  | 0, _, _, listed => listed
  | _ + 1, _, [], listed => listed
  | fuel + 1, ws, p :: queue, listed =>
    let (ws, queue) := release p.id ws queue
    drain fuel ws queue (listed ++ [p])

def order (pool : List (Pass ρ)) : List (Pass ρ) :=
  let ws := waiting pool
  drain pool.length ws (byKey ((ws.filter fun w => w.count == 0).map Waiting.pass)) []

-- Passes that never come to the queue are taken to be on a circle of dependencies, or behind one.
def arrange (pool : List (Pass ρ)) : Except RegistryError (List (Pass ρ)) :=
  let listed := order pool
  if listed.length = pool.length then .ok listed
  else .error (.circular (sorted ((ids pool).filter fun id => !(ids listed).contains id)))

def resolve (r : Registry ρ) (requested : Option (List String)) :
    Except RegistryError (List (Pass ρ)) :=
  arrange (pool r.passes requested)

-- The run order for all passes but those in `skipped`, which still run where others need them.
def without (r : Registry ρ) (skipped : List String) : Except RegistryError (List (Pass ρ)) :=
  r.resolve (some ((ids r.passes).filter fun id => !skipped.contains id))

end Registry
end PathData
