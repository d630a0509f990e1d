import Mathlib
import PathData.Registry

namespace PathData
namespace Registry

variable {ρ : Type} {passes : List (Pass ρ)} {p q : Pass ρ} {requested : Option (List String)}

def Needs (passes : List (Pass ρ)) (p q : Pass ρ) : Prop :=
  q ∈ passes ∧ q.id ∈ p.dependencies

-- A missing request asks for everything.
def Asks (requested : Option (List String)) (id : String) : Prop :=
  ∀ names, requested = some names → id ∈ names

inductive Wanted (passes : List (Pass ρ)) (requested : Option (List String)) : Pass ρ → Prop where
  | asked {p : Pass ρ} : p ∈ passes → Asks requested p.id → Wanted passes requested p
  | needed {p q : Pass ρ} : Wanted passes requested p → Needs passes p q →
      Wanted passes requested q

theorem Wanted.registered (wanted : Wanted passes requested p) : p ∈ passes := by
  cases wanted with
  | asked registered _ => exact registered
  | needed _ needs => exact needs.1

theorem Wanted.reach (wanted : Wanted passes requested p)
    (reaches : Relation.ReflTransGen (Needs passes) p q) : Wanted passes requested q := by
  induction reaches with
  | refl => exact wanted
  | tail _ needs ih => exact ih.needed needs

theorem Wanted.origin (wanted : Wanted passes requested p) :
    Asks requested p.id ∨
      ∃ q ∈ passes, Asks requested q.id ∧ Relation.TransGen (Needs passes) q p := by
  induction wanted with
  | asked _ asks => exact .inl asks
  | @needed p q wanted needs ih =>
    refine .inr ?_
    rcases ih with asks | ⟨origin, registered, asks, leads⟩
    · exact ⟨p, wanted.registered, asks, .single needs⟩
    · exact ⟨origin, registered, asks, leads.tail needs⟩

theorem Wanted.congr {passes' : List (Pass ρ)} {requested' : Option (List String)}
    (registered : ∀ p, p ∈ passes → p ∈ passes')
    (asked : ∀ id, Asks requested id → Asks requested' id) (wanted : Wanted passes requested p) :
    Wanted passes' requested' p := by
  induction wanted with
  | asked member asks => exact .asked (registered _ member) (asked _ asks)
  | needed _ needs ih => exact ih.needed ⟨registered _ needs.1, needs.2⟩

theorem eq_of_id {xs : List (Pass ρ)} (distinct : (ids xs).Nodup) (left : p ∈ xs) (right : q ∈ xs)
    (same : p.id = q.id) : p = q :=
  List.inj_on_of_nodup_map distinct left right same

theorem mem_ids {xs : List (Pass ρ)} (member : p ∈ xs) : p.id ∈ ids xs :=
  List.mem_map_of_mem member

theorem mem_ids_iff {xs : List (Pass ρ)} (distinct : (ids passes).Nodup) (within : xs ⊆ passes)
    (member : p ∈ passes) : p.id ∈ ids xs ↔ p ∈ xs := by
  constructor
  · intro named
    obtain ⟨q, listed, same⟩ := List.mem_map.1 named
    exact eq_of_id distinct (within listed) member same ▸ listed
  · exact mem_ids

section Names

variable {names stack expanded : List String} {id d : String}

theorem mem_dependenciesOf (listed : d ∈ dependenciesOf passes id) :
    ∃ p ∈ passes, p.id = id ∧ d ∈ p.dependencies := by
  unfold dependenciesOf at listed
  split at listed
  · rename_i p found
    exact ⟨p, List.mem_of_find?_eq_some found, by simpa using List.find?_some found, listed⟩
  · cases listed

theorem dependenciesOf_id (distinct : (ids passes).Nodup) (member : p ∈ passes) :
    dependenciesOf passes p.id = p.dependencies := by
  unfold dependenciesOf
  split
  · rename_i q found
    have same : q.id = p.id := by simpa using List.find?_some found
    rw [eq_of_id distinct (List.mem_of_find?_eq_some found) member same]
  · rename_i missing
    exact absurd (List.find?_eq_none.1 missing p member) (by simp)

theorem expand_within {S : String → Prop}
    (passed : ∀ id, S id → ∀ d ∈ dependenciesOf passes id, S d) {fuel : Nat}
    (stacked : ∀ id ∈ stack, S id) (known : ∀ id ∈ expanded, S id) :
    ∀ id ∈ expand passes fuel stack expanded, S id := by
  induction fuel generalizing stack expanded with
  | zero => exact known
  | succ fuel ih =>
    cases stack with
    | nil => exact known
    | cons id stack =>
      obtain ⟨top, stacked⟩ := List.forall_mem_cons.1 stacked
      unfold expand
      split
      · exact ih stacked known
      · refine ih ?_ (List.forall_mem_cons.2 ⟨top, known⟩)
        intro d onStack
        rcases List.mem_append.1 onStack with new | old
        · exact passed id top d (List.mem_reverse.1 new)
        · exact stacked d old

def Leads (passes : List (Pass ρ)) (sources targets : List String) : Prop :=
  ∀ id ∈ sources, ∀ d ∈ dependenciesOf passes id, d ∈ targets

-- How many names can still come onto the stack.
def debt (passes : List (Pass ρ)) (expanded : List String) : Nat :=
  ((passes.filter fun p => !expanded.contains p.id).flatMap Pass.dependencies).length

theorem dependenciesOf_cons :
    dependenciesOf (p :: passes) id =
      if p.id = id then p.dependencies else dependenciesOf passes id := by
  unfold dependenciesOf
  by_cases here : p.id = id
  · simp [here]
  · rw [List.find?_cons_of_neg (by simpa using here), if_neg here]

theorem debt_cons :
    debt (p :: passes) expanded =
      (if p.id ∈ expanded then 0 else p.dependencies.length) + debt passes expanded := by
  unfold debt
  rw [List.filter_cons]
  by_cases met : p.id ∈ expanded <;> simp [met]

theorem debt_paid (new : id ∉ expanded) :
    (dependenciesOf passes id).length + debt passes (id :: expanded) ≤ debt passes expanded := by
  induction passes with
  | nil => simp [dependenciesOf, debt]
  | cons p passes ih =>
    rw [dependenciesOf_cons, debt_cons, debt_cons]
    by_cases here : p.id = id
    · rw [if_pos here, if_pos (here ▸ List.mem_cons_self), if_neg (here ▸ new)]
      omega
    · have same : p.id ∈ id :: expanded ↔ p.id ∈ expanded := by simp [here]
      simp only [here, same, if_false]
      omega

theorem expand_closed {fuel : Nat} (enough : stack.length + debt passes expanded ≤ fuel)
    (known : Leads passes expanded (stack ++ expanded)) :
    stack ++ expanded ⊆ expand passes fuel stack expanded ∧
      Leads passes (expand passes fuel stack expanded) (expand passes fuel stack expanded) := by
  induction fuel generalizing stack expanded with
  | zero =>
    obtain rfl : stack = [] := List.length_eq_zero_iff.1 (by omega)
    exact ⟨List.Subset.refl _, known⟩
  | succ fuel ih =>
    cases stack with
    | nil => exact ⟨List.Subset.refl _, known⟩
    | cons id stack =>
      rw [List.length_cons] at enough
      unfold expand
      split
      · rename_i met
        have met : id ∈ expanded := List.contains_iff_mem.1 met
        have covered : id :: stack ++ expanded ⊆ stack ++ expanded :=
          List.cons_subset.2 ⟨List.mem_append_right _ met, List.Subset.refl _⟩
        obtain ⟨keeps, closed⟩ := ih (by omega) fun name listed d leads =>
          covered (known name listed d leads)
        exact ⟨List.Subset.trans covered keeps, closed⟩
      · rename_i unmet
        have new : id ∉ expanded := fun met => unmet (List.contains_iff_mem.2 met)
        have paid : _ ≤ debt passes expanded := debt_paid new
        have covered : id :: stack ++ expanded ⊆
            ((dependenciesOf passes id).reverse ++ stack) ++ id :: expanded := by
          intro name listed
          simp only [List.cons_append, List.mem_cons, List.mem_append] at listed ⊢
          tauto
        have known : Leads passes (id :: expanded)
            (((dependenciesOf passes id).reverse ++ stack) ++ id :: expanded) := by
          refine List.forall_mem_cons.2 ⟨?_, fun name listed d leads =>
            covered (known name listed d leads)⟩
          intro d leads
          exact List.mem_append_left _ (List.mem_append_left _ (List.mem_reverse.2 leads))
        have enough : ((dependenciesOf passes id).reverse ++ stack).length +
            debt passes (id :: expanded) ≤ fuel := by
          rw [List.length_append, List.length_reverse]
          omega
        obtain ⟨keeps, closed⟩ := ih enough known
        exact ⟨List.Subset.trans covered keeps, closed⟩

end Names

theorem asks_some {names : List String} {id : String} : Asks (some names) id ↔ id ∈ names :=
  ⟨fun asks => asks names rfl, fun member _ same => Option.some.inj same ▸ member⟩

theorem mem_pool (distinct : (ids passes).Nodup) :
    p ∈ pool passes requested ↔ Wanted passes requested p := by
  cases requested with
  | none => exact ⟨fun member => .asked member nofun, fun wanted => wanted.registered⟩
  | some names =>
    have enough : names.reverse.length + debt passes [] ≤
        names.length + (passes.flatMap Pass.dependencies).length := by
      simp [debt]
    obtain ⟨keeps, closed⟩ := expand_closed enough nofun
    simp only [pool, List.mem_filter, List.contains_iff_mem]
    constructor
    · rintro ⟨registered, met⟩
      -- Every name that is met is one of the request, or listed by a wanted pass.
      let Known (id : String) :=
        id ∈ names ∨ ∃ q, Wanted passes (some names) q ∧ id ∈ q.dependencies
      have wanted {q : Pass ρ} (registered : q ∈ passes) (known : Known q.id) :
          Wanted passes (some names) q := by
        rcases known with asked | ⟨source, wanted, needs⟩
        · exact .asked registered (asks_some.2 asked)
        · exact wanted.needed ⟨registered, needs⟩
      have passed (id : String) (known : Known id) (d : String)
          (leads : d ∈ dependenciesOf passes id) : Known d := by
        obtain ⟨q, registered, rfl, listed⟩ := mem_dependenciesOf leads
        exact .inr ⟨q, wanted registered known, listed⟩
      have stacked (id : String) (member : id ∈ names.reverse) : Known id :=
        .inl (List.mem_reverse.1 member)
      exact wanted registered (expand_within passed stacked (List.forall_mem_nil _) p.id met)
    · intro wanted
      refine ⟨wanted.registered, ?_⟩
      induction wanted with
      | asked _ asks =>
        exact keeps (List.mem_append_left _ (List.mem_reverse.2 (asks_some.1 asks)))
      | needed wanted needs ih =>
        refine closed _ ih _ ?_
        rw [dependenciesOf_id distinct wanted.registered]
        exact needs.2

theorem pool_distinct (distinct : (ids passes).Nodup) :
    (ids (pool passes requested)).Nodup := by
  cases requested with
  | none => exact distinct
  | some names => exact distinct.sublist (List.filter_sublist.map _)

end Registry
end PathData
