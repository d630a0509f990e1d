import PathData.Proofs.RunOrder

namespace PathData
namespace Registry

open Relation (ReflTransGen TransGen)

variable {ρ : Type} {pool listed passes : List (Pass ρ)} {p q : Pass ρ}

-- On a circle of dependencies, or waiting for a second run of a pass.
def Knotted (passes : List (Pass ρ)) (p : Pass ρ) : Prop :=
  TransGen (Needs passes) p p ∨ ∃ q, Needs passes p q ∧ 1 < p.dependencies.count q.id

-- Knotted, or depending on something that is.
def Stuck (passes : List (Pass ρ)) (p : Pass ρ) : Prop :=
  ∃ q, ReflTransGen (Needs passes) p q ∧ Knotted passes q

theorem Listing.reach (listing : Listing pool listed) (member : p ∈ listed)
    (leads : ReflTransGen (Needs pool) p q) : q ∈ listed := by
  induction leads with
  | refl => exact member
  | tail _ needs ih => exact (listing.ready ih _ needs).1

-- A circle through a pass would come back to it from passes that were listed before it.
theorem Listing.untied (listing : Listing pool listed) (member : p ∈ listed) :
    ¬ Knotted pool p := by
  obtain ⟨before, after, rfl⟩ := List.append_of_mem member
  obtain ⟨earlier, next⟩ := listing.split
  rintro (circle | ⟨q, needs, twice⟩)
  · obtain ⟨d, needs, back⟩ := TransGen.head'_iff.1 circle
    exact next.new (earlier.reach (next.ready d needs).1 back)
  · have once := (next.ready q needs).2
    omega

theorem Listing.unstuck (listing : Listing pool listed) (member : p ∈ listed) :
    ¬ Stuck pool p := by
  rintro ⟨q, leads, knotted⟩
  exact listing.untied (listing.reach member leads) knotted

theorem member_of_reach (member : p ∈ pool) (leads : ReflTransGen (Needs pool) p q) :
    q ∈ pool := by
  cases leads with
  | refl => exact member
  | tail _ needs => exact needs.1

-- Below a pass that is not stuck, dependencies only go down, so everything there gets listed.
theorem Exhausted.listed_of_unstuck (exhausted : Exhausted pool listed) (member : p ∈ pool)
    (unstuck : ¬ Stuck pool p) : p ∈ listed := by
  let Below := {q : Pass ρ // ReflTransGen (Needs pool) p q}
  let Lower (a b : Below) : Prop := TransGen (Needs pool) b.1 a.1
  have untied (b : Below) : ¬ Knotted pool b.1 := fun knotted => unstuck ⟨b.1, b.2, knotted⟩
  have finite : Finite Below :=
    Set.Finite.subset (List.finite_toSet pool) fun _ leads => member_of_reach member leads
  have : Std.Irrefl Lower := ⟨fun b circle => untied b (.inl circle)⟩
  have : IsTrans Below Lower := ⟨fun _ _ _ one two => two.trans one⟩
  have all (b : Below) : b.1 ∈ listed := by
    induction b using (Finite.wellFounded_of_trans_of_irrefl Lower).induction with
    | _ b ih =>
      by_contra new
      refine exhausted b.1 (member_of_reach member b.2) new fun d needs => ⟨?_, ?_⟩
      · exact ih ⟨d, b.2.tail needs⟩ (.single needs)
      · have some := List.count_pos_iff.2 needs.2
        have single : ¬ 1 < b.1.dependencies.count d.id :=
          fun twice => untied b (.inr ⟨d, needs, twice⟩)
        omega
  exact all ⟨p, .refl⟩

theorem mem_order_iff (distinct : (ids pool).Nodup) (member : p ∈ pool) :
    p ∈ order pool ↔ ¬ Stuck pool p := by
  obtain ⟨listing, exhausted⟩ := order_listing distinct
  exact ⟨listing.unstuck, exhausted.listed_of_unstuck member⟩

section Arrange

variable {e : RegistryError}

theorem arrange_error (failed : arrange pool = .error e) :
    (order pool).length ≠ pool.length ∧
      e = .circular (sorted ((ids pool).filter fun id => !(ids (order pool)).contains id)) := by
  unfold arrange at failed
  dsimp only at failed
  split at failed
  · cases failed
  · rename_i short
    cases failed
    exact ⟨short, rfl⟩

theorem arrange_fails_iff (distinct : (ids pool).Nodup) :
    (∃ e, arrange pool = .error e) ↔ ∃ p ∈ pool, Stuck pool p := by
  have within := (order_listing distinct).1.within distinct
  constructor
  · rintro ⟨e, failed⟩
    by_contra free
    have all : pool ⊆ order pool := fun p member =>
      (mem_order_iff distinct member).2 fun stuck => free ⟨p, member, stuck⟩
    have more := (List.subperm_of_subset distinct.of_map all).length_le
    exact (arrange_error failed).1 (le_antisymm within.length_le more)
  · rintro ⟨p, member, stuck⟩
    cases arranged : arrange pool with
    | error e => exact ⟨e, rfl⟩
    | ok ps =>
      obtain ⟨rfl, all⟩ := arrange_ok distinct arranged
      exact absurd stuck ((mem_order_iff distinct member).1 (all.mem_iff.2 member))

theorem arrange_names (distinct : (ids pool).Nodup) (failed : arrange pool = .error e) :
    ∃ names, e = .circular names ∧ names.Nodup ∧
      ∀ id, id ∈ names ↔ ∃ p ∈ pool, p.id = id ∧ Stuck pool p := by
  have within := (order_listing distinct).1.within distinct
  obtain ⟨_, rfl⟩ := arrange_error failed
  refine ⟨_, rfl, ?_, fun id => ?_⟩
  · exact (List.mergeSort_perm ..).nodup_iff.2 (distinct.filter _)
  · unfold sorted
    rw [(List.mergeSort_perm ..).mem_iff, List.mem_filter]
    have left {p : Pass ρ} (member : p ∈ pool) :
        (!(ids (order pool)).contains p.id) = true ↔ Stuck pool p := by
      rw [Bool.not_eq_true', ← Bool.not_eq_true, List.contains_iff_mem,
        mem_ids_iff distinct within.subset member, mem_order_iff distinct member, not_not]
    constructor
    · rintro ⟨named, missing⟩
      obtain ⟨p, member, rfl⟩ := List.mem_map.1 named
      exact ⟨p, member, rfl, (left member).1 missing⟩
    · rintro ⟨p, member, rfl, stuck⟩
      exact ⟨mem_ids member, (left member).2 stuck⟩

end Arrange

section Requests

variable {requested : Option (List String)}

theorem needs_pool (distinct : (ids passes).Nodup) (wanted : Wanted passes requested p) :
    Needs (Registry.pool passes requested) p q ↔ Needs passes p q := by
  constructor
  · exact fun needs => ⟨((mem_pool distinct).1 needs.1).registered, needs.2⟩
  · exact fun needs => ⟨(mem_pool distinct).2 (wanted.needed needs), needs.2⟩

theorem reach_pool (distinct : (ids passes).Nodup) (wanted : Wanted passes requested p) :
    ReflTransGen (Needs (Registry.pool passes requested)) p q ↔
      ReflTransGen (Needs passes) p q := by
  constructor
  · intro leads
    exact leads.lift id fun _ _ needs => ⟨((mem_pool distinct).1 needs.1).registered, needs.2⟩
  · intro leads
    induction leads with
    | refl => exact .refl
    | tail leads needs ih =>
      exact ih.tail ((needs_pool distinct (wanted.reach leads)).2 needs)

theorem knotted_pool (distinct : (ids passes).Nodup) (wanted : Wanted passes requested p) :
    Knotted (Registry.pool passes requested) p ↔ Knotted passes p := by
  refine or_congr ?_ (exists_congr fun q => and_congr_left fun _ => needs_pool distinct wanted)
  rw [TransGen.head'_iff, TransGen.head'_iff]
  refine exists_congr fun d => ?_
  rw [needs_pool distinct wanted]
  exact and_congr_right fun needs => reach_pool distinct (wanted.needed needs)

theorem stuck_pool (distinct : (ids passes).Nodup) (wanted : Wanted passes requested p) :
    Stuck (Registry.pool passes requested) p ↔ Stuck passes p := by
  refine exists_congr fun q => ?_
  rw [reach_pool distinct wanted]
  exact and_congr_right fun leads => knotted_pool distinct (wanted.reach leads)

theorem resolve_fails (r : Registry ρ) (requested : Option (List String)) :
    ((∃ e, r.resolve requested = .error e) ↔
        ∃ p, Wanted r.passes requested p ∧ Knotted r.passes p) ∧
      ∀ e, r.resolve requested = .error e → ∃ names, e = .circular names ∧ names.Nodup ∧
        ∀ id, id ∈ names ↔ ∃ p, Wanted r.passes requested p ∧ p.id = id ∧ Stuck r.passes p := by
  have distinct : (ids (Registry.pool r.passes requested)).Nodup := pool_distinct r.ids_nodup
  have wanted {p : Pass ρ} : p ∈ Registry.pool r.passes requested ↔ Wanted r.passes requested p :=
    mem_pool r.ids_nodup
  refine ⟨(arrange_fails_iff distinct).trans ⟨?_, ?_⟩, fun e failed => ?_⟩
  · rintro ⟨p, member, stuck⟩
    obtain ⟨q, leads, knotted⟩ := (stuck_pool r.ids_nodup (wanted.1 member)).1 stuck
    exact ⟨q, (wanted.1 member).reach leads, knotted⟩
  · rintro ⟨p, isWanted, knotted⟩
    exact ⟨p, wanted.2 isWanted,
      (stuck_pool r.ids_nodup isWanted).2 ⟨p, .refl, knotted⟩⟩
  · obtain ⟨names, circular, once, blamed⟩ := arrange_names distinct failed
    refine ⟨names, circular, once, fun id => (blamed id).trans (exists_congr fun p => ?_)⟩
    rw [wanted]
    exact and_congr_right fun isWanted =>
      and_congr_right fun _ => stuck_pool r.ids_nodup isWanted

end Requests

def circling : Registry Unit where
  passes := [⟨"b", .normalize, ["a"], [], ()⟩, ⟨"a", .optimize, ["c"], [], ()⟩,
    ⟨"c", .optimize, ["d", "a", "gone"], [], ()⟩, ⟨"d", .optimize, [], [], ()⟩]
  ids_nodup := by
    have distinct : ["b", "a", "c", "d"].Nodup := by decide
    exact distinct

theorem resolve_fails_circling :
    circling.resolve (some ["b"]) = .error (.circular ["a", "b", "c"]) ∧
      ∃ names, RegistryError.circular ["a", "b", "c"] = .circular names ∧ names.Nodup ∧
        ∀ id, id ∈ names ↔ ∃ p, Wanted circling.passes (some ["b"]) p ∧ p.id = id ∧
          Stuck circling.passes p := by
  have failed : circling.resolve (some ["b"]) = .error (.circular ["a", "b", "c"]) := by
    cbv
  exact ⟨failed, (resolve_fails circling (some ["b"])).2 _ failed⟩

-- One pass that depends on another, and says so twice.
def repeating : Registry Unit where
  passes := [⟨"a", .optimize, [], [], ()⟩, ⟨"b", .optimize, ["a", "a"], [], ()⟩]
  ids_nodup := by
    have distinct : ["a", "b"].Nodup := by decide
    exact distinct

-- There is no circle, but there is no run order either.
theorem resolve_fails_repeating :
    (∀ p, ¬ TransGen (Needs repeating.passes) p p) ∧
      repeating.resolve none = .error (.circular ["b"]) := by
  refine ⟨fun p circle => ?_, ?_⟩
  · obtain ⟨d, ⟨_, entry⟩, _⟩ := TransGen.head'_iff.1 circle
    obtain ⟨c, leads, member, named⟩ := TransGen.tail'_iff.1 circle
    have source := member_of_reach member leads
    simp only [repeating, List.mem_cons, List.not_mem_nil, or_false] at member source
    -- Only the second pass depends on anything, and nothing depends on it.
    rcases member with rfl | rfl
    · simp at entry
    · rcases source with rfl | rfl <;> simp at named
  · cbv

end Registry
end PathData
