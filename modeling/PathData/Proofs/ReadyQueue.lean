import PathData.Proofs.Dependencies

namespace PathData

variable {ρ : Type}

namespace Pass

variable {p q r : Pass ρ}

theorem precedes_iff :
    p.precedes q = true ↔
      p.stage.rank < q.stage.rank ∨ p.stage.rank = q.stage.rank ∧ p.id < q.id := by
  simp [precedes]

theorem precedes_false :
    p.precedes q = false ↔
      ¬ p.stage.rank < q.stage.rank ∧ (p.stage.rank = q.stage.rank → ¬ p.id < q.id) := by
  simp [precedes]

theorem precedes_asymm (before : p.precedes q = true) : q.precedes p = false := by
  rw [precedes_iff] at before
  rw [precedes_false]
  rcases before with stage | ⟨stage, id⟩
  · exact ⟨by omega, by omega⟩
  · exact ⟨by omega, fun _ => lt_asymm id⟩

theorem precedes_total (different : p.id ≠ q.id) (notAfter : q.precedes p = false) :
    p.precedes q = true := by
  rw [precedes_false] at notAfter
  obtain ⟨stage, id⟩ := notAfter
  rw [precedes_iff]
  rcases Nat.lt_trichotomy p.stage.rank q.stage.rank with less | same | greater
  · exact .inl less
  · exact .inr ⟨same, lt_of_le_of_ne (not_lt.1 (id same.symm)) different⟩
  · exact absurd greater stage

theorem notAfter_trans (one : q.precedes p = false) (two : r.precedes q = false) :
    r.precedes p = false := by
  rw [precedes_false] at one two ⊢
  obtain ⟨stage, id⟩ := one
  obtain ⟨stage', id'⟩ := two
  refine ⟨by omega, fun same => ?_⟩
  exact not_lt.2 (le_trans (not_lt.1 (id (by omega))) (not_lt.1 (id' (by omega))))

end Pass

namespace Registry

variable {pool listed queue : List (Pass ρ)} {p q : Pass ρ}

-- Everything that `p` depends on has been listed, and none of it is an entry of `p` twice.
def Ready (pool listed : List (Pass ρ)) (p : Pass ρ) : Prop :=
  ∀ q, Needs pool p q → q ∈ listed ∧ p.dependencies.count q.id = 1

theorem Ready.mono {more : List (Pass ρ)} (ready : Ready pool listed p)
    (grown : listed ⊆ more) : Ready pool more p :=
  fun q needs => ⟨grown (ready q needs).1, (ready q needs).2⟩

def left (pool listed : List (Pass ρ)) (p : Pass ρ) : Int :=
  ((p.dependencies.filter fun d => (ids pool).contains d).length : Int) -
    (listed.filter fun q => p.dependencies.contains q.id).length

theorem left_append :
    left pool (listed ++ [q]) p =
      left pool listed p - if p.dependencies.contains q.id then 1 else 0 := by
  unfold left
  rw [List.filter_append, List.length_append, List.filter_singleton]
  cases p.dependencies.contains q.id <;> simp
  omega

structure Within (pool listed : List (Pass ρ)) : Prop where
  distinct : (ids pool).Nodup
  nodup : listed.Nodup
  subset : listed ⊆ pool

theorem Within.ids_nodup (within : Within pool listed) : (ids listed).Nodup :=
  within.nodup.map_on fun _ left _ right =>
    eq_of_id within.distinct (within.subset left) (within.subset right)

theorem Within.length_le (within : Within pool listed) : listed.length ≤ pool.length :=
  (List.subperm_of_subset within.nodup within.subset).length_le

theorem Within.perm (within : Within pool listed) (full : pool.length ≤ listed.length) :
    listed.Perm pool :=
  (List.subperm_of_subset within.nodup within.subset).perm_of_length_le full

theorem left_zero (within : Within pool listed) : left pool listed p = 0 ↔ Ready pool listed p := by
  let entries := p.dependencies.filter fun d => (ids pool).contains d
  let met := ids (listed.filter fun q => p.dependencies.contains q.id)
  have counted : left pool listed p = (entries.length : Int) - met.length := by
    simp [left, entries, met, ids]
  have entry {q : Pass ρ} (needs : Needs pool p q) : q.id ∈ entries := by
    simpa [entries, needs.2] using mem_ids needs.1
  have once : met.Nodup := within.ids_nodup.sublist (List.filter_sublist.map _)
  have among : met ⊆ entries := by
    intro d member
    obtain ⟨q, isMet, rfl⟩ := List.mem_map.1 member
    obtain ⟨listed, named⟩ := List.mem_filter.1 isMet
    exact entry ⟨within.subset listed, List.contains_iff_mem.1 named⟩
  have fits := List.subperm_of_subset once among
  have counts {q : Pass ρ} (needs : Needs pool p q) :
      entries.count q.id = p.dependencies.count q.id :=
    List.count_filter (by simpa using mem_ids needs.1)
  rw [counted]
  constructor
  · intro zero q needs
    have all : met.Perm entries := fits.perm_of_length_le (by omega)
    have named : q.id ∈ met := all.mem_iff.2 (entry needs)
    refine ⟨?_, ?_⟩
    · obtain ⟨q', isMet, same⟩ := List.mem_map.1 named
      have listed := List.mem_of_mem_filter isMet
      exact eq_of_id within.distinct (within.subset listed) needs.1 same ▸ listed
    · rw [← counts needs]
      exact List.count_eq_one_of_mem (all.nodup_iff.1 once) (entry needs)
  · intro ready
    have needed {d : String} (member : d ∈ entries) : ∃ q, Needs pool p q ∧ q.id = d := by
      obtain ⟨member, named⟩ := List.mem_filter.1 member
      obtain ⟨q, inPool, rfl⟩ := List.mem_map.1 (List.contains_iff_mem.1 named)
      exact ⟨q, ⟨inPool, member⟩, rfl⟩
    have different : entries.Nodup := by
      refine List.nodup_iff_count_le_one.2 fun d => ?_
      by_cases member : d ∈ entries
      · obtain ⟨q, needs, rfl⟩ := needed member
        rw [counts needs, (ready q needs).2]
      · simp [List.count_eq_zero_of_not_mem member]
    have all : entries ⊆ met := by
      intro d member
      obtain ⟨q, needs, rfl⟩ := needed member
      refine List.mem_map_of_mem (List.mem_filter.2 ⟨(ready q needs).1, ?_⟩)
      exact List.contains_iff_mem.2 needs.2
    have back := (List.subperm_of_subset different all).length_le
    have forth := fits.length_le
    omega

theorem Ready.append_iff (within : Within pool (listed ++ [q])) :
    Ready pool (listed ++ [q]) p ↔
      left pool listed p = if p.dependencies.contains q.id then 1 else 0 := by
  rw [← left_zero within, left_append]
  omega

def InOrder (queue : List (Pass ρ)) : Prop :=
  queue.Pairwise fun p q => q.precedes p = false

theorem place_perm : (place p queue).Perm (p :: queue) := by
  induction queue with
  | nil => exact .refl _
  | cons q queue ih =>
    unfold place
    split
    · exact .refl _
    · exact (ih.cons q).trans (.swap p q queue)

theorem place_inOrder (sorted : InOrder queue) : InOrder (place p queue) := by
  induction queue with
  | nil => exact List.pairwise_singleton _ p
  | cons q queue ih =>
    obtain ⟨first, later⟩ := List.pairwise_cons.1 sorted
    unfold place
    split
    · rename_i before
      have ahead := Pass.precedes_asymm before
      refine List.pairwise_cons.2 ⟨List.forall_mem_cons.2 ⟨ahead, fun r member => ?_⟩, sorted⟩
      exact Pass.notAfter_trans ahead (first r member)
    · rename_i notBefore
      refine List.pairwise_cons.2 ⟨fun r member => ?_, ih later⟩
      rcases List.mem_cons.1 (place_perm.mem_iff.1 member) with rfl | old
      · exact Bool.eq_false_of_not_eq_true notBefore
      · exact first r old

theorem byKey_spec (ps : List (Pass ρ)) : (byKey ps).Perm ps ∧ InOrder (byKey ps) := by
  have placed (sorted : List (Pass ρ)) (inOrder : InOrder sorted) :
      (ps.foldl (fun sorted p => place p sorted) sorted).Perm (sorted ++ ps) ∧
        InOrder (ps.foldl (fun sorted p => place p sorted) sorted) := by
    induction ps generalizing sorted with
    | nil => simpa using inOrder
    | cons p ps ih =>
      obtain ⟨perm, ordered⟩ := ih (place p sorted) (place_inOrder inOrder)
      exact ⟨(perm.trans (place_perm.append_right ps)).trans List.perm_middle.symm, ordered⟩
  exact placed [] List.Pairwise.nil

theorem byKey_perm (ps : List (Pass ρ)) : (byKey ps).Perm ps :=
  (byKey_spec ps).1

theorem byKey_inOrder (ps : List (Pass ρ)) : InOrder (byKey ps) :=
  (byKey_spec ps).2

-- Who has `id` as the last entry that it waits for.
def Freed (id : String) (count : Pass ρ → Int) (p : Pass ρ) : Bool :=
  p.dependencies.contains id && count p == 1

theorem freed_iff {id : String} {count : Pass ρ → Int} :
    Freed id count p = true ↔ p.dependencies.contains id = true ∧ count p = 1 := by
  simp [Freed]

theorem release_waiting {id : String} {count : Pass ρ → Int} {part : List (Pass ρ)} :
    (release id (part.map fun p => ⟨p, count p⟩) queue).1 =
      part.map fun p => ⟨p, count p - if p.dependencies.contains id then 1 else 0⟩ := by
  induction part generalizing queue with
  | nil => rfl
  | cons p part ih =>
    simp only [List.map_cons, release]
    split <;> simp [ih]

theorem release_queue {id : String} {count : Pass ρ → Int} {part : List (Pass ρ)} :
    (release id (part.map fun p => ⟨p, count p⟩) queue).2.Perm
      (queue ++ part.filter (Freed id count)) := by
  induction part generalizing queue with
  | nil => simp [release]
  | cons p part ih =>
    simp only [List.map_cons, release]
    split
    · rename_i named
      split
      · rename_i last
        rw [List.filter_cons_of_pos (freed_iff.2 ⟨named, by omega⟩)]
        refine ih.trans ?_
        simpa using (byKey_perm (queue ++ [p])).append_right (part.filter (Freed id count))
      · rename_i notLast
        have held : ¬ Freed id count p = true := by
          rw [freed_iff]
          omega
        rw [List.filter_cons_of_neg held]
        exact ih
    · rename_i notNamed
      rw [List.filter_cons_of_neg fun freed => notNamed (freed_iff.1 freed).1]
      exact ih

theorem release_inOrder {id : String} {ws : List (Waiting ρ)} (sorted : InOrder queue) :
    InOrder (release id ws queue).2 := by
  induction ws generalizing queue with
  | nil => exact sorted
  | cons w ws ih =>
    simp only [release]
    split
    · split
      · exact ih (byKey_inOrder _)
      · exact ih sorted
    · exact ih sorted

structure Settled (pool listed : List (Pass ρ)) (ws : List (Waiting ρ)) (queue : List (Pass ρ)) :
    Prop where
  counters : ws = pool.map fun p => ⟨p, left pool listed p⟩
  queued : ∀ p, p ∈ queue ↔ p ∈ pool ∧ p ∉ listed ∧ Ready pool listed p
  once : queue.Nodup
  sorted : InOrder queue

theorem waiting_eq : waiting pool = pool.map fun p => ⟨p, left pool [] p⟩ := by
  simp [waiting, left]

theorem start_settled (distinct : (ids pool).Nodup) :
    Settled pool [] (waiting pool)
      (byKey (((waiting pool).filter fun w => w.count == 0).map Waiting.pass)) := by
  have first : ((waiting pool).filter fun w => w.count == 0).map Waiting.pass =
      pool.filter fun p => left pool [] p == 0 := by
    rw [waiting_eq, List.filter_map, List.map_map]
    exact List.map_id _
  have within : Within pool ([] : List (Pass ρ)) :=
    ⟨distinct, List.nodup_nil, List.nil_subset _⟩
  rw [first]
  refine ⟨waiting_eq, fun p => ?_, ?_, byKey_inOrder _⟩
  · rw [(byKey_perm _).mem_iff, List.mem_filter, beq_iff_eq, left_zero within]
    simp
  · exact (byKey_perm _).nodup_iff.2 (distinct.of_map.filter _)

-- `p` can go next, and nothing that can precedes it.
structure Next (pool listed : List (Pass ρ)) (p : Pass ρ) : Prop where
  member : p ∈ pool
  new : p ∉ listed
  ready : Ready pool listed p
  least : ∀ q ∈ pool, q ∉ listed → Ready pool listed q → q.precedes p = false

inductive Listing (pool : List (Pass ρ)) : List (Pass ρ) → Prop where
  | nil : Listing pool []
  | next {listed : List (Pass ρ)} {p : Pass ρ} : Listing pool listed → Next pool listed p →
      Listing pool (listed ++ [p])

theorem Next.within (next : Next pool listed p) (within : Within pool listed) :
    Within pool (listed ++ [p]) where
  distinct := within.distinct
  nodup := List.nodup_append.2 ⟨within.nodup, List.nodup_singleton _, fun _ old _ new same =>
    next.new (List.mem_singleton.1 new ▸ same ▸ old)⟩
  subset := List.append_subset.2 ⟨within.subset, by simpa using next.member⟩

theorem Listing.within (distinct : (ids pool).Nodup) (listing : Listing pool listed) :
    Within pool listed := by
  induction listing with
  | nil => exact ⟨distinct, List.nodup_nil, List.nil_subset _⟩
  | next _ next ih => exact next.within ih

theorem Listing.ready (listing : Listing pool listed) (member : p ∈ listed) :
    Ready pool listed p := by
  induction listing with
  | nil => cases member
  | @next listed last _ next ih =>
    have grown : listed ⊆ listed ++ [last] := List.subset_append_left _ _
    rcases List.mem_append.1 member with old | new
    · exact (ih old).mono grown
    · obtain rfl := List.mem_singleton.1 new
      exact next.ready.mono grown

theorem Settled.next {ws : List (Waiting ρ)} (settled : Settled pool listed ws (p :: queue)) :
    Next pool listed p := by
  obtain ⟨member, new, ready⟩ := (settled.queued p).1 List.mem_cons_self
  refine ⟨member, new, ready, fun q member new ready => ?_⟩
  rcases List.mem_cons.1 ((settled.queued q).2 ⟨member, new, ready⟩) with rfl | later
  · simp [Pass.precedes]
  · exact List.rel_of_pairwise_cons settled.sorted later

theorem Settled.release {ws : List (Waiting ρ)} (listing : Listing pool listed)
    (distinct : (ids pool).Nodup) (settled : Settled pool listed ws (p :: queue)) :
    Settled pool (listed ++ [p]) (release p.id ws queue).1 (release p.id ws queue).2 := by
  have within := listing.within distinct
  have within' := settled.next.within within
  obtain ⟨rfl, queued, once, sorted⟩ := settled
  obtain ⟨absent, once⟩ := List.nodup_cons.1 once
  have released (q : Pass ρ) :
      q ∈ (Registry.release p.id (pool.map fun q => ⟨q, left pool listed q⟩) queue).2 ↔
        q ∈ queue ∨ q ∈ pool ∧ q.dependencies.contains p.id = true ∧ left pool listed q = 1 := by
    rw [release_queue.mem_iff, List.mem_append, List.mem_filter, freed_iff]
  have waits {q : Pass ρ} (last : left pool listed q = 1) : ¬ Ready pool listed q := by
    rw [← left_zero within]
    omega
  have inQueue {q : Pass ρ} (member : q ∈ queue) := (queued q).1 (List.mem_cons_of_mem _ member)
  refine ⟨?_, fun q => ?_, ?_, release_inOrder (List.pairwise_cons.1 sorted).2⟩
  · rw [release_waiting]
    simp only [left_append]
  · rw [released, List.mem_append, List.mem_singleton, not_or]
    constructor
    · rintro (member | ⟨member, named, last⟩)
      · obtain ⟨inPool, new, ready⟩ := inQueue member
        refine ⟨inPool, ⟨new, ?_⟩, ready.mono (List.subset_append_left _ _)⟩
        rintro rfl
        exact absent member
      · refine ⟨member, ⟨fun old => ?_, ?_⟩, ?_⟩
        · exact waits last (listing.ready old)
        · rintro rfl
          exact waits last ((queued q).1 List.mem_cons_self).2.2
        · rw [Ready.append_iff within', if_pos named]
          exact last
    · rintro ⟨member, ⟨new, other⟩, ready⟩
      rw [Ready.append_iff within'] at ready
      split at ready
      · rename_i named
        exact .inr ⟨member, named, ready⟩
      · have queuedNow := (queued q).2 ⟨member, new, (left_zero within).1 ready⟩
        exact .inl ((List.mem_cons.1 queuedNow).resolve_left other)
  · refine release_queue.nodup_iff.2 (List.nodup_append.2 ⟨once, distinct.of_map.filter _, ?_⟩)
    rintro q old _ new rfl
    exact waits (freed_iff.1 (List.mem_filter.1 new).2).2 (inQueue old).2.2

def Exhausted (pool listed : List (Pass ρ)) : Prop :=
  ∀ p ∈ pool, p ∉ listed → ¬ Ready pool listed p

theorem drain_listing {fuel : Nat} {ws : List (Waiting ρ)} (distinct : (ids pool).Nodup)
    (listing : Listing pool listed) (settled : Settled pool listed ws queue)
    (enough : pool.length ≤ fuel + listed.length) :
    Listing pool (drain fuel ws queue listed) ∧ Exhausted pool (drain fuel ws queue listed) := by
  induction fuel generalizing listed ws queue with
  | zero =>
    have full : listed.Perm pool := (listing.within distinct).perm (by omega)
    exact ⟨listing, fun p member new => absurd (full.mem_iff.2 member) new⟩
  | succ fuel ih =>
    cases queue with
    | nil =>
      refine ⟨listing, fun p member new ready => ?_⟩
      cases (settled.queued p).2 ⟨member, new, ready⟩
    | cons p queue =>
      refine ih (listing.next settled.next) (settled.release listing distinct) ?_
      rw [List.length_append, List.length_singleton]
      omega

theorem order_listing (distinct : (ids pool).Nodup) :
    Listing pool (order pool) ∧ Exhausted pool (order pool) :=
  drain_listing distinct .nil (start_settled distinct) (by simp)

end Registry
end PathData
