import PathData.Proofs.ReadyQueue

namespace PathData
namespace Registry

variable {ρ : Type} {pool listed : List (Pass ρ)} {p q : Pass ρ}

theorem Next.unique (distinct : (ids pool).Nodup) (one : Next pool listed p)
    (two : Next pool listed q) : p = q := by
  by_contra different
  have otherId : p.id ≠ q.id := fun same =>
    different (eq_of_id distinct one.member two.member same)
  have before := Pass.precedes_total otherId (one.least q two.member two.new two.ready)
  rw [two.least p one.member one.new one.ready] at before
  cases before

theorem Listing.split {before after : List (Pass ρ)}
    (listing : Listing pool (before ++ p :: after)) :
    Listing pool before ∧ Next pool before p := by
  generalize whole : before ++ p :: after = listed at listing
  induction listing generalizing after with
  | nil => simp at whole
  | @next listed last listing next ih =>
    rcases List.eq_nil_or_concat after with rfl | ⟨front, final, rfl⟩
    · obtain ⟨rfl, same⟩ := List.append_inj' whole rfl
      cases same
      exact ⟨listing, next⟩
    · have front : before ++ p :: front ++ [final] = listed ++ [last] := by simpa using whole
      exact ih (List.append_inj' front rfl).1

theorem Listing.comparable (distinct : (ids pool).Nodup) {more : List (Pass ρ)}
    (one : Listing pool listed) (two : Listing pool more) : listed <+: more ∨ more <+: listed := by
  induction one with
  | nil => exact .inl List.nil_prefix
  | @next listed last _ next ih =>
    rcases ih with ⟨rest, rfl⟩ | shorter
    · cases rest with
      | nil => exact .inr (by simp)
      | cons first rest =>
        obtain rfl := next.unique distinct two.split.2
        exact .inl ⟨rest, by simp⟩
    · exact .inr (shorter.trans (List.prefix_append _ _))

theorem Exhausted.longest (exhausted : Exhausted pool listed) {more : List (Pass ρ)}
    (longer : Listing pool more) (begins : listed <+: more) : listed = more := by
  obtain ⟨rest, rfl⟩ := begins
  cases rest with
  | nil => simp
  | cons first rest =>
    have next := longer.split.2
    exact absurd next.ready (exhausted first next.member next.new)

theorem Listing.congr {pool' : List (Pass ρ)} (same : ∀ p, p ∈ pool ↔ p ∈ pool')
    (listing : Listing pool listed) : Listing pool' listed := by
  have needs {p q : Pass ρ} : Needs pool p q ↔ Needs pool' p q := and_congr_left fun _ => same q
  have ready {listed : List (Pass ρ)} {p : Pass ρ} : Ready pool listed p ↔ Ready pool' listed p :=
    forall_congr' fun _ => imp_congr_left needs
  induction listing with
  | nil => exact .nil
  | next _ next ih =>
    refine ih.next ⟨(same _).1 next.member, next.new, ready.1 next.ready, ?_⟩
    exact fun q member new isReady => next.least q ((same q).2 member) new (ready.2 isReady)

theorem Exhausted.congr {pool' : List (Pass ρ)} (same : ∀ p, p ∈ pool ↔ p ∈ pool')
    (exhausted : Exhausted pool listed) : Exhausted pool' listed := by
  intro p member new ready
  refine exhausted p ((same p).2 member) new fun q needs => ?_
  exact ready q ⟨(same q).1 needs.1, needs.2⟩

theorem order_congr {pool' : List (Pass ρ)} (perm : pool.Perm pool') (distinct : (ids pool).Nodup) :
    order pool = order pool' := by
  have same (p : Pass ρ) : p ∈ pool ↔ p ∈ pool' := perm.mem_iff
  have distinct' : (ids pool').Nodup := (perm.map Pass.id).nodup_iff.1 distinct
  obtain ⟨listing, exhausted⟩ := order_listing distinct
  obtain ⟨listing', exhausted'⟩ := order_listing distinct'
  have listing := listing.congr same
  rcases listing.comparable distinct' listing' with begins | begins
  · exact (exhausted.congr same).longest listing' begins
  · exact (exhausted'.longest listing begins).symm

theorem sorted_congr {names names' : List String} (perm : names.Perm names') :
    sorted names = sorted names' := by
  have inOrder (names : List String) : (sorted names).Pairwise fun a b => ¬ b < a := by
    have ordered : (sorted names).Pairwise fun a b => !decide (b < a) := by
      refine List.pairwise_mergeSort ?_ ?_ names
      · intro a b c one two
        simp only [Bool.not_eq_true', decide_eq_false_iff_not] at one two ⊢
        exact not_lt.2 ((not_lt.1 one).trans (not_lt.1 two))
      · intro a b
        simp only [Bool.or_eq_true, Bool.not_eq_true', decide_eq_false_iff_not, not_lt]
        exact le_total a b
    exact ordered.imp fun before => by simpa using before
  have both : (sorted names).Perm (sorted names') :=
    ((List.mergeSort_perm ..).trans perm).trans (List.mergeSort_perm ..).symm
  exact both.eq_of_pairwise
    (fun a b _ _ one two => le_antisymm (not_lt.1 one) (not_lt.1 two)) (inOrder _) (inOrder _)

theorem arrange_congr {pool' : List (Pass ρ)} (perm : pool.Perm pool')
    (distinct : (ids pool).Nodup) : arrange pool = arrange pool' := by
  unfold arrange
  rw [order_congr perm distinct, perm.length_eq]
  have left := sorted_congr
    ((perm.map Pass.id).filter fun id => !(ids (order pool')).contains id)
  simp only [ids] at left ⊢
  rw [left]

structure RunOrder (passes : List (Pass ρ)) (requested : Option (List String))
    (ps : List (Pass ρ)) : Prop where
  once : ps.Nodup
  members : ∀ p, p ∈ ps ↔ Wanted passes requested p
  after : ∀ before p rest, ps = before ++ p :: rest → ∀ q, Needs passes p q → q ∈ before
  least : ∀ before p rest, ps = before ++ p :: rest →
    ∀ q, Wanted passes requested q → q ∉ before → (∀ d, Needs passes q d → d ∈ before) →
      q = p ∨ p.precedes q = true

theorem arrange_ok (distinct : (ids pool).Nodup) {ps : List (Pass ρ)}
    (arranged : arrange pool = .ok ps) : ps = order pool ∧ ps.Perm pool := by
  unfold arrange at arranged
  dsimp only at arranged
  split at arranged
  · rename_i complete
    cases arranged
    exact ⟨rfl, ((order_listing distinct).1.within distinct).perm complete.ge⟩
  · cases arranged

theorem runOrder_of_resolve {r : Registry ρ} {requested : Option (List String)}
    {ps : List (Pass ρ)} (resolved : r.resolve requested = .ok ps) :
    RunOrder r.passes requested ps := by
  have distinct : (ids (Registry.pool r.passes requested)).Nodup := pool_distinct r.ids_nodup
  have wanted {p : Pass ρ} : p ∈ Registry.pool r.passes requested ↔ Wanted r.passes requested p :=
    mem_pool r.ids_nodup
  obtain ⟨rfl, all⟩ := arrange_ok distinct resolved
  obtain ⟨listing, _⟩ := order_listing distinct
  -- What a wanted pass depends on is wanted too, so it is in the pool.
  have needs {p q : Pass ρ} (isWanted : Wanted r.passes requested p)
      (needed : Needs r.passes p q) : Needs (Registry.pool r.passes requested) p q :=
    ⟨wanted.2 (isWanted.needed needed), needed.2⟩
  refine ⟨(listing.within distinct).nodup, fun p => all.mem_iff.trans wanted, ?_, ?_⟩
  · intro before p rest whole q needed
    have next := (whole ▸ listing).split.2
    exact (next.ready q (needs (wanted.1 next.member) needed)).1
  · intro before p rest whole q isWanted new met
    have next := (whole ▸ listing).split.2
    have ready : Ready (Registry.pool r.passes requested) before q := by
      intro d needed
      have once := (listing.ready (all.mem_iff.2 (wanted.2 isWanted)) d needed).2
      exact ⟨met d ⟨(wanted.1 needed.1).registered, needed.2⟩, once⟩
    by_cases same : q = p
    · exact .inl same
    · right
      refine Pass.precedes_total (fun sameId => same ?_)
        (next.least q (wanted.2 isWanted) new ready)
      exact eq_of_id distinct (wanted.2 isWanted) next.member sameId.symm

theorem resolve_congr {r r' : Registry ρ} {requested requested' : Option (List String)}
    (perm : r.passes.Perm r'.passes) (asked : ∀ id, Asks requested id ↔ Asks requested' id) :
    r.resolve requested = r'.resolve requested' := by
  have distinct : (ids (Registry.pool r.passes requested)).Nodup := pool_distinct r.ids_nodup
  have distinct' : (ids (Registry.pool r'.passes requested')).Nodup := pool_distinct r'.ids_nodup
  refine arrange_congr ?_ distinct
  rw [List.perm_ext_iff_of_nodup distinct.of_map distinct'.of_map]
  intro p
  rw [mem_pool r.ids_nodup, mem_pool r'.ids_nodup]
  exact ⟨.congr (fun _ => perm.mem_iff.1) fun id => (asked id).1,
    .congr (fun _ => perm.mem_iff.2) fun id => (asked id).2⟩

theorem skipped_needed {r : Registry ρ} {skipped : List String} {ps : List (Pass ρ)}
    (resolved : r.without skipped = .ok ps) (member : p ∈ ps) (isSkipped : p.id ∈ skipped) :
    ∃ q ∈ r.passes, q.id ∉ skipped ∧ Relation.TransGen (Needs r.passes) q p := by
  have wanted := ((runOrder_of_resolve resolved).members p).1 member
  have kept {id : String}
      (asks : Asks (some ((ids r.passes).filter fun id => !skipped.contains id)) id) :
      id ∉ skipped := by
    have kept := (List.mem_filter.1 (asks_some.1 asks)).2
    simpa using kept
  rcases wanted.origin with asks | ⟨q, registered, asks, leads⟩
  · exact absurd isSkipped (kept asks)
  · exact ⟨q, registered, kept asks, leads⟩

theorem resolve_stage_first (r : Registry ρ) :
    (∀ requested ps, r.resolve requested = .ok ps → RunOrder r.passes requested ps) ∧
      (∀ (r' : Registry ρ) requested requested', r.passes.Perm r'.passes →
        (∀ id, Asks requested id ↔ Asks requested' id) →
          r.resolve requested = r'.resolve requested') ∧
      ∀ skipped ps, r.without skipped = .ok ps → ∀ p ∈ ps, p.id ∈ skipped →
        ∃ q ∈ r.passes, q.id ∉ skipped ∧ Relation.TransGen (Needs r.passes) q p :=
  ⟨fun _ _ => runOrder_of_resolve, fun _ _ _ => resolve_congr, fun _ _ resolved _ =>
    skipped_needed resolved⟩

-- The stages do not follow the dependencies here, and one name is not registered.
def render : Pass Unit := ⟨"render", .normalize, ["layout", "fonts"], [], ()⟩

def trim : Pass Unit := ⟨"trim", .optimize, [], [], ()⟩

def audit : Pass Unit := ⟨"audit", .optimize, ["render"], [], ()⟩

def layout : Pass Unit := ⟨"layout", .cleanup, [], [], ()⟩

def entangled : Registry Unit where
  passes := [render, trim, audit, layout]
  ids_nodup := by
    have distinct : ["render", "trim", "audit", "layout"].Nodup := by decide
    exact distinct

def disentangled : Registry Unit where
  passes := [layout, audit, trim, render]
  ids_nodup := by
    have distinct : ["layout", "audit", "trim", "render"].Nodup := by decide
    exact distinct

theorem resolve_stage_first_entangled :
    RunOrder entangled.passes (some ["audit", "fonts"]) [layout, render, audit] ∧
      disentangled.resolve (some ["fonts", "audit", "audit"]) = .ok [layout, render, audit] ∧
      entangled.without ["layout", "render"] = .ok [trim, layout, render, audit] ∧
      ∃ q ∈ entangled.passes, q.id ∉ ["layout", "render"] ∧
        Relation.TransGen (Needs entangled.passes) q layout := by
  have resolved : entangled.resolve (some ["audit", "fonts"]) = .ok [layout, render, audit] := by
    cbv
  have kept : entangled.without ["layout", "render"] = .ok [trim, layout, render, audit] := by
    cbv
  obtain ⟨ordered, independent, needed⟩ := resolve_stage_first entangled
  refine ⟨ordered _ _ resolved, ?_, kept, needed _ _ kept layout (by simp) (by simp [layout])⟩
  rw [← resolved]
  refine (independent disentangled _ _ ?_ ?_).symm
  · exact (List.reverse_perm _).symm
  · intro id
    simp [asks_some]
    tauto

end Registry
end PathData
