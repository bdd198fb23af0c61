import DocSearch.Pipeline.Index
import DocSearch.Pipeline.Invalidation

/-!
# Pipeline — Freshness

How old the engine read behind an answer may be.  An answer under a generation was read after
everything that the increments up to that generation stand for; what that is depends on the engine:
for the in-memory one the bulk call, for one that shows its writes at a refresh, a refresh after it.

* `stamp_execute`: the read behind an answer is at the step the answer is stamped with.
* `searches_see`: a search that starts after a worker has returned sees what the worker changed.
* `search_after_bulk`: for the in-memory engine, in every run that keeps the generation counters.
-/

namespace DocSearch

open CacheKeys InMemoryEngine SearchService IndexingProcessor Interleaving

namespace Pipeline

variable {K : Type} {E : SearchEngine K}

/-- A search that started after a worker had returned was answered from an engine read that has
seen the bulk call of the worker. -/
def SearchesSee (seen : World E → ℕ → ℕ → Prop) (w : World E) : Prop :=
  ∀ returnedAt ops succeeded bulkAt, (returnedAt, Entry.processed ops succeeded bulkAt) ∈ w.log →
    ∀ op ∈ ops, op.documentId ∈ succeeded →
      ∀ answeredAt startedAt g a,
        (answeredAt, Entry.searched op.tenantId startedAt g (.ok a)) ∈ w.log →
        returnedAt < startedAt → seen w bulkAt a.readAt

/-- The answer has seen every bulk call an increment up to its generation was recorded for. -/
def Sees (seen : World E → ℕ → ℕ → Prop) (w : World E) (t : Str) (g : ℕ) (a : Answer K) : Prop :=
  g ≤ w.generation t ∧
    ∀ at' g' b, (at', Entry.bumped t g' b) ∈ w.log → g' ≤ g → seen w b a.readAt

/-- What an engine read has to satisfy to see a bulk call. -/
structure SeenRules (P : Restriction (World E) (Task K) Request Disturbance)
    (seen : World E → ℕ → ℕ → Prop) : Prop where
  stable : ∀ {w w' b r}, Continues w w' → seen w b r → seen w' b r
  execute : ∀ {w r s q g f at' g' b}, (∀ a e, (a, e) ∈ w.log → a < w.clock) →
    P.resume w (.search r s q (.execute g f)) → (at', Entry.bumped q.tenantId g' b) ∈ w.log →
    g' ≤ g → b < w.clock → seen w b w.clock

section Rules

variable {rt : Runtime K} {P : Restriction (World E) (Task K) Request Disturbance}
  {seen : World E → ℕ → ℕ → Prop}

/-- **The stamp.**  An answer that is stamped with a step is what the engine of that step gives. -/
theorem stamp_execute {w : World E} {q : SearchQuery} {a : Answer K} (h : execute w q = .ok a) :
    a.readAt = w.clock ∧
      ∃ result, E.search w.engine q = .ok result ∧ a.response = toResponse q result := by
  unfold execute at h
  split at h
  · rename_i result hresult
    cases h
    exact ⟨rfl, result, hresult, rfl⟩
  · cases h
  · cases h

theorem sees_searchRules (h : SeenRules P seen) :
    SearchRules rt P (historyOutline.and generationOutline) (fun w t g => g ≤ w.generation t)
      (Sees seen) where
  held_stable hK hg := hg.trans (hK.guarantee.2.grow _)
  good_stable {w w' t g a} hK hg := by
    refine ⟨hg.1.trans (hK.guarantee.2.grow t), fun at' g' b hm hle => ?_⟩
    rcases hK.guarantee.2.new at' t g' b hm with hm | hlt
    · exact h.stable hK.guarantee.1 (hg.2 at' g' b hm hle)
    · -- a later increment is past the generation of the answer
      have := hg.1
      omega
  generation {w t} hi := by
    rw [currentGeneration, Cache.getJson, if_pos hi.2.available]
    exact le_refl _
  execute {w r s q g f a} hi _ hP hg ha := by
    refine ⟨hg, fun at' g' b hm hle => ?_⟩
    rw [(stamp_execute ha).1]
    exact h.execute hi.1 hP hm hle
      (Nat.lt_of_le_of_lt (hi.2.bumped at' _ g' b hm).2 (hi.1 at' _ hm))
  flag _ h := h

/-- **What a search sees**, in the runs of a restriction under which the counters are kept. -/
theorem searches_see {cfg : Settings} {engine : E.State} (h : SeenRules P seen)
    (hP : ∀ s (a : Action Request Str Disturbance), P.Allows s a → keptGenerations.Allows s a)
    {s : Config (World E) (Task K)}
    (hr : (machine cfg rt E).Reach P (World.IsInitial engine) s) : SearchesSee seen s.world := by
  have hinv := ((invalidation_established cfg rt engine).mono hP).holds hr
  have hsearch : (machine cfg rt E).Established P (World.IsInitial engine)
      (searchOutline rt (fun w t g => g ≤ w.generation t) (Sees seen)) :=
    (sees_searchRules h).preserves.valid.established ((history_established cfg rt engine).restrict.and
      ((generations_established cfg rt engine).mono hP))
  intro returnedAt ops succeeded bulkAt hp op hop hs answeredAt startedAt g a hm hlt
  -- the worker has incremented the counter before it returned
  obtain ⟨at', g', hb, hle⟩ := hinv.1.2.processed _ _ _ _ hp op hop hs
  have hcovers := (hinv.1.1.searched _ _ _ _ _ hm).2
  have hsees : Sees seen s.world op.tenantId g a :=
    (hsearch.holds hr).1.returned _ _ _ _ _ hm
  exact hsees.2 at' g' bulkAt hb (hcovers at' g' bulkAt hb (Nat.lt_of_le_of_lt hle hlt))

end Rules

/-- **Invalidation is free of races.**  In every run that keeps the generation counters, a search
that starts after a worker has returned is answered from a read of the in-memory engine made at or
after the bulk call of that worker. -/
theorem search_after_bulk [Field K] [LinearOrder K] (cfg : Settings) (rt : Runtime K)
    {s : Config (World (inMemory rt)) (Task K)}
    (hr : (machine cfg rt (inMemory rt)).Reach keptGenerations (World.IsInitial State.initial) s) :
    SearchesSee (fun _ bulkAt readAt => bulkAt ≤ readAt) s.world := by
  have hrules : SeenRules (keptGenerations : Restriction (World (inMemory rt)) (Task K) _ _)
      fun _ bulkAt readAt => bulkAt ≤ readAt :=
    ⟨fun _ h => h, fun _ _ _ _ hb => le_of_lt hb⟩
  exact searches_see hrules (fun _ _ h => h) hr

end Pipeline

namespace Sample

open Pipeline

/-- A tenant searches before its document is indexed, and again after. -/
def searchTwice : Actions :=
  [.start 0 (.create acme documentA payload), .resume 0 [], .resume 0 [], .resume 0 [],
    .start 1 (.search 0 (query acme)), .resume 1 [], .resume 1 [], .resume 1 [], .resume 1 [],
    .start 2 (.process [⟨documentA.str, acme, 1, eventIndex⟩]), .resume 2 [], .resume 2 [],
    .resume 2 [], .resume 2 acme,
    .resume 1 [], .resume 1 [],
    .start 3 (.search 0 (query acme)), .resume 3 [], .resume 3 [], .resume 3 [], .resume 3 [],
    .resume 3 [], .resume 3 []]

theorem searchTwice_runs : (service.run (Config.idle start) searchTwice).isSome := by decide +kernel

theorem search_after_bulk_sample :
    SearchesSee (fun _ bulkAt readAt => bulkAt ≤ readAt)
      (service.after start searchTwice searchTwice_runs).world :=
  search_after_bulk settings runtime
    (Machine.reach_after start_isInitial searchTwice_runs (by decide +kernel))

end Sample

end DocSearch
