import DocSearch.Pipeline.DocumentCache
import DocSearch.Workers.Batch

/-!
# Pipeline — Coherence

The document cache against the table when every call runs alone.  `create` and `delete` keep the
two in step; a worker that marks a row leaves the cached copy as it is.

* `cache_coherent`: `get` agrees with the table in every run in which no worker marks a row that is
  cached, and stops to agree with the first one that does.
* `stale_status`: such a run.
-/

namespace DocSearch

open CacheKeys InMemoryEngine IndexingProcessor Interleaving

/-- A call, made while nothing else runs. -/
inductive Call where
  | create (tenantId : Str) (id : Uuid) (payload : DocumentCreate)
  | get (tenantId : Str) (documentId : Uuid)
  | delete (tenantId : Str) (documentId : Uuid)
  | process (events : List Event)
  | environment (e : Disturbance)

namespace Pipeline

variable {K : Type} [Field K] [LinearOrder K] {rt : Runtime K}

def perform (rt : Runtime K) (w : World (inMemory rt)) : Call → World (inMemory rt)
  | .create tenantId id payload => (DocumentService.create w tenantId id payload).2
  | .get tenantId documentId => (DocumentService.get w w.clock tenantId documentId).2
  | .delete tenantId documentId => (DocumentService.delete w tenantId documentId).2
  | .process events => (process rt w events).2
  | .environment e => disturb w e

/-- The service, one call after the other. -/
def sequential (rt : Runtime K) :
    Machine (World (inMemory rt)) Empty Empty Empty Call where
  start _ r := r.elim
  resume _ t _ := t.elim
  cancel _ t := t.elim
  environment w c := some (perform rt w c).tick

/-- Whatever `get` returns now has the version and the status of its row. -/
def Coherent (w : World (inMemory rt)) : Prop :=
  ∀ t d r, (DocumentService.get w w.clock t d).1 = .ok r →
    ∃ row, w.documents.find? d = some row ∧ r.version = row.version ∧ r.status = row.status

/-- No row that is cached would be marked. -/
def MarksUncached (w : World (inMemory rt)) (events : List Event) : Prop :=
  w.engine.available = true → ∀ row ∈ w.documents.rows, row.status = .pending → Named events row.id →
    w.cache.store (documentKey row.tenantId row.id.str) = none

/-- The call leaves the cache working. -/
def callKeepsCache : Call → Bool
  | .environment e => keepsCache e
  | _ => true

/-- The cache works. -/
def cacheWorks : Restriction (World (inMemory rt)) Empty Empty Call where
  environment _ c := callKeepsCache c = true

/-- Moreover, no worker marks a row that is cached. -/
def marksUncached : Restriction (World (inMemory rt)) Empty Empty Call where
  environment w
    | .process events => MarksUncached w events
    | c => callKeepsCache c = true

instance (w : World (inMemory rt)) (events : List Event) : Decidable (MarksUncached w events) :=
  inferInstanceAs (Decidable (_ → ∀ row ∈ w.documents.rows, _ → Named events row.id → _ = none))

instance (w : World (inMemory rt)) : (c : Call) → Decidable (marksUncached.environment w c)
  | .process events => inferInstanceAs (Decidable (MarksUncached w events))
  | .create _ _ _ | .get _ _ | .delete _ _ | .environment _ => inferInstanceAs (Decidable (_ = true))

instance (w : World (inMemory rt)) (c : Call) : Decidable (cacheWorks.environment w c) :=
  inferInstanceAs (Decidable (_ = true))

instance (P : Restriction (World (inMemory rt)) Empty Empty Call) (w : World (inMemory rt))
    (r : Empty) : Decidable (P.start w r) := r.elim

instance (P : Restriction (World (inMemory rt)) Empty Empty Call) (w : World (inMemory rt))
    (t : Empty) : Decidable (P.resume w t) := t.elim

/-! ### The invariant -/

/-- What is cached for a document is what `get` would read from its row. -/
structure CachedRows (w : World (inMemory rt)) : Prop where
  available : w.cache.available = true
  cached : ∀ t (d : Uuid) v, w.cache.store (documentKey t d.str) = some v →
    ∃ row, v = .document (.fromModel row) ∧ w.documents.find? d = some row ∧ row.tenantId = t ∧
      row.status ≠ .deleted

theorem CachedRows.coherent {w : World (inMemory rt)} (h : CachedRows w) : Coherent w := by
  intro t d r hr
  simp only [DocumentService.get, Cache.getJson, if_pos h.available] at hr
  split at hr
  · rename_i v hv
    obtain ⟨row, rfl, hrow, -⟩ := h.cached t d v hv
    cases hr
    exact ⟨row, hrow, rfl, rfl⟩
  · split at hr
    · cases hr
    · rename_i row hrow
      cases hr
      exact ⟨row, (DocumentRepository.get_eq_some.mp hrow).1, rfl, rfl⟩

/-- Rows that are cached stay as they are, and nothing is added to the cache. -/
theorem CachedRows.frame {w w' : World (inMemory rt)} (h : CachedRows w)
    (ha : w'.cache.available = true)
    (hc : ∀ t (d : Uuid) v, w'.cache.store (documentKey t d.str) = some v →
      w.cache.store (documentKey t d.str) = some v)
    (hd : ∀ d row, w.documents.find? d = some row →
      w'.cache.store (documentKey row.tenantId d.str) ≠ none → w'.documents.find? d = some row) :
    CachedRows w' where
  available := ha
  cached t d v hv := by
    obtain ⟨row, rfl, hrow, rfl, hs⟩ := h.cached t d v (hc t d v hv)
    exact ⟨row, rfl, hd d row hrow (by rw [hv]; simp), rfl, hs⟩

/-- Nothing changes but counters, the queue and the log. -/
theorem CachedRows.quiet {w w' : World (inMemory rt)} (h : CachedRows w)
    (hd : w'.documents = w.documents) (ha : w'.cache.available = w.cache.available)
    (hc : ∀ t (d : Uuid), w'.cache.store (documentKey t d.str) = w.cache.store (documentKey t d.str)) :
    CachedRows w' :=
  h.frame (ha.trans h.available) (fun t d v hv => (hc t d).symm.trans hv) fun _ _ hr _ => by
    rw [hd]; exact hr

theorem cachedRows_publish {w : World (inMemory rt)} (h : CachedRows w) (e : Event) :
    CachedRows (DocumentService.publish w e) := by
  rcases publish_cases w e with hp | hp <;> rw [hp]
  · exact h
  · exact h.quiet rfl rfl fun _ _ => rfl

theorem cachedRows_invalidateTenant {w : World (inMemory rt)} (h : CachedRows w) (t : Str) :
    CachedRows (w.invalidateTenant t) :=
  h.quiet rfl (Cache.available_incr _ _) fun _ _ =>
    Cache.store_incr_of_ne documentKey_ne_searchGenerationKey

theorem cachedRows_create {w : World (inMemory rt)} (h : CachedRows w) (t : Str) (id : Uuid)
    (payload : DocumentCreate) : CachedRows (DocumentService.create w t id payload).2 := by
  unfold DocumentService.create
  cases hi : DocumentService.insert w t id payload with
  | none => exact h
  | some p =>
      obtain ⟨documents, hc, rfl⟩ := Option.map_eq_some_iff.mp hi
      -- the rows that were there are there still
      obtain ⟨hnone, hfind⟩ := Table.find?_insert hc
      have h₁ : CachedRows { w with documents := documents } :=
        h.frame h.available (fun _ _ _ hv => hv) fun d row hrow _ => by
          rw [hfind, if_neg]
          · exact hrow
          · intro he
            rw [he, hnone] at hrow
            cases hrow
      have h₂ := cachedRows_publish h₁ (DocumentService.indexEvent t (Document.new id t payload w.now))
      exact (cachedRows_invalidateTenant h₂ t).quiet rfl rfl fun _ _ => rfl

theorem cachedRows_get {w : World (inMemory rt)} (h : CachedRows w) (s : ℕ) (t : Str) (d : Uuid) :
    CachedRows (DocumentService.get w s t d).2 := by
  unfold DocumentService.get
  dsimp only
  split
  · exact h.quiet rfl rfl fun _ _ => rfl
  · split
    · exact h.quiet rfl rfl fun _ _ => rfl
    · rename_i row hrow
      obtain ⟨hfind, ht, hlive⟩ := DocumentRepository.get_eq_some.mp hrow
      refine ⟨(Cache.available_setJson _ _ _).trans h.available, fun t' d' v hv => ?_⟩
      rcases Cache.store_setJson hv with ⟨hk, rfl⟩ | hv
      · obtain ⟨rfl, rfl⟩ := documentKey_inj hk
        exact ⟨row, rfl, hfind, ht, hlive⟩
      · exact h.cached t' d' v hv

theorem cachedRows_delete {w : World (inMemory rt)} (h : CachedRows w) (t : Str) (d : Uuid) :
    CachedRows (DocumentService.delete w t d).2 := by
  unfold DocumentService.delete
  split
  · exact h
  rename_i row hrow
  obtain ⟨hfind, ht, -⟩ := DocumentRepository.get_eq_some.mp hrow
  have hid := Table.key_of_find? hfind
  -- the one row that changes is taken out of the cache
  have h₁ : CachedRows (DocumentService.uncache (DocumentService.softDelete w row).2 t d) := by
    refine h.frame ((Cache.available_delete _ _).trans h.available)
      (fun _ _ _ hv => Cache.store_delete hv) fun d' row' hrow' hst => ?_
    refine (DocumentRepository.find?_softDelete _ _ _ _).trans ?_
    rw [hrow', Option.map_some, if_neg]
    intro he
    obtain rfl : d' = d := (Table.key_of_find? hrow').symm.trans (he.trans hid)
    rw [hfind] at hrow'
    cases hrow'
    exact hst (ht ▸ Cache.store_delete_self h.available _)
  exact (cachedRows_publish (cachedRows_invalidateTenant h₁ t) _).quiet rfl rfl fun _ _ => rfl

theorem cachedRows_process {w : World (inMemory rt)} (h : CachedRows w) {events : List Event}
    (hm : MarksUncached w events) : CachedRows (process rt w events).2 := by
  cases ha : w.engine.available with
  | false => rw [process_unavailable ha]; exact h
  | true =>
      have hp := process_available ha events
      obtain ⟨ids, hd, hids⟩ := hp.documents
      refine h.frame (hp.cache.trans h.available) (fun t d v hv => (hp.store t d).symm.trans hv)
        fun d row hrow hst => ?_
      rw [hd, DocumentRepository.find?_markIndexed, hrow, Option.map_some, if_neg]
      -- a row that is marked is pending and named, so it is not cached
      rintro ⟨hmem, hpending⟩
      have hid := Table.key_of_find? hrow
      subst hid
      have hnamed := (hids row hrow hpending).mp hmem
      rw [hp.store] at hst
      exact hst (hm ha row (Table.mem_rows.mpr hrow) hpending hnamed)

theorem cachedRows_disturb {w : World (inMemory rt)} (h : CachedRows w) {e : Disturbance}
    (he : keepsCache e = true) : CachedRows (disturb w e) := by
  cases e with
  | expire key =>
      exact h.frame h.available (fun _ _ _ hv => Cache.store_expire hv) fun _ _ hrow _ => hrow
  | cache available => exact h.frame he (fun _ _ _ hv => hv) fun _ _ hrow _ => hrow
  | _ => exact h.quiet rfl rfl fun _ _ => rfl

/-- **One call** that is allowed keeps the cache in step with the table. -/
theorem cachedRows_perform {w : World (inMemory rt)} (h : CachedRows w) {c : Call}
    (hc : marksUncached.environment w c) : CachedRows (perform rt w c) := by
  cases c with
  | create t id payload => exact cachedRows_create h t id payload
  | get t d => exact cachedRows_get h w.clock t d
  | delete t d => exact cachedRows_delete h t d
  | process events => exact cachedRows_process h hc
  | environment e => exact cachedRows_disturb h hc

/-- A worker that marks a row which is cached leaves its old status there. -/
theorem not_coherent_of_marked {w : World (inMemory rt)} (h : CachedRows w) {events : List Event}
    (hm : ¬ MarksUncached w events) : ¬ Coherent (process rt w events).2 := by
  simp only [MarksUncached, Classical.not_imp, not_forall] at hm
  obtain ⟨ha, row, hmem, hpending, hnamed, hst⟩ := hm
  have hrow := Table.mem_rows.mp hmem
  have hp := process_available ha events
  obtain ⟨ids, hd, hids⟩ := hp.documents
  obtain ⟨v, hv⟩ := Option.ne_none_iff_exists'.mp hst
  obtain ⟨row', rfl, hrow', -, -⟩ := h.cached _ _ v hv
  rw [hrow] at hrow'
  cases hrow'
  intro hco
  obtain ⟨after, hafter, -, hs⟩ := hco row.tenantId row.id (.fromModel row) (by
    simp only [DocumentService.get, Cache.getJson, hp.cache.trans h.available, if_true, hp.store, hv]
    rfl)
  rw [hd, DocumentRepository.find?_markIndexed, hrow, Option.map_some,
    if_pos ⟨(hids row hrow hpending).mpr hnamed, hpending⟩] at hafter
  cases hafter
  have : row.status = .indexed := hs
  rw [hpending] at this
  cases this

/-! ### The runs -/

theorem cachedRows_established (rt : Runtime K) :
    (sequential rt).Established marksUncached (World.IsInitial State.initial)
      { inv := CachedRows } := by
  refine Machine.Valid.established ?_ Machine.established_trivial
  refine ⟨?_, ?_, ?_, ?_, ?_, ?_⟩
  · rintro w rfl
    exact ⟨rfl, fun _ _ _ h => (by cases h)⟩
  · intro w r; exact r.elim
  · intro w t; exact t.elim
  · intro w t; exact t.elim
  · intro w c w' _ hc hs hi
    cases hs
    exact ⟨(cachedRows_perform hi hc).quiet rfl rfl fun _ _ => rfl, trivial⟩
  · intro w w' t; exact t.elim

/-- **Coherence.**  After a run in which no worker has marked a row that was cached, `get` agrees
with the table, and it agrees with it after one more call exactly when that call is not such. -/
theorem cache_coherent (rt : Runtime K) {s : Config (World (inMemory rt)) Empty}
    (hr : (sequential rt).Reach marksUncached (World.IsInitial State.initial) s) :
    Coherent s.world ∧ ∀ c, callKeepsCache c = true →
      (Coherent (perform rt s.world c) ↔ marksUncached.environment s.world c) := by
  have hi : CachedRows s.world := ((cachedRows_established rt).holds hr).1
  refine ⟨hi.coherent, fun c hc => ⟨fun hco => ?_, fun hP => (cachedRows_perform hi hP).coherent⟩⟩
  cases c with
  | process events =>
      by_contra hm
      exact not_coherent_of_marked hi hm hco
  | _ => exact hc

end Pipeline

namespace Sample

open Pipeline

/-- A document is created and indexed, and read. -/
def indexedThenRead : List (Action Empty Empty Call) :=
  [.environment (.create acme documentA payload),
    .environment (.process [⟨documentA.str, acme, 1, eventIndex⟩]),
    .environment (.get acme documentA)]

/-- A document is created, read while it is pending, so that it is cached, and then indexed. -/
def readThenIndexed : List (Action Empty Empty Call) :=
  [.environment (.create acme documentA payload), .environment (.get acme documentA),
    .environment (.process [⟨documentA.str, acme, 1, eventIndex⟩])]

theorem indexedThenRead_runs :
    ((sequential runtime).run (Config.idle start) indexedThenRead).isSome := by decide +kernel

theorem readThenIndexed_runs :
    ((sequential runtime).run (Config.idle start) readThenIndexed).isSome := by decide +kernel

theorem cache_coherent_sample :
    Coherent ((sequential runtime).after start indexedThenRead indexedThenRead_runs).world ∧
      ∀ c, callKeepsCache c = true →
        (Coherent (perform runtime
            ((sequential runtime).after start indexedThenRead indexedThenRead_runs).world c) ↔
          marksUncached.environment
            ((sequential runtime).after start indexedThenRead indexedThenRead_runs).world c) :=
  cache_coherent runtime
    (Machine.reach_after start_isInitial indexedThenRead_runs (by decide +kernel))

/-- The world after the other run, and what a `get` returns there. -/
def staleWorld : World (inMemory runtime) :=
  ((sequential runtime).after start readThenIndexed readThenIndexed_runs).world

def staleRead : Except ServiceError DocumentResponse :=
  (DocumentService.get staleWorld staleWorld.clock acme documentA).1

/-- **A status that is not the row's.** -/
theorem stale_status : ¬ ∀ s, (sequential runtime).Reach cacheWorks (World.IsInitial State.initial) s →
    Coherent s.world := by
  intro h
  have hreach := Machine.reach_after start_isInitial readThenIndexed_runs
    (P := cacheWorks) (by decide +kernel)
  have hrow : (staleWorld.documents.find? documentA).map Document.status = some .indexed := by
    decide +kernel
  have hread : staleRead.toOption.map DocumentResponse.status = some .pending := by decide +kernel
  cases hr : staleRead with
  | error e => rw [hr] at hread; cases hread
  | ok r =>
      obtain ⟨row, hfind, -, hs⟩ := h _ hreach acme documentA r hr
      have hfind : staleWorld.documents.find? documentA = some row := hfind
      rw [hfind, Option.map_some, ← hs] at hrow
      rw [hr] at hread
      have hpending : some r.status = some .pending := hread
      rw [hpending] at hrow
      cases hrow

end Sample

end DocSearch
