import DocSearch.Clients.Cache
import DocSearch.Clients.Queue
import DocSearch.Repositories.DocumentRepository
import DocSearch.Services.CacheKeys

/-!
# Services — World

What the API replicas and the workers share: the table, the engine, the cache, the queue, the
in-flight searches of every replica.  `clock` counts the steps taken and `log` records what
happened at which step; the code has neither, and nothing it computes depends on them.
-/

namespace DocSearch

open CacheKeys

inductive ServiceError where
  | notFound (message : Str)
  | dependencyUnavailable (dependency : Str)
  /-- A cached payload that is not of the expected shape. -/
  | validation

/-- A future of `_inflight`, with the key it was registered under. -/
structure Future (K : Type) where
  key : Str
  result : Option (Except ServiceError (Answer K))

/-- What the log records. -/
inductive Entry (K : Type) where
  /-- The broker accepted an event. -/
  | published (event : Event)
  /-- A bulk call returned. -/
  | applied (operations : List Operation) (succeeded : List Str)
  | refreshed
  /-- A generation counter was incremented by a worker, after its bulk call at `bulkAt`. -/
  | bumped (tenantId : Str) (generation bulkAt : ℕ)
  /-- `process` returned. -/
  | processed (operations : List Operation) (succeeded : List Str) (bulkAt : ℕ)
  | created (tenantId : Str) (document : Document)
  | got (tenantId : Str) (documentId : Uuid) (startedAt : ℕ)
      (result : Except ServiceError DocumentResponse)
  /-- `delete` removed the document from the cache. -/
  | uncached (tenantId : Str) (documentId : Uuid)
  /-- `delete` returned. -/
  | deleted (tenantId : Str) (documentId : Uuid)
  /-- `search` returned, under the generation it read. -/
  | searched (tenantId : Str) (startedAt generation : ℕ)
      (result : Except ServiceError (Answer K))

structure World {K : Type} (E : SearchEngine K) where
  documents : Documents
  engine : E.State
  cache : Cache K
  publisher : Publisher
  /-- `SearchService._inflight` of each replica, as numbers of `futures`. -/
  inflight : ℕ → Str → Option ℕ
  futures : List (Future K)
  now : Timestamp
  clock : ℕ
  log : List (ℕ × Entry K)

/-- The settings of the reconciler. -/
structure Settings where
  reconcileStaleAfterSeconds : ℕ
  reconcileBatchSize : ℕ

namespace World

variable {K : Type} {E : SearchEngine K}

/-- No rows, nothing cached, nothing queued, the cache and the broker up. -/
def initial (engine : E.State) : World E where
  documents := .empty
  engine := engine
  cache := .empty
  publisher := ⟨[], true⟩
  inflight _ _ := none
  futures := []
  now := 0
  clock := 0
  log := []

/-- Nothing has happened yet. -/
def IsInitial (engine : E.State) (w : World E) : Prop := w = initial engine

def record (w : World E) (e : Entry K) : World E := { w with log := (w.clock, e) :: w.log }

def tick (w : World E) : World E := { w with clock := w.clock + 1 }

/-- `publish`, `none` when it raises. -/
def publish (w : World E) (event : Event) : Option (World E) :=
  (w.publisher.publish event).map fun p => { w with publisher := p }.record (.published event)

/-- `SearchService.invalidate_tenant`. -/
def invalidateTenant (w : World E) (tenantId : Str) : World E :=
  { w with cache := (w.cache.incr (searchGenerationKey tenantId)).2 }

/-- The generation of a tenant's search cache, `0` when there is none. -/
def generation (w : World E) (tenantId : Str) : ℕ := w.cache.counter (searchGenerationKey tenantId)

section Fields

variable (w : World E) (e : Entry K) (t : Str)

@[simp] theorem record_documents : (w.record e).documents = w.documents := rfl
@[simp] theorem record_engine : (w.record e).engine = w.engine := rfl
@[simp] theorem record_cache : (w.record e).cache = w.cache := rfl
@[simp] theorem record_publisher : (w.record e).publisher = w.publisher := rfl
@[simp] theorem record_inflight : (w.record e).inflight = w.inflight := rfl
@[simp] theorem record_futures : (w.record e).futures = w.futures := rfl
@[simp] theorem record_now : (w.record e).now = w.now := rfl
@[simp] theorem record_clock : (w.record e).clock = w.clock := rfl
@[simp] theorem record_log : (w.record e).log = (w.clock, e) :: w.log := rfl

@[simp] theorem tick_documents : w.tick.documents = w.documents := rfl
@[simp] theorem tick_engine : w.tick.engine = w.engine := rfl
@[simp] theorem tick_cache : w.tick.cache = w.cache := rfl
@[simp] theorem tick_publisher : w.tick.publisher = w.publisher := rfl
@[simp] theorem tick_inflight : w.tick.inflight = w.inflight := rfl
@[simp] theorem tick_futures : w.tick.futures = w.futures := rfl
@[simp] theorem tick_now : w.tick.now = w.now := rfl
@[simp] theorem tick_clock : w.tick.clock = w.clock + 1 := rfl
@[simp] theorem tick_log : w.tick.log = w.log := rfl

@[simp] theorem invalidateTenant_documents : (w.invalidateTenant t).documents = w.documents := rfl
@[simp] theorem invalidateTenant_engine : (w.invalidateTenant t).engine = w.engine := rfl
@[simp] theorem invalidateTenant_cache :
    (w.invalidateTenant t).cache = (w.cache.incr (searchGenerationKey t)).2 := rfl
@[simp] theorem invalidateTenant_publisher : (w.invalidateTenant t).publisher = w.publisher := rfl
@[simp] theorem invalidateTenant_inflight : (w.invalidateTenant t).inflight = w.inflight := rfl
@[simp] theorem invalidateTenant_futures : (w.invalidateTenant t).futures = w.futures := rfl
@[simp] theorem invalidateTenant_now : (w.invalidateTenant t).now = w.now := rfl
@[simp] theorem invalidateTenant_clock : (w.invalidateTenant t).clock = w.clock := rfl
@[simp] theorem invalidateTenant_log : (w.invalidateTenant t).log = w.log := rfl

end Fields

theorem publish_eq_some {w w' : World E} {event : Event} (h : w.publish event = some w') :
    w.publisher.available = true ∧
      w' = { w with publisher := { w.publisher with events := w.publisher.events ++ [event] } }.record
        (.published event) := by
  simp only [publish, Publisher.publish, Option.map_eq_some_iff, Option.ite_none_right_eq_some] at h
  obtain ⟨p, ⟨ha, hp⟩, rfl⟩ := h
  exact ⟨ha, by rw [← Option.some.inj hp]⟩

/-- A search of the log. -/
theorem exists_of_any {w : World E} (p : ℕ → Entry K → Bool)
    (h : (w.log.any fun x => p x.1 x.2) = true) : ∃ a e, (a, e) ∈ w.log ∧ p a e = true := by
  obtain ⟨⟨a, e⟩, hm, hp⟩ := List.any_eq_true.mp h
  exact ⟨a, e, hm, hp⟩

end World

end DocSearch
