import DocSearch.Services.World

/-!
# Services — SearchService

`search`: the read of the generation, the read of the cache, the single flight of identical
misses, the query of the engine and the fill of the cache, as one function of the world and cut
at its awaits.
-/

namespace DocSearch

open CacheKeys

namespace SearchService

variable {K : Type} {E : SearchEngine K}

/-- `search_key`, for the parameters of a query. -/
def keyOf (rt : Runtime K) (generation : ℕ) (q : SearchQuery) : Str :=
  searchKey rt q.tenantId generation q.text q.page q.size q.fuzzy q.highlight q.facets

/-- `current_generation`: what is not a number counts as `0`. -/
def currentGeneration (w : World E) (tenantId : Str) : ℕ :=
  match w.cache.getJson (searchGenerationKey tenantId) with
  | some (.generation n) => n
  | _ => 0

def toSearchHit (h : EngineHit K) : SearchHit K where
  id := h.documentId
  title := h.title
  score := h.score
  snippet := h.snippet
  contentType := h.contentType
  tags := h.tags
  metadata := h.metadata
  createdAt := h.createdAt
  updatedAt := h.updatedAt

def toResponse (q : SearchQuery) (r : EngineResult K) : SearchResponse K where
  query := q.text
  tenantId := q.tenantId
  page := q.page
  size := q.size
  total := r.total
  totalIsLowerBound := r.totalIsLowerBound
  cached := false
  hits := r.hits.map toSearchHit
  facets := r.facets

/-- `_execute`: an open circuit is passed on, any other failure is the dependency `search`. -/
def execute (w : World E) (q : SearchQuery) : Except ServiceError (Answer K) :=
  match E.search w.engine q with
  | .ok result => .ok ⟨toResponse q result, w.clock⟩
  | .error (.dependencyUnavailable dependency) => .error (.dependencyUnavailable dependency)
  | .error (.other _) => .error (.dependencyUnavailable "search".toList)

/-- `_cacheable`. -/
def cacheable (a : Answer K) : Answer K := a.withCached false

/-- What a search makes of a cache entry. -/
def validate : CacheValue K → Except ServiceError (Answer K)
  | .search a => .ok (a.withCached true)
  | .generation _ | .document _ => .error .validation

/-- The response to a search, recorded. -/
def answer (w : World E) (startedAt generation : ℕ) (q : SearchQuery)
    (r : Except ServiceError (Answer K)) : World E :=
  w.record (.searched q.tenantId startedAt generation r)

/-- `future.set_result` or `set_exception`, unless the future is done. -/
def settle (w : World E) (future : ℕ) (r : Except ServiceError (Answer K)) : World E :=
  { w with
    futures := w.futures.modify future fun f =>
      match f.result with
      | some _ => f
      | none => { f with result := some r } }

/-- `_inflight[key] = future`, for a new future. -/
def register (w : World E) (replica : ℕ) (key : Str) : World E :=
  { w with
    futures := w.futures ++ [⟨key, none⟩]
    inflight := Function.update w.inflight replica
      (Function.update (w.inflight replica) key (some w.futures.length)) }

/-- `_inflight.pop(key, None)`. -/
def unregister (w : World E) (replica : ℕ) (key : Str) : World E :=
  { w with
    inflight := Function.update w.inflight replica
      (Function.update (w.inflight replica) key none) }

/-! ### The request -/

/-- `search`, with nothing else running: no identical search is in flight. -/
def search (rt : Runtime K) (w : World E) (startedAt : ℕ) (q : SearchQuery) :
    Except ServiceError (Answer K) × World E :=
  let generation := currentGeneration w q.tenantId
  let key := keyOf rt generation q
  let answered (w : World E) (r : Except ServiceError (Answer K)) :=
    (r, answer w startedAt generation q r)
  match w.cache.getJson key with
  | some cached => answered w (validate cached)
  | none =>
      match execute w q with
      | .error e => answered w (.error e)
      | .ok a => answered { w with cache := w.cache.setJson key (.search (cacheable a)) } (.ok a)

/-! ### Its steps -/

/-- Where a suspended search stands.  A leader carries the number of its future. -/
inductive SearchStep (K : Type) where
  | generation
  | cacheRead (generation : ℕ)
  | flight (generation : ℕ)
  | waiting (generation future : ℕ)
  | execute (generation future : ℕ)
  | fill (generation future : ℕ) (answer : Answer K)
  | finish (generation future : ℕ) (result : Except ServiceError (Answer K))

/-- The generation a search has read. -/
def SearchStep.generation? : SearchStep K → Option ℕ
  | .generation => none
  | .cacheRead g | .flight g | .waiting g _ | .execute g _ | .fill g _ _ | .finish g _ _ => some g

/-- The key a leader has registered its future under. -/
def SearchStep.leads (rt : Runtime K) (q : SearchQuery) : SearchStep K → Option Str
  | .generation | .cacheRead _ | .flight _ | .waiting _ _ => none
  | .execute g _ | .fill g _ _ | .finish g _ _ => some (keyOf rt g q)

/-- `none` for a follower whose leader is not done. -/
def resumeSearch (rt : Runtime K) (w : World E) (replica startedAt : ℕ) (q : SearchQuery) :
    SearchStep K → Option (World E × Option (SearchStep K))
  | .generation => some (w, some (.cacheRead (currentGeneration w q.tenantId)))
  | .cacheRead generation =>
      match w.cache.getJson (keyOf rt generation q) with
      | some cached => some (answer w startedAt generation q (validate cached), none)
      | none => some (w, some (.flight generation))
  | .flight generation =>
      match w.inflight replica (keyOf rt generation q) with
      | some existing => some (w, some (.waiting generation existing))
      | none =>
          some (register w replica (keyOf rt generation q),
            some (.execute generation w.futures.length))
  | .waiting generation future =>
      match w.futures[future]? with
      | some ⟨_, some r⟩ => some (answer w startedAt generation q r, none)
      | _ => none
  | .execute generation future =>
      match execute w q with
      | .ok a => some (w, some (.fill generation future a))
      | .error e => some (w, some (.finish generation future (.error e)))
  | .fill generation future a =>
      some ({ w with
          cache := w.cache.setJson (keyOf rt generation q) (.search (cacheable a)) },
        some (.finish generation future (.ok a)))
  | .finish generation future r =>
      some (answer (unregister (settle w future r) replica (keyOf rt generation q)) startedAt
        generation q r, none)

/-- A search that is cancelled: the `finally` of a leader takes its key out, and leaves its
future as it is. -/
def cancelSearch (rt : Runtime K) (w : World E) (replica : ℕ) (q : SearchQuery)
    (step : SearchStep K) : World E :=
  match step.leads rt q with
  | some key => unregister w replica key
  | none => w

end SearchService

end DocSearch
