import DocSearch.Services.DocumentService
import DocSearch.Services.SearchService
import DocSearch.Support.Interleaving
import DocSearch.Workers.Processor
import DocSearch.Workers.Reconciler

/-!
# Pipeline — Machine

The service as cooperative tasks over the shared world: any number of requests on any number of
replicas, worker calls and sweeps, each suspended at its awaits, any of them cancelled or crashed
where it stands, while the environment lets entries expire, loses events and takes the engine, the
broker or the cache down and up.

* `Move`: what one resumption of a task can do, one constructor an outcome.
* `resume_move`: every resumption is a move.
-/

namespace DocSearch

open CacheKeys DocumentService SearchService IndexingProcessor Reconciler Interleaving

/-- A suspended task. -/
inductive Task (K : Type) where
  | create (tenantId : Str) (step : CreateStep)
  | get (startedAt : ℕ) (tenantId : Str) (documentId : Uuid) (step : GetStep)
  | delete (tenantId : Str) (documentId : Uuid) (step : DeleteStep)
  | search (replica startedAt : ℕ) (query : SearchQuery) (step : SearchStep K)
  | process (step : ProcessStep)
  | sweep (step : SweepStep)

/-- What starts a task.  A `create` carries the id `uuid4` drew for it. -/
inductive Request where
  | create (tenantId : Str) (id : Uuid) (payload : DocumentCreate)
  | get (tenantId : Str) (documentId : Uuid)
  | delete (tenantId : Str) (documentId : Uuid)
  | search (replica : ℕ) (query : SearchQuery)
  | process (events : List Event)
  | sweep

/-- What happens from outside. -/
inductive Disturbance where
  | elapse (microseconds : ℕ)
  | expire (key : Str)
  | lose (position : ℕ)
  | refresh
  | engine (available : Bool)
  | publisher (available : Bool)
  | cache (available : Bool)

namespace Pipeline

variable {K : Type} {E : SearchEngine K}

def start (w : World E) : Request → Task K
  | .create tenantId id payload => .create tenantId (.insert id payload)
  | .get tenantId documentId => .get w.clock tenantId documentId .cacheRead
  | .delete tenantId documentId => .delete tenantId documentId .read
  | .search replica query => .search replica w.clock query .generation
  | .process events => .process (.read events)
  | .sweep => .sweep .select

/-- One resumption; `pick` resolves the order in which a set is iterated. -/
def resume (cfg : Settings) (rt : Runtime K) (w : World E) (pick : Str) :
    Task K → Option (World E × Option (Task K))
  | .create t step =>
      let (w', next) := resumeCreate w t step
      some (w', next.map (.create t))
  | .get startedAt t d step =>
      let (w', next) := resumeGet w startedAt t d step
      some (w', next.map (.get startedAt t d))
  | .delete t d step =>
      let (w', next) := resumeDelete w t d step
      some (w', next.map (.delete t d))
  | .search replica startedAt q step =>
      (resumeSearch rt w replica startedAt q step).map fun p =>
        (p.1, p.2.map (.search replica startedAt q))
  | .process step =>
      (resumeProcess rt.toUnicode w pick step).map fun p => (p.1, p.2.map .process)
  | .sweep step =>
      let (w', next) := resumeSweep cfg w step
      some (w', next.map .sweep)

def cancel (rt : Runtime K) (w : World E) : Task K → World E
  | .search replica _ q step => cancelSearch rt w replica q step
  | _ => w

def disturb (w : World E) : Disturbance → World E
  | .elapse microseconds => { w with now := w.now + microseconds }
  | .expire key => { w with cache := w.cache.expire key }
  | .lose position =>
      { w with publisher := { w.publisher with events := w.publisher.events.eraseIdx position } }
  | .refresh => { w with engine := E.refresh w.engine }.record .refreshed
  | .engine available => { w with engine := E.setAvailable w.engine available }
  | .publisher available => { w with publisher := { w.publisher with available := available } }
  | .cache available => { w with cache := { w.cache with available := available } }

/-- The service. -/
def machine (cfg : Settings) (rt : Runtime K) (E : SearchEngine K) :
    Machine (World E) (Task K) Request Str Disturbance where
  start w r := some (w.tick, start w r)
  resume w t pick := (resume cfg rt w pick t).map fun p => (p.1.tick, p.2)
  cancel := cancel rt
  environment w e := some (disturb w e).tick

/-! ### What a resumption can do -/

/-- **Move.**  From the world `w` and a suspended task to the world and the task that are left. -/
inductive Move (cfg : Settings) (rt : Runtime K) (w : World E) :
    Task K → World E → Option (Task K) → Prop where
  -- create
  | insertRefused {t id payload}
      (h : DocumentRepository.create w.documents (Document.new id t payload w.now) = none) :
      Move cfg rt w (.create t (.insert id payload)) w none
  | inserted {t id payload documents}
      (h : DocumentRepository.create w.documents (Document.new id t payload w.now) = some documents) :
      Move cfg rt w (.create t (.insert id payload)) { w with documents := documents }
        (some (.create t (.publish (Document.new id t payload w.now))))
  | indexPublished {t d} :
      Move cfg rt w (.create t (.publish d)) (publish w (indexEvent t d))
        (some (.create t (.invalidate d)))
  | created {t d} :
      Move cfg rt w (.create t (.invalidate d)) ((w.invalidateTenant t).record (.created t d)) none
  -- get
  | documentHit {s t d v} (h : w.cache.getJson (documentKey t d.str) = some v) :
      Move cfg rt w (.get s t d .cacheRead)
        (w.record (.got t d s (DocumentService.validate v))) none
  | documentMiss {s t d} (h : w.cache.getJson (documentKey t d.str) = none) :
      Move cfg rt w (.get s t d .cacheRead) w (some (.get s t d .dbRead))
  | rowMissing {s t d} (h : DocumentRepository.get w.documents t d false = none) :
      Move cfg rt w (.get s t d .dbRead) (w.record (.got t d s (.error notFound))) none
  | rowFound {s t d row} (h : DocumentRepository.get w.documents t d false = some row) :
      Move cfg rt w (.get s t d .dbRead) w (some (.get s t d (.cacheWrite (.fromModel row))))
  | documentCached {s t d r} :
      Move cfg rt w (.get s t d (.cacheWrite r))
        ({ w with cache := w.cache.setJson (documentKey t d.str) (.document r) }.record
          (.got t d s (.ok r))) none
  -- delete
  | deleteMissing {t d} (h : DocumentRepository.get w.documents t d false = none) :
      Move cfg rt w (.delete t d .read) w none
  | deleteFound {t d row} (h : DocumentRepository.get w.documents t d false = some row) :
      Move cfg rt w (.delete t d .read) w (some (.delete t d (.commit row)))
  | softDeleted {t d row} :
      Move cfg rt w (.delete t d (.commit row))
        { w with documents := DocumentRepository.softDelete w.documents row w.now }
        (some (.delete t d (.cacheDelete (DocumentRepository.softDeleted row w.now))))
  | uncached {t d row} :
      Move cfg rt w (.delete t d (.cacheDelete row)) (uncache w t d)
        (some (.delete t d (.invalidate row)))
  | deleteInvalidated {t d row} :
      Move cfg rt w (.delete t d (.invalidate row)) (w.invalidateTenant t)
        (some (.delete t d (.publish row)))
  | deleted {t d row} :
      Move cfg rt w (.delete t d (.publish row))
        ((publish w (deleteEvent t row)).record (.deleted t d)) none
  -- search
  | generationRead {r s q} :
      Move cfg rt w (.search r s q .generation) w
        (some (.search r s q (.cacheRead (currentGeneration w q.tenantId))))
  | searchHit {r s q g v} (h : w.cache.getJson (keyOf rt g q) = some v) :
      Move cfg rt w (.search r s q (.cacheRead g)) (answer w s g q (SearchService.validate v)) none
  | searchMiss {r s q g} (h : w.cache.getJson (keyOf rt g q) = none) :
      Move cfg rt w (.search r s q (.cacheRead g)) w (some (.search r s q (.flight g)))
  | joined {r s q g f} (h : w.inflight r (keyOf rt g q) = some f) :
      Move cfg rt w (.search r s q (.flight g)) w (some (.search r s q (.waiting g f)))
  | led {r s q g} (h : w.inflight r (keyOf rt g q) = none) :
      Move cfg rt w (.search r s q (.flight g)) (register w r (keyOf rt g q))
        (some (.search r s q (.execute g w.futures.length)))
  | followed {r s q g f k a} (h : w.futures[f]? = some ⟨k, some a⟩) :
      Move cfg rt w (.search r s q (.waiting g f)) (answer w s g q a) none
  | executed {r s q g f a} (h : execute w q = .ok a) :
      Move cfg rt w (.search r s q (.execute g f)) w (some (.search r s q (.fill g f a)))
  | engineFailed {r s q g f e} (h : execute w q = .error e) :
      Move cfg rt w (.search r s q (.execute g f)) w
        (some (.search r s q (.finish g f (.error e))))
  | filled {r s q g f a} :
      Move cfg rt w (.search r s q (.fill g f a))
        { w with cache := w.cache.setJson (keyOf rt g q) (.search (cacheable a)) }
        (some (.search r s q (.finish g f (.ok a))))
  | finished {r s q g f a} :
      Move cfg rt w (.search r s q (.finish g f a))
        (answer (unregister (settle w f a) r (keyOf rt g q)) s g q a) none
  -- process
  | nothingToDo {events} :
      Move cfg rt w (.process (.read events)) w none
  | planned {events} :
      Move cfg rt w (.process (.read events)) w
        (some (.process (.bulk (plan rt.toUnicode w.documents events))))
  | bulkRaised {p e engine} (h : E.bulk w.engine p.operations = (.error e, engine)) :
      Move cfg rt w (.process (.bulk p)) { w with engine := engine } none
  | bulkReturned {p r engine} (h : E.bulk w.engine p.operations = (.ok r, engine)) :
      Move cfg rt w (.process (.bulk p))
        ({ w with engine := engine }.record (.applied p.operations r.succeeded))
        (some (.process (.commit p r w.clock)))
  | committed {p r b w' next}
      (h : proceed (commit rt.toUnicode w (p.outcome r).indexed) p r b
        (p.changedTenants (p.outcome r)).dedup = (w', next)) :
      Move cfg rt w (.process (.commit p r b)) w' (next.map .process)
  | bumped {p r b ts t w' next} (ht : t ∈ ts)
      (h : proceed (bump w b t) p r b (ts.erase t) = (w', next)) :
      Move cfg rt w (.process (.invalidate p r b ts)) w' (next.map .process)
  -- sweep
  | selected :
      Move cfg rt w (.sweep .select) w ((Reconciler.proceed (stale cfg w)).map .sweep)
  | republished {d ds w'} (h : w.publish (eventFor d) = some w') :
      Move cfg rt w (.sweep (.publish d ds)) w' ((Reconciler.proceed ds).map .sweep)
  | republishFailed {d ds} (h : w.publish (eventFor d) = none) :
      Move cfg rt w (.sweep (.publish d ds)) w none

/-- Every resumption is a move. -/
theorem resume_move {cfg : Settings} {rt : Runtime K} {w w' : World E} {t : Task K}
    {u : Option (Task K)} {pick : Str} (h : resume cfg rt w pick t = some (w', u)) :
    Move cfg rt w t w' u := by
  cases t with
  | create t step =>
      cases step with
      | insert id payload =>
          simp only [resume, resumeCreate, DocumentService.insert] at h
          cases hc : DocumentRepository.create w.documents (Document.new id t payload w.now) with
          | none => rw [hc] at h; cases h; exact .insertRefused hc
          | some documents => rw [hc] at h; cases h; exact .inserted hc
      | publish d => cases h; exact .indexPublished
      | invalidate d => cases h; exact .created
  | get s t d step =>
      cases step with
      | cacheRead =>
          simp only [resume, resumeGet] at h
          split at h <;> rename_i hc <;> cases h
          · exact .documentHit hc
          · exact .documentMiss hc
      | dbRead =>
          simp only [resume, resumeGet] at h
          split at h <;> rename_i hc <;> cases h
          · exact .rowMissing hc
          · exact .rowFound hc
      | cacheWrite r => cases h; exact .documentCached
  | delete t d step =>
      cases step with
      | read =>
          simp only [resume, resumeDelete] at h
          split at h <;> rename_i hc <;> cases h
          · exact .deleteMissing hc
          · exact .deleteFound hc
      | commit row => cases h; exact .softDeleted
      | cacheDelete row => cases h; exact .uncached
      | invalidate row => cases h; exact .deleteInvalidated
      | publish row => cases h; exact .deleted
  | search r s q step =>
      cases step with
      | generation => cases h; exact .generationRead
      | cacheRead g =>
          simp only [resume, resumeSearch] at h
          split at h <;> rename_i hc <;> cases h
          · exact .searchHit hc
          · exact .searchMiss hc
      | flight g =>
          simp only [resume, resumeSearch] at h
          split at h <;> rename_i hc <;> cases h
          · exact .joined hc
          · exact .led hc
      | waiting g f =>
          simp only [resume, resumeSearch] at h
          split at h
          · rename_i hf; cases h; exact .followed hf
          · cases h
      | execute g f =>
          simp only [resume, resumeSearch] at h
          split at h <;> rename_i hx <;> cases h
          · exact .executed hx
          · exact .engineFailed hx
      | fill g f a => cases h; exact .filled
      | finish g f a => cases h; exact .finished
  | process step =>
      cases step with
      | read events =>
          simp only [resume, resumeProcess] at h
          split at h <;> cases h
          · exact .nothingToDo
          · exact .planned
      | bulk p =>
          simp only [resume, resumeProcess, IndexingProcessor.bulk] at h
          rcases hb : E.bulk w.engine p.operations with ⟨_ | _, engine⟩ <;> rw [hb] at h <;> cases h
          · exact .bulkRaised hb
          · exact .bulkReturned hb
      | commit p r b => cases h; exact .committed rfl
      | invalidate p r b ts =>
          simp only [resume, resumeProcess] at h
          split at h
          · rename_i ht; cases h; exact .bumped ht rfl
          · cases h
  | sweep step =>
      cases step with
      | select => cases h; exact .selected
      | publish d ds =>
          simp only [resume, resumeSweep] at h
          split at h <;> rename_i hp <;> cases h
          · exact .republished hp
          · exact .republishFailed hp

/-! ### The pieces of a move -/

/-- A publication by the API reaches the queue, or changes nothing. -/
theorem publish_cases (w : World E) (event : Event) :
    DocumentService.publish w event = w ∨
      DocumentService.publish w event =
        { w with publisher := { w.publisher with events := w.publisher.events ++ [event] } }.record
          (.published event) := by
  unfold DocumentService.publish
  cases h : w.publish event with
  | none => exact .inl rfl
  | some w' => exact .inr (World.publish_eq_some h).2

@[simp] theorem publish_documents (w : World E) (event : Event) :
    (DocumentService.publish w event).documents = w.documents := by
  rcases publish_cases w event with h | h <;> rw [h]; rfl

@[simp] theorem publish_engine (w : World E) (event : Event) :
    (DocumentService.publish w event).engine = w.engine := by
  rcases publish_cases w event with h | h <;> rw [h]; rfl

@[simp] theorem publish_cache (w : World E) (event : Event) :
    (DocumentService.publish w event).cache = w.cache := by
  rcases publish_cases w event with h | h <;> rw [h]; rfl

/-- `process` returns when no tenant is left. -/
theorem proceed_cases {w w' : World E} {p : Plan Str} {r : BulkResult} {b : ℕ} {ts : List Str}
    {next : Option ProcessStep} (h : IndexingProcessor.proceed w p r b ts = (w', next)) :
    (ts = [] ∧ w' = w.record (.processed p.operations r.succeeded b) ∧ next = none) ∨
      (w' = w ∧ next = some (.invalidate p r b ts)) := by
  cases ts with
  | nil => cases h; exact .inl ⟨rfl, rfl, rfl⟩
  | cons t ts => cases h; exact .inr ⟨rfl, rfl⟩

/-- Going on changes nothing but the log. -/
theorem proceed_frame {w w' : World E} {p : Plan Str} {r : BulkResult} {b : ℕ} {ts : List Str}
    {next : Option ProcessStep} (h : IndexingProcessor.proceed w p r b ts = (w', next)) :
    w'.documents = w.documents ∧ w'.engine = w.engine ∧ w'.cache = w.cache := by
  rcases proceed_cases h with ⟨-, rfl, -⟩ | ⟨rfl, -⟩ <;> exact ⟨rfl, rfl, rfl⟩

/-- An increment that went through is recorded. -/
theorem bump_cases (w : World E) (b : ℕ) (t : Str) :
    (bump w b t = w.invalidateTenant t ∧ (w.cache.incr (searchGenerationKey t)).1 = none) ∨
      ∃ g, bump w b t = (w.invalidateTenant t).record (.bumped t g b) ∧
        (w.cache.incr (searchGenerationKey t)).1 = some g := by
  unfold bump
  split
  · rename_i g hg; exact .inr ⟨g, rfl, hg⟩
  · rename_i hg; exact .inl ⟨rfl, hg⟩

@[simp] theorem bump_documents (w : World E) (b : ℕ) (t : Str) :
    (bump w b t).documents = w.documents := by
  rcases bump_cases w b t with ⟨h, -⟩ | ⟨g, h, -⟩ <;> rw [h] <;> rfl

@[simp] theorem bump_engine (w : World E) (b : ℕ) (t : Str) : (bump w b t).engine = w.engine := by
  rcases bump_cases w b t with ⟨h, -⟩ | ⟨g, h, -⟩ <;> rw [h] <;> rfl

@[simp] theorem bump_cache (w : World E) (b : ℕ) (t : Str) :
    (bump w b t).cache = (w.cache.incr (searchGenerationKey t)).2 := by
  rcases bump_cases w b t with ⟨h, -⟩ | ⟨g, h, -⟩ <;> rw [h] <;> rfl

/-- No task takes the cache down or up. -/
theorem available_move {cfg : Settings} {rt : Runtime K} {w w' : World E} {t : Task K}
    {u : Option (Task K)} (h : Move cfg rt w t w' u) : w'.cache.available = w.cache.available := by
  cases h with
  | indexPublished => rw [publish_cache]
  | deleted => rw [World.record_cache, publish_cache]
  | republished h => obtain ⟨-, rfl⟩ := World.publish_eq_some h; rfl
  | committed h => exact congrArg Cache.available (proceed_frame h).2.2
  | bumped _ h =>
      rw [(proceed_frame h).2.2, bump_cache]
      exact Cache.available_incr _ _
  | created | deleteInvalidated => exact Cache.available_incr _ _
  | documentCached | filled => exact Cache.available_setJson _ _ _
  | uncached => exact Cache.available_delete _ _
  | _ => rfl

/-- A cancelled task takes at most a key out of `_inflight`. -/
theorem cancel_cases (rt : Runtime K) (w : World E) (t : Task K) :
    cancel rt w t = w ∨ ∃ r q g, cancel rt w t = unregister w r (keyOf rt g q) := by
  cases t with
  | search r s q step =>
      cases step with
      | generation | cacheRead _ | flight _ | waiting _ _ => exact .inl rfl
      | execute g _ | fill g _ _ | finish g _ _ => exact .inr ⟨r, q, g, rfl⟩
  | _ => exact .inl rfl

/-! ### Outlines of the service -/

/-- The obligations of an outline, over the moves of the tasks. -/
structure Preserves (cfg : Settings) (rt : Runtime K) (P : Restriction (World E) (Task K) Request
    Disturbance) (init : World E → Prop) (O' O : Outline (World E) (Task K)) : Prop where
  init : ∀ {w}, init w → O.inv w
  start : ∀ {w r}, O'.Across w w.tick → P.start w r → O.inv w →
    O.inv w.tick ∧ O.assertion w.tick (start w r) ∧ O.guarantee w w.tick
  move : ∀ {w t w' u}, O'.Across w w'.tick → O'.assertion w t → P.resume w t →
    Move cfg rt w t w' u → O.inv w → O.assertion w t →
    O.inv w'.tick ∧ (∀ t', u = some t' → O.assertion w'.tick t') ∧ O.guarantee w w'.tick
  cancel : ∀ {w t}, O'.Across w (cancel rt w t) → O'.assertion w t → O.inv w → O.assertion w t →
    O.inv (cancel rt w t) ∧ O.guarantee w (cancel rt w t)
  disturb : ∀ {w e}, O'.Across w (disturb w e).tick → P.environment w e → O.inv w →
    O.inv (disturb w e).tick ∧ O.guarantee w (disturb w e).tick
  stable : ∀ {w w' t}, O'.Across w w' → O.Across w w' → O'.assertion w t → O.assertion w t →
    O.assertion w' t

theorem Preserves.valid {cfg : Settings} {rt : Runtime K}
    {P : Restriction (World E) (Task K) Request Disturbance} {init : World E → Prop}
    {O' O : Outline (World E) (Task K)} (h : Preserves cfg rt P init O' O) :
    (machine cfg rt E).Valid P init O' O where
  init := h.init
  start hK hP hs hi := by
    cases hs
    exact h.start hK hP hi
  resume hK hKt hP hs hi ht := by
    obtain ⟨⟨w₁, u⟩, hr, he⟩ := Option.map_eq_some_iff.mp hs
    cases he
    exact h.move hK hKt hP (resume_move hr) hi ht
  cancel := h.cancel
  environment hK hP hs hi := by
    cases hs
    exact h.disturb hK hP hi
  stable := h.stable

end Pipeline

end DocSearch
