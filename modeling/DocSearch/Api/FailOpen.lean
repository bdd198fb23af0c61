import DocSearch.Api.SearchRoute
import DocSearch.Pipeline.Calls

/-!
# Api — FailOpen

Requests of the API one after the other, each authenticated by its key, over a cache whose calls may
raise in any pattern, beside the same requests over a cache that never holds anything.

* `serve`: one request.  `serveAll`: a run of them, with whatever happens in between.
* `serve_step`: what one request does on the two sides.
* `fail_open`: the two runs leave the same rows and the same events, and what succeeds without a
  cache succeeds with one that raises.
-/

namespace DocSearch

open CacheKeys DocumentService SearchService Pipeline

/-- A request, of whom the key tells.  A `create` carries the id `uuid4` drew for it. -/
inductive ApiRequest where
  | create (id : Uuid) (payload : DocumentCreate)
  | get (documentId : Uuid)
  | delete (documentId : Uuid)
  | search (replica : ℕ) (tenantParam : Option Str) (text : Str) (fuzzy highlight facets : Bool)
      (page size : ℤ)

/-- The calls of the cache that raise while a request is served. -/
structure Faults where
  tenantGet : Bool
  tenantSet : Bool
  /-- Whether the call of the `i`-th step is answered. -/
  up : ℕ → Bool

/-- What a request sees of the cache. -/
structure Backend (K : Type) where
  tenants : TenantCache → TenantCache
  tenantGet : Bool
  tenantSet : Bool
  view : ℕ → Cache K → Cache K

/-- The service, with the tenants it has cached. -/
structure Session {K : Type} (E : SearchEngine K) where
  world : World E
  tenants : TenantCache

/-- What a run consists of. -/
inductive Item where
  | request (apiKey : Option Str) (request : ApiRequest) (faults : Faults)
  | environment (e : Disturbance)

namespace FailOpen

variable {K : Type} {E : SearchEngine K}

/-- The cache raises where the faults say so. -/
def raises (f : Faults) : Backend K := ⟨id, f.tenantGet, f.tenantSet, raising f.up⟩

/-- The cache answers, and always misses. -/
def misses (_ : Faults) : Backend K := ⟨fun _ _ => none, false, false, missing⟩

/-- What the routes ask of the services. -/
def routed (settings : PagingSettings) (tenant : Tenant) : ApiRequest → Except RouteError Request
  | .create id payload => .ok (.create tenant.id id payload)
  | .get documentId => .ok (.get tenant.id documentId)
  | .delete documentId => .ok (.delete tenant.id documentId)
  | .search replica tenantParam text fuzzy highlight facets page size =>
      (Deps.enforceTenantScope tenantParam tenant).map fun tenantId =>
        .search replica
          (SearchRoute.pageQuery settings tenantId text fuzzy highlight facets page size)

/-- What is fixed during a run. -/
structure Deployment (K : Type) where
  runtime : Runtime K
  settings : Settings
  paging : PagingSettings
  tenantCacheTtlSeconds : ℕ
  tenants : Tenants

/-- The log, less what was there before. -/
def newEntries (w w' : World E) : List (ℕ × Entry K) := w'.log.take (w'.log.length - w.log.length)

/-- One request, from its credential to its return, and whether it succeeded. -/
def serve (d : Deployment K) (b : Backend K) (s : Session E) (apiKey : Option Str) (r : ApiRequest) :
    Bool × Session E :=
  match Deps.getCurrentTenant d.runtime d.tenants d.tenantCacheTtlSeconds s.world.now b.tenantGet
      b.tenantSet (b.tenants s.tenants) apiKey with
  | (.error _, tenants) => (false, ⟨s.world, tenants⟩)
  | (.ok tenant, tenants) =>
      match routed d.paging tenant r with
      | .error _ => (false, ⟨s.world, tenants⟩)
      | .ok request =>
          match complete d.settings d.runtime b.view 6 0 s.world.tick (start s.world request) with
          | none => (false, ⟨s.world, tenants⟩)
          | some w => (success (newEntries s.world w), ⟨w, tenants⟩)

/-- A run, and which of its requests succeeded. -/
def serveAll (d : Deployment K) (b : Faults → Backend K) :
    Session E → List Item → List Bool × Session E
  | s, [] => ([], s)
  | s, .environment e :: items => serveAll d b { s with world := disturb s.world e } items
  | s, .request apiKey r f :: items =>
      let (ok, s) := serve d (b f) s apiKey r
      let (oks, s) := serveAll d b s items
      (ok :: oks, s)

/-! ### Authentication -/

variable {d : Deployment K} {s s' : Session E}

/-- The tenant of a credential. -/
def authenticate (rt : Runtime K) (tenants : Tenants) : Option Str → Except RouteError Tenant
  | none | some [] => .error (.unauthorized "Missing X-API-Key header.".toList)
  | some apiKey =>
      match TenantRepository.getByApiKeyHash tenants (Deps.hashApiKey rt apiKey) with
      | none => .error (.unauthorized "Missing or invalid API credentials.".toList)
      | some tenant => .ok tenant

/-- What is cached of the tenants is what the table says. -/
def Authentic (tenants : Tenants) (cache : TenantCache) : Prop :=
  ∀ hash x, cache (tenantKey hash) = some x →
    TenantRepository.getByApiKeyHash tenants hash = some x.1

theorem Authentic.cachedAll {tenants : Tenants} {cache : TenantCache} (h : Authentic tenants cache) :
    CachedAll (fun hash x => TenantRepository.getByApiKeyHash tenants hash = some x.1) cache := h

/-- **Authentication.**  While the table does not change, it is what the table says, whatever is
cached and whatever raises. -/
theorem getCurrentTenant_eq (rt : Runtime K) {tenants : Tenants} {cache : TenantCache}
    (h : Authentic tenants cache) (ttl : ℕ) (now : Timestamp) (getRaises setRaises : Bool)
    (apiKey : Option Str) :
    (Deps.getCurrentTenant rt tenants ttl now getRaises setRaises cache apiKey).1 =
        authenticate rt tenants apiKey ∧
      Authentic tenants
        (Deps.getCurrentTenant rt tenants ttl now getRaises setRaises cache apiKey).2 := by
  rcases apiKey with _ | _ | ⟨c, cs⟩
  · exact ⟨rfl, h⟩
  · exact ⟨rfl, h⟩
  · have hcache := h.cachedAll.getTenant getRaises (tenantKey (Deps.hashApiKey rt (c :: cs))) now
    simp only [Deps.getCurrentTenant, Deps.getCurrentTenantAt, authenticate]
    split
    · rename_i tenant cache' hget
      obtain ⟨_, -, hfound⟩ := h.cachedAll.hit (congrArg Prod.fst hget)
      rw [hget] at hcache
      rw [hfound]
      exact ⟨rfl, hcache⟩
    · rename_i cache' hget
      rw [hget] at hcache
      cases hrow : TenantRepository.getByApiKeyHash tenants (Deps.hashApiKey rt (c :: cs)) with
      | none => exact ⟨rfl, hcache⟩
      | some tenant => exact ⟨rfl, hcache.setTenant setRaises hrow⟩

/-! ### One request -/

/-- Nothing is in flight, and the cache holds what the service puts into it. -/
structure Ready (d : Deployment K) (s : Session E) : Prop where
  inflight : ∀ r key, s.world.inflight r key = none
  typed : Typed d.runtime s.world.cache
  authentic : Authentic d.tenants s.tenants

/-- The backends of a session: what they show is what the service puts into the cache. -/
structure Honest (d : Deployment K) (b : Backend K) : Prop where
  tenants : ∀ cache, Authentic d.tenants cache → Authentic d.tenants (b.tenants cache)
  view : ∀ i c, Typed d.runtime c → Typed d.runtime (b.view i c)

theorem honest_raises (d : Deployment K) (f : Faults) : Honest d (raises f) :=
  ⟨fun _ h => h, fun i _ h => h.raising f.up i⟩

theorem honest_misses (d : Deployment K) (f : Faults) : Honest d (misses f) :=
  ⟨fun _ _ => nofun, fun _ _ _ => typed_empty⟩

/-- What a request with a credential comes to. -/
def requestOf (d : Deployment K) (apiKey : Option Str) (r : ApiRequest) : Except RouteError Request :=
  match authenticate d.runtime d.tenants apiKey with
  | .error e => .error e
  | .ok tenant => routed d.paging tenant r

/-- A request is alone when it starts, and at most six steps from its end. -/
theorem routed_alone {paging : PagingSettings} {tenant : Tenant} {r : ApiRequest} {q : Request}
    (h : routed paging tenant r = .ok q) (hs : ∀ r key, s.world.inflight r key = none) :
    Alone d.runtime s.world.tick (start s.world q) ∧ stepsLeft (start s.world q) ≤ 6 := by
  have idle : ∀ t : Task K, ∀ r key, s.world.tick.inflight r key ≠ none →
      ∃ f, leaderOf d.runtime t = some ((r, key), f) := fun _ r key hne => absurd (hs r key) hne
  cases r with
  | create | get | delete =>
      cases h
      exact ⟨⟨⟨rfl, rfl⟩, rfl, idle _⟩, by simp [start, stepsLeft]⟩
  | search replica tenantParam text fuzzy highlight facets page size =>
      rw [routed] at h
      cases ht : Deps.enforceTenantScope tenantParam tenant with
      | error e =>
          rw [ht] at h
          cases h
      | ok t =>
          rw [ht] at h
          cases h
          exact ⟨⟨⟨rfl, rfl⟩, rfl, idle _⟩, le_refl 6⟩

theorem newEntries_append {w w' : World E} {es : List (ℕ × Entry K)} (h : w'.log = es ++ w.log) :
    newEntries w w' = es := by
  rw [newEntries, h, List.length_append, Nat.add_sub_cancel, List.take_left]

/-- A request on one side: it is refused for its credential or its tenant, or does what it owes. -/
structure Served (d : Deployment K) (misses : Prop) (s : Session E) (apiKey : Option Str)
    (r : ApiRequest) (ok : Bool) (s' : Session E) : Prop where
  ready : Ready d s'
  refused : ∀ e, requestOf d apiKey r = .error e → ok = false ∧ SameStores s.world s'.world
  done : ∀ q, requestOf d apiKey r = .ok q →
    SameStores (owed s.world (start s.world q)) s'.world ∧
      (accepted s.world (start s.world q) = true → ok = true) ∧
      (misses → ok = true → accepted s.world (start s.world q) = true)

theorem serve_spec {b : Backend K} (hb : Honest d b) (hs : Ready d s) (apiKey : Option Str)
    (r : ApiRequest) :
    Served d (∀ i c key, (b.view i c).getJson key = none) s apiKey r (serve d b s apiKey r).1
      (serve d b s apiKey r).2 := by
  obtain ⟨hauth, hcache⟩ := getCurrentTenant_eq d.runtime (hb.tenants _ hs.authentic)
    d.tenantCacheTtlSeconds s.world.now b.tenantGet b.tenantSet apiKey
  unfold serve
  split
  · rename_i e cache hget
    rw [hget] at hauth hcache
    have hrefused : requestOf d apiKey r = .error e := by
      rw [requestOf, ← hauth]
    refine ⟨⟨hs.inflight, hs.typed, hcache⟩, fun _ _ => ⟨rfl, .refl _⟩, fun q hq => ?_⟩
    rw [hrefused] at hq
    cases hq
  · rename_i tenant cache hget
    rw [hget] at hauth hcache
    have hreq : requestOf d apiKey r = routed d.paging tenant r := by
      rw [requestOf, ← hauth]
    split
    · rename_i e hr
      rw [hr] at hreq
      refine ⟨⟨hs.inflight, hs.typed, hcache⟩, fun _ _ => ⟨rfl, .refl _⟩, fun q hq => ?_⟩
      rw [hreq] at hq
      cases hq
    · rename_i q hr
      rw [hr] at hreq
      obtain ⟨halone, hsteps⟩ := routed_alone (d := d) hr hs.inflight
      obtain ⟨w, hw, hdone⟩ := complete_spec d.settings hb.view hsteps halone
        (i := 0) (w := s.world.tick) hs.typed
      obtain ⟨es, hlog, hacc, hmiss⟩ := hdone.log
      rw [hw]
      have hsame := accepted_sameStores (sameStores_tick s.world) (start s.world q)
      rw [hsame, ← newEntries_append hlog] at hacc hmiss
      refine ⟨⟨hdone.inflight, hdone.typed, hcache⟩, fun e he => ?_, fun q' hq => ?_⟩
      · rw [hreq] at he
        cases he
      · rw [hreq] at hq
        cases hq
        exact ⟨(sameStores_owed (sameStores_tick s.world) _).trans hdone.stores, hacc, hmiss⟩

/-- When a request starts is all a task keeps of the world it starts in. -/
theorem owed_start (w w₁ w₂ : World E) (q : Request) :
    owed w (start w₁ q) = owed w (start w₂ q) ∧ accepted w (start w₁ q) = accepted w (start w₂ q) := by
  cases q <;> exact ⟨rfl, rfl⟩

/-- **One request, on the two sides.** -/
theorem serve_step (hs : Ready d s) (hs' : Ready d s') (hsame : SameStores s'.world s.world)
    (apiKey : Option Str) (r : ApiRequest) (f : Faults) :
    SameStores (serve d (misses f) s' apiKey r).2.world (serve d (raises f) s apiKey r).2.world ∧
      ((serve d (misses f) s' apiKey r).1 = true → (serve d (raises f) s apiKey r).1 = true) := by
  have h := serve_spec (honest_raises d f) hs apiKey r
  have h' := serve_spec (honest_misses d f) hs' apiKey r
  cases hq : requestOf d apiKey r with
  | error e =>
      obtain ⟨-, hstores⟩ := h.refused e hq
      obtain ⟨hok', hstores'⟩ := h'.refused e hq
      refine ⟨hstores'.symm.trans (hsame.trans hstores), fun hok => ?_⟩
      rw [hok'] at hok
      cases hok
  | ok q =>
      obtain ⟨hstores, hacc, -⟩ := h.done q hq
      obtain ⟨hstores', -, hmiss⟩ := h'.done q hq
      have hstart := owed_start s.world s'.world s.world q
      have howed := sameStores_owed hsame (start s'.world q)
      have haccepted := accepted_sameStores hsame (start s'.world q)
      rw [hstart.1] at howed
      rw [hstart.2] at haccepted
      refine ⟨hstores'.symm.trans (howed.trans hstores), fun hok => hacc ?_⟩
      rw [haccepted]
      exact hmiss (fun _ _ _ => rfl) hok

/-! ### A run -/

theorem ready_disturb (hs : Ready d s) (e : Disturbance) :
    Ready d { s with world := disturb s.world e } := by
  refine ⟨?_, ?_, hs.authentic⟩
  · cases e <;> exact hs.inflight
  · cases e with
    | expire key => exact hs.typed.expire key
    | cache available => exact hs.typed.raising (fun _ => available) 0
    | _ => exact hs.typed

theorem sameStores_disturb {w w' : World E} (h : SameStores w w') (e : Disturbance) :
    SameStores (disturb w e) (disturb w' e) := by
  cases e with
  | elapse microseconds => exact ⟨h.documents, h.publisher, h.engine, congrArg (· + microseconds) h.now⟩
  | lose position =>
      refine ⟨h.documents, ?_, h.engine, h.now⟩
      simp only [disturb, h.publisher]
  | refresh => exact ⟨h.documents, h.publisher, congrArg E.refresh h.engine, h.now⟩
  | engine available =>
      exact ⟨h.documents, h.publisher, congrArg (E.setAvailable · available) h.engine, h.now⟩
  | publisher available =>
      refine ⟨h.documents, ?_, h.engine, h.now⟩
      simp only [disturb, h.publisher]
  | expire | cache => exact ⟨h.documents, h.publisher, h.engine, h.now⟩

/-- The two sides, from two sessions with the same stores. -/
theorem serveAll_sameStores (items : List Item) : ∀ {s s' : Session E}, Ready d s → Ready d s' →
    SameStores s'.world s.world →
    SameStores (serveAll d misses s' items).2.world (serveAll d raises s items).2.world ∧
      List.Forall₂ (fun ok' ok => ok' = true → ok = true) (serveAll d misses s' items).1
        (serveAll d raises s items).1 := by
  induction items with
  | nil => exact fun _ _ hsame => ⟨hsame, .nil⟩
  | cons item items ih =>
      intro s s' hs hs' hsame
      cases item with
      | environment e =>
          exact ih (ready_disturb hs e) (ready_disturb hs' e) (sameStores_disturb hsame e)
      | request apiKey r f =>
          have h := serve_spec (honest_raises d f) hs apiKey r
          have h' := serve_spec (honest_misses d f) hs' apiKey r
          obtain ⟨hstores, hok⟩ := serve_step hs hs' hsame apiKey r f
          obtain ⟨hrun, hoks⟩ := ih h.ready h'.ready hstores
          exact ⟨hrun, .cons hok hoks⟩

/-- **The cache is never a dependency.**  Whatever calls of the cache raise in a run, its rows and
its events are those of the same run over a cache that always misses, and each request that succeeds
there succeeds. -/
theorem fail_open (hs : Ready d s) (items : List Item) :
    (serveAll d raises s items).2.world.documents = (serveAll d misses s items).2.world.documents ∧
      (serveAll d raises s items).2.world.publisher = (serveAll d misses s items).2.world.publisher ∧
      List.Forall₂ (fun ok' ok => ok' = true → ok = true) (serveAll d misses s items).1
        (serveAll d raises s items).1 := by
  obtain ⟨hsame, hoks⟩ := serveAll_sameStores items hs hs (.refl s.world)
  exact ⟨hsame.documents, hsame.publisher, hoks⟩

/-- A session before anything has happened. -/
theorem ready_initial (engine : E.State) : Ready d ⟨World.initial engine, fun _ => none⟩ :=
  ⟨fun _ _ => rfl, typed_empty, fun _ _ => nofun⟩

end FailOpen

namespace Sample

open FailOpen

def apiKey : Str := "secret".toList

/-- A service with one tenant. -/
def deployment : Deployment ℚ where
  runtime := runtime
  settings := settings
  paging := pagingSettings
  tenantCacheTtlSeconds := 300
  tenants := ⟨[{ tenantAcme with apiKeyHash := Deps.hashApiKey runtime apiKey }], by decide +kernel⟩

def session : Session (inMemory runtime) := ⟨start, fun _ => none⟩

/-- Every call of the cache raises. -/
def outage : Faults := ⟨true, true, fun _ => false⟩

/-- Every second call raises. -/
def flaky : Faults := ⟨false, true, fun i => i % 2 = 0⟩

/-- A document is created, read, searched for and deleted, between an outage and a flaky cache. -/
def faultyRun : List Item :=
  [.request (some apiKey) (.create documentA payload) outage,
    .request (some apiKey) (.get documentA) flaky,
    .request (some apiKey)
      (.search 0 none "revenue".toList false true false 1 10) flaky,
    .environment (.publisher false),
    .request (some apiKey) (.delete documentA) outage,
    .request (some apiKey) (.get documentA) flaky]

theorem fail_open_sample :
    (serveAll deployment raises session faultyRun).2.world.documents =
        (serveAll deployment misses session faultyRun).2.world.documents ∧
      (serveAll deployment raises session faultyRun).2.world.publisher =
        (serveAll deployment misses session faultyRun).2.world.publisher ∧
      List.Forall₂ (fun ok' ok => ok' = true → ok = true)
        (serveAll deployment misses session faultyRun).1
        (serveAll deployment raises session faultyRun).1 :=
  fail_open (ready_initial _) faultyRun

-- the last read finds the entry that the outage kept from being deleted
example : (serveAll deployment misses session faultyRun).1 = [true, true, true, true, false] ∧
    (serveAll deployment raises session faultyRun).1 = [true, true, true, true, true] := by
  decide +kernel

end Sample

end DocSearch
