import DocSearch.Api.Deps
import DocSearch.Clients.InMemoryEngine
import DocSearch.Pipeline.Replay
import DocSearch.Pipeline.Transparency

/-!
# Api — SearchRoute

`GET /search`: the asserted tenant is checked, the size and the page are clamped, and the query is
passed to the service.

* `routeQuery`: the query a request is served with.
* `hits_returned`: the hits a search returns in a run over one index, from the engine, the cache or
  another search, are those the index has for its query.
* `pages_disjoint_iff`: when two requested pages share no hit.
-/

namespace DocSearch

open CacheKeys InMemoryEngine SearchService Interleaving Pipeline

/-- The settings of the route. -/
structure PagingSettings where
  maxPageSize : ℤ
  maxResultWindow : ℤ

namespace SearchRoute

variable {K : Type}

/-- The query of a request.  `from + size` beyond the result window is refused by the cluster, so
that a page past it becomes the last one before it. -/
def pageQuery (settings : PagingSettings) (tenantId text : Str) (fuzzy highlight facets : Bool)
    (page size : ℤ) : SearchQuery :=
  let size := min size settings.maxPageSize
  let maxPage := max 1 (settings.maxResultWindow.fdiv size)
  { tenantId := tenantId
    text := text
    page := min page maxPage
    size := size
    fuzzy := fuzzy
    highlight := highlight
    facets := facets }

/-- The query the route asks the service, for the authenticated tenant. -/
def routeQuery (settings : PagingSettings) (tenant : Tenant) (tenantParam : Option Str) (text : Str)
    (fuzzy highlight facets : Bool) (page size : ℤ) : Except RouteError SearchQuery :=
  (Deps.enforceTenantScope tenantParam tenant).map fun tenantId =>
    pageQuery settings tenantId text fuzzy highlight facets page size

/-- `search_documents`. -/
def searchDocuments {E : SearchEngine K} (settings : PagingSettings) (rt : Runtime K) (w : World E)
    (tenant : Tenant) (tenantParam : Option Str) (text : Str) (fuzzy highlight facets : Bool)
    (page size : ℤ) : Except RouteError (Answer K) × World E :=
  match routeQuery settings tenant tenantParam text fuzzy highlight facets page size with
  | .error e => (.error e, w)
  | .ok q =>
      let (r, w) := SearchService.search rt w w.clock q
      (r.mapError .service, w)

theorem enforceTenantScope_eq_ok {requested : Option Str} {tenant : Tenant} {t : Str}
    (h : Deps.enforceTenantScope requested tenant = .ok t) : t = tenant.id := by
  unfold Deps.enforceTenantScope at h
  split at h
  · cases h; rfl
  · cases h; rfl
  · split at h <;> cases h; rfl

/-- The query is one of the tenant itself. -/
theorem routeQuery_eq_ok {settings : PagingSettings} {tenant : Tenant} {tenantParam : Option Str}
    {text : Str} {fuzzy highlight facets : Bool} {page size : ℤ} {q : SearchQuery}
    (h : routeQuery settings tenant tenantParam text fuzzy highlight facets page size = .ok q) :
    q = pageQuery settings tenant.id text fuzzy highlight facets page size := by
  unfold routeQuery at h
  cases ht : Deps.enforceTenantScope tenantParam tenant with
  | error e =>
      rw [ht] at h
      cases h
  | ok t =>
      rw [ht] at h
      cases h
      rw [enforceTenantScope_eq_ok ht]

variable [Field K] [LinearOrder K] {rt : Runtime K}

/-- The hits an index has for a query. -/
def pageHits (rt : Runtime K) (docs : Docs) (q : SearchQuery) : List (SearchHit K) :=
  (pySlice (scored rt q (corpus docs q)) q.offset (q.offset + q.size)).map fun p =>
    toSearchHit (toHit rt (tokenize rt.toUnicode q.text) q.highlight p)

/-- Two pages without a document in common. -/
def Disjoint (xs ys : List (SearchHit K)) : Prop := ∀ x ∈ xs, ∀ y ∈ ys, x.id ≠ y.id

/-- In a run over the index `st`, from a cache without a search, that asks the queries of `Q`, a
search of `q` returns the answer. -/
inductive Returned (cfg : Settings) (rt : Runtime K) (Q : SearchQuery → Prop) (st : State)
    (q : SearchQuery) (answer : Answer K) : Prop where
  | intro {s s' : Config (World (inMemory rt)) (Task K)} {i r b g : ℕ} {c : Str} {step : SearchStep K}
      (reach : (machine cfg rt (inMemory rt)).Reach (sameIndex rt Q) (Unserved rt st) s)
      (task : s.tasks i = some (.search r b q step))
      (last : (machine cfg rt (inMemory rt)).step s (.resume i c) = some s')
      (done : s'.tasks i = none)
      (log : s'.world.log = (s.world.clock, .searched q.tenantId b g (.ok answer)) :: s.world.log) :
      Returned cfg rt Q st q answer

/-! ### One request -/

theorem hits_execute {w : World (inMemory rt)} {q : SearchQuery} {a : Answer K}
    (h : execute w q = .ok a) : a.response.hits = pageHits rt w.engine.docs q := by
  simp only [execute, inMemory, InMemoryEngine.search] at h
  cases hav : w.engine.available with
  | false => rw [hav] at h; cases h
  | true =>
      rw [hav] at h
      cases h
      exact List.map_map

/-- **A page is what the index has**, whoever served it. -/
theorem hits_returned {cfg : Settings} {Q : SearchQuery → Prop} {st : State}
    (hu : rt.toUnicode.Lowers) (hQ : CollisionFree rt Q) {q : SearchQuery} {a : Answer K}
    (h : Returned cfg rt Q st q a) : a.response.hits = pageHits rt st.docs q := by
  obtain ⟨hr, ht, hs, hdone, hlog⟩ := h
  obtain ⟨g, res, hlog', hq, hd, -⟩ := returned_direct hu hQ hr ht hs hdone
  obtain rfl : res = .ok a := by
    rw [hlog] at hlog'
    cases hlog'
    rfl
  have hd := hd g q hq rfl
  unfold direct at hd
  cases he : execute (World.initial (E := inMemory rt) st) q with
  | error e =>
      rw [he] at hd
      cases hd
  | ok b =>
      rw [he] at hd
      have hhits : (contentOf (echoing q.text a)).hits = (contentOf b).hits :=
        congrArg SearchResponse.hits (Except.ok.inj hd)
      change a.response.hits = b.response.hits at hhits
      rw [hhits, hits_execute he]
      rfl

/-! ### Two requests -/

/-- Different pages of one size share no document. -/
theorem pageHits_disjoint {docs : Docs} {q : SearchQuery} {p p' : ℕ} {s : ℕ} (hne : p ≠ p') :
    Disjoint (pageHits rt docs { q with page := p + 1, size := s })
      (pageHits rt docs { q with page := p' + 1, size := s }) := by
  have hoffset : ∀ p : ℕ,
      SearchQuery.offset { q with page := p + 1, size := s } = ((p * s : ℕ) : ℤ) := by
    intro p
    simp [SearchQuery.offset]
  intro x hx y hy
  simp only [pageHits, List.mem_map, hoffset, mem_pySlice_window] at hx hy
  obtain ⟨a, ⟨i, hi, hi', ha⟩, rfl⟩ := hx
  obtain ⟨b, ⟨j, hj, hj', hb⟩, rfl⟩ := hy
  -- one position for each document
  intro (hid : a.2.documentId = b.2.documentId)
  have ha' :
      ((scored rt q (corpus docs q)).map fun p => p.2.documentId)[i]? = some a.2.documentId := by
    rw [List.getElem?_map]
    exact congrArg (Option.map _) ha
  have hb' :
      ((scored rt q (corpus docs q)).map fun p => p.2.documentId)[j]? = some a.2.documentId := by
    rw [List.getElem?_map, hid]
    exact congrArg (Option.map _) hb
  obtain ⟨hil, hie⟩ := List.getElem?_eq_some_iff.mp ha'
  obtain ⟨hjl, hje⟩ := List.getElem?_eq_some_iff.mp hb'
  obtain rfl : i = j := (nodup_scored rt docs q).getElem_inj_iff.mp (hie.trans hje.symm)
  rcases Nat.lt_or_gt_of_ne hne with hlt | hlt
  · have := Nat.mul_le_mul_right s hlt
    rw [Nat.succ_mul] at this
    omega
  · have := Nat.mul_le_mul_right s hlt
    rw [Nat.succ_mul] at this
    omega

/-- **Pages.**  In the runs over one index, from a cache without a search, the hits the route returns
for two requested pages are disjoint exactly when the pages are still different after the clamp, or
empty. -/
theorem pages_disjoint_iff {cfg : Settings} {Q : SearchQuery → Prop} {st : State}
    (hu : rt.toUnicode.Lowers) (hQ : CollisionFree rt Q) {settings : PagingSettings}
    (hsize : 1 ≤ settings.maxPageSize) {tenant : Tenant} {tenantParam tenantParam' : Option Str}
    {text : Str} {fuzzy highlight facets : Bool} {size page page' : ℤ} (hs : 1 ≤ size)
    (hp : 1 ≤ page) (hp' : 1 ≤ page') {q q' : SearchQuery} {a a' : Answer K}
    (hq : routeQuery settings tenant tenantParam text fuzzy highlight facets page size = .ok q)
    (hq' : routeQuery settings tenant tenantParam' text fuzzy highlight facets page' size = .ok q')
    (h : Returned cfg rt Q st q a) (h' : Returned cfg rt Q st q' a') :
    Disjoint a.response.hits a'.response.hits ↔ q.page ≠ q'.page ∨ a.response.hits = [] := by
  obtain rfl := routeQuery_eq_ok hq
  obtain rfl := routeQuery_eq_ok hq'
  have ha := hits_returned hu hQ h
  have ha' := hits_returned hu hQ h'
  -- a clamped page is at least 1, and the size too
  have hclamp : ∀ {p : ℤ}, 1 ≤ p → ∃ n : ℕ,
      (pageQuery settings tenant.id text fuzzy highlight facets p size).page = n + 1 := by
    intro p hp
    have h1 : 1 ≤ (pageQuery settings tenant.id text fuzzy highlight facets p size).page :=
      le_min hp (le_max_left _ _)
    generalize (pageQuery settings tenant.id text fuzzy highlight facets p size).page = m at h1 ⊢
    exact ⟨(m - 1).toNat, by omega⟩
  obtain ⟨n, hn⟩ := hclamp hp
  obtain ⟨n', hn'⟩ := hclamp hp'
  obtain ⟨s, hs'⟩ : ∃ s : ℕ, min size settings.maxPageSize = s :=
    ⟨(min size settings.maxPageSize).toNat, by omega⟩
  have hq : ∀ {p : ℤ} {n : ℕ},
      (pageQuery settings tenant.id text fuzzy highlight facets p size).page = n + 1 →
      pageQuery settings tenant.id text fuzzy highlight facets p size =
        { tenantId := tenant.id, text := text, page := n + 1, size := s, fuzzy := fuzzy,
          highlight := highlight, facets := facets } := by
    intro p n hn
    rw [← hn, ← hs']
    rfl
  rw [hq hn] at ha
  rw [hq hn'] at ha'
  rw [hn, hn', ha, ha']
  constructor
  · intro hd
    by_contra hno
    rw [not_or, not_not] at hno
    obtain ⟨hpage, hne⟩ := hno
    obtain ⟨x, hx⟩ := List.exists_mem_of_ne_nil _ hne
    rw [← hpage] at hd
    exact hd x hx x hx rfl
  · rintro (hpage | hnil)
    · refine pageHits_disjoint (q := ⟨tenant.id, text, 1, 1, fuzzy, highlight, facets⟩) ?_
      omega
    · rw [hnil]
      exact fun x hx => by cases hx

end SearchRoute

namespace Sample

open SearchRoute IndexingProcessor Pipeline

def tenantAcme : Tenant where
  id := acme
  name := "Acme".toList
  apiKeyHash := []
  status := "active".toList
  rateLimitPerMinute := 120

/-- The settings of the service. -/
def pagingSettings : PagingSettings := ⟨50, 10000⟩

/-- The query of `GET /search?q=revenue&size=1` for a page. -/
def pageOfOne (page : ℤ) : SearchQuery :=
  pageQuery pagingSettings acme "revenue".toList false true false page 1

/-- The queries of the two pages. -/
def Paged (q : SearchQuery) : Prop := q = pageOfOne 1 ∨ q = pageOfOne 2

instance (q : SearchQuery) : Decidable (Paged q) :=
  inferInstanceAs (Decidable (q = pageOfOne 1 ∨ q = pageOfOne 2))

theorem digest_pageOfOne : digestOf runtime (pageOfOne 1) ≠ digestOf runtime (pageOfOne 2) := by
  decide +kernel

theorem paged_collisionFree : CollisionFree runtime Paged := by
  rintro q q' (rfl | rfl) (rfl | rfl) h
  · rfl
  · exact absurd h digest_pageOfOne
  · exact absurd h.symm digest_pageOfOne
  · rfl

/-- An index of two documents. -/
def twoDocuments : State :=
  ⟨applyAll .empty [operationFor documentA.str (Document.new documentA acme payload 0),
    operationFor documentB.str (Document.new documentB acme payload 0)], true⟩

/-- Page 1 is asked, and then page 2: all but the last step of each. -/
def pageOne : Actions :=
  [.start 0 (.search 0 (pageOfOne 1)), .resume 0 [], .resume 0 [], .resume 0 [], .resume 0 [],
    .resume 0 []]

def pageTwo : Actions :=
  pageOne ++ [.resume 0 [], .start 1 (.search 0 (pageOfOne 2)), .resume 1 [], .resume 1 [],
    .resume 1 [], .resume 1 [], .resume 1 []]

/-- What the last search has returned. -/
def lastAnswer (s : Config (World (inMemory runtime)) (Task ℚ)) : Option (Answer ℚ) :=
  match s.world.log with
  | (_, .searched _ _ _ (.ok a)) :: _ => some a
  | _ => none

theorem pageOne_runs :
    (service.run (Config.idle (World.initial twoDocuments)) pageOne).isSome := by decide +kernel

theorem pageTwo_runs :
    (service.run (Config.idle (World.initial twoDocuments)) pageTwo).isSome := by decide +kernel

/-- Page 1 is about to be returned. -/
def readyOne : Config (World (inMemory runtime)) (Task ℚ) :=
  service.after (World.initial twoDocuments) pageOne pageOne_runs

/-- Page 2 is about to be returned. -/
def readyTwo : Config (World (inMemory runtime)) (Task ℚ) :=
  service.after (World.initial twoDocuments) pageTwo pageTwo_runs

theorem readyOne_steps : (service.step readyOne (.resume 0 [])).isSome := by decide +kernel

theorem readyTwo_steps : (service.step readyTwo (.resume 1 [])).isSome := by decide +kernel

theorem answerOne_isSome :
    (lastAnswer ((service.step readyOne (.resume 0 [])).get readyOne_steps)).isSome := by decide +kernel

theorem answerTwo_isSome :
    (lastAnswer ((service.step readyTwo (.resume 1 [])).get readyTwo_steps)).isSome := by decide +kernel

/-- The two pages. -/
def answerOne : Answer ℚ :=
  (lastAnswer ((service.step readyOne (.resume 0 [])).get readyOne_steps)).get answerOne_isSome

def answerTwo : Answer ℚ :=
  (lastAnswer ((service.step readyTwo (.resume 1 [])).get readyTwo_steps)).get answerTwo_isSome

theorem unserved_twoDocuments : Unserved runtime twoDocuments (World.initial twoDocuments) :=
  ⟨rfl, fun _ _ => rfl, rfl, fun _ _ => rfl⟩

/-- When a search was asked, and what for. -/
def asked : Option (Task ℚ) → Option (ℕ × SearchQuery)
  | some (.search _ b q _) => some (b, q)
  | _ => none

theorem returned_last {s s' : Config (World (inMemory runtime)) (Task ℚ)} {i b : ℕ}
    {q : SearchQuery} {a : Answer ℚ}
    (hr : service.Reach (sameIndex runtime Paged) (Unserved runtime twoDocuments) s)
    (ht : asked (s.tasks i) = some (b, q)) (hs : service.step s (.resume i []) = some s')
    (hd : (s'.tasks i).isNone) (ha : lastAnswer s' = some a) :
    Returned settings runtime Paged twoDocuments q a := by
  unfold asked at ht
  split at ht <;> cases ht
  rename_i htask
  have hd := Option.isNone_iff_eq_none.mp hd
  obtain ⟨g, res, hlog, -⟩ := returned_direct unicode_lowers paged_collisionFree hr htask hs hd
  rw [lastAnswer, hlog] at ha
  cases res with
  | error e => cases ha
  | ok r =>
      cases ha
      exact .intro hr htask hs hd hlog

theorem returned_answerOne :
    Returned settings runtime Paged twoDocuments (pageOfOne 1) answerOne :=
  returned_last (i := 0) (b := 0)
    (Machine.reach_after unserved_twoDocuments pageOne_runs (by decide +kernel))
    (by decide +kernel) (Option.some_get readyOne_steps).symm (by decide +kernel)
    (Option.some_get answerOne_isSome).symm

theorem returned_answerTwo :
    Returned settings runtime Paged twoDocuments (pageOfOne 2) answerTwo :=
  returned_last (i := 1) (b := 7)
    (Machine.reach_after unserved_twoDocuments pageTwo_runs (by decide +kernel))
    (by decide +kernel) (Option.some_get readyTwo_steps).symm (by decide +kernel)
    (Option.some_get answerTwo_isSome).symm

theorem route_pageOfOne (page : ℤ) : routeQuery pagingSettings tenantAcme none "revenue".toList
    false true false page 1 = .ok (pageOfOne page) := rfl

theorem pages_disjoint_sample :
    Disjoint answerOne.response.hits answerTwo.response.hits ↔
      (pageOfOne 1).page ≠ (pageOfOne 2).page ∨ answerOne.response.hits = [] :=
  pages_disjoint_iff unicode_lowers paged_collisionFree (by decide) (by decide) (by decide)
    (by decide) (route_pageOfOne 1) (route_pageOfOne 2) returned_answerOne returned_answerTwo

/-- Page 1 shows the one document and page 2 the other. -/
example : answerOne.response.hits.map SearchHit.id = [documentA.str] ∧
    answerTwo.response.hits.map SearchHit.id = [documentB.str] := by decide +kernel

/-- The service with one document, indexed, and nothing cached. -/
def indexed : World (inMemory runtime) :=
  { Pipeline.performAll runtime start
      [.create acme documentA payload, .process [⟨documentA.str, acme, 1, eventIndex⟩]] with
    cache := .empty }

/-- `GET /search?q=revenue`. -/
def request (settings : PagingSettings) (w : World (inMemory runtime)) (page size : ℤ) :
    Except RouteError (Answer ℚ) × World (inMemory runtime) :=
  searchDocuments settings runtime w tenantAcme none "revenue".toList false true false page size

/-- The answer of a request that succeeds. -/
def answerOf (r : Except RouteError (Answer ℚ)) (h : r.toOption.isSome) : Answer ℚ := r.toOption.get h

theorem eq_ok_answerOf {r : Except RouteError (Answer ℚ)} (h : r.toOption.isSome) :
    r = .ok (answerOf r h) := by
  cases r with
  | ok a => rfl
  | error e => cases h

/-- With a window of one document, pages 1 and 2 of size 1. -/
def firstPage : Except RouteError (Answer ℚ) × World (inMemory runtime) := request ⟨1, 1⟩ indexed 1 1

def secondPage : Except RouteError (Answer ℚ) × World (inMemory runtime) :=
  request ⟨1, 1⟩ firstPage.2 2 1

theorem firstPage_ok : firstPage.1.toOption.isSome := by decide +kernel

theorem secondPage_ok : secondPage.1.toOption.isSome := by decide +kernel

/-- **The same page twice.**  Past the window every page is the last one before it. -/
theorem repeated_page : ¬ ∀ (settings : PagingSettings) (w w' : World (inMemory runtime))
    (tenant : Tenant) (text : Str) (fuzzy highlight facets : Bool) (size page page' : ℤ) (a a' : Answer ℚ),
    1 ≤ settings.maxPageSize → settings.maxPageSize ≤ settings.maxResultWindow → w.cache = .empty →
    1 ≤ size → size ≤ 50 → 1 ≤ page → page ≤ 1000 → 1 ≤ page' → page' ≤ 1000 → page ≠ page' →
    searchDocuments settings runtime w tenant none text fuzzy highlight facets page size = (.ok a, w') →
    (searchDocuments settings runtime w' tenant none text fuzzy highlight facets page' size).1 = .ok a' →
    Disjoint a.response.hits a'.response.hits := by
  intro h
  have hd := h ⟨1, 1⟩ indexed firstPage.2 tenantAcme "revenue".toList false true false 1 1 2
    (answerOf _ firstPage_ok) (answerOf _ secondPage_ok) (by decide) (by decide) rfl (by decide)
    (by decide) (by decide) (by decide) (by decide) (by decide) (by decide)
    (Prod.ext (eq_ok_answerOf firstPage_ok) rfl) (eq_ok_answerOf secondPage_ok)
  have hx : (answerOf _ firstPage_ok).response.hits.head?.map SearchHit.id = some documentA.str := by
    decide +kernel
  have hy : (answerOf _ secondPage_ok).response.hits.head?.map SearchHit.id = some documentA.str := by
    decide +kernel
  obtain ⟨x, hx, hxid⟩ := Option.map_eq_some_iff.mp hx
  obtain ⟨y, hy, hyid⟩ := Option.map_eq_some_iff.mp hy
  exact hd x (List.mem_of_mem_head? hx) y (List.mem_of_mem_head? hy) (hxid.trans hyid.symm)

end Sample

end DocSearch
