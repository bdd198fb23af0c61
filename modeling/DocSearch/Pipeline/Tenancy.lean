import DocSearch.Pipeline.Index
import DocSearch.Pipeline.Searches

/-!
# Pipeline — Tenancy

What a tenant is given.  A document reaches a request from the table, from the document cache, or
as a hit of a search, which itself comes from the engine, the search cache or the future of another
request; on each of these paths it belongs to the tenant the request was made for.

* `tenancy_established`: the outline of the requests for documents.
* `tenant_isolation`: every answer of every run.
-/

namespace DocSearch

open CacheKeys InMemoryEngine SearchService IndexingProcessor Interleaving

namespace Pipeline

variable {K : Type}

/-! ### Documents -/

section Documents

variable {E : SearchEngine K}

/-- The document is one of the tenant's rows, with the body it has there. -/
def Served (t : Documents) (tenantId : Str) (id : Uuid) (body : DocumentBody) : Prop :=
  ∃ d, t.find? id = some d ∧ d.tenantId = tenantId ∧ body = d.body

theorem Served.mono {t t' : Documents} {tenantId : Str} {id : Uuid} {body : DocumentBody}
    (h : Served t tenantId id body) (he : RowsEvolve t t') : Served t' tenantId id body := by
  obtain ⟨d, hd, ht, hb⟩ := h
  obtain ⟨d', hd', hev⟩ := he id d hd
  exact ⟨d', hd', hev.tenantId.trans ht, hb.trans hev.body.symm⟩

/-- The requests for documents. -/
def serving : Task K → Bool
  | .create _ _ | .get _ _ _ _ | .delete _ _ _ => true
  | _ => false

/-- The entries they leave in the log. -/
def isServed : Entry K → Bool
  | .created _ _ | .got _ _ _ _ | .uncached _ _ | .deleted _ _ => true
  | _ => false

/-- No document is cached, returned or deleted. -/
structure DocumentFrame (w w' : World E) : Prop where
  store : ∀ t (d : Uuid) v, w'.cache.store (documentKey t d.str) = some v →
    w.cache.store (documentKey t d.str) = some v
  log : ∀ at' e, (at', e) ∈ w'.log → isServed e = true → (at', e) ∈ w.log

theorem DocumentFrame.quiet {w w' : World E} (hc : w'.cache = w.cache) (hl : w'.log = w.log) :
    DocumentFrame w w' :=
  ⟨fun _ _ _ h => hc ▸ h, fun _ _ h _ => hl ▸ h⟩

theorem DocumentFrame.record {w w₁ : World E} {e : Entry K} (h : DocumentFrame w w₁)
    (he : isServed e = false) : DocumentFrame w (w₁.record e) :=
  ⟨h.store, fun a e' hm hs => by
    rcases List.mem_cons.mp hm with hm | hm
    · cases hm; rw [he] at hs; cases hs
    · exact h.log a e' hm hs⟩

theorem documentFrame_invalidateTenant (w : World E) (t : Str) :
    DocumentFrame w (w.invalidateTenant t) :=
  ⟨fun s d _ h =>
      (Cache.store_incr_of_ne (documentKey_ne_searchGenerationKey (t := s) (u := d))).symm.trans h,
    fun _ _ h _ => h⟩

theorem documentFrame_publish (w : World E) (e : Event) :
    DocumentFrame w (DocumentService.publish w e) := by
  rcases publish_cases w e with h | h <;> rw [h]
  · exact .quiet rfl rfl
  · exact .record (.quiet rfl rfl) rfl

theorem documentFrame_bump (w : World E) (b : ℕ) (t : Str) : DocumentFrame w (bump w b t) := by
  rcases bump_cases w b t with ⟨h, -⟩ | ⟨g, h, -⟩ <;> rw [h]
  · exact documentFrame_invalidateTenant w t
  · exact .record (documentFrame_invalidateTenant w t) rfl

theorem DocumentFrame.proceed {w w₁ w' : World E} {p : Plan Str} {r : BulkResult} {b : ℕ}
    {ts : List Str} {next : Option ProcessStep}
    (h : IndexingProcessor.proceed w₁ p r b ts = (w', next)) (hw : DocumentFrame w w₁) :
    DocumentFrame w w' := by
  rcases proceed_cases h with ⟨-, rfl, -⟩ | ⟨rfl, -⟩
  · exact hw.record rfl
  · exact hw

/-- A move of any other task. -/
theorem documentFrame_move {cfg : Settings} {rt : Runtime K} {w w' : World E} {t : Task K}
    {u : Option (Task K)} (h : Move cfg rt w t w' u) (ht : serving t = false) :
    DocumentFrame w w' ∧ ∀ t', u = some t' → serving t' = false := by
  have map : ∀ {α : Type} {f : α → Task K} {o : Option α}, (∀ a, serving (f a) = false) →
      ∀ t, o.map f = some t → serving t = false := fun hf t ht => by
    obtain ⟨a, -, rfl⟩ := Option.map_eq_some_iff.mp ht
    exact hf a
  cases h with
  | insertRefused | inserted | indexPublished | created | documentHit | documentMiss | rowMissing
  | rowFound | documentCached | deleteMissing | deleteFound | softDeleted | uncached
  | deleteInvalidated | deleted => cases ht
  | nothingToDo | bulkRaised | republishFailed =>
      exact ⟨.quiet rfl rfl, fun _ h => by cases h⟩
  | generationRead | searchMiss | joined | led | executed | engineFailed | planned =>
      exact ⟨.quiet rfl rfl, fun _ h => by cases h; rfl⟩
  | searchHit | followed | finished =>
      exact ⟨.record (.quiet rfl rfl) rfl, fun _ h => by cases h⟩
  | @filled r s q g f a =>
      refine ⟨⟨fun t d v h => ?_, fun _ _ h _ => h⟩, fun _ h => by cases h; rfl⟩
      have hne : documentKey t d.str ≠ keyOf rt g q := searchKey_ne_documentKey.symm
      exact (Cache.store_setJson_of_ne hne).symm.trans h
  | bulkReturned => exact ⟨.record (.quiet rfl rfl) rfl, fun _ h => by cases h; rfl⟩
  | committed h => exact ⟨.proceed h (.quiet rfl rfl), map fun _ => rfl⟩
  | bumped _ h => exact ⟨.proceed h (documentFrame_bump w _ _), map fun _ => rfl⟩
  | selected => exact ⟨.quiet rfl rfl, map fun _ => rfl⟩
  | republished h =>
      obtain ⟨-, rfl⟩ := World.publish_eq_some h
      exact ⟨.record (.quiet rfl rfl) rfl, map fun _ => rfl⟩

theorem documentFrame_disturb (w : World E) (e : Disturbance) : DocumentFrame w (disturb w e) := by
  cases e with
  | expire key => exact ⟨fun _ _ _ h => Cache.store_expire h, fun _ _ h _ => h⟩
  | refresh => exact .record (.quiet rfl rfl) rfl
  | cache available => exact ⟨fun _ _ _ h => h, fun _ _ h _ => h⟩
  | _ => exact .quiet rfl rfl

/-- What an entry of the log gives a tenant. -/
def EntryServed (t : Documents) : Entry K → Prop
  | .created tenantId d => Served t tenantId d.id d.body
  | .got tenantId _ _ (.ok r) => Served t tenantId r.id r.body
  | _ => True

theorem EntryServed.mono {t t' : Documents} (he : RowsEvolve t t') {e : Entry K}
    (h : EntryServed t e) : EntryServed t' e := by
  cases e with
  | created tenantId d => exact Served.mono h he
  | got tenantId d s r =>
      cases r with
      | ok r => exact Served.mono h he
      | error _ => trivial
  | _ => trivial

/-- What is cached for a tenant's documents and what was returned are rows of the tenant. -/
structure TenancyOk (w : World E) : Prop where
  cached : ∀ t (d : Uuid) v, w.cache.store (documentKey t d.str) = some v →
    ∃ r, v = .document r ∧ Served w.documents t r.id r.body
  log : ∀ at' e, (at', e) ∈ w.log → EntryServed w.documents e

def tenancyAssertion (t : Documents) : Task K → Prop
  | .create tenantId (.publish d) | .create tenantId (.invalidate d) => Served t tenantId d.id d.body
  | .get _ tenantId _ (.cacheWrite r) => Served t tenantId r.id r.body
  | _ => True

def tenancyOutline : Outline (World E) (Task K) where
  inv := TenancyOk
  assertion w t := tenancyAssertion w.documents t

theorem tenancyAssertion_of_not_serving {t : Documents} {task : Task K} (h : serving task = false) :
    tenancyAssertion t task := by
  cases task with
  | create _ _ | get _ _ _ _ | delete _ _ _ => cases h
  | _ => trivial

theorem TenancyOk.frame {w w' : World E} (h : TenancyOk w) (hf : DocumentFrame w w')
    (he : RowsEvolve w.documents w'.documents) : TenancyOk w' where
  cached t d v hv := by
    obtain ⟨r, rfl, hr⟩ := h.cached t d v (hf.store t d v hv)
    exact ⟨r, rfl, hr.mono he⟩
  log a e hm := by
    cases hs : isServed e with
    | true => exact (h.log a e (hf.log a e hm hs)).mono he
    | false =>
        cases e with
        | created _ _ | got _ _ _ _ | uncached _ _ | deleted _ _ => cases hs
        | _ => trivial

/-- A request that returns adds what it was given. -/
theorem TenancyOk.record {w : World E} (h : TenancyOk w) {e : Entry K}
    (he : EntryServed w.documents e) : TenancyOk (w.record e) where
  cached := h.cached
  log a e' hm := by
    rcases List.mem_cons.mp hm with hm | hm
    · cases hm; exact he
    · exact h.log a e' hm

theorem tenancy_preserves {cfg : Settings} {rt : Runtime K} {engine : E.State} :
    Preserves cfg rt .free (World.IsInitial engine) rowsOutline
      (tenancyOutline : Outline (World E) (Task K)) where
  init := by
    rintro w rfl
    exact ⟨fun _ _ _ h => (by cases h), fun _ _ h => (by cases h)⟩
  start := by
    intro w r _ _ hi
    refine ⟨hi.frame (.quiet rfl rfl) (RowsEvolve.refl _), ?_, trivial⟩
    cases r <;> trivial
  move := by
    intro w t w' u hK _ _ hm hi ht
    by_cases hs : serving t = false
    · obtain ⟨hf, hu⟩ := documentFrame_move hm hs
      have hi' : TenancyOk w'.tick := hi.frame ⟨hf.store, hf.log⟩ hK.guarantee
      exact ⟨hi', fun t' ht' => tenancyAssertion_of_not_serving (hu t' ht'), trivial⟩
    have after : ∀ {w' : World E} {u : Option (Task K)}, TenancyOk w' →
        (∀ t', u = some t' → tenancyAssertion w'.documents t') →
        tenancyOutline.inv w'.tick ∧ (∀ t', u = some t' → tenancyOutline.assertion w'.tick t') ∧
          tenancyOutline.guarantee w w'.tick := fun ha hu => ⟨⟨ha.cached, ha.log⟩, hu, trivial⟩
    cases hm with
    | insertRefused => exact after hi fun _ h => by cases h
    | @inserted t id payload documents h =>
        refine after (hi.frame (.quiet rfl rfl) hK.guarantee) fun _ h' => ?_
        cases h'
        obtain ⟨-, hfind⟩ := Table.find?_insert h
        exact ⟨_, (hfind _).trans (if_pos rfl), rfl, rfl⟩
    | indexPublished =>
        refine after (hi.frame (documentFrame_publish w _) hK.guarantee) fun _ h' => ?_
        cases h'
        exact Served.mono ht hK.guarantee
    | @created t d =>
        have hi' := hi.frame (documentFrame_invalidateTenant w t) (RowsEvolve.refl _)
        exact after (hi'.record (e := .created t d) ht) fun _ h => by cases h
    | @documentHit s t d v h =>
        obtain ⟨r, rfl, hr⟩ := hi.cached t d v (Cache.store_of_getJson h)
        exact after (hi.record hr) fun _ h => by cases h
    | documentMiss => exact after hi fun _ h => by cases h; trivial
    | @rowMissing s t d h =>
        exact after (hi.record trivial) fun _ h => by cases h
    | @rowFound s t d row h =>
        refine after hi fun _ h' => ?_
        cases h'
        obtain ⟨hf, ht', -⟩ := DocumentRepository.get_eq_some.mp h
        obtain rfl := Table.key_of_find? hf
        exact ⟨row, hf, ht', rfl⟩
    | @documentCached s t d r =>
        have hi' : TenancyOk { w with cache := w.cache.setJson (documentKey t d.str) (.document r) } :=
          ⟨fun t' d' v hv => by
            rcases Cache.store_setJson hv with ⟨hk, rfl⟩ | hv
            · obtain ⟨rfl, rfl⟩ := documentKey_inj hk
              exact ⟨r, rfl, ht⟩
            · exact hi.cached t' d' v hv, hi.log⟩
        exact after (hi'.record ht) fun _ h => by cases h
    | deleteMissing => exact after hi fun _ h => by cases h
    | deleteFound => exact after hi fun _ h => by cases h; trivial
    | softDeleted =>
        exact after (hi.frame (.quiet rfl rfl) hK.guarantee) fun _ h => by cases h; trivial
    | @uncached t d row =>
        have hi' : TenancyOk { w with cache := w.cache.delete (documentKey t d.str) } :=
          ⟨fun t' d' v hv => hi.cached t' d' v (Cache.store_delete hv), hi.log⟩
        exact after (hi'.record (e := .uncached t d) trivial) fun _ h => by cases h; trivial
    | deleteInvalidated =>
        exact after (hi.frame (documentFrame_invalidateTenant w _) (RowsEvolve.refl _)) fun _ h => by
          cases h; trivial
    | @deleted t d row =>
        have hi' := hi.frame (documentFrame_publish w (DocumentService.deleteEvent t row))
          hK.guarantee
        exact after (hi'.record (e := .deleted t d) trivial) fun _ h => by cases h
    | _ => exact absurd rfl hs
  cancel := by
    intro w t _ _ hi _
    rcases cancel_cases rt w t with hc | ⟨r, q, g, hc⟩ <;> rw [hc]
    · exact ⟨hi, trivial⟩
    · exact ⟨hi.frame (.quiet rfl rfl) (RowsEvolve.refl _), trivial⟩
  disturb := by
    intro w e hK _ hi
    have hf := documentFrame_disturb w e
    have hi' : TenancyOk (disturb w e).tick := hi.frame ⟨hf.store, hf.log⟩ hK.guarantee
    exact ⟨hi', trivial⟩
  stable := by
    intro w w' t hK _ _ ht
    cases t with
    | create tenantId step =>
        cases step with
        | insert _ _ => trivial
        | publish _ | invalidate _ => exact Served.mono ht hK.guarantee
    | get s t d step =>
        cases step with
        | cacheWrite r => exact Served.mono ht hK.guarantee
        | _ => trivial
    | _ => trivial

theorem tenancy_established (cfg : Settings) (rt : Runtime K) (engine : E.State) :
    (machine cfg rt E).Established .free (World.IsInitial engine) tenancyOutline :=
  tenancy_preserves.valid.established (rows_established cfg rt engine)

end Documents

/-! ### Hits -/

section Hits

variable [Field K] [LinearOrder K] {rt : Runtime K}

/-- The hit shows a document with the body. -/
structure HitOf (rt : Runtime K) (hit : SearchHit K) (body : DocumentBody) : Prop where
  id : hit.id = body.id
  title : hit.title = body.title
  snippet : ∃ terms highlight,
    hit.snippet = some (snippet rt.toUnicode terms highlight body.content)
  contentType : hit.contentType = some body.contentType
  tags : hit.tags = body.tags
  metadata : hit.metadata = body.metadata
  createdAt : hit.createdAt = some body.createdAt

/-- Every hit of the answer shows a row of the tenant. -/
def OwnHits (w : World (inMemory rt)) (tenantId : Str) (a : Answer K) : Prop :=
  a.response.tenantId = tenantId ∧ ∀ hit ∈ a.response.hits, ∃ d,
    w.documents.find? d.id = some d ∧ d.tenantId = tenantId ∧ HitOf rt hit d.body

theorem OwnHits.mono {w w' : World (inMemory rt)} {t : Str} {a : Answer K} (h : OwnHits w t a)
    (he : RowsEvolve w.documents w'.documents) : OwnHits w' t a := by
  refine ⟨h.1, fun hit hh => ?_⟩
  obtain ⟨d, hd, ht, hb⟩ := h.2 hit hh
  obtain ⟨d', hd', hev⟩ := he d.id d hd
  exact ⟨d', by rw [hev.id]; exact hd', hev.tenantId.trans ht, by rw [hev.body]; exact hb⟩

omit [Field K] [LinearOrder K] in
/-- A hit shows the body its entry was written with. -/
theorem hitOf_toHit (terms : List Str) (highlight : Bool) (p : K × StoredDoc) {b : DocumentBody}
    (hid : p.2.documentId = b.id) (hb : p.2.source.body = b) :
    HitOf rt (toSearchHit (toHit rt terms highlight p)) b := by
  subst hb
  exact ⟨hid, rfl, ⟨terms, highlight, rfl⟩, rfl, rfl, rfl, rfl⟩

/-- The engine answers a query with hits of its tenant. -/
theorem ownHits_execute {w : World (inMemory rt)} (h : IndexOk w.documents w.engine.docs)
    {q : SearchQuery} {a : Answer K} (ha : execute w q = .ok a) : OwnHits w q.tenantId a := by
  unfold execute at ha
  split at ha
  · rename_i result hs
    cases ha
    refine ⟨rfl, fun hit hh => ?_⟩
    obtain ⟨engineHit, he, rfl⟩ := List.mem_map.mp hh
    obtain ⟨p, rfl, hp, htenant⟩ := mem_hits hs he
    obtain ⟨d, hd, hid, ht, -, hb⟩ := h.entry _ _ hp
    exact ⟨d, hd, ht.symm.trans htenant, hitOf_toHit _ _ p hid.symm hb⟩
  · cases ha
  · cases ha

theorem tenancy_searchRules :
    SearchRules rt .free (rowsOutline.and indexOutline) (fun _ _ _ => True)
      (fun (w : World (inMemory rt)) t _ a => OwnHits w t a) where
  held_stable _ _ := trivial
  good_stable hK h := h.mono hK.guarantee.1
  generation _ := trivial
  execute hi _ _ _ ha := ownHits_execute hi.2 ha
  flag _ h := h

/-- What a tenant may be given: a document or hits that show its own rows. -/
def EntryIsolated (w : World (inMemory rt)) : Entry K → Prop
  | .created tenantId d => Served w.documents tenantId d.id d.body
  | .got tenantId _ _ (.ok r) => Served w.documents tenantId r.id r.body
  | .searched tenantId _ _ (.ok a) => OwnHits w tenantId a
  | _ => True

/-- **Tenant isolation.**  In every run, whatever a request made for a tenant was answered with
shows rows of that tenant only. -/
theorem tenant_isolation (cfg : Settings) (rt : Runtime K)
    {s : Config (World (inMemory rt)) (Task K)}
    (hr : (machine cfg rt (inMemory rt)).Reach .free (World.IsInitial State.initial) s) :
    ∀ at' e, (at', e) ∈ s.world.log → EntryIsolated s.world e := by
  have hsearch : (machine cfg rt (inMemory rt)).Established .free (World.IsInitial State.initial)
      (searchOutline rt (fun _ _ _ => True) fun w t _ a => OwnHits w t a) :=
    tenancy_searchRules.preserves.valid.established (index_established cfg rt)
  have hdocs := ((tenancy_established cfg rt (E := inMemory rt) State.initial).holds hr).1
  intro at' e hm
  cases e with
  | created tenantId d => exact hdocs.log at' _ hm
  | got tenantId d st r =>
      cases r with
      | ok r => exact hdocs.log at' _ hm
      | error _ => trivial
  | searched tenantId st g r =>
      cases r with
      | ok a => exact (hsearch.holds hr).1.returned at' tenantId st g (.ok a) hm
      | error _ => trivial
  | _ => trivial

end Hits

end Pipeline

namespace Sample

open Pipeline

/-- A document is created and indexed, and its tenant reads it and searches for it. -/
def reading : Actions :=
  indexing ++ [.start 0 (.get acme documentA), .resume 0 [], .resume 0 [], .resume 0 [],
    .start 1 (.search 0 (query acme)), .resume 1 [], .resume 1 [], .resume 1 [], .resume 1 [],
    .resume 1 [], .resume 1 []]

theorem reading_runs : (service.run (Config.idle start) reading).isSome := by decide +kernel

/-- Its search finds the document. -/
example : ((service.after start reading reading_runs).world.log.map fun x =>
    match x.2 with
    | .searched _ _ _ (.ok a) => a.response.hits.map SearchHit.id
    | _ => []).flatten = [documentA.str] := by decide +kernel

theorem tenant_isolation_sample :
    (service.after start reading reading_runs).world.log.isEmpty = false ∧
      ∀ at' e, (at', e) ∈ (service.after start reading reading_runs).world.log →
        EntryIsolated (service.after start reading reading_runs).world e :=
  ⟨by decide +kernel, tenant_isolation settings runtime
    (Machine.reach_after start_isInitial reading_runs (Machine.conforms_free _ _))⟩

end Sample

end DocSearch
