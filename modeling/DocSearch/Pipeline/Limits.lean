import DocSearch.Pipeline.Tenancy
import DocSearch.Schemas.Document

/-!
# Pipeline — Limits

The bounds of the schema, over every run: a body is validated before its request starts, nothing
checks it afterwards, and the rows, the index, the document cache and the answers keep the bounds.

* `limits_established`: the outline of the rows.
* `limits_kept`: what is stored, indexed, cached and returned.
-/

namespace DocSearch

open CacheKeys InMemoryEngine DocumentRepository Interleaving

/-- The body a document was created from. -/
def DocumentBody.payload (b : DocumentBody) : DocumentCreate :=
  ⟨b.title, b.content, b.contentType, b.tags, b.metadata⟩

namespace Pipeline

variable {K : Type}

/-! ### The rows -/

section Rows

variable {E : SearchEngine K} {c : Unicode}

/-- Requests to create a document carry a body that was accepted. -/
def acceptedBodies (c : Unicode) : Restriction (World E) (Task K) Request Disturbance where
  start _
    | .create _ _ payload => ∃ raw, DocumentCreate.validate c raw = .ok payload
    | _ => True

instance (w : World E) : (r : Request) →
    Decidable ((acceptedBodies c : Restriction _ (Task K) _ Disturbance).start w r)
  | .create _ _ _ => decidable_of_iff _ DocumentCreate.accepted_iff.symm
  | .process _ | .get _ _ | .delete _ _ | .search _ _ | .sweep => .isTrue trivial

instance (w : World E) (t : Task K) :
    Decidable ((acceptedBodies c : Restriction _ (Task K) Request Disturbance).resume w t) :=
  .isTrue trivial

instance (w : World E) (e : Disturbance) :
    Decidable ((acceptedBodies c : Restriction _ (Task K) Request _).environment w e) :=
  .isTrue trivial

/-- Every row is within the bounds. -/
def RowsWithin (c : Unicode) (t : Documents) : Prop :=
  ∀ id d, t.find? id = some d → d.body.payload.WellFormed c

/-- So is a body that waits for its row. -/
def limitsAssertion (c : Unicode) : Task K → Prop
  | .create _ (.insert _ payload) => payload.WellFormed c
  | _ => True

def limitsOutline (c : Unicode) : Outline (World E) (Task K) where
  inv w := RowsWithin c w.documents
  assertion _ t := limitsAssertion c t

/-- An update of the rows that leaves their bodies alone. -/
theorem RowsWithin.map {t t' : Documents} (h : RowsWithin c t) {f : Document → Document}
    (hf : ∀ id, t'.find? id = (t.find? id).map f) (hb : ∀ d, (f d).body = d.body) :
    RowsWithin c t' := by
  intro id d hd
  obtain ⟨d₀, hd₀, rfl⟩ := Option.map_eq_some_iff.mp ((hf id).symm.trans hd)
  rw [hb]
  exact h id d₀ hd₀

theorem RowsWithin.softDelete {t : Documents} (h : RowsWithin c t) (d : Document)
    (now : Timestamp) : RowsWithin c (softDelete t d now) := by
  refine h.map (find?_softDelete t d now) fun r => ?_
  split <;> rfl

theorem RowsWithin.markIndexed {t : Documents} (h : RowsWithin c t) (ids : List Uuid)
    (now : Timestamp) : RowsWithin c (markIndexed t ids now) := by
  refine h.map (find?_markIndexed t ids now) fun r => ?_
  split <;> rfl

theorem RowsWithin.create {t t' : Documents} (h : RowsWithin c t) {id : Uuid} {tenantId : Str}
    {payload : DocumentCreate} {now : Timestamp} (hp : payload.WellFormed c)
    (hc : create t (Document.new id tenantId payload now) = some t') : RowsWithin c t' := by
  obtain ⟨-, hfind⟩ := Table.find?_insert hc
  intro i d hd
  rw [hfind] at hd
  split at hd
  · cases hd
    exact hp
  · exact h i d hd

theorem limits_preserves {cfg : Settings} {rt : Runtime K} {engine : E.State} :
    Preserves cfg rt (acceptedBodies c) (World.IsInitial engine) .trivial
      (limitsOutline c : Outline (World E) (Task K)) where
  init := by
    rintro w rfl id d hd
    cases hd
  start := by
    intro w r _ hP hi
    refine ⟨hi, ?_, trivial⟩
    cases r with
    | create tenantId id payload => exact DocumentCreate.accepted_iff.mp hP
    | _ => trivial
  move := by
    intro w t w' u _ _ _ hm hi ht
    have same : ∀ {w' : World E} {u : Option (Task K)}, w'.documents = w.documents →
        (∀ t', u = some t' → limitsAssertion c t') → RowsWithin c w'.documents ∧
          (∀ t', u = some t' → limitsAssertion c t') ∧ True := fun hd hu =>
      ⟨hd ▸ hi, hu, trivial⟩
    cases hm with
    | inserted h => exact ⟨hi.create ht h, fun _ ht' => by cases ht'; trivial, trivial⟩
    | softDeleted => exact ⟨hi.softDelete _ _, fun _ ht' => by cases ht'; trivial, trivial⟩
    | committed h =>
        have hmarked := hi.markIndexed
        rcases proceed_cases h with ⟨-, rfl, rfl⟩ | ⟨rfl, rfl⟩
        · exact ⟨hmarked _ _, fun _ ht' => (by cases ht'), trivial⟩
        · exact ⟨hmarked _ _, fun _ ht' => by cases ht'; trivial, trivial⟩
    | @bumped p r b ts t w' next _ h =>
        have hd := bump_documents w b t
        rcases proceed_cases h with ⟨-, rfl, rfl⟩ | ⟨rfl, rfl⟩
        · exact same hd fun _ ht' => by cases ht'
        · exact same hd fun _ ht' => by cases ht'; trivial
    | indexPublished => exact same (publish_documents _ _) fun _ ht' => by cases ht'; trivial
    | deleted => exact same (publish_documents _ _) fun _ ht' => by cases ht'
    | @republished d ds w' h =>
        obtain ⟨-, rfl⟩ := World.publish_eq_some h
        refine same rfl fun _ ht' => ?_
        cases ds <;> cases ht'
        trivial
    | selected =>
        refine same rfl fun _ ht' => ?_
        obtain ⟨step, -, rfl⟩ := Option.map_eq_some_iff.mp ht'
        trivial
    | insertRefused | created | documentHit | rowMissing | documentCached | deleteMissing
    | searchHit | followed | finished | nothingToDo | bulkRaised | republishFailed =>
        exact same rfl fun _ ht' => by cases ht'
    | documentMiss | rowFound | deleteFound | uncached | deleteInvalidated | generationRead
    | searchMiss | joined | led | executed | engineFailed | filled | planned | bulkReturned =>
        exact same rfl fun _ ht' => by cases ht'; trivial
  cancel := by
    intro w t _ _ hi _
    rcases cancel_cases rt w t with hc | ⟨r, q, g, hc⟩ <;> rw [hc] <;> exact ⟨hi, trivial⟩
  disturb := by
    intro w e _ _ hi
    cases e <;> exact ⟨hi, trivial⟩
  stable := fun _ _ _ ht => ht

theorem limits_established (c : Unicode) (cfg : Settings) (rt : Runtime K) (engine : E.State) :
    (machine cfg rt E).Established (acceptedBodies c) (World.IsInitial engine) (limitsOutline c) :=
  limits_preserves.valid.established Machine.established_trivial

theorem Served.within {t : Documents} (h : RowsWithin c t) {tenantId : Str} {id : Uuid}
    {body : DocumentBody} (hs : Served t tenantId id body) : body.payload.WellFormed c := by
  obtain ⟨d, hd, -, rfl⟩ := hs
  exact h id d hd

end Rows

/-! ### Everything else -/

variable [Field K] [LinearOrder K]

/-- The document or the hits an entry of the log carries are within the bounds. -/
def EntryWithin (rt : Runtime K) : Entry K → Prop
  | .created _ d => d.body.payload.WellFormed rt.toUnicode
  | .got _ _ _ (.ok r) => r.body.payload.WellFormed rt.toUnicode
  | .searched _ _ _ (.ok a) => ∀ hit ∈ a.response.hits, ∃ b : DocumentBody,
      b.payload.WellFormed rt.toUnicode ∧ HitOf rt hit b
  | _ => True

/-- **The bounds hold everywhere.**  In every run whose bodies were accepted, the rows, the entries
of the index, the cached documents and the documents and hits that requests were answered with
are within the bounds of the schema. -/
theorem limits_kept (cfg : Settings) (rt : Runtime K) {s : Config (World (inMemory rt)) (Task K)}
    (hr : (machine cfg rt (inMemory rt)).Reach (acceptedBodies rt.toUnicode)
      (World.IsInitial State.initial) s) :
    (∀ id d, s.world.documents.find? id = some d → d.body.payload.WellFormed rt.toUnicode) ∧
      (∀ k e, s.world.engine.docs.get? k = some e →
        e.source.body.payload.WellFormed rt.toUnicode) ∧
      (∀ t (d : Uuid) v, s.world.cache.store (documentKey t d.str) = some v →
        ∃ r, v = .document r ∧ r.body.payload.WellFormed rt.toUnicode) ∧
      ∀ at' e, (at', e) ∈ s.world.log → EntryWithin rt e := by
  have hrows : RowsWithin rt.toUnicode s.world.documents :=
    ((limits_established _ cfg rt (E := inMemory rt) State.initial).holds hr).1
  have hindex := ((index_established cfg rt).holds hr.free).1.2
  have hdocs := ((tenancy_established cfg rt (E := inMemory rt) State.initial).holds hr.free).1
  have hsearch : (machine cfg rt (inMemory rt)).Established .free (World.IsInitial State.initial)
      (searchOutline rt (fun _ _ _ => True) fun w t _ a => OwnHits w t a) :=
    tenancy_searchRules.preserves.valid.established (index_established cfg rt)
  refine ⟨hrows, fun k e he => ?_, fun t d v hv => ?_, fun at' e hm => ?_⟩
  · obtain ⟨d, hd, -, -, -, hb⟩ := hindex.entry k e he
    rw [hb]
    exact hrows _ d hd
  · obtain ⟨r, rfl, hserved⟩ := hdocs.cached t d v hv
    exact ⟨r, rfl, hserved.within hrows⟩
  · cases e with
    | created tenantId d => exact Served.within hrows (hdocs.log at' _ hm)
    | got tenantId d st r =>
        cases r with
        | ok r => exact Served.within hrows (hdocs.log at' _ hm)
        | error _ => trivial
    | searched tenantId st g r =>
        cases r with
        | ok a =>
            intro hit hh
            obtain ⟨d, hd, -, hof⟩ :=
              ((hsearch.holds hr.free).1.returned at' tenantId st g (.ok a) hm).2 hit hh
            exact ⟨d.body, hrows _ d hd, hof⟩
        | error _ => trivial
    | _ => trivial

end Pipeline

namespace Sample

open Pipeline

theorem reading_accepted :
    service.Conforms (acceptedBodies runtime.toUnicode) (Config.idle start) reading := by
  decide +kernel

theorem limits_kept_sample :
    (service.after start reading reading_runs).world.log.isEmpty = false ∧
      ∀ at' e, (at', e) ∈ (service.after start reading reading_runs).world.log →
        EntryWithin runtime e :=
  ⟨by decide +kernel, (limits_kept settings runtime
    (Machine.reach_after start_isInitial reading_runs reading_accepted)).2.2.2⟩

end Sample

end DocSearch
