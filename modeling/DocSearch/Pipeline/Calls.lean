import DocSearch.Pipeline.Coalescing

/-!
# Pipeline — Calls

A request that runs alone, from its start to its return, over a cache backend that may be another
one at each step: one that raises or not, or one that never holds anything.

* `complete`: the steps of a request, one after the other.
* `owed`, `accepted`: what a request has still to do to the table and the queue, and whether these
  and the engine will let it succeed.  Neither looks at the cache.
* `complete_spec`: a request returns and does so, and succeeds when it is accepted, whatever the
  backends do; without anything cached, only then.
-/

namespace DocSearch

open CacheKeys DocumentService SearchService IndexingProcessor

namespace Pipeline

variable {K : Type} {E : SearchEngine K} {cfg : Settings} {rt : Runtime K}

/-- The world, as a step sees it through a backend. -/
def withCache (w : World E) (view : Cache K → Cache K) : World E := { w with cache := view w.cache }

/-- The backend raises or not: each step calls it at most once. -/
def raising (up : ℕ → Bool) (i : ℕ) (c : Cache K) : Cache K := { c with available := up i }

/-- The backend answers, and never holds anything. -/
def missing (_ : ℕ) (_ : Cache K) : Cache K := .empty

/-- A request from its `i`-th step on, each step over the backend it sees.  `none` when the request
has not returned by then. -/
def complete (cfg : Settings) (rt : Runtime K) (view : ℕ → Cache K → Cache K) :
    (fuel i : ℕ) → World E → Task K → Option (World E)
  | 0, _, _, _ => none
  | fuel + 1, i, w, t =>
      match resume cfg rt (withCache w (view i)) [] t with
      | some (w', some t') => complete cfg rt view fuel (i + 1) w'.tick t'
      | some (w', none) => some w'.tick
      | none => none

/-- Whether the task is a sweep. -/
def sweeping : Task K → Bool
  | .sweep _ => true
  | _ => false

/-- The entry of a request that succeeded. -/
def succeeded : Entry K → Bool
  | .created _ _ | .deleted _ _ | .got _ _ _ (.ok _) | .searched _ _ _ (.ok _) => true
  | _ => false

/-- What a suspended request has still to do to the table and the queue. -/
def owed (w : World E) : Task K → World E
  | .create t (.insert id payload) =>
      match DocumentService.insert w t id payload with
      | none => w
      | some (d, w) => DocumentService.publish w (indexEvent t d)
  | .create t (.publish d) => DocumentService.publish w (indexEvent t d)
  | .delete t d .read =>
      match DocumentRepository.get w.documents t d false with
      | none => w
      | some row =>
          DocumentService.publish (softDelete w row).2 (deleteEvent t (softDelete w row).1)
  | .delete t _ (.commit row) =>
      DocumentService.publish (softDelete w row).2 (deleteEvent t (softDelete w row).1)
  | .delete t _ (.cacheDelete row) | .delete t _ (.invalidate row) | .delete t _ (.publish row) =>
      DocumentService.publish w (deleteEvent t row)
  | _ => w

/-- Whether the table and the engine will let it succeed. -/
def accepted (w : World E) : Task K → Bool
  | .create t (.insert id payload) => (DocumentService.insert w t id payload).isSome
  | .get _ t d .cacheRead | .get _ t d .dbRead | .delete t d .read =>
      (DocumentRepository.get w.documents t d false).isSome
  | .search _ _ q .generation | .search _ _ q (.cacheRead _) | .search _ _ q (.flight _)
  | .search _ _ q (.execute _ _) => (execute w q).isOk
  | .search _ _ _ (.finish _ _ r) => r.isOk
  | _ => true

/-- The resumptions it takes at most. -/
def stepsLeft : Task K → ℕ
  | .create _ (.insert _ _) => 3
  | .create _ (.publish _) => 2
  | .get _ _ _ .cacheRead => 3
  | .get _ _ _ .dbRead => 2
  | .delete _ _ .read => 5
  | .delete _ _ (.commit _) => 4
  | .delete _ _ (.cacheDelete _) => 3
  | .delete _ _ (.invalidate _) => 2
  | .search _ _ _ .generation => 6
  | .search _ _ _ (.cacheRead _) => 5
  | .search _ _ _ (.flight _) => 4
  | .search _ _ _ (.execute _ _) => 3
  | .search _ _ _ (.fill _ _ _) => 2
  | _ => 1

/-! ### What the faults leave alone -/

/-- The worlds agree but for what is cached and logged. -/
structure SameStores (w w' : World E) : Prop where
  documents : w'.documents = w.documents
  publisher : w'.publisher = w.publisher
  engine : w'.engine = w.engine
  now : w'.now = w.now

/-- What is cached for a document or a search is one. -/
structure Typed (rt : Runtime K) (c : Cache K) : Prop where
  documents : ∀ t (d : Uuid) v, c.store (documentKey t d.str) = some v → ∃ r, v = .document r
  searches : ∀ g q v, c.store (keyOf rt g q) = some v → ∃ a, v = .search a

/-- The task is a request of the API, and no search is in flight but, once it leads, its own. -/
structure Alone (rt : Runtime K) (w : World E) (t : Task K) : Prop where
  api : processing t = false ∧ sweeping t = false
  led : followerOf rt t = none
  inflight : ∀ r key, w.inflight r key ≠ none → ∃ f, leaderOf rt t = some ((r, key), f)

theorem SameStores.refl (w : World E) : SameStores w w := ⟨rfl, rfl, rfl, rfl⟩

theorem SameStores.trans {w₁ w₂ w₃ : World E} (h : SameStores w₁ w₂) (h' : SameStores w₂ w₃) :
    SameStores w₁ w₃ :=
  ⟨h'.documents.trans h.documents, h'.publisher.trans h.publisher, h'.engine.trans h.engine,
    h'.now.trans h.now⟩

theorem SameStores.symm {w w' : World E} (h : SameStores w w') : SameStores w' w :=
  ⟨h.documents.symm, h.publisher.symm, h.engine.symm, h.now.symm⟩

theorem complete_next {view : ℕ → Cache K → Cache K} {fuel i : ℕ} {w w' : World E} {t t' : Task K}
    (h : resume cfg rt (withCache w (view i)) [] t = some (w', some t')) :
    complete cfg rt view (fuel + 1) i w t = complete cfg rt view fuel (i + 1) w'.tick t' := by
  rw [complete, h]

theorem complete_last {view : ℕ → Cache K → Cache K} {fuel i : ℕ} {w w' : World E} {t : Task K}
    (h : resume cfg rt (withCache w (view i)) [] t = some (w', none)) :
    complete cfg rt view (fuel + 1) i w t = some w'.tick := by
  rw [complete, h]

/-! ### What is cached -/

section TypedCache

variable {c : Cache K}

theorem Typed.incr (h : Typed rt c) (t : Str) : Typed rt (c.incr (searchGenerationKey t)).2 where
  documents t' d v hv :=
    h.documents t' d v ((Cache.store_incr_of_ne documentKey_ne_searchGenerationKey).symm.trans hv)
  searches g q v hv := h.searches g q v
    ((Cache.store_incr_of_ne (searchKey_ne_searchGenerationKey (t := q.tenantId))).symm.trans hv)

theorem Typed.setDocument (h : Typed rt c) (t : Str) (d : Uuid) (r : DocumentResponse) :
    Typed rt (c.setJson (documentKey t d.str) (.document r)) where
  documents t' d' v hv := by
    rcases Cache.store_setJson hv with ⟨-, rfl⟩ | hv
    · exact ⟨r, rfl⟩
    · exact h.documents t' d' v hv
  searches g q v hv := h.searches g q v
    ((Cache.store_setJson_of_ne (searchKey_ne_documentKey (t := q.tenantId))).symm.trans hv)

theorem Typed.setSearch (h : Typed rt c) (g : ℕ) (q : SearchQuery) (a : Answer K) :
    Typed rt (c.setJson (keyOf rt g q) (.search a)) where
  documents t d v hv := h.documents t d v
    ((Cache.store_setJson_of_ne fun hk =>
      searchKey_ne_documentKey (t := q.tenantId) hk.symm).symm.trans hv)
  searches g' q' v hv := by
    rcases Cache.store_setJson hv with ⟨-, rfl⟩ | hv
    · exact ⟨a, rfl⟩
    · exact h.searches g' q' v hv

theorem Typed.delete (h : Typed rt c) (key : Str) : Typed rt (c.delete key) where
  documents t d v hv := h.documents t d v (Cache.store_delete hv)
  searches g q v hv := h.searches g q v (Cache.store_delete hv)

theorem Typed.expire (h : Typed rt c) (key : Str) : Typed rt (c.expire key) where
  documents t d v hv := h.documents t d v (Cache.store_expire hv)
  searches g q v hv := h.searches g q v (Cache.store_expire hv)

theorem Typed.raising (h : Typed rt c) (up : ℕ → Bool) (i : ℕ) : Typed rt (raising up i c) :=
  ⟨h.documents, h.searches⟩

theorem typed_empty : Typed rt (Cache.empty : Cache K) := ⟨nofun, nofun⟩

end TypedCache

theorem typed_move {w w' : World E} {t : Task K} {u : Option (Task K)} (h : Typed rt w.cache)
    (hm : Move cfg rt w t w' u) : Typed rt w'.cache := by
  cases hm with
  | indexPublished | deleted => exact (publish_cache w _).symm ▸ h
  | created | deleteInvalidated => exact h.incr _
  | documentCached => exact h.setDocument _ _ _
  | uncached => exact h.delete _
  | filled => exact h.setSearch _ _ _
  | committed hp =>
      rw [(proceed_frame hp).2.2]
      exact h
  | bumped _ hp =>
      rw [(proceed_frame hp).2.2, bump_cache]
      exact h.incr _
  | republished hp =>
      obtain ⟨-, rfl⟩ := World.publish_eq_some hp
      exact h
  | _ => exact h

/-! ### The stores -/

theorem sameStores_publish {w w' : World E} (h : SameStores w w') (e : Event) :
    SameStores (DocumentService.publish w e) (DocumentService.publish w' e) := by
  have hp : w'.publisher = w.publisher := h.publisher
  unfold DocumentService.publish World.publish
  rw [hp]
  cases w.publisher.publish e with
  | none => exact h
  | some p => exact ⟨h.documents, rfl, h.engine, h.now⟩

/-- What a request does to the stores depends on the stores alone. -/
theorem sameStores_owed {w w' : World E} (h : SameStores w w') (t : Task K) :
    SameStores (owed w t) (owed w' t) := by
  have hdelete (t : Str) (row : Document) :
      SameStores (DocumentService.publish (softDelete w row).2 (deleteEvent t (softDelete w row).1))
        (DocumentService.publish (softDelete w' row).2 (deleteEvent t (softDelete w' row).1)) := by
    have hs : SameStores (softDelete w row).2 (softDelete w' row).2 := by
      unfold softDelete
      rw [h.documents, h.now]
      exact ⟨rfl, h.publisher, h.engine, rfl⟩
    have hd : (softDelete w' row).1 = (softDelete w row).1 := by
      unfold softDelete
      rw [h.now]
    rw [hd]
    exact sameStores_publish hs _
  cases t with
  | create t step =>
      cases step with
      | insert id payload =>
          simp only [owed, DocumentService.insert]
          rw [h.documents, h.now]
          cases DocumentRepository.create w.documents (Document.new id t payload w.now) with
          | none => exact h
          | some docs =>
              refine sameStores_publish ?_ _
              exact ⟨rfl, h.publisher, h.engine, rfl⟩
      | publish d => exact sameStores_publish h _
      | invalidate d => exact h
  | delete t d step =>
      cases step with
      | read =>
          simp only [owed]
          rw [h.documents]
          cases DocumentRepository.get w.documents t d false with
          | none => exact h
          | some row => exact hdelete t row
      | commit row => exact hdelete t row
      | cacheDelete row | invalidate row | publish row => exact sameStores_publish h _
  | _ => exact h

theorem accepted_sameStores {w w' : World E} (h : SameStores w w') (t : Task K) :
    accepted w' t = accepted w t := by
  have hexecute (q : SearchQuery) : (execute w' q).isOk = (execute w q).isOk := by
    unfold execute
    rw [h.engine]
    split <;> rfl
  cases t with
  | create t step =>
      cases step with
      | insert id payload =>
          simp only [accepted, DocumentService.insert]
          rw [h.documents, h.now]
          cases DocumentRepository.create w.documents (Document.new id t payload w.now) <;> rfl
      | publish d | invalidate d => rfl
  | get s t d step =>
      cases step with
      | cacheRead | dbRead =>
          simp only [accepted]
          rw [h.documents]
      | cacheWrite r => rfl
  | delete t d step =>
      cases step with
      | read =>
          simp only [accepted]
          rw [h.documents]
      | _ => rfl
  | search r s q step =>
      cases step with
      | generation | cacheRead | flight | execute => exact hexecute q
      | _ => rfl
  | _ => rfl

/-! ### One step -/

/-- Whether one of the entries is that of a request that succeeded. -/
def success (es : List (ℕ × Entry K)) : Bool := es.any fun e => succeeded e.2

/-- A request that runs alone has taken a step. -/
structure Proceeds (rt : Runtime K) (w : World E) (t : Task K) (w' : World E) (t' : Task K) :
    Prop where
  stores : SameStores (owed w t) (owed w' t')
  alone : Alone rt w' t'
  accepted : accepted w' t' = accepted w t
  stepsLeft : stepsLeft t' < stepsLeft t
  log : ∃ es, w'.log = es ++ w.log ∧ success es = false

/-- A request that ran alone has returned. -/
structure Returns (w : World E) (t : Task K) (w' : World E) : Prop where
  stores : SameStores (owed w t) w'
  inflight : ∀ r key, w'.inflight r key = none
  log : ∃ es, w'.log = es ++ w.log ∧ (accepted w t = true → success es = true) ∧
    ((∀ key, w.cache.getJson key = none) → success es = true → accepted w t = true)

/-- What a step does to a request that runs alone. -/
def Advance (rt : Runtime K) (w : World E) (t : Task K) (w' : World E) : Option (Task K) → Prop
  | some t' => Proceeds rt w t w' t'
  | none => Returns w t w'

theorem Alone.idle {w : World E} {t : Task K} (h : Alone rt w t) (hl : leaderOf rt t = none)
    (r : ℕ) (key : Str) : w.inflight r key = none := by
  by_contra hne
  obtain ⟨f, hf⟩ := h.inflight r key hne
  rw [hl] at hf
  cases hf

theorem publish_inflight (w : World E) (e : Event) :
    (DocumentService.publish w e).inflight = w.inflight := by
  rcases publish_cases w e with h | h <;> rw [h]
  rfl

theorem publish_log (w : World E) (e : Event) :
    ∃ es, (DocumentService.publish w e).log = es ++ w.log ∧ success es = false := by
  rcases publish_cases w e with h | h <;> rw [h]
  · exact ⟨[], rfl, rfl⟩
  · exact ⟨[(w.clock, .published e)], rfl, rfl⟩

theorem execute_ok {w : World E} {q : SearchQuery} {a : Answer K} (h : execute w q = .ok a) :
    (execute w q).isOk = true := by
  rw [h]
  rfl

theorem execute_error {w : World E} {q : SearchQuery} {e : ServiceError} (h : execute w q = .error e) :
    (execute w q).isOk = false := by
  rw [h]
  rfl

/-- A request that runs alone and does not lead a search goes on. -/
theorem Alone.keep {w w' : World E} {t t' : Task K} (h : Alone rt w t) (hl : leaderOf rt t = none)
    (hi : w'.inflight = w.inflight) (hp : processing t' = false ∧ sweeping t' = false)
    (hf : followerOf rt t' = none) : Alone rt w' t' where
  api := hp
  led := hf
  inflight r key hne := by
    rw [hi] at hne
    exact absurd (h.idle hl r key) hne

theorem advance_create {w w' : World E} {t : Str} {step : CreateStep} {u : Option (Task K)}
    (ha : Alone rt w (.create t step)) (hm : Move cfg rt w (.create t step) w' u) :
    Advance rt w (.create t step) w' u := by
  cases hm with
  | @insertRefused _ id payload h =>
      have hr : DocumentService.insert w t id payload = none := by
        rw [DocumentService.insert, h]
        rfl
      refine ⟨?_, ha.idle rfl, [], rfl, ?_, fun _ hs => by cases hs⟩
      · rw [owed, hr]
        exact .refl w
      · intro hacc
        rw [accepted, hr] at hacc
        cases hacc
  | @inserted _ id payload documents h =>
      have hr : DocumentService.insert w t id payload =
          some (Document.new id t payload w.now, { w with documents := documents }) := by
        rw [DocumentService.insert, h]
        rfl
      refine ⟨?_, ha.keep rfl rfl ⟨rfl, rfl⟩ rfl, ?_, Nat.lt_succ_self _, [], rfl, rfl⟩
      · rw [owed, hr]
        exact .refl _
      · change true = (DocumentService.insert w t id payload).isSome
        rw [hr]
        rfl
  | indexPublished =>
      exact ⟨.refl _, ha.keep rfl (publish_inflight w _) ⟨rfl, rfl⟩ rfl, rfl, Nat.lt_succ_self _,
        publish_log w _⟩
  | @created _ d =>
      exact ⟨⟨rfl, rfl, rfl, rfl⟩, ha.idle rfl, [(w.clock, .created t d)], rfl, fun _ => rfl,
        fun _ _ => rfl⟩

theorem advance_get {w w' : World E} {s : ℕ} {t : Str} {d : Uuid} {step : GetStep}
    {u : Option (Task K)} (ha : Alone rt w (.get s t d step)) (hc : Typed rt w.cache)
    (hm : Move cfg rt w (.get s t d step) w' u) : Advance rt w (.get s t d step) w' u := by
  cases hm with
  | @documentHit _ _ _ v h =>
      obtain ⟨r, rfl⟩ := hc.documents t d v (Cache.store_of_getJson h)
      refine ⟨⟨rfl, rfl, rfl, rfl⟩, ha.idle rfl, [(w.clock, .got t d s (.ok r))], rfl, fun _ => rfl, ?_⟩
      intro hmiss
      rw [hmiss] at h
      cases h
  | documentMiss =>
      exact ⟨.refl _, ha.keep rfl rfl ⟨rfl, rfl⟩ rfl, rfl, Nat.lt_succ_self _, [], rfl, rfl⟩
  | rowMissing h =>
      refine ⟨⟨rfl, rfl, rfl, rfl⟩, ha.idle rfl, [(w.clock, .got t d s (.error notFound))], rfl, ?_,
        fun _ hs => by cases hs⟩
      intro hacc
      rw [accepted, h] at hacc
      cases hacc
  | rowFound h =>
      refine ⟨.refl _, ha.keep rfl rfl ⟨rfl, rfl⟩ rfl, ?_, Nat.lt_succ_self _, [], rfl, rfl⟩
      change true = (DocumentRepository.get w.documents t d false).isSome
      rw [h]
      rfl
  | @documentCached _ _ _ r =>
      exact ⟨⟨rfl, rfl, rfl, rfl⟩, ha.idle rfl, [(w.clock, .got t d s (.ok r))], rfl, fun _ => rfl,
        fun _ _ => rfl⟩

theorem advance_delete {w w' : World E} {t : Str} {d : Uuid} {step : DeleteStep}
    {u : Option (Task K)} (ha : Alone rt w (.delete t d step))
    (hm : Move cfg rt w (.delete t d step) w' u) : Advance rt w (.delete t d step) w' u := by
  cases hm with
  | deleteMissing h =>
      refine ⟨?_, ha.idle rfl, [], rfl, ?_, fun _ hs => by cases hs⟩
      · rw [owed, h]
        exact .refl w
      · intro hacc
        rw [accepted, h] at hacc
        cases hacc
  | deleteFound h =>
      refine ⟨?_, ha.keep rfl rfl ⟨rfl, rfl⟩ rfl, ?_, Nat.lt_succ_self _, [], rfl, rfl⟩
      · rw [owed, h]
        exact .refl _
      · change true = (DocumentRepository.get w.documents t d false).isSome
        rw [h]
        rfl
  | softDeleted =>
      exact ⟨.refl _, ha.keep rfl rfl ⟨rfl, rfl⟩ rfl, rfl, Nat.lt_succ_self _, [], rfl, rfl⟩
  | uncached =>
      have hs : SameStores w (uncache w t d) := ⟨rfl, rfl, rfl, rfl⟩
      exact ⟨sameStores_publish hs _, ha.keep rfl rfl ⟨rfl, rfl⟩ rfl, rfl, Nat.lt_succ_self _,
        [(w.clock, .uncached t d)], rfl, rfl⟩
  | deleteInvalidated =>
      have hs : SameStores w (w.invalidateTenant t) := ⟨rfl, rfl, rfl, rfl⟩
      exact ⟨sameStores_publish hs _, ha.keep rfl rfl ⟨rfl, rfl⟩ rfl, rfl, Nat.lt_succ_self _, [],
        rfl, rfl⟩
  | @deleted _ _ row =>
      obtain ⟨es, hlog, -⟩ := publish_log w (deleteEvent t row)
      refine ⟨⟨rfl, rfl, rfl, rfl⟩, fun r key => ?_,
        ((DocumentService.publish w (deleteEvent t row)).clock, .deleted t d) :: es, ?_,
        fun _ => rfl, fun _ _ => rfl⟩
      · rw [World.record_inflight, publish_inflight]
        exact ha.idle rfl r key
      · rw [World.record_log, hlog]
        rfl

theorem advance_search {w w' : World E} {r s : ℕ} {q : SearchQuery} {step : SearchStep K}
    {u : Option (Task K)} (ha : Alone rt w (.search r s q step)) (hc : Typed rt w.cache)
    (hm : Move cfg rt w (.search r s q step) w' u) : Advance rt w (.search r s q step) w' u := by
  cases hm with
  | generationRead | searchMiss =>
      exact ⟨.refl _, ha.keep rfl rfl ⟨rfl, rfl⟩ rfl, rfl, Nat.lt_succ_self _, [], rfl, rfl⟩
  | @searchHit _ _ _ g v h =>
      obtain ⟨a, rfl⟩ := hc.searches g q v (Cache.store_of_getJson h)
      refine ⟨⟨rfl, rfl, rfl, rfl⟩, ha.idle rfl,
        [(w.clock, .searched q.tenantId s g (.ok (a.withCached true)))], rfl, fun _ => rfl, ?_⟩
      intro hmiss
      rw [hmiss] at h
      cases h
  | @joined _ _ _ g f h =>
      rw [ha.idle rfl r (keyOf rt g q)] at h
      cases h
  | @led _ _ _ g h =>
      refine ⟨⟨rfl, rfl, rfl, rfl⟩, ⟨⟨rfl, rfl⟩, rfl, ?_⟩, rfl, Nat.lt_succ_self _, [], rfl, rfl⟩
      intro r' key hne
      obtain ⟨f, hf⟩ := Option.ne_none_iff_exists'.mp hne
      have hreg := congrFun (uncurry_update w.inflight r (keyOf rt g q) (some w.futures.length)) (r', key)
      by_cases hk : (r', key) = (r, keyOf rt g q)
      · exact ⟨w.futures.length, by rw [hk]; rfl⟩
      · rw [Function.update_of_ne hk] at hreg
        exact absurd (hreg.trans (ha.idle rfl r' key)) hne
  | followed => cases ha.led
  | executed h =>
      refine ⟨.refl _, ⟨⟨rfl, rfl⟩, rfl, ha.inflight⟩, ?_, Nat.lt_succ_self _, [], rfl, rfl⟩
      exact (execute_ok h).symm
  | engineFailed h =>
      refine ⟨.refl _, ⟨⟨rfl, rfl⟩, rfl, ha.inflight⟩, ?_, Nat.lt_succ_of_lt (Nat.lt_succ_self _),
        [], rfl, rfl⟩
      exact (execute_error h).symm
  | filled =>
      exact ⟨⟨rfl, rfl, rfl, rfl⟩, ⟨⟨rfl, rfl⟩, rfl, ha.inflight⟩, rfl, Nat.lt_succ_self _, [], rfl, rfl⟩
  | @finished _ _ _ g f a =>
      refine ⟨⟨rfl, rfl, rfl, rfl⟩, ?_, [(w.clock, .searched q.tenantId s g a)], rfl, ?_, ?_⟩
      · intro r' key
        by_contra hne
        have hun : (unregister (settle w f a) r (keyOf rt g q)).inflight r' key =
            Function.update (fun p : ℕ × Str => w.inflight p.1 p.2) (r, keyOf rt g q) none (r', key) :=
          congrFun (uncurry_update w.inflight r (keyOf rt g q) none) (r', key)
        by_cases hk : (r', key) = (r, keyOf rt g q)
        · rw [hk, Function.update_self] at hun
          exact hne hun
        · rw [Function.update_of_ne hk] at hun
          obtain ⟨f', hf'⟩ := ha.inflight r' key (fun h => hne (hun.trans h))
          exact hk (Prod.mk.inj (Option.some.inj hf')).1.symm
      · intro hacc
        cases a with
        | ok a => rfl
        | error e => cases hacc
      · intro _ hs
        cases a with
        | ok a => rfl
        | error e => cases hs

/-- **One step.**  Of a request that runs alone. -/
theorem advance {w w' : World E} {t : Task K} {u : Option (Task K)} (ha : Alone rt w t)
    (hc : Typed rt w.cache) (hm : Move cfg rt w t w' u) : Advance rt w t w' u := by
  cases t with
  | create t step => exact advance_create ha hm
  | get s t d step => exact advance_get ha hc hm
  | delete t d step => exact advance_delete ha hm
  | search r s q step => exact advance_search ha hc hm
  | process step => cases ha.api.1
  | sweep step => cases ha.api.2

/-! ### A whole request -/

/-- A request that runs alone is never stuck. -/
theorem resume_alone (cfg : Settings) {w : World E} {t : Task K} (ha : Alone rt w t) :
    ∃ w' u, resume cfg rt w [] t = some (w', u) := by
  cases t with
  | create | get | delete => exact ⟨_, _, rfl⟩
  | search r s q step =>
      cases step with
      | cacheRead g =>
          rw [resume, resumeSearch]
          cases w.cache.getJson (keyOf rt g q) <;> exact ⟨_, _, rfl⟩
      | flight g =>
          rw [resume, resumeSearch]
          cases w.inflight r (keyOf rt g q) <;> exact ⟨_, _, rfl⟩
      | waiting => cases ha.led
      | execute g f =>
          rw [resume, resumeSearch]
          cases execute w q <;> exact ⟨_, _, rfl⟩
      | _ => exact ⟨_, _, rfl⟩
  | process => cases ha.api.1
  | sweep => cases ha.api.2

theorem stepsLeft_pos (t : Task K) : 0 < stepsLeft t := by
  cases t with
  | create _ step | get _ _ _ step | delete _ _ step | search _ _ _ step =>
      cases step <;> exact Nat.succ_pos _
  | process | sweep => exact Nat.succ_pos _

/-- A request that has returned did to the table and the queue what it owed.  It succeeded if it was
accepted, and over backends that miss only then. -/
structure Completed (rt : Runtime K) (misses : Prop) (w : World E) (t : Task K) (w' : World E) :
    Prop where
  stores : SameStores (owed w t) w'
  inflight : ∀ r key, w'.inflight r key = none
  typed : Typed rt w'.cache
  log : ∃ es, w'.log = es ++ w.log ∧ (accepted w t = true → success es = true) ∧
    (misses → success es = true → accepted w t = true)

theorem sameStores_withCache (w : World E) (view : Cache K → Cache K) : SameStores w (withCache w view) :=
  ⟨rfl, rfl, rfl, rfl⟩

theorem sameStores_tick (w : World E) : SameStores w w.tick := ⟨rfl, rfl, rfl, rfl⟩

/-- **A request alone.**  Whatever the backends hold and raise. -/
theorem complete_spec (cfg : Settings) {view : ℕ → Cache K → Cache K}
    (hview : ∀ i c, Typed rt c → Typed rt (view i c)) : ∀ {fuel i : ℕ} {w : World E} {t : Task K},
    stepsLeft t ≤ fuel → Alone rt w t → Typed rt w.cache →
    ∃ w', complete cfg rt view fuel i w t = some w' ∧
      Completed rt (∀ i c key, (view i c).getJson key = none) w t w'
  | 0, _, _, t, hfuel, _, _ => absurd (stepsLeft_pos t) (Nat.not_lt_of_ge hfuel)
  | fuel + 1, i, w, t, hfuel, ha, hc => by
      have hav : Alone rt (withCache w (view i)) t := ⟨ha.api, ha.led, ha.inflight⟩
      have hcv : Typed rt (withCache w (view i)).cache := hview i _ hc
      have howed := sameStores_owed (sameStores_withCache w (view i)) t
      have haccepted := accepted_sameStores (sameStores_withCache w (view i)) t
      obtain ⟨w₁, u, hm⟩ := resume_alone cfg hav
      have hmove := resume_move hm
      have hadv := advance hav hcv hmove
      have hc₁ : Typed rt w₁.cache := typed_move hcv hmove
      cases u with
      | none =>
          rw [complete_last hm]
          obtain ⟨hstores, hinflight, es, hlog, hacc, hmiss⟩ := hadv
          refine ⟨_, rfl, howed.trans (hstores.trans (sameStores_tick w₁)), hinflight, hc₁, es, hlog,
            ?_, fun h => ?_⟩
          · rwa [← haccepted]
          · rw [← haccepted]
            exact hmiss (h i _)
      | some t₁ =>
          rw [complete_next hm]
          have hle : stepsLeft t₁ ≤ fuel := Nat.le_of_lt_succ (hadv.stepsLeft.trans_le hfuel)
          have halone : Alone rt w₁.tick t₁ :=
            ⟨hadv.alone.api, hadv.alone.led, hadv.alone.inflight⟩
          obtain ⟨w', hw', hdone⟩ := complete_spec cfg hview (i := i + 1) hle halone hc₁
          obtain ⟨es, hlog, hquiet⟩ := hadv.log
          obtain ⟨es', hlog', hacc, hmiss⟩ := hdone.log
          have hsame : accepted w₁.tick t₁ = accepted w t :=
            (accepted_sameStores (sameStores_tick w₁) t₁).trans (hadv.accepted.trans haccepted)
          have hsuccess : success (es' ++ es) = success es' := by
            rw [success, List.any_append, ← success, ← success, hquiet, Bool.or_false]
          refine ⟨w', hw', ?_, hdone.inflight, hdone.typed, es' ++ es, ?_, ?_, ?_⟩
          · exact (howed.trans (hadv.stores.trans
              (sameStores_owed (sameStores_tick w₁) t₁))).trans hdone.stores
          · rw [hlog', World.tick_log, hlog, List.append_assoc]
            rfl
          · rw [hsuccess, ← hsame]
            exact hacc
          · rw [hsuccess, ← hsame]
            exact hmiss

end Pipeline

end DocSearch
