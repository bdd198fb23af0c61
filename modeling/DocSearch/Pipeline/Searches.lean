import DocSearch.Pipeline.Machine

/-!
# Pipeline — Searches

Every path an answer can take to a search: from the engine, from the cache, from the future of an
identical search.  A property of answers, of the tenant and of the generation they are asked under,
that holds of what the engine returns and that no step destroys, holds on every path.

* `SearchRules`: what a property of answers has to satisfy.
* `SearchRules.preserves`: it then holds of everything cached, in flight and returned.
-/

namespace DocSearch

open CacheKeys SearchService IndexingProcessor Interleaving

namespace Pipeline

variable {K : Type} {E : SearchEngine K}

/-! ### Frames -/

/-- What search tasks work on is left alone. -/
structure SearchFrame (rt : Runtime K) (w w' : World E) : Prop where
  futures : w'.futures = w.futures
  inflight : w'.inflight = w.inflight
  store : ∀ g q v, w'.cache.store (keyOf rt g q) = some v → w.cache.store (keyOf rt g q) = some v
  log : ∀ at' t s g r, (at', Entry.searched t s g r) ∈ w'.log → (at', Entry.searched t s g r) ∈ w.log

theorem SearchFrame.quiet {rt : Runtime K} {w w' : World E} (hf : w'.futures = w.futures)
    (hi : w'.inflight = w.inflight) (hc : w'.cache = w.cache) (hl : w'.log = w.log) :
    SearchFrame rt w w' :=
  ⟨hf, hi, fun _ _ _ h => hc ▸ h, fun _ _ _ _ _ h => hl ▸ h⟩

/-- Whether an entry is the return of a search. -/
def isSearched : Entry K → Bool
  | .searched _ _ _ _ => true
  | _ => false

theorem SearchFrame.record {rt : Runtime K} {w w₁ : World E} {e : Entry K}
    (h : SearchFrame rt w w₁) (he : isSearched e = false) : SearchFrame rt w (w₁.record e) :=
  ⟨h.futures, h.inflight, h.store, fun a t s g r hm => by
    rcases List.mem_cons.mp hm with hm | hm
    · cases hm; cases he
    · exact h.log a t s g r hm⟩

theorem searchFrame_invalidateTenant {rt : Runtime K} (w : World E) (t : Str) :
    SearchFrame rt w (w.invalidateTenant t) :=
  ⟨rfl, rfl, fun _ q _ h =>
    (Cache.store_incr_of_ne (searchKey_ne_searchGenerationKey (t := q.tenantId))).symm.trans h,
    fun _ _ _ _ _ h => h⟩

theorem searchFrame_publish {rt : Runtime K} (w : World E) (e : Event) :
    SearchFrame rt w (DocumentService.publish w e) := by
  rcases publish_cases w e with h | h <;> rw [h]
  · exact .quiet rfl rfl rfl rfl
  · exact .record (.quiet rfl rfl rfl rfl) rfl

theorem searchFrame_bump {rt : Runtime K} (w : World E) (b : ℕ) (t : Str) :
    SearchFrame rt w (bump w b t) := by
  rcases bump_cases w b t with ⟨h, -⟩ | ⟨g, h, -⟩ <;> rw [h]
  · exact searchFrame_invalidateTenant w t
  · exact .record (searchFrame_invalidateTenant w t) rfl

theorem SearchFrame.proceed {rt : Runtime K} {w w₁ w' : World E} {p : Plan Str} {r : BulkResult}
    {b : ℕ} {ts : List Str} {next : Option ProcessStep}
    (h : IndexingProcessor.proceed w₁ p r b ts = (w', next)) (hw : SearchFrame rt w w₁) :
    SearchFrame rt w w' := by
  rcases proceed_cases h with ⟨-, rfl, -⟩ | ⟨rfl, -⟩
  · exact hw.record rfl
  · exact hw

/-- Whether the task is a search. -/
def searching : Task K → Bool
  | .search _ _ _ _ => true
  | _ => false

/-- Whether the task is a call of `process`. -/
def processing : Task K → Bool
  | .process _ => true
  | _ => false

theorem processing_move {cfg : Settings} {rt : Runtime K}
    {w w' : World E} {t u : Task K} (h : Move cfg rt w t w' (some u)) : processing u = processing t := by
  generalize ho : some u = o at h
  cases h with
  | committed | bumped | selected | republished =>
      obtain ⟨step, -, rfl⟩ := Option.map_eq_some_iff.mp ho.symm
      rfl
  | _ => cases ho <;> rfl

theorem searching_map {α : Type} {f : α → Task K} (hf : ∀ a, searching (f a) = false) (o : Option α) :
    ∀ t, o.map f = some t → searching t = false := fun t ht => by
  obtain ⟨a, -, rfl⟩ := Option.map_eq_some_iff.mp ht
  exact hf a

/-- A move of a task that is not a search. -/
theorem searchFrame_move {cfg : Settings} {rt : Runtime K} {w w' : World E} {t : Task K}
    {u : Option (Task K)} (h : Move cfg rt w t w' u) (ht : searching t = false) :
    SearchFrame rt w w' ∧ ∀ t', u = some t' → searching t' = false := by
  cases h with
  | insertRefused | deleteMissing | nothingToDo | republishFailed | bulkRaised =>
      exact ⟨.quiet rfl rfl rfl rfl, fun _ h => by cases h⟩
  | inserted | documentMiss | rowFound | deleteFound | softDeleted | planned =>
      exact ⟨.quiet rfl rfl rfl rfl, fun _ h => by cases h; rfl⟩
  | indexPublished => exact ⟨searchFrame_publish w _, fun _ h => by cases h; rfl⟩
  | created => exact ⟨.record (searchFrame_invalidateTenant w _) rfl, fun _ h => by cases h⟩
  | documentHit | rowMissing => exact ⟨.record (.quiet rfl rfl rfl rfl) rfl, fun _ h => by cases h⟩
  | @documentCached s t d r =>
      refine ⟨.record ⟨rfl, rfl, fun g q v h => ?_, fun _ _ _ _ _ h => h⟩ rfl, fun _ h => by cases h⟩
      exact (Cache.store_setJson_of_ne (searchKey_ne_documentKey (t := q.tenantId))).symm.trans h
  | uncached =>
      exact ⟨.record ⟨rfl, rfl, fun _ _ _ h => Cache.store_delete h, fun _ _ _ _ _ h => h⟩
        rfl, fun _ h => by cases h; rfl⟩
  | deleteInvalidated =>
      exact ⟨searchFrame_invalidateTenant w _, fun _ h => by cases h; rfl⟩
  | deleted => exact ⟨.record (searchFrame_publish w _) rfl, fun _ h => by cases h⟩
  | generationRead | searchHit | searchMiss | joined | led | followed | executed | engineFailed
  | filled | finished => cases ht
  | bulkReturned =>
      exact ⟨.record (.quiet rfl rfl rfl rfl) rfl, fun _ h => by cases h; rfl⟩
  | committed h =>
      exact ⟨.proceed h (.quiet rfl rfl rfl rfl), searching_map (fun _ => rfl) _⟩
  | bumped _ h => exact ⟨.proceed h (searchFrame_bump w _ _), searching_map (fun _ => rfl) _⟩
  | selected => exact ⟨.quiet rfl rfl rfl rfl, searching_map (fun _ => rfl) _⟩
  | republished h =>
      obtain ⟨-, rfl⟩ := World.publish_eq_some h
      exact ⟨.record (.quiet rfl rfl rfl rfl) rfl, searching_map (fun _ => rfl) _⟩

/-- An event of the environment. -/
theorem searchFrame_disturb (rt : Runtime K) (w : World E) (e : Disturbance) :
    SearchFrame rt w (disturb w e) := by
  cases e with
  | expire key => exact ⟨rfl, rfl, fun _ _ _ h => Cache.store_expire h, fun _ _ _ _ _ h => h⟩
  | refresh => exact .record (.quiet rfl rfl rfl rfl) rfl
  | cache available => exact ⟨rfl, rfl, fun _ _ _ h => h, fun _ _ _ _ _ h => h⟩
  | _ => exact .quiet rfl rfl rfl rfl

/-! ### Futures -/

/-- `_inflight` of every replica, as one table. -/
theorem uncurry_update {α : Type*} (f : ℕ → Str → α) (r : ℕ) (k : Str) (v : α) :
    (fun p : ℕ × Str => Function.update f r (Function.update (f r) k v) p.1 p.2) =
      Function.update (fun p => f p.1 p.2) (r, k) v := by
  funext ⟨r', k'⟩
  by_cases hr : r' = r
  · subst hr
    by_cases hk : k' = k
    · subst hk
      simp
    · have hp : (r', k') ≠ (r', k) := fun h => hk (Prod.mk.inj h).2
      simp [Function.update_of_ne hk, Function.update_of_ne hp]
  · have hp : (r', k') ≠ (r, k) := fun h => hr (Prod.mk.inj h).1
    simp [Function.update_of_ne hr, Function.update_of_ne hp]

theorem inflight_register {w : World E} {r r' f : ℕ} {key key' : Str}
    (h : (register w r key).inflight r' key' = some f) :
    (key' = key ∧ f = w.futures.length) ∨ w.inflight r' key' = some f := by
  have h' := (congrFun (uncurry_update w.inflight r key (some w.futures.length)) (r', key')).symm.trans h
  by_cases hk : (r', key') = (r, key)
  · rw [hk, Function.update_self] at h'
    cases hk
    exact .inl ⟨rfl, (Option.some.inj h').symm⟩
  · rw [Function.update_of_ne hk] at h'
    exact .inr h'

theorem inflight_unregister {w : World E} {r r' f : ℕ} {key key' : Str}
    (h : (unregister w r key).inflight r' key' = some f) : w.inflight r' key' = some f := by
  have h' := (congrFun (uncurry_update w.inflight r key none) (r', key')).symm.trans h
  by_cases hk : (r', key') = (r, key)
  · rw [hk, Function.update_self] at h'
    cases h'
  · rw [Function.update_of_ne hk] at h'
    exact h'

/-- Futures keep their keys. -/
def FuturesStay (w w' : World E) : Prop :=
  ∀ (i : ℕ) (f : Future K), w.futures[i]? = some f →
    ∃ f' : Future K, w'.futures[i]? = some f' ∧ f'.key = f.key

theorem FuturesStay.of_eq {w w' : World E} (h : w'.futures = w.futures) : FuturesStay w w' :=
  fun _ f hf => ⟨f, h ▸ hf, rfl⟩

theorem futures_register_of_some {w : World E} {i : ℕ} {x : Future K} (h : w.futures[i]? = some x)
    (r : ℕ) (key : Str) : (register w r key).futures[i]? = some x := by
  change (w.futures ++ [⟨key, none⟩])[i]? = some x
  rw [List.getElem?_append_left (List.getElem?_eq_some_iff.mp h).1]
  exact h

theorem futuresStay_register (w : World E) (r : ℕ) (key : Str) :
    FuturesStay w (register w r key) :=
  fun _ f hf => ⟨f, futures_register_of_some hf r key, rfl⟩

theorem futures_register {w : World E} {r i : ℕ} {key : Str} {x : Future K}
    (h : (register w r key).futures[i]? = some x) : w.futures[i]? = some x ∨ x = ⟨key, none⟩ := by
  change (w.futures ++ [⟨key, none⟩])[i]? = some x at h
  rw [List.getElem?_append] at h
  split at h
  · exact .inl h
  · exact .inr (List.mem_singleton.mp (List.mem_of_getElem? h))

/-- A future after a `set_result` was there before, and has its result or the new one. -/
theorem settle_cases {w : World E} {f i : ℕ} {r : Except ServiceError (Answer K)} {x : Future K}
    (h : (settle w f r).futures[i]? = some x) :
    ∃ x₀, w.futures[i]? = some x₀ ∧ x.key = x₀.key ∧
      (x.result = x₀.result ∨ (f = i ∧ x.result = some r)) := by
  change (w.futures.modify f _)[i]? = some x at h
  rw [List.getElem?_modify, Option.map_eq_map, Option.map_eq_some_iff] at h
  obtain ⟨x₀, hx₀, rfl⟩ := h
  refine ⟨x₀, hx₀, ?_, ?_⟩ <;> split
  · split <;> rfl
  · rfl
  · rename_i hf
    split
    · exact .inl rfl
    · exact .inr ⟨hf, rfl⟩
  · exact .inl rfl

theorem futuresStay_settle (w : World E) (f : ℕ) (r : Except ServiceError (Answer K)) :
    FuturesStay w (settle w f r) := by
  intro i x hx
  change ∃ f', (w.futures.modify f _)[i]? = some f' ∧ _
  rw [List.getElem?_modify, hx]
  refine ⟨_, rfl, ?_⟩
  dsimp only
  split
  · split <;> rfl
  · rfl

/-! ### The outline -/

/-- The future is there, under the key. -/
def HasKey (w : World E) (f : ℕ) (key : Str) : Prop :=
  ∃ x : Future K, w.futures[f]? = some x ∧ x.key = key

theorem HasKey.mono {w w' : World E} {f : ℕ} {key : Str} (h : HasKey w f key)
    (hw : FuturesStay w w') : HasKey w' f key := by
  obtain ⟨x, hx, hk⟩ := h
  obtain ⟨x', hx', hk'⟩ := hw f x hx
  exact ⟨x', hx', hk'.trans hk⟩

/-- What is registered stays under its key, and so does the new future. -/
theorem hasKey_register {w : World E} (h : ∀ r key f, w.inflight r key = some f → HasKey w f key)
    (r : ℕ) (key : Str) {r' f : ℕ} {key' : Str} (hi : (register w r key).inflight r' key' = some f) :
    HasKey (register w r key) f key' := by
  rcases inflight_register hi with ⟨rfl, rfl⟩ | hi
  · exact ⟨⟨key', none⟩, List.getElem?_concat_length, rfl⟩
  · exact (h r' key' f hi).mono (futuresStay_register w r key)

/-- The results after a `set_result` were there before, but for the one that is set. -/
theorem settled_settle {w : World E} {f i : ℕ} {key : Str} {r res : Except ServiceError (Answer K)}
    {x : Future K} (hf : HasKey w f key) (h : (settle w f r).futures[i]? = some x)
    (hres : x.result = some res) :
    (∃ x₀, w.futures[i]? = some x₀ ∧ x₀.key = x.key ∧ x₀.result = some res) ∨
      (x.key = key ∧ res = r) := by
  obtain ⟨x₀, hx₀, hkey, hold | ⟨rfl, hnew⟩⟩ := settle_cases h
  · exact .inl ⟨x₀, hx₀, hkey.symm, hold ▸ hres⟩
  · obtain ⟨y, hy, rfl⟩ := hf
    rw [hx₀] at hy
    cases hy
    exact .inr ⟨hkey, Option.some.inj (hres.symm.trans hnew)⟩

/-- A result under which a property of its answer, if it is one, holds. -/
def ResultOk (good : Answer K → Prop) : Except ServiceError (Answer K) → Prop
  | .ok a => good a
  | .error _ => True

/-- The property holds of what is cached, of what is in flight and of what was returned. -/
structure AnswersOk (rt : Runtime K) (good : Str → ℕ → Answer K → Prop) (w : World E) : Prop where
  cached : ∀ g q v, w.cache.store (keyOf rt g q) = some v → ∃ a, v = .search a ∧ good q.tenantId g a
  settled : ∀ (i : ℕ) (x : Future K) r g q,
    w.futures[i]? = some x → x.result = some r → x.key = keyOf rt g q →
    ResultOk (good q.tenantId g) r
  registered : ∀ r key f, w.inflight r key = some f → HasKey w f key
  returned : ∀ at' t s g r, (at', Entry.searched t s g r) ∈ w.log → ResultOk (good t g) r

/-- What a search knows: `held` from the read of the generation on, `good` of its answer. -/
def searchAssertion (rt : Runtime K) (held : Str → ℕ → Prop) (good : Str → ℕ → Answer K → Prop)
    (w : World E) : Task K → Prop
  | .search _ _ q (.cacheRead g) | .search _ _ q (.flight g) => held q.tenantId g
  | .search _ _ q (.waiting g f) => HasKey w f (keyOf rt g q)
  | .search _ _ q (.execute g f) => held q.tenantId g ∧ HasKey w f (keyOf rt g q)
  | .search _ _ q (.fill g f a) => good q.tenantId g a ∧ HasKey w f (keyOf rt g q)
  | .search _ _ q (.finish g f r) => ResultOk (good q.tenantId g) r ∧ HasKey w f (keyOf rt g q)
  | _ => True

def searchOutline (rt : Runtime K) (held : World E → Str → ℕ → Prop)
    (good : World E → Str → ℕ → Answer K → Prop) : Outline (World E) (Task K) where
  inv w := AnswersOk rt (good w) w
  assertion w t := searchAssertion rt (held w) (good w) w t
  guarantee := FuturesStay

/-- What a property of answers has to satisfy, over an established outline `O`. -/
structure SearchRules (rt : Runtime K) (P : Restriction (World E) (Task K) Request Disturbance)
    (O : Outline (World E) (Task K)) (held : World E → Str → ℕ → Prop)
    (good : World E → Str → ℕ → Answer K → Prop) : Prop where
  held_stable : ∀ {w w' t g}, O.Across w w' → held w t g → held w' t g
  good_stable : ∀ {w w' t g a}, O.Across w w' → good w t g a → good w' t g a
  generation : ∀ {w : World E} {t}, O.inv w → held w t (currentGeneration w t)
  execute : ∀ {w : World E} {r s q g f a}, O.inv w → O.assertion w (.search r s q (.execute g f)) →
    P.resume w (.search r s q (.execute g f)) → held w q.tenantId g → execute w q = .ok a →
    good w q.tenantId g a
  flag : ∀ {w t g a} (b : Bool), good w t g a → good w t g (a.withCached b)

section Rules

variable {rt : Runtime K} {P : Restriction (World E) (Task K) Request Disturbance}
  {O : Outline (World E) (Task K)} {held : World E → Str → ℕ → Prop}
  {good : World E → Str → ℕ → Answer K → Prop}

theorem ResultOk.imp {p p' : Answer K → Prop} (h : ∀ a, p a → p' a)
    {r : Except ServiceError (Answer K)} (hr : ResultOk p r) : ResultOk p' r := by
  cases r with
  | ok a => exact h a hr
  | error e => trivial

/-- The property survives a step that leaves the searches alone. -/
theorem AnswersOk.frame {good good' : Str → ℕ → Answer K → Prop} {w w' : World E}
    (h : AnswersOk rt good w) (hf : SearchFrame rt w w')
    (hg : ∀ t g a, good t g a → good' t g a) : AnswersOk rt good' w' where
  cached g q v hv := by
    obtain ⟨a, rfl, ha⟩ := h.cached g q v (hf.store g q v hv)
    exact ⟨a, rfl, hg _ _ _ ha⟩
  settled i x r g q hx hr hk :=
    (h.settled i x r g q (hf.futures ▸ hx) hr hk).imp (hg _ _)
  registered r key f hi := (h.registered r key f (hf.inflight ▸ hi)).mono (.of_eq hf.futures)
  returned a t s g r hm := (h.returned a t s g r (hf.log a t s g r hm)).imp (hg _ _)

/-- A search that returns adds its result to the log. -/
theorem AnswersOk.answer {good : Str → ℕ → Answer K → Prop} {w : World E}
    (h : AnswersOk rt good w) {s g : ℕ} {q : SearchQuery} {r : Except ServiceError (Answer K)}
    (hr : ResultOk (good q.tenantId g) r) : AnswersOk rt good (answer w s g q r) where
  cached := h.cached
  settled := h.settled
  registered := h.registered
  returned a t s' g' r' hm := by
    rcases List.mem_cons.mp hm with hm | hm
    · cases hm; exact hr
    · exact h.returned a t s' g' r' hm

theorem AnswersOk.register {good : Str → ℕ → Answer K → Prop} {w : World E}
    (h : AnswersOk rt good w) (r : ℕ) (key : Str) : AnswersOk rt good (register w r key) where
  cached := h.cached
  settled i x res g q hx hr hk := by
    rcases futures_register hx with hx | rfl
    · exact h.settled i x res g q hx hr hk
    · cases hr
  registered r' key' f hi := hasKey_register h.registered r key hi
  returned := h.returned

theorem AnswersOk.unregister {good : Str → ℕ → Answer K → Prop} {w : World E}
    (h : AnswersOk rt good w) (r : ℕ) (key : Str) : AnswersOk rt good (unregister w r key) where
  cached := h.cached
  settled := h.settled
  registered r' key' f hi := h.registered r' key' f (inflight_unregister hi)
  returned := h.returned

/-- A leader settles its future with a result under the key of its own query. -/
theorem AnswersOk.settle {good : Str → ℕ → Answer K → Prop} {w : World E}
    (h : AnswersOk rt good w) {f g : ℕ} {q : SearchQuery} {r : Except ServiceError (Answer K)}
    (hf : HasKey w f (keyOf rt g q)) (hr : ResultOk (good q.tenantId g) r) :
    AnswersOk rt good (settle w f r) where
  cached := h.cached
  settled i x res g' q' hx hres hk := by
    rcases settled_settle hf hx hres with ⟨x₀, hx₀, hkey, hold⟩ | ⟨hkey, rfl⟩
    · exact h.settled i x₀ res g' q' hx₀ hold (hkey.trans hk)
    · obtain ⟨ht, hg⟩ := searchKey_inj (hkey.symm.trans hk)
      exact ht ▸ hg ▸ hr
  registered r' key f' hi := (h.registered r' key f' hi).mono (futuresStay_settle w f r)
  returned := h.returned

/-- A leader caches its answer under the key of its own query. -/
theorem AnswersOk.fill {good : Str → ℕ → Answer K → Prop} {w : World E}
    (h : AnswersOk rt good w) {g : ℕ} {q : SearchQuery} {a : Answer K} (ha : good q.tenantId g a) :
    AnswersOk rt good { w with cache := w.cache.setJson (keyOf rt g q) (.search a) } where
  cached g' q' v hv := by
    rcases Cache.store_setJson hv with ⟨hk, rfl⟩ | hv
    · obtain ⟨ht, hg⟩ := searchKey_inj hk
      exact ⟨a, rfl, ht ▸ hg ▸ ha⟩
    · exact h.cached g' q' v hv
  settled := h.settled
  registered := h.registered
  returned := h.returned

theorem searchAssertion_mono {held held' : Str → ℕ → Prop} {good good' : Str → ℕ → Answer K → Prop}
    {w w' : World E} (hw : FuturesStay w w') (hh : ∀ t g, held t g → held' t g)
    (hg : ∀ t g a, good t g a → good' t g a) {t : Task K}
    (h : searchAssertion rt held good w t) : searchAssertion rt held' good' w' t := by
  cases t with
  | search r s q step =>
      cases step with
      | generation => trivial
      | cacheRead g | flight g => exact hh _ _ h
      | waiting g f => exact HasKey.mono h hw
      | execute g f => exact ⟨hh _ _ h.1, h.2.mono hw⟩
      | fill g f a => exact ⟨hg _ _ _ h.1, h.2.mono hw⟩
      | finish g f r => exact ⟨h.1.imp (hg _ _), h.2.mono hw⟩
  | _ => trivial

theorem searchAssertion_of_not_searching {held : Str → ℕ → Prop} {good : Str → ℕ → Answer K → Prop}
    {w : World E} {t : Task K} (h : searching t = false) : searchAssertion rt held good w t := by
  cases t with
  | search _ _ _ _ => cases h
  | _ => trivial

/-- **Every path of an answer.** -/
theorem SearchRules.preserves {cfg : Settings} {engine : E.State}
    (hrules : SearchRules rt P O held good) :
    Preserves cfg rt P (World.IsInitial engine) O (searchOutline rt held good) where
  init := by
    rintro w rfl
    exact ⟨fun _ _ _ h => (by cases h), fun _ _ _ _ _ h => (by cases h),
      fun _ _ _ h => (by cases h), fun _ _ _ _ _ h => (by cases h)⟩
  start := by
    intro w r hK _ hi
    refine ⟨hi.frame (.quiet rfl rfl rfl rfl) fun _ _ _ => hrules.good_stable hK, ?_, .of_eq rfl⟩
    cases r <;> trivial
  move := by
    intro w t w' u hK hKt hP hm hi ht
    by_cases hs : searching t = false
    · obtain ⟨hf, hu⟩ := searchFrame_move hm hs
      have hf' : SearchFrame rt w w'.tick := ⟨hf.futures, hf.inflight, hf.store, hf.log⟩
      exact ⟨hi.frame hf' fun _ _ _ => hrules.good_stable hK,
        fun t' ht' => searchAssertion_of_not_searching (hu t' ht'), .of_eq hf.futures⟩
    -- the outline in the world before the step, of the task and world after it
    have after : AnswersOk rt (good w) w' → FuturesStay w w' →
        (∀ t', u = some t' → searchAssertion rt (held w) (good w) w' t') →
        AnswersOk rt (good w'.tick) w'.tick ∧
          (∀ t', u = some t' →
            searchAssertion rt (held w'.tick) (good w'.tick) w'.tick t') ∧
          FuturesStay w w'.tick := fun ha hfs hu =>
      ⟨ha.frame (.quiet rfl rfl rfl rfl) fun _ _ _ => hrules.good_stable hK,
        fun t' ht' => searchAssertion_mono (.of_eq rfl) (fun _ _ => hrules.held_stable hK)
          (fun _ _ _ => hrules.good_stable hK) (hu t' ht'), hfs⟩
    cases hm with
    | generationRead =>
        exact after hi (.of_eq rfl) fun _ h => by cases h; exact hrules.generation hK.before
    | @searchHit r s q g v h =>
        refine after ?_ (.of_eq rfl) fun _ h => by cases h
        obtain ⟨a, rfl, ha⟩ := hi.cached g q v (Cache.store_of_getJson h)
        exact hi.answer (hrules.flag true ha)
    | searchMiss => exact after hi (.of_eq rfl) fun _ h => by cases h; exact ht
    | joined h =>
        exact after hi (.of_eq rfl) fun _ h' => by cases h'; exact hi.registered _ _ _ h
    | @led r s q g h =>
        refine after (hi.register r _) (futuresStay_register w r _) fun _ h' => ?_
        cases h'
        exact ⟨ht, ⟨keyOf rt g q, none⟩, List.getElem?_concat_length, rfl⟩
    | @followed r s q g f k a h =>
        refine after (hi.answer ?_) (.of_eq rfl) fun _ h => by cases h
        obtain ⟨x, hx, hk⟩ := ht
        rw [h] at hx
        cases hx
        exact hi.settled f _ a g q h rfl hk
    | executed h =>
        refine after hi (.of_eq rfl) fun _ h' => ?_
        cases h'
        exact ⟨hrules.execute hK.before hKt hP ht.1 h, ht.2⟩
    | engineFailed => exact after hi (.of_eq rfl) fun _ h => by cases h; exact ⟨trivial, ht.2⟩
    | filled =>
        exact after (hi.fill (hrules.flag false ht.1)) (.of_eq rfl) fun _ h => by
          cases h; exact ht
    | @finished r s q g f a =>
        exact after (((hi.settle ht.2 ht.1).unregister r _).answer ht.1)
          (futuresStay_settle w f a) fun _ h => by cases h
    | _ => exact absurd rfl hs
  cancel := by
    intro w t hK _ hi _
    have hi' : AnswersOk rt (good (cancel rt w t)) w :=
      hi.frame (.quiet rfl rfl rfl rfl) fun _ _ _ => hrules.good_stable hK
    rcases cancel_cases rt w t with hc | ⟨r, q, g, hc⟩ <;> rw [hc] at hi' ⊢
    · exact ⟨hi', .of_eq rfl⟩
    · exact ⟨hi'.unregister r _, .of_eq rfl⟩
  disturb := by
    intro w e hK _ hi
    have hf := searchFrame_disturb rt w e
    have hf' : SearchFrame rt w (disturb w e).tick := ⟨hf.futures, hf.inflight, hf.store, hf.log⟩
    exact ⟨hi.frame hf' fun _ _ _ => hrules.good_stable hK, .of_eq hf.futures⟩
  stable := by
    intro w w' t hK hO _ ht
    have hh : ∀ t g, held w t g → held w' t g := fun _ _ => hrules.held_stable hK
    have hg : ∀ t g a, good w t g a → good w' t g a := fun _ _ _ => hrules.good_stable hK
    exact searchAssertion_mono hO.guarantee hh hg ht

end Rules

end Pipeline

end DocSearch
