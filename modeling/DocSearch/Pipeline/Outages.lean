import DocSearch.Pipeline.Calls
import DocSearch.Pipeline.Freshness

/-!
# Pipeline — Outages

One call after the other, each step of which finds the cache working or raising.  A call of the
cache that raises is dropped: the deletion of a document, the increment of a counter and the read of
one have then not happened.

* `oneCall`: the runs.  `harmless`: those in which nothing is lost with the calls that raise.
* `deletions_keep`: in these, what a `delete` was to take out of the cache is not there.
* `searches_keep`: and what is cached under the counter of a tenant was read from the engine after
  every bulk call that changed its documents.
* `outages_survived`: so that no deleted document is returned, nor an answer from before a worker
  returned.
-/

namespace DocSearch

open CacheKeys InMemoryEngine SearchService IndexingProcessor Interleaving

namespace Pipeline

variable {K : Type} {E : SearchEngine K} {cfg : Settings} {rt : Runtime K}

/-- Whether the environment leaves the generation counters in the cache. -/
def keepsCounters : Disturbance → Prop
  | .expire key => ∀ t, key ≠ searchGenerationKey t
  | _ => True

/-- One call at a time, workers with events that were published.  The cache goes down and up between
any two steps. -/
def oneCall : Serial (World E) (Task K) Request Str Disturbance where
  start := (keptGenerations : Restriction (World E) (Task K) Request Disturbance).start
  environment _ e := keepsCounters e

/-- Nothing is cached for the searches of a tenant under its counter. -/
def NothingCurrent (rt : Runtime K) (w : World E) (tenantId : Str) : Prop :=
  ∀ q : SearchQuery, q.tenantId = tenantId →
    w.cache.store (keyOf rt (w.generation tenantId) q) = none

/-- What a call that raises was to do is done: the document to delete is not cached, nor any search
under the counter to increment; and a search that could not read the counter finds nothing under
the 0 it takes instead. -/
def harmless (rt : Runtime K) : Serial (World E) (Task K) Request Str Disturbance where
  start := oneCall.start
  resume w t pick :=
    match t with
    | .delete t d (.cacheDelete _) =>
        w.cache.available = true ∨ w.cache.store (documentKey t d.str) = none
    | .process (.invalidate _ _ _ _) => w.cache.available = true ∨ NothingCurrent rt w pick
    | .search _ _ q (.cacheRead g) =>
        g = w.generation q.tenantId ∨ w.cache.getJson (keyOf rt g q) = none
    | _ => True
  environment := oneCall.environment

theorem resume_machine {w w'' : World E} {t : Task K} {c : Str} {u : Option (Task K)}
    (h : (machine cfg rt E).resume w t c = some (w'', u)) :
    ∃ w', resume cfg rt w c t = some (w', u) ∧ w'' = w'.tick := by
  obtain ⟨⟨w', u'⟩, hr, he⟩ := Option.map_eq_some_iff.mp h
  cases he
  exact ⟨w', hr, rfl⟩

/-! ### Deletions -/

/-- The world when the cache works again. -/
def restored (w : World E) : World E := withCache w (raising (fun _ => true) 0)

/-- What the one task knows of the deletions. -/
def deletionsAssertion (w : World E) : Task K → Prop
  | .get _ t d (.cacheWrite _) => ¬ Uncached w t d
  | .delete t d (.invalidate _) | .delete t d (.publish _) => Uncached w t d
  | _ => True

/-- Deleted documents are out of the cache, whether it works or not. -/
structure DeletionsOk (w : World E) (o : Option (Task K)) : Prop where
  cache : DocumentCacheOk (restored w)
  task : ∀ t, o = some t → deletionsAssertion w t

theorem restored_frame {w w' : World E} (h : DocumentCacheOk (restored w)) (hf : DocumentFrame w w')
    (he : RowsEvolve w.documents w'.documents) (hx : Extends w w') :
    DocumentCacheOk (restored w') := by
  have hf' : DocumentFrame (restored w) (restored w') := ⟨hf.store, hf.log⟩
  have hx' : Extends (restored w) (restored w') := hx
  exact h.frame hf' rfl he hx'

theorem deletionsAssertion_of_not_serving {w : World E} {t : Task K} (h : serving t = false) :
    deletionsAssertion w t := by
  cases t with
  | create _ _ | get _ _ _ _ | delete _ _ _ => cases h
  | _ => trivial

/-- A fill with a document that was not taken out. -/
theorem restored_setDocument {w : World E} (h : DocumentCacheOk (restored w)) {t : Str} {d : Uuid}
    (hu : ¬ Uncached w t d) (r : DocumentResponse) :
    DocumentCacheOk
      (restored { w with cache := w.cache.setJson (documentKey t d.str) (.document r) }) := by
  refine ⟨rfl, fun t' d' hu' => ?_, h.deleted, h.past, h.notFound⟩
  obtain ⟨hn, hd⟩ := h.gone t' d' hu'
  refine ⟨Option.eq_none_iff_forall_not_mem.mpr fun v hv => ?_, hd⟩
  rcases Cache.store_setJson hv with ⟨hk, -⟩ | hv
  · obtain ⟨rfl, rfl⟩ := documentKey_inj hk
    exact hu hu'
  · have hs : (restored w).cache.store (documentKey t' d'.str) = some v := hv
    rw [hn] at hs
    cases hs

/-- A deletion from the cache that goes through, or has nothing to do. -/
theorem restored_delete {w : World E} (h : DocumentCacheOk (restored w)) {t : Str} {d : Uuid}
    (hav : w.cache.available = true ∨ w.cache.store (documentKey t d.str) = none) :
    DocumentCacheOk (restored { w with cache := w.cache.delete (documentKey t d.str) }) ∧
      (w.cache.delete (documentKey t d.str)).store (documentKey t d.str) = none := by
  refine ⟨⟨rfl, fun t' d' hu => ?_, h.deleted, h.past, h.notFound⟩, ?_⟩
  · obtain ⟨hn, hd⟩ := h.gone t' d' hu
    refine ⟨Option.eq_none_iff_forall_not_mem.mpr fun v hv => ?_, hd⟩
    have hs : w.cache.store (documentKey t' d'.str) = some v :=
      Cache.store_delete (show (w.cache.delete (documentKey t d.str)).store _ = some v from hv)
    exact absurd (hn.symm.trans hs) nofun
  · rcases hav with hav | hnone
    · exact Cache.store_delete_self hav _
    · refine Option.eq_none_iff_forall_not_mem.mpr fun v hv => ?_
      rw [Cache.store_delete hv] at hnone
      cases hnone

theorem deletions_move {w w' : World E} {t : Task K} {u : Option (Task K)} {pick : Str}
    (hP : (harmless rt).resume w t pick) (hrows : rowsAssertion w.documents t)
    (hpast : historyAssertion w.clock t) (hev : RowsEvolve w.documents w'.documents)
    (hm : Move cfg rt w t w' u) (h : DeletionsOk w (some t)) : DeletionsOk w'.tick u := by
  obtain ⟨hi, ht⟩ := h
  have ht := ht t rfl
  have hext := move_extends hm
  have quiet (hf : DocumentFrame w w') : DocumentCacheOk (restored w'.tick) :=
    (restored_frame hi hf hev hext).tick
  by_cases hs : serving t = false
  · obtain ⟨hf, hu⟩ := documentFrame_move hm hs
    exact ⟨quiet hf, fun t' ht' => deletionsAssertion_of_not_serving (hu t' ht')⟩
  cases hm with
  | insertRefused | deleteMissing => exact ⟨hi.tick, fun _ h => (by cases h)⟩
  | inserted | deleteFound | softDeleted | documentMiss =>
      exact ⟨quiet (.quiet rfl rfl), fun _ h => by cases h; trivial⟩
  | indexPublished => exact ⟨quiet (documentFrame_publish w _), fun _ h => by cases h; trivial⟩
  | @created t d =>
      have hi' := restored_frame hi (documentFrame_invalidateTenant w t) hev (.quiet rfl rfl)
      exact ⟨(hi'.record (e := .created t d) trivial).tick, fun _ h => (by cases h)⟩
  | @documentHit s t d v h =>
      refine ⟨(hi.record (e := .got t d s (DocumentService.validate v))
        ⟨hpast, fun a hm _ => ?_⟩).tick, fun _ h => (by cases h)⟩
      -- what a `delete` that has returned took out of the cache is not found there
      have hnone : w.cache.store (documentKey t d.str) = none :=
        (hi.gone t d (hi.deleted a t d hm)).1
      exact absurd (hnone.symm.trans (Cache.store_of_getJson h)) nofun
  | @rowMissing s t d h =>
      exact ⟨(hi.record (e := .got t d s (.error DocumentService.notFound))
        ⟨hpast, fun _ _ _ => rfl⟩).tick, fun _ h => (by cases h)⟩
  | @rowFound s t d row h =>
      refine ⟨hi.tick, fun _ h' => ?_⟩
      cases h'
      intro hu
      -- the row would be deleted
      obtain ⟨d', (hd' : w.documents.find? d = some d'), hs'⟩ := (hi.gone t d hu).2
      obtain ⟨hf, -, hlive⟩ := DocumentRepository.get_eq_some.mp h
      rw [hd'] at hf
      cases hf
      exact absurd hs' hlive
  | @documentCached s t d r =>
      have hi' := restored_setDocument hi ht r
      exact ⟨(hi'.record (e := .got t d s (.ok r)) ⟨hpast, fun a hm _ =>
        absurd (hi.deleted a t d hm) ht⟩).tick, fun _ h => (by cases h)⟩
  | @uncached t d row =>
      obtain ⟨hi', hnone⟩ := restored_delete hi hP
      refine ⟨(hi'.record (e := .uncached t d) ⟨hnone, hrows.2.2⟩).tick, fun _ h => ?_⟩
      cases h
      exact ⟨w.clock, List.mem_cons_self⟩
  | deleteInvalidated =>
      refine ⟨quiet (documentFrame_invalidateTenant w _), fun _ h => ?_⟩
      cases h
      exact Uncached.mono hext.kept ht
  | @deleted t d row =>
      have hx := extends_publish w (DocumentService.deleteEvent t row)
      have hi' := restored_frame hi (documentFrame_publish w _) hev hx
      exact ⟨(hi'.record (e := .deleted t d) (Uncached.mono hx.kept ht)).tick, fun _ h => (by cases h)⟩
  | _ => exact absurd rfl hs

theorem deletions_keep (cfg : Settings) (rt : Runtime K) (engine : E.State) :
    (machine cfg rt E).Keeps (harmless rt) (World.IsInitial engine) (rowsOutline.and historyOutline)
      DeletionsOk where
  init := by
    rintro w rfl
    exact ⟨⟨rfl, fun _ _ h => (by obtain ⟨_, h⟩ := h; cases h), fun _ _ _ h => (by cases h),
      fun _ _ _ _ _ h => (by cases h), fun _ _ _ _ _ _ h => (by cases h)⟩, fun _ h => (by cases h)⟩
  start := by
    intro w r w' t _ _ hs hi
    cases hs
    refine ⟨hi.cache.tick, fun t ht => ?_⟩
    cases ht
    cases r <;> trivial
  resume := by
    intro w t c w'' u hK hKt hP hs hi
    obtain ⟨w', hr, rfl⟩ := resume_machine hs
    exact deletions_move hP hKt.1 hKt.2 hK.guarantee.1 (resume_move hr) hi
  environment := by
    intro w e w' o hK _ hs hi
    cases hs
    refine ⟨(restored_frame hi.cache (documentFrame_disturb w e) hK.guarantee.1
      (disturb_extends w e)).tick, fun t ht => ?_⟩
    have hu : ∀ {t d}, Uncached (disturb w e).tick t d → Uncached w t d := fun {t d} => by
      rintro ⟨a, hm⟩
      exact ⟨a, (documentFrame_disturb w e).log a _ hm rfl⟩
    have h := hi.task t ht
    cases t with
    | get s t d step =>
        cases step with
        | cacheWrite r => exact fun hu' => h (hu hu')
        | _ => trivial
    | delete t d step =>
        cases step with
        | invalidate row | publish row => exact Uncached.mono hK.guarantee.2.kept h
        | _ => trivial
    | _ => trivial

/-! ### Counters -/

/-- Generation keys hold numbers. -/
def Numbers (w : World E) : Prop :=
  ∀ t v, w.cache.store (searchGenerationKey t) = some v → ∃ n, v = .generation n

/-- Every counter stays or grows. -/
def CountersGrow (w w' : World E) : Prop :=
  ∀ t, w'.generation t = w.generation t ∨ w.generation t < w'.generation t

theorem currentGeneration_le (w : World E) (t : Str) : currentGeneration w t ≤ w.generation t := by
  by_cases hav : w.cache.available = true
  · rw [currentGeneration, Cache.getJson, if_pos hav]
    exact le_refl _
  · rw [currentGeneration, Cache.getJson, if_neg hav]
    exact Nat.zero_le _

theorem counters_frame {w w' : World E} (hf : GenerationFrame w w') (hn : Numbers w) :
    Numbers w' ∧ CountersGrow w w' :=
  ⟨fun t v hv => hn t v ((hf.store t).symm.trans hv),
    fun t => .inl (Cache.counter_congr (hf.store t))⟩

/-- An increment that raises changes nothing. -/
theorem counters_incremented {w w' : World E} {t : Str} {b : ℕ → Prop} (hf : Incremented w w' t b)
    (hn : Numbers w) :
    Numbers w' ∧ CountersGrow w w' ∧
      (w.cache.available = true → w'.generation t = w.generation t + 1) := by
  refine ⟨fun s v hv => ?_, fun s => ?_, fun hav => ?_⟩
  · rw [hf.cache] at hv
    rcases Cache.store_incr hv with ⟨-, h⟩ | hv
    · exact h
    · exact hn s v hv
  · by_cases hs : s = t
    · subst hs
      by_cases hav : w.cache.available = true
      · have hcount := (Cache.incr_eq hav (hn s)).2
        refine .inr ?_
        unfold World.generation
        rw [hf.cache, hcount]
        exact Nat.lt_succ_self _
      · refine .inl (Cache.counter_congr ?_)
        rw [hf.cache, Cache.incr, if_neg hav]
    · refine .inl (Cache.counter_congr ?_)
      rw [hf.cache]
      exact Cache.store_incr_of_ne fun hk => hs (searchGenerationKey_inj hk)
  · unfold World.generation
    rw [hf.cache]
    exact (Cache.incr_eq hav (hn t)).2

theorem counters_move {w w' : World E} {t : Task K} {u : Option (Task K)}
    (hm : Move cfg rt w t w' u) (hn : Numbers w) : Numbers w' ∧ CountersGrow w w' := by
  rcases generations_move hm with hf | ⟨t', hf⟩
  · exact counters_frame hf hn
  · exact ⟨(counters_incremented hf hn).1, (counters_incremented hf hn).2.1⟩

/-! ### The log -/

/-- Whether an entry is a publication or the return of a worker. -/
def isReport : Entry K → Bool
  | .published _ | .processed _ _ _ => true
  | _ => false

/-- What a task may publish, or return from `process`. -/
def reports : Task K → Entry K → Prop
  | .create t (.publish d) => (· = .published (DocumentService.indexEvent t d))
  | .delete t _ (.publish d) => (· = .published (DocumentService.deleteEvent t d))
  | .sweep (.publish d _) => (· = .published (Reconciler.eventFor d))
  | .process (.commit p r b) | .process (.invalidate p r b _) =>
      (· = .processed p.operations r.succeeded b)
  | _ => fun _ => False

/-- The reports of `w'` are those of `w`, and new ones of the present step. -/
def Adds (w w' : World E) (new : Entry K → Prop) : Prop :=
  ∀ a e, (a, e) ∈ w'.log → isReport e = true → (a, e) ∈ w.log ∨ (a = w.clock ∧ new e)

theorem Adds.quiet {w w' : World E} {new : Entry K → Prop} (h : w'.log = w.log) : Adds w w' new :=
  fun _ _ hm _ => .inl (h ▸ hm)

theorem Adds.record {w w₁ : World E} {new : Entry K → Prop} {e : Entry K} (h : Adds w w₁ new)
    (hc : w₁.clock = w.clock) (he : isReport e = true → new e) : Adds w (w₁.record e) new := by
  intro a e' hm hk
  rcases List.mem_cons.mp hm with hm | hm
  · cases hm
    exact .inr ⟨hc, he hk⟩
  · exact h a e' hm hk

theorem adds_publish {new : Entry K → Prop} {w : World E} {e : Event} (he : new (.published e)) :
    Adds w (DocumentService.publish w e) new := by
  rcases publish_cases w e with h | h <;> rw [h]
  · exact .quiet rfl
  · exact .record (.quiet rfl) rfl fun _ => he

theorem adds_bump {new : Entry K → Prop} (w : World E) (b : ℕ) (t : Str) :
    Adds w (bump w b t) new := by
  rcases bump_cases w b t with ⟨h, -⟩ | ⟨g, h, -⟩ <;> rw [h]
  · exact .quiet rfl
  · exact .record (.quiet rfl) rfl nofun

theorem Adds.proceed {new : Entry K → Prop} {w w₁ w' : World E} {p : Plan Str} {r : BulkResult}
    {b : ℕ} {ts : List Str} {next : Option ProcessStep}
    (h : IndexingProcessor.proceed w₁ p r b ts = (w', next)) (hw : Adds w w₁ new)
    (hc : w₁.clock = w.clock) (he : new (.processed p.operations r.succeeded b)) :
    Adds w w' new := by
  rcases proceed_cases h with ⟨-, rfl, -⟩ | ⟨rfl, -⟩
  · exact hw.record hc fun _ => he
  · exact hw

theorem reports_move {w w' : World E} {t : Task K} {u : Option (Task K)}
    (hm : Move cfg rt w t w' u) : Adds w w' (reports t) := by
  cases hm with
  | indexPublished => exact adds_publish rfl
  | deleted => exact .record (adds_publish rfl) (extends_publish w _).1 nofun
  | republished h =>
      obtain ⟨-, rfl⟩ := World.publish_eq_some h
      exact .record (.quiet rfl) rfl fun _ => rfl
  | committed h => exact .proceed h (.quiet rfl) rfl rfl
  | bumped _ h => exact .proceed h (adds_bump w _ _) (extends_bump w _ _).1 rfl
  | created | documentHit | rowMissing | documentCached | uncached | searchHit | followed | finished
  | bulkReturned => exact .record (.quiet rfl) rfl nofun
  | _ => exact .quiet rfl

/-- What a task publishes names the tenant of its row. -/
theorem namesRow_reports {w : World E} {t : Task K} {e : Event} (hrows : rowsAssertion w.documents t)
    (h : reports t (.published e)) : NamesRow w.documents e := by
  cases t with
  | create t step =>
      cases step with
      | publish d =>
          obtain rfl := Entry.published.inj h
          exact ⟨d.id, rfl, hrows⟩
      | insert | invalidate => exact h.elim
  | delete t id step =>
      cases step with
      | publish row =>
          obtain rfl := Entry.published.inj h
          obtain ⟨rfl, hrow, -⟩ := hrows
          exact ⟨row.id, rfl, hrow⟩
      | read | commit | cacheDelete | invalidate => exact h.elim
  | process step =>
      cases step with
      | commit p r b | invalidate p r b _ =>
          have he : Entry.published e = .processed p.operations r.succeeded b := h
          cases he
      | read | bulk => exact h.elim
  | sweep step =>
      cases step with
      | publish d ds =>
          obtain rfl := Entry.published.inj h
          exact ⟨d.id, rfl, hrows d List.mem_cons_self⟩
      | select => exact h.elim
  | get | search => exact h.elim

/-- Only a worker returns from `process`. -/
theorem not_processed_reports {t : Task K} (h : processing t = false) {ops : List Operation}
    {s : List Str} {b : ℕ} : ¬ reports t (.processed ops s b) := by
  intro hr
  cases t with
  | create t step =>
      cases step with
      | publish d =>
          have he : Entry.processed ops s b = .published (DocumentService.indexEvent t d) := hr
          cases he
      | insert | invalidate => exact hr
  | delete t id step =>
      cases step with
      | publish d =>
          have he : Entry.processed ops s b = .published (DocumentService.deleteEvent t d) := hr
          cases he
      | read | commit | cacheDelete | invalidate => exact hr
  | sweep step =>
      cases step with
      | publish d ds =>
          have he : Entry.processed ops s b = .published (Reconciler.eventFor d) := hr
          cases he
      | select => exact hr
  | process => cases h
  | get | search => exact hr

/-! ### Entries -/

/-- The answer was read from the engine after every bulk call of a worker that has returned from
changing the tenant's documents. -/
def Fresh (w : World E) (tenantId : Str) (a : Answer K) : Prop :=
  ∀ at' ops succeeded b, (at', Entry.processed ops succeeded b) ∈ w.log →
    ∀ op ∈ ops, op.documentId ∈ succeeded → op.tenantId = tenantId → b ≤ a.readAt

/-- What is cached under the counter of a tenant is fresh, and nothing is cached past it. -/
structure EntriesOk (rt : Runtime K) (w : World E) : Prop where
  typed : Typed rt w.cache
  numbers : Numbers w
  published : ∀ a e, (a, Entry.published e) ∈ w.log → NamesRow w.documents e
  processed : ∀ a ops succeeded b, (a, Entry.processed ops succeeded b) ∈ w.log → b < w.clock
  searched : ∀ a t s g r, (a, Entry.searched t s g r) ∈ w.log → s < w.clock
  cached : ∀ g q a, w.cache.store (keyOf rt g q) = some (.search a) →
    g ≤ w.generation q.tenantId ∧ (g = w.generation q.tenantId → Fresh w q.tenantId a)
  see : SearchesSee (fun _ bulkAt readAt => bulkAt ≤ readAt) w

/-- What the one task knows of them. -/
def entriesAssertion (rt : Runtime K) (w : World E) : Task K → Prop
  | .search _ _ q (.cacheRead g) | .search _ _ q (.flight g) | .search _ _ q (.execute g _) =>
      g ≤ w.generation q.tenantId
  | .search _ _ q (.fill g _ a) => g ≤ w.generation q.tenantId ∧ Fresh w q.tenantId a
  | .search _ _ q (.finish _ _ r) => ∀ a, r = .ok a → Fresh w q.tenantId a
  | .process (.read events) => ∀ e ∈ events, NamesRow w.documents e
  | .process (.bulk p) | .process (.commit p _ _) => OwnTenants p
  | .process (.invalidate p r _ ts) => OwnTenants p ∧
      ∀ op ∈ p.operations, op.documentId ∈ r.succeeded →
        op.tenantId ∈ ts ∨ NothingCurrent rt w op.tenantId
  | _ => True

theorem Fresh.congr {w w' : World E} {t : Str} {a a' : Answer K}
    (h : Fresh w t a) (hp : ∀ b ops succeeded c, (b, Entry.processed ops succeeded c) ∈ w'.log →
      (b, Entry.processed ops succeeded c) ∈ w.log) (ha : a'.readAt = a.readAt) : Fresh w' t a' := by
  intro b ops succeeded c hm op hop hs ht
  rw [ha]
  exact h b ops succeeded c (hp b ops succeeded c hm) op hop hs ht

theorem Fresh.withCached {w : World E} {t : Str} {a : Answer K} (h : Fresh w t a) (b : Bool) :
    Fresh w t (a.withCached b) := h

/-- The cache and the log of a world are all that matters. -/
theorem EntriesOk.congr {w w' : World E} (h : EntriesOk rt w) (hd : w'.documents = w.documents)
    (hc : w'.cache = w.cache) (hl : w'.log = w.log) (hclock : w.clock ≤ w'.clock) :
    EntriesOk rt w' where
  typed := hc ▸ h.typed
  numbers t v hv := h.numbers t v (hc ▸ hv)
  published a e hm := hd ▸ h.published a e (hl ▸ hm)
  processed a ops s b hm := Nat.lt_of_lt_of_le (h.processed a ops s b (hl ▸ hm)) hclock
  searched a t s g r hm := Nat.lt_of_lt_of_le (h.searched a t s g r (hl ▸ hm)) hclock
  cached g q a hv := by
    have hgen : ∀ t, w'.generation t = w.generation t := fun t => by
      rw [World.generation, World.generation, hc]
    rw [hgen]
    rw [hc] at hv
    obtain ⟨hle, hfresh⟩ := h.cached g q a hv
    exact ⟨hle, fun hg => (hfresh hg).congr (fun _ _ _ _ hm => hl ▸ hm) rfl⟩
  see a ops s b hp op hop hs b' s' g a' hm := h.see a ops s b (hl ▸ hp) op hop hs b' s' g a' (hl ▸ hm)

/-- A step that answers no search and returns from no worker. -/
theorem EntriesOk.frame {w w' : World E} {N : Entry K → Prop} (h : EntriesOk rt w)
    (ht : Typed rt w'.cache) (hn : Numbers w') (hg : CountersGrow w w') (hf : SearchFrame rt w w')
    (hclock : w.clock ≤ w'.clock) (hev : RowsEvolve w.documents w'.documents)
    (hadds : Adds w w' N) (hpub : ∀ e, N (.published e) → NamesRow w'.documents e)
    (hret : ∀ ops s b, ¬ N (.processed ops s b)) : EntriesOk rt w' := by
  have hproc : ∀ a ops s b, (a, Entry.processed ops s b) ∈ w'.log →
      (a, Entry.processed ops s b) ∈ w.log := fun a ops s b hm =>
    (hadds a _ hm rfl).resolve_right fun hnew => hret ops s b hnew.2
  refine ⟨ht, hn, fun a e hm => ?_, fun a ops s b hm => ?_, fun a t s g r hm => ?_,
    fun g q a hv => ?_, ?_⟩
  · rcases hadds a _ hm rfl with hm | ⟨-, hnew⟩
    · exact (h.published a e hm).mono hev
    · exact hpub e hnew
  · exact Nat.lt_of_lt_of_le (h.processed a ops s b (hproc a ops s b hm)) hclock
  · exact Nat.lt_of_lt_of_le (h.searched a t s g r (hf.log a t s g r hm)) hclock
  · obtain ⟨hle, hfresh⟩ := h.cached g q a (hf.store g q _ hv)
    rcases hg q.tenantId with hg | hg
    · rw [hg]
      exact ⟨hle, fun he => (hfresh he).congr hproc rfl⟩
    · -- the counter has gone past the entry
      exact ⟨by omega, fun he => absurd he (by omega)⟩
  · intro a ops s b hp op hop hs b' s' g a' hm
    exact h.see a ops s b (hproc a ops s b hp) op hop hs b' s' g a' (hf.log b' _ s' g _ hm)

theorem mem_of_mem_record {w : World E} {e e' : Entry K} {a : ℕ} (hm : (a, e') ∈ (w.record e).log)
    (he : e' ≠ e) : (a, e') ∈ w.log := by
  rcases List.mem_cons.mp hm with hm | hm
  · exact absurd (Prod.mk.inj hm).2 he
  · exact hm

/-- A search returns. -/
theorem EntriesOk.answer {w : World E} (h : EntriesOk rt w) {s g : ℕ} {q : SearchQuery}
    {r : Except ServiceError (Answer K)} (hs : s < w.clock)
    (hr : ∀ a, r = .ok a → Fresh w q.tenantId a) : EntriesOk rt (answer w s g q r) where
  typed := h.typed
  numbers := h.numbers
  published a e hm := h.published a e (mem_of_mem_record hm nofun)
  processed a ops s b hm := h.processed a ops s b (mem_of_mem_record hm nofun)
  searched a t s' g' r' hm := by
    rcases List.mem_cons.mp hm with hm | hm
    · cases hm
      exact hs
    · exact h.searched a t s' g' r' hm
  cached g' q' a hv := by
    obtain ⟨hle, hfresh⟩ := h.cached g' q' a hv
    exact ⟨hle, fun hg => (hfresh hg).congr (fun _ _ _ _ hm => mem_of_mem_record hm nofun) rfl⟩
  see a ops s' b hp op hop hs' b' s'' g' a' hm hlt := by
    have hp' : (a, Entry.processed ops s' b) ∈ w.log := mem_of_mem_record hp nofun
    rcases List.mem_cons.mp hm with hm | hm
    · obtain ⟨rfl, he⟩ := Prod.mk.inj hm
      obtain ⟨ht, rfl, rfl, rfl⟩ := Entry.searched.inj he
      exact hr a' rfl a ops s' b hp' op hop hs' ht
    · exact h.see a ops s' b hp' op hop hs' b' s'' g' a' hm hlt

/-- A fill under a generation that is not past the counter. -/
theorem EntriesOk.fill {w : World E} (h : EntriesOk rt w) {g : ℕ} {q : SearchQuery} {a : Answer K}
    (hg : g ≤ w.generation q.tenantId) (ha : Fresh w q.tenantId a) :
    EntriesOk rt { w with cache := w.cache.setJson (keyOf rt g q) (.search a) } := by
  have hstore : ∀ t, (w.cache.setJson (keyOf rt g q) (.search a)).store (searchGenerationKey t) =
      w.cache.store (searchGenerationKey t) := fun t =>
    Cache.store_setJson_of_ne fun hk => searchKey_ne_searchGenerationKey (t := q.tenantId) hk.symm
  have hgen : ∀ t, ({ w with cache := w.cache.setJson (keyOf rt g q) (.search a) } : World E).generation t =
      w.generation t := fun t => Cache.counter_congr (hstore t)
  refine ⟨h.typed.setSearch g q a, fun t v hv => h.numbers t v ((hstore t).symm.trans hv),
    h.published, h.processed, h.searched, fun g' q' a' hv => ?_, h.see⟩
  rw [hgen]
  rcases Cache.store_setJson hv with ⟨hk, he⟩ | hv
  · obtain ⟨ht, rfl⟩ := searchKey_inj hk
    cases he
    rw [ht]
    exact ⟨hg, fun _ => ha⟩
  · exact h.cached g' q' a' hv

/-- A worker returns: nothing is cached under the counters of the tenants it changed. -/
theorem EntriesOk.return {w : World E} (h : EntriesOk rt w) {ops : List Operation} {s : List Str}
    {b : ℕ} (hb : b < w.clock)
    (hn : ∀ op ∈ ops, op.documentId ∈ s → NothingCurrent rt w op.tenantId) :
    EntriesOk rt (w.record (.processed ops s b)) where
  typed := h.typed
  numbers := h.numbers
  published a e hm := h.published a e (mem_of_mem_record hm nofun)
  processed a ops s b hm := by
    rcases List.mem_cons.mp hm with hm | hm
    · cases hm
      exact hb
    · exact h.processed a ops s b hm
  searched a t s' g' r' hm := h.searched a t s' g' r' (mem_of_mem_record hm nofun)
  cached g q a hv := by
    obtain ⟨hle, hfresh⟩ := h.cached g q a hv
    refine ⟨hle, fun (hg : g = w.generation q.tenantId) c ops' s' b' hm op hop hs ht => ?_⟩
    rcases List.mem_cons.mp hm with hm | hm
    · cases hm
      have hnone := hn op hop hs q ht.symm
      rw [ht, ← hg] at hnone
      exact absurd (hnone.symm.trans hv) nofun
    · exact hfresh hg c ops' s' b' hm op hop hs ht
  see a ops' s' b' hp op hop hs c s'' g a' hm hlt := by
    have hm' : (c, Entry.searched op.tenantId s'' g (.ok a')) ∈ w.log := mem_of_mem_record hm nofun
    rcases List.mem_cons.mp hp with hp | hp
    · -- the search started before the worker returned
      obtain ⟨rfl, -⟩ := Prod.mk.inj hp
      have := h.searched c _ s'' g _ hm'
      omega
    · exact h.see a ops' s' b' hp op hop hs c s'' g a' hm' hlt

/-- Nothing is cached past a counter. -/
theorem nothingCurrent_of_lt {w w' : World E} {t : Str} (hi : EntriesOk rt w)
    (hlt : w.generation t < w'.generation t) (hf : SearchFrame rt w w') : NothingCurrent rt w' t := by
  intro q hq
  refine Option.eq_none_iff_forall_not_mem.mpr fun v hv => ?_
  have hv' := hf.store (w'.generation t) q v hv
  obtain ⟨a, rfl⟩ := hi.typed.searches _ _ _ hv'
  have hle := (hi.cached _ _ _ hv').1
  rw [hq] at hle
  omega

theorem NothingCurrent.frame {w w' : World E} {t : Str} (h : NothingCurrent rt w t)
    (hi : EntriesOk rt w) (hg : CountersGrow w w') (hf : SearchFrame rt w w') :
    NothingCurrent rt w' t := by
  rcases hg t with he | hlt
  · intro q hq
    refine Option.eq_none_iff_forall_not_mem.mpr fun v hv => ?_
    rw [he] at hv
    exact absurd ((h q hq).symm.trans (hf.store _ q v hv)) nofun
  · exact nothingCurrent_of_lt hi hlt hf

/-! ### Steps -/

/-- The increment of a worker, that goes through or has nothing to invalidate. -/
theorem entries_bump {w : World E} (h : EntriesOk rt w) (b : ℕ) {t : Str}
    (hP : w.cache.available = true ∨ NothingCurrent rt w t) :
    EntriesOk rt (bump w b t) ∧ NothingCurrent rt (bump w b t) t ∧ CountersGrow w (bump w b t) := by
  obtain ⟨hn, hg, hup⟩ := counters_incremented (incremented_bump w b t) h.numbers
  have hf : SearchFrame rt w (bump w b t) := searchFrame_bump w b t
  have hx := extends_bump w b t
  have ht : Typed rt (bump w b t).cache := by
    rw [bump_cache]
    exact h.typed.incr _
  refine ⟨?_, ?_, hg⟩
  · refine h.frame (N := fun _ => False) ht hn hg hf hx.1.ge ?_ (adds_bump w b t) nofun nofun
    rw [bump_documents]
    exact .refl _
  · rcases hP with hav | hnone
    · exact nothingCurrent_of_lt h (by rw [hup hav]; exact Nat.lt_succ_self _) hf
    · exact hnone.frame h hg hf

/-- A worker goes on to the next tenant, or returns. -/
theorem entries_proceed {w w' : World E} {p : Plan Str} {r : BulkResult} {b : ℕ} {ts : List Str}
    {next : Option ProcessStep} (h : EntriesOk rt w)
    (hp : IndexingProcessor.proceed w p r b ts = (w', next)) (hb : b < w.clock) (ho : OwnTenants p)
    (hn : ∀ op ∈ p.operations, op.documentId ∈ r.succeeded →
      op.tenantId ∈ ts ∨ NothingCurrent rt w op.tenantId) :
    EntriesOk rt w' ∧
      ∀ t', next.map (Task.process (K := K)) = some t' → entriesAssertion rt w' t' := by
  rcases proceed_cases hp with ⟨rfl, rfl, rfl⟩ | ⟨rfl, rfl⟩
  · refine ⟨h.return hb fun op hop hs => ?_, fun _ h => (by cases h)⟩
    exact (hn op hop hs).resolve_left List.not_mem_nil
  · exact ⟨h, fun _ h => by cases h; exact ⟨ho, hn⟩⟩

/-- The tenant that a worker comes to next is the one picked. -/
theorem resume_invalidate {w w' : World E} {p : Plan Str} {r : BulkResult} {b : ℕ} {ts : List Str}
    {pick : Str} {u : Option (Task K)}
    (h : resume cfg rt w pick (.process (.invalidate p r b ts)) = some (w', u)) :
    ∃ next, IndexingProcessor.proceed (bump w b pick) p r b (ts.erase pick) = (w', next) ∧
      u = next.map .process := by
  simp only [resume, resumeProcess] at h
  split at h
  · cases h
    exact ⟨_, rfl, rfl⟩
  · cases h

theorem entries_process {w w' : World E} {step : ProcessStep} {u : Option (Task K)} {pick : Str}
    (hP : (harmless rt).resume w (.process step) pick)
    (hpast : historyAssertion w.clock (Task.process (K := K) step))
    (hrows : RowsOk w.documents)
    (hev : RowsEvolve w.documents w'.documents)
    (hr : resume cfg rt w pick (.process step) = some (w', u)) (hi : EntriesOk rt w)
    (ht : entriesAssertion rt w (.process step)) :
    EntriesOk rt w' ∧ ∀ t', u = some t' → entriesAssertion rt w' t' := by
  have hm := resume_move hr
  have quiet (ho : ∀ e, ¬ reports (Task.process (K := K) step) e) : EntriesOk rt w' := by
    obtain ⟨hf, -⟩ := searchFrame_move hm rfl
    obtain ⟨hn, hg⟩ := counters_move hm hi.numbers
    exact hi.frame (typed_move hi.typed hm) hn hg hf (move_extends hm).1.ge hev (reports_move hm)
      (fun e he => absurd he (ho _)) (fun _ _ _ => ho _)
  cases step with
  | read events =>
      refine ⟨quiet fun _ => id, fun t' hu => ?_⟩
      subst hu
      cases hm
      exact ownTenants_plan ht
  | bulk p =>
      refine ⟨quiet fun _ => id, fun t' hu => ?_⟩
      subst hu
      cases hm
      exact ht
  | commit p r b =>
      cases hm with
      | committed hp =>
          have hi' : EntriesOk rt (commit rt.toUnicode w (p.outcome r).indexed) :=
            hi.frame (N := fun _ => False) hi.typed hi.numbers (fun _ => .inl rfl)
              (.quiet rfl rfl rfl rfl) (le_refl _)
              (rows_markIndexed _ _ hrows).2 (.quiet rfl) nofun nofun
          exact entries_proceed hi' hp hpast ht fun op hop hs =>
            .inl (List.mem_dedup.mpr (OwnTenants.mem_changedTenants ht hop hs))
  | invalidate p r b ts =>
      obtain ⟨ho, hn⟩ := ht
      obtain ⟨next, hp, rfl⟩ := resume_invalidate hr
      obtain ⟨hi', hnone, hg⟩ := entries_bump hi b hP
      have hclock : b < (bump w b pick).clock := by
        rw [(extends_bump w b pick).1]
        exact hpast
      refine entries_proceed hi' hp hclock ho fun op hop hs => ?_
      by_cases he : op.tenantId = pick
      · rw [he]
        exact .inr hnone
      · rcases hn op hop hs with hmem | hmem
        · exact .inl ((List.mem_erase_of_ne he).mpr hmem)
        · exact .inr (hmem.frame hi hg (searchFrame_bump w b pick))

theorem entries_search {w w' : World E} {r s : ℕ} {q : SearchQuery} {step : SearchStep K}
    {u : Option (Task K)} {pick : Str} (hP : (harmless rt).resume w (.search r s q step) pick)
    (hpast : s < w.clock) (hled : followerOf rt (.search r s q step) = none)
    (hm : Move cfg rt w (.search r s q step) w' u) (hi : EntriesOk rt w)
    (ht : entriesAssertion rt w (.search r s q step)) :
    EntriesOk rt w' ∧ ∀ t', u = some t' → entriesAssertion rt w' t' := by
  cases hm with
  | generationRead => exact ⟨hi, fun _ h => by cases h; exact currentGeneration_le w q.tenantId⟩
  | searchMiss => exact ⟨hi, fun _ h => by cases h; exact ht⟩
  | @searchHit _ _ _ g v h =>
      refine ⟨hi.answer hpast fun a ha => ?_, fun _ h => (by cases h)⟩
      have hstore := Cache.store_of_getJson h
      obtain ⟨a', rfl⟩ := hi.typed.searches g q v hstore
      cases ha
      -- a search that missed the counter finds nothing
      rcases hP with hg | hnone
      · exact ((hi.cached g q a' hstore).2 hg).withCached true
      · exact absurd (hnone.symm.trans h) nofun
  | joined => exact ⟨hi, fun _ h => by cases h; trivial⟩
  | led => exact ⟨hi.congr rfl rfl rfl (le_refl _), fun _ h => by cases h; exact ht⟩
  | followed => cases hled
  | @executed _ _ _ g f a h =>
      refine ⟨hi, fun _ h' => ?_⟩
      cases h'
      refine ⟨ht, fun b ops succeeded c hm _ _ _ _ => ?_⟩
      rw [(stamp_execute h).1]
      exact le_of_lt (hi.processed b ops succeeded c hm)
  | engineFailed => exact ⟨hi, fun _ h => by cases h; exact nofun⟩
  | @filled _ _ _ g f a =>
      have ha : Fresh w q.tenantId (cacheable a) := ht.2.withCached false
      refine ⟨hi.fill ht.1 ha, fun _ h => ?_⟩
      cases h
      intro a' ha'
      cases ha'
      exact ht.2
  | @finished _ _ _ g f a =>
      have hi' : EntriesOk rt (unregister (settle w f a) r (keyOf rt g q)) :=
        hi.congr rfl rfl rfl (le_refl _)
      exact ⟨hi'.answer hpast ht, fun _ h => (by cases h)⟩

/-- The one task is the only one in flight. -/
def Solo (rt : Runtime K) (w : World E) (o : Option (Task K)) : Prop :=
  (∀ r key, w.inflight r key ≠ none → ∃ t f, o = some t ∧ leaderOf rt t = some ((r, key), f)) ∧
    ∀ t, o = some t → followerOf rt t = none

/-- The entries, and what the one task knows of them. -/
structure SearchesOk (rt : Runtime K) (w : World E) (o : Option (Task K)) : Prop where
  entries : EntriesOk rt w
  solo : Solo rt w o
  task : ∀ t, o = some t → entriesAssertion rt w t

theorem solo_move {w w' : World E} {t : Task K} {u : Option (Task K)} (hc : Typed rt w.cache)
    (hm : Move cfg rt w t w' u) (h : Solo rt w (some t)) : Solo rt w' u := by
  obtain ⟨hinflight, hled⟩ := h
  have hled := hled t rfl
  by_cases hs : searching t = false
  · obtain ⟨hf, hu⟩ := searchFrame_move hm hs
    refine ⟨fun r key hne => ?_, fun t' ht' => followerOf_of_not_searching (hu t' ht')⟩
    rw [hf.inflight] at hne
    obtain ⟨t', f, ht', hl⟩ := hinflight r key hne
    cases ht'
    rw [leaderOf_of_not_searching hs] at hl
    cases hl
  · have ha : Alone rt w t := by
      refine ⟨?_, hled, fun r key hne => ?_⟩
      · cases t with
        | search => exact ⟨rfl, rfl⟩
        | _ => exact absurd rfl hs
      · obtain ⟨t', f, ht', hl⟩ := hinflight r key hne
        cases ht'
        exact ⟨f, hl⟩
    have hadv := advance ha hc hm
    cases u with
    | none => exact ⟨fun r key hne => absurd (hadv.inflight r key) hne, fun _ h => (by cases h)⟩
    | some t' =>
        refine ⟨fun r key hne => ?_, fun _ h => by cases h; exact hadv.alone.led⟩
        obtain ⟨f, hf⟩ := hadv.alone.inflight r key hne
        exact ⟨t', f, rfl, hf⟩

theorem searches_move {w w' : World E} {t : Task K} {u : Option (Task K)} {pick : Str}
    (hP : (harmless rt).resume w t pick) (hrows : RowsOk w.documents)
    (htask : rowsAssertion w.documents t) (hpast : historyAssertion w.clock t)
    (hev : RowsEvolve w.documents w'.documents)
    (hr : resume cfg rt w pick t = some (w', u)) (h : SearchesOk rt w (some t)) :
    SearchesOk rt w'.tick u := by
  have hm := resume_move hr
  have hi := h.entries
  have ht := h.task t rfl
  -- the clock ticks, and no other task runs in between
  have after : EntriesOk rt w' → (∀ t', u = some t' → entriesAssertion rt w' t') →
      SearchesOk rt w'.tick u := fun he ha => by
    have hsolo : Solo rt w' u := solo_move hi.typed hm h.solo
    exact ⟨he.congr rfl rfl rfl (Nat.le_succ _), hsolo, ha⟩
  cases t with
  | search r s q step =>
      obtain ⟨he, ha⟩ := entries_search hP hpast (h.solo.2 _ rfl) hm hi ht
      exact after he ha
  | process step =>
      obtain ⟨he, ha⟩ := entries_process hP hpast hrows hev hr hi ht
      exact after he ha
  | create | get | delete | sweep =>
      obtain ⟨hf, hu⟩ := searchFrame_move hm rfl
      obtain ⟨hn, hg⟩ := counters_move hm hi.numbers
      refine after (hi.frame (typed_move hi.typed hm) hn hg hf (move_extends hm).1.ge hev
        (reports_move hm) (fun e he => (namesRow_reports htask he).mono hev) ?_) ?_
      · intro ops s b he
        exact not_processed_reports rfl he
      · rintro t' rfl
        have hs := hu t' rfl
        have hp := processing_move hm
        cases t' with
        | search => cases hs
        | process => cases hp
        | _ => trivial

/-! ### The runs -/

theorem counters_disturb (w : World E) {e : Disturbance} (he : keepsCounters e) :
    GenerationFrame w (disturb w e) := by
  cases e with
  | expire key => exact ⟨fun t => Cache.store_expire_of_ne (he t).symm, fun _ _ _ _ h => h⟩
  | refresh => exact .record (.quiet rfl rfl) rfl
  | cache available => exact ⟨fun _ => rfl, fun _ _ _ _ h => h⟩
  | _ => exact .quiet rfl rfl

theorem adds_disturb (w : World E) (e : Disturbance) : Adds w (disturb w e) fun _ => False := by
  cases e with
  | refresh => exact .record (.quiet rfl) rfl nofun
  | _ => exact .quiet rfl

theorem typed_disturb {w : World E} (h : Typed rt w.cache) (e : Disturbance) :
    Typed rt (disturb w e).cache := by
  cases e with
  | expire key => exact h.expire key
  | cache available => exact h.raising (fun _ => available) 0
  | _ => exact h

theorem entries_disturb {w : World E} (hi : EntriesOk rt w) {e : Disturbance} (he : keepsCounters e)
    (hev : RowsEvolve w.documents (disturb w e).documents) {o : Option (Task K)}
    (ht : ∀ t, o = some t → entriesAssertion rt w t) :
    EntriesOk rt (disturb w e) ∧ ∀ t, o = some t → entriesAssertion rt (disturb w e) t := by
  have hframe := counters_disturb w he
  obtain ⟨hn, hg⟩ := counters_frame hframe hi.numbers
  have hgen : ∀ t, (disturb w e).generation t = w.generation t := fun t =>
    Cache.counter_congr (hframe.store t)
  have hf := searchFrame_disturb rt w e
  have hadds := adds_disturb w e
  have hfresh : ∀ {t a}, Fresh w t a → Fresh (disturb w e) t a := fun h =>
    h.congr (fun _ _ _ _ hm => (hadds _ _ hm rfl).resolve_right And.right) rfl
  refine ⟨hi.frame (typed_disturb hi.typed e) hn hg hf (disturb_extends w e).1.ge hev hadds nofun
    (fun _ _ _ => id), ?_⟩
  rintro t rfl
  have ht := ht t rfl
  cases t with
  | search r s q step =>
      cases step with
      | cacheRead | flight | execute => exact ht.trans (hgen q.tenantId).ge
      | fill => exact ⟨ht.1.trans (hgen q.tenantId).ge, hfresh ht.2⟩
      | finish => exact fun a ha => hfresh (ht a ha)
      | _ => trivial
  | process step =>
      cases step with
      | read events => exact fun e' he' => (ht e' he').mono hev
      | bulk | commit => exact ht
      | invalidate p r b ts =>
          exact ⟨ht.1, fun op hop hs => (ht.2 op hop hs).imp_right fun h => h.frame hi hg hf⟩
  | _ => trivial

theorem searches_keep (cfg : Settings) (rt : Runtime K) (engine : E.State) :
    (machine cfg rt E).Keeps (harmless rt) (World.IsInitial engine) (rowsOutline.and historyOutline)
      (SearchesOk rt) where
  init := by
    rintro w rfl
    refine ⟨⟨typed_empty, fun _ _ h => (by cases h), fun _ _ h => (by cases h),
      fun _ _ _ _ h => (by cases h), fun _ _ _ _ _ h => (by cases h), fun _ _ _ h => (by cases h),
      fun _ _ _ _ h => (by cases h)⟩, ⟨fun _ _ h => absurd rfl h, fun _ h => (by cases h)⟩,
      fun _ h => (by cases h)⟩
  start := by
    intro w r w' t _ hP hs hi
    cases hs
    have hidle : ∀ r key, w.inflight r key = none := fun r key => by
      by_contra hne
      obtain ⟨t, f, h, -⟩ := hi.solo.1 r key hne
      cases h
    refine ⟨hi.entries.congr rfl rfl rfl (Nat.le_succ _),
      ⟨fun r key hne => absurd (hidle r key) hne, fun _ h => ?_⟩, fun _ h => ?_⟩
    · cases h
      cases r <;> rfl
    · cases h
      cases r with
      | process events =>
          intro e he
          obtain ⟨a, hm⟩ := hP e he
          exact hi.entries.published a e hm
      | _ => trivial
  resume := by
    intro w t c w'' u hK hKt hP hs hi
    obtain ⟨w', hr, rfl⟩ := resume_machine hs
    exact searches_move hP hK.before.1 hKt.1 hKt.2 hK.guarantee.1 hr hi
  environment := by
    intro w e w' o hK hP hs hi
    cases hs
    obtain ⟨he, ht⟩ := entries_disturb hi.entries hP hK.guarantee.1 hi.task
    refine ⟨he.congr rfl rfl rfl (Nat.le_succ _), ⟨fun r key hne => ?_, hi.solo.2⟩, ht⟩
    exact hi.solo.1 r key ((searchFrame_disturb rt w e).inflight ▸ hne)

/-- **Invalidation survives the faults that lose nothing.** -/
theorem outages_survived (cfg : Settings) (rt : Runtime K) (engine : E.State)
    {s : Config (World E) (Task K)}
    (hr : (machine cfg rt E).ReachBy (harmless rt).Allows (World.IsInitial engine) s) :
    DeletedNotFound s.world ∧ SearchesSee (fun _ bulkAt readAt => bulkAt ≤ readAt) s.world := by
  have hK := (rows_established cfg rt engine).and (history_established cfg rt engine)
  exact ⟨((deletions_keep cfg rt engine).holds hK hr).cache.notFound,
    ((searches_keep cfg rt engine).holds hK hr).entries.see⟩

end Pipeline

namespace Sample

open Pipeline

instance (w : World (inMemory runtime)) (r : Request) :
    Decidable ((oneCall : Serial _ (Task ℚ) Request Str Disturbance).start w r) :=
  inferInstanceAs (Decidable
    ((keptGenerations : Restriction (World (inMemory runtime)) (Task ℚ) Request Disturbance).start w r))

instance (w : World (inMemory runtime)) (t : Task ℚ) (c : Str) :
    Decidable ((oneCall : Serial _ (Task ℚ) Request Str Disturbance).resume w t c) := .isTrue trivial

instance : (e : Disturbance) → Decidable (keepsCounters e)
  | .expire key => inferInstanceAs (Decidable (∀ t, key ≠ searchGenerationKey t))
  | .elapse _ | .lose _ | .refresh | .engine _ | .publisher _ | .cache _ => .isTrue trivial

instance (w : World (inMemory runtime)) (e : Disturbance) :
    Decidable ((oneCall : Serial _ (Task ℚ) Request Str Disturbance).environment w e) :=
  inferInstanceAs (Decidable (keepsCounters e))

/-- The runs in which a worker finds the cache working. -/
def workerSpared : Serial (World (inMemory runtime)) (Task ℚ) Request Str Disturbance where
  start := oneCall.start
  resume w t _ :=
    match t with
    | .delete t d (.cacheDelete _) =>
        w.cache.available = true ∨ w.cache.store (documentKey t d.str) = none
    | .process (.invalidate _ _ _ _) => w.cache.available = true
    | .search _ _ q (.cacheRead g) =>
        g = w.generation q.tenantId ∨ w.cache.getJson (keyOf runtime g q) = none
    | _ => True
  environment := oneCall.environment

instance (w : World (inMemory runtime)) (r : Request) : Decidable (workerSpared.start w r) :=
  inferInstanceAs (Decidable ((oneCall : Serial _ (Task ℚ) Request Str Disturbance).start w r))

instance (w : World (inMemory runtime)) (e : Disturbance) :
    Decidable (workerSpared.environment w e) := inferInstanceAs (Decidable (keepsCounters e))

instance (w : World (inMemory runtime)) (t : Task ℚ) (c : Str) :
    Decidable (workerSpared.resume w t c) := by
  unfold workerSpared
  dsimp only
  split <;> infer_instance

theorem workerSpared_harmless (s : Config (World (inMemory runtime)) (Task ℚ))
    (a : Action Request Str Disturbance) (h : workerSpared.Allows s a) :
    (harmless runtime).Allows s a := by
  have hstart : ∀ w r, workerSpared.start w r → (harmless runtime).start w r := fun _ _ h => h
  have henv : ∀ w e, workerSpared.environment w e → (harmless runtime).environment w e :=
    fun _ _ h => h
  have hresume : ∀ w t c, workerSpared.resume w t c → (harmless runtime).resume w t c := by
    intro w t c ht
    cases t with
    | delete t d step => cases step <;> exact ht
    | process step =>
        cases step with
        | invalidate => exact .inl ht
        | _ => trivial
    | search r s q step => cases step <;> exact ht
    | _ => trivial
  exact h.mono hstart hresume henv

/-- A document is created, searched for, and indexed; it is deleted while the cache is down, and read
and searched for again. -/
def shortOutage : Actions :=
  [.start 0 (.create acme documentA payload), .resume 0 [], .resume 0 [], .resume 0 [],
    .start 0 (.search 0 (query acme)), .resume 0 [], .resume 0 [], .resume 0 [], .resume 0 [],
    .resume 0 [], .resume 0 [],
    .start 0 (.process [⟨documentA.str, acme, 1, eventIndex⟩]), .resume 0 [], .resume 0 [],
    .resume 0 [], .resume 0 acme,
    .environment (.cache false),
    .start 0 (.delete acme documentA), .resume 0 [], .resume 0 [], .resume 0 [], .resume 0 [],
    .resume 0 [],
    .environment (.cache true),
    .start 0 (.get acme documentA), .resume 0 [], .resume 0 [],
    .start 0 (.search 0 (query acme)), .resume 0 [], .resume 0 [], .resume 0 [], .resume 0 [],
    .resume 0 [], .resume 0 []]

theorem shortOutage_runs : (service.run (Config.idle start) shortOutage).isSome := by
  decide +kernel

theorem outages_survived_sample :
    DeletedNotFound (service.after start shortOutage shortOutage_runs).world ∧
      SearchesSee (fun _ bulkAt readAt => bulkAt ≤ readAt)
        (service.after start shortOutage shortOutage_runs).world :=
  outages_survived settings runtime State.initial
    ((Machine.reachBy_after start_isInitial shortOutage_runs (by decide +kernel)).mono
      workerSpared_harmless)

/-- A document is created and read, so that it is cached; the deletion from the cache raises while
it is deleted; and it is read again. -/
def lostDeletion : Actions :=
  [.start 0 (.create acme documentA payload), .resume 0 [], .resume 0 [], .resume 0 [],
    .start 0 (.get acme documentA), .resume 0 [], .resume 0 [], .resume 0 [],
    .start 0 (.delete acme documentA), .resume 0 [], .resume 0 [],
    .environment (.cache false), .resume 0 [], .environment (.cache true),
    .resume 0 [], .resume 0 [],
    .start 0 (.get acme documentA), .resume 0 []]

theorem lostDeletion_runs : (service.run (Config.idle start) lostDeletion).isSome := by
  decide +kernel

/-- **A lost deletion.**  The last `get` starts at step 16, after the `delete` has returned at step
15, and finds the document in the cache. -/
theorem lost_deletion : ¬ ∀ s, service.ReachBy oneCall.Allows (World.IsInitial State.initial) s →
    DeletedNotFound s.world ∧ SearchesSee (fun _ bulkAt readAt => bulkAt ≤ readAt) s.world := by
  intro h
  have hreach := Machine.reachBy_after (Q := oneCall.Allows) start_isInitial lostDeletion_runs
    (by decide +kernel)
  exact not_deletedNotFound (t := acme) (d := documentA) (n := 16) (by decide +kernel)
    (by decide +kernel) (h _ hreach).1

end Sample

end DocSearch
