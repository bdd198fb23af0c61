import DocSearch.Pipeline.History
import DocSearch.Pipeline.Tenancy

/-!
# Pipeline — DocumentCache

Reads of a deleted document.  `delete` takes the document out of the cache after its commit, and a
`get` that read the row before can put it back afterwards.

* `deleted_not_found`: in the runs without such a late fill, a `get` that starts after a `delete`
  has returned finds nothing.
* `late_fill`: a run with one, in which the deleted document is served.
-/

namespace DocSearch

open CacheKeys InMemoryEngine Interleaving

namespace Pipeline

variable {K : Type} {E : SearchEngine K}

/-- `delete` has taken the document out of the cache. -/
def Uncached (w : World E) (t : Str) (d : Uuid) : Prop :=
  ∃ at', (at', Entry.uncached t d) ∈ w.log

/-- Every `get` that started after a `delete` of its document had returned found nothing. -/
def DeletedNotFound (w : World E) : Prop :=
  ∀ a b t d startedAt r, (a, Entry.deleted t d) ∈ w.log → (b, Entry.got t d startedAt r) ∈ w.log →
    a < startedAt → r = .error DocumentService.notFound

/-- Whether the environment leaves the cache working. -/
def keepsCache : Disturbance → Bool
  | .cache available => available
  | _ => true

/-- The cache works. -/
def workingCache : Restriction (World E) (Task K) Request Disturbance where
  environment _ e := keepsCache e = true

/-- Moreover, no `get` fills it with a document that a `delete` has taken out. -/
def noLateFill : Restriction (World E) (Task K) Request Disturbance where
  resume w
    | .get _ t d (.cacheWrite _) => ¬ Uncached w t d
    | _ => True
  environment := workingCache.environment

/-! ### Deciding them -/

instance (w : World E) (t : Str) (d : Uuid) : Decidable (Uncached w t d) :=
  decidable_of_iff ((w.log.any fun x =>
      match x.2 with
      | .uncached t' d' => decide (t' = t ∧ d' = d)
      | _ => false) = true) <| by
    rw [List.any_eq_true]
    constructor
    · rintro ⟨⟨a, e⟩, hm, h⟩
      cases e with
      | uncached t' d' =>
          obtain ⟨rfl, rfl⟩ := of_decide_eq_true h
          exact ⟨a, hm⟩
      | _ => cases h
    · rintro ⟨a, hm⟩
      exact ⟨_, hm, decide_eq_true ⟨rfl, rfl⟩⟩

instance (w : World E) : (t : Task K) → Decidable (noLateFill.resume w t)
  | .get _ t d (.cacheWrite _) => inferInstanceAs (Decidable (¬ Uncached w t d))
  | .get _ _ _ .cacheRead | .get _ _ _ .dbRead | .create _ _ | .delete _ _ _ | .search _ _ _ _
  | .process _ | .sweep _ => .isTrue trivial

instance (w : World E) (r : Request) :
    Decidable ((noLateFill : Restriction _ (Task K) _ Disturbance).start w r) := .isTrue trivial

instance (w : World E) (e : Disturbance) :
    Decidable ((noLateFill : Restriction _ (Task K) Request _).environment w e) :=
  inferInstanceAs (Decidable (_ = true))

def actionKeepsCache : Action Request Str Disturbance → Bool
  | .environment e => keepsCache e
  | _ => true

theorem conforms_workingCache {cfg : Settings} {rt : Runtime K} :
    ∀ {as : List (Action Request Str Disturbance)} {s : Config (World E) (Task K)},
      as.all actionKeepsCache = true → (machine cfg rt E).Conforms workingCache s as
  | [], _, _ => trivial
  | a :: as, _, h => by
      rw [List.all_cons, Bool.and_eq_true] at h
      refine ⟨?_, fun _ _ => conforms_workingCache h.2⟩
      cases a with
      | environment e => exact h.1
      | resume _ _ => exact fun _ _ => trivial
      | _ => trivial

/-! ### The outline -/

structure DocumentCacheOk (w : World E) : Prop where
  available : w.cache.available = true
  /-- What was taken out of the cache stays out. -/
  gone : ∀ t d, Uncached w t d →
    w.cache.store (documentKey t d.str) = none ∧ IsDeleted w.documents d
  deleted : ∀ a t d, (a, Entry.deleted t d) ∈ w.log → Uncached w t d
  past : ∀ b t d startedAt r, (b, Entry.got t d startedAt r) ∈ w.log → startedAt < w.clock
  notFound : DeletedNotFound w

/-- A `get` about to fill the cache did not start after a `delete` of its document. -/
def documentCacheAssertion (w : World E) : Task K → Prop
  | .get startedAt t d (.cacheWrite _) => ∀ a, (a, Entry.deleted t d) ∈ w.log → startedAt ≤ a
  | .delete t d (.invalidate _) | .delete t d (.publish _) => Uncached w t d
  | _ => True

def documentCacheOutline : Outline (World E) (Task K) where
  inv := DocumentCacheOk
  assertion := documentCacheAssertion

theorem Uncached.mono {w w' : World E} (h : ∀ {a e}, (a, e) ∈ w.log → (a, e) ∈ w'.log) {t : Str}
    {d : Uuid} (hu : Uncached w t d) : Uncached w' t d :=
  hu.imp fun _ => h

/-- The outline survives a step that leaves the documents alone. -/
theorem DocumentCacheOk.frame {w w' : World E} (h : DocumentCacheOk w) (hf : DocumentFrame w w')
    (ha : w'.cache.available = w.cache.available)
    (he : RowsEvolve w.documents w'.documents) (hx : Extends w w') : DocumentCacheOk w' where
  available := ha.trans h.available
  gone t d := by
    rintro ⟨a, hm⟩
    obtain ⟨hs, hd⟩ := h.gone t d ⟨a, hf.log a _ hm rfl⟩
    refine ⟨?_, hd.mono he⟩
    cases hv : w'.cache.store (documentKey t d.str) with
    | none => rfl
    | some v => rw [hf.store t d v hv] at hs; cases hs
  deleted a t d hm := (h.deleted a t d (hf.log a _ hm rfl)).mono hx.kept
  past b t d s r hm := by
    rw [hx.1]
    exact h.past b t d s r (hf.log b _ hm rfl)
  notFound a b t d s r hm hg := h.notFound a b t d s r (hf.log a _ hm rfl) (hf.log b _ hg rfl)

theorem DocumentCacheOk.tick {w : World E} (h : DocumentCacheOk w) : DocumentCacheOk w.tick :=
  ⟨h.available, h.gone, h.deleted, fun b t d s r hm => Nat.lt_succ_of_lt (h.past b t d s r hm),
    h.notFound⟩

/-- What a request for a document may add to the log. -/
def EntryAllowed (w : World E) : Entry K → Prop
  | .uncached t d => w.cache.store (documentKey t d.str) = none ∧ IsDeleted w.documents d
  | .deleted t d => Uncached w t d
  | .got t d startedAt r => startedAt < w.clock ∧
      ∀ a, (a, Entry.deleted t d) ∈ w.log → a < startedAt → r = .error DocumentService.notFound
  | _ => True

theorem DocumentCacheOk.record {w : World E} (h : DocumentCacheOk w) {e : Entry K}
    (he : EntryAllowed w e) : DocumentCacheOk (w.record e) where
  available := h.available
  gone t d := by
    rintro ⟨a, hm⟩
    rcases List.mem_cons.mp hm with hm | hm
    · cases hm; exact he
    · exact h.gone t d ⟨a, hm⟩
  deleted a t d hm := by
    rcases List.mem_cons.mp hm with hm | hm
    · cases hm; exact he.mono (List.mem_cons_of_mem _)
    · exact (h.deleted a t d hm).mono (List.mem_cons_of_mem _)
  past b t d s r hm := by
    rcases List.mem_cons.mp hm with hm | hm
    · cases hm; exact he.1
    · exact h.past b t d s r hm
  notFound a b t d s r hm hg hlt := by
    rcases List.mem_cons.mp hm with hm' | hm' <;> rcases List.mem_cons.mp hg with hg' | hg'
    · cases hm'; cases hg'
    · -- the deletion is of this step, so no `get` that has returned started after it
      cases hm'
      have := h.past b t d s r hg'
      omega
    · cases hg'
      exact he.2 a hm' hlt
    · exact h.notFound a b t d s r hm' hg' hlt

theorem documentCacheAssertion_of_not_serving {w : World E} {t : Task K} (h : serving t = false) :
    documentCacheAssertion w t := by
  cases t with
  | create _ _ | get _ _ _ _ | delete _ _ _ => cases h
  | _ => trivial

theorem documentCache_preserves {cfg : Settings} {rt : Runtime K} {engine : E.State} :
    Preserves cfg rt noLateFill (World.IsInitial engine) (rowsOutline.and historyOutline)
      (documentCacheOutline : Outline (World E) (Task K)) where
  init := by
    rintro w rfl
    exact ⟨rfl, fun _ _ h => (by obtain ⟨_, h⟩ := h; cases h), fun _ _ _ h => (by cases h),
      fun _ _ _ _ _ h => (by cases h), fun _ _ _ _ _ _ h => (by cases h)⟩
  start := by
    intro w r _ _ hi
    refine ⟨hi.tick, ?_, trivial⟩
    cases r <;> trivial
  move := by
    intro w t w' u hK hKt hP hm hi ht
    have hav := available_move hm
    have hev := hK.guarantee.1
    have hext := move_extends hm
    have quiet (hf : DocumentFrame w w') : DocumentCacheOk w'.tick :=
      (hi.frame hf hav hev hext).tick
    by_cases hs : serving t = false
    · obtain ⟨hf, hu⟩ := documentFrame_move hm hs
      exact ⟨quiet hf,
        fun t' ht' => documentCacheAssertion_of_not_serving (hu t' ht'), trivial⟩
    cases hm with
    | insertRefused | deleteMissing =>
        exact ⟨hi.tick, fun _ h => (by cases h), trivial⟩
    | inserted | deleteFound | softDeleted | documentMiss =>
        exact ⟨quiet (.quiet rfl rfl), fun _ h => by cases h; trivial, trivial⟩
    | indexPublished =>
        exact ⟨quiet (documentFrame_publish w _), fun _ h => by cases h; trivial, trivial⟩
    | @created t d =>
        have hi' := hi.frame (documentFrame_invalidateTenant w t) hav hev (.quiet rfl rfl)
        exact ⟨(hi'.record (e := .created t d) trivial).tick, fun _ h => (by cases h), trivial⟩
    | @documentHit s t d v h =>
        refine ⟨(hi.record (e := .got t d s _) ⟨hKt.2, fun a hm _ => ?_⟩).tick, fun _ h => (by cases h),
          trivial⟩
        -- what a `delete` that has returned took out of the cache is not found there
        have hnone := (hi.gone t d (hi.deleted a t d hm)).1
        rw [Cache.getJson, if_pos hi.available, hnone] at h
        cases h
    | @rowMissing s t d h =>
        exact ⟨(hi.record (e := .got t d s _) ⟨hKt.2, fun _ _ _ => rfl⟩).tick,
          fun _ h => (by cases h), trivial⟩
    | @rowFound s t d row h =>
        refine ⟨hi.tick, fun _ h' => ?_, trivial⟩
        cases h'
        intro a hm
        -- the row would be deleted
        obtain ⟨d', hd', hs'⟩ := (hi.gone t d (hi.deleted a t d hm)).2
        obtain ⟨hf, -, hlive⟩ := DocumentRepository.get_eq_some.mp h
        rw [hd'] at hf
        cases hf
        exact absurd hs' hlive
    | @documentCached s t d r =>
        have hi' : DocumentCacheOk
            { w with cache := w.cache.setJson (documentKey t d.str) (.document r) } := by
          refine ⟨hav.trans hi.available, fun t' d' hu => ?_, hi.deleted, hi.past, hi.notFound⟩
          obtain ⟨hn, hd⟩ := hi.gone t' d' hu
          refine ⟨(Cache.store_setJson_of_ne fun hk => ?_).trans hn, hd⟩
          obtain ⟨rfl, rfl⟩ := documentKey_inj hk
          exact hP hu
        refine ⟨(hi'.record (e := .got t d s (.ok r)) ⟨hKt.2, fun a hm hlt => ?_⟩).tick,
          fun _ h => (by cases h), trivial⟩
        have := ht a hm
        omega
    | @uncached t d row =>
        have hi' : DocumentCacheOk { w with cache := w.cache.delete (documentKey t d.str) } := by
          refine ⟨hav.trans hi.available, fun t' d' hu => ?_, hi.deleted, hi.past, hi.notFound⟩
          obtain ⟨hn, hd⟩ := hi.gone t' d' hu
          refine ⟨Option.eq_none_iff_forall_not_mem.mpr fun v hv => ?_, hd⟩
          rw [Cache.store_delete hv] at hn
          cases hn
        refine ⟨(hi'.record (e := .uncached t d)
          ⟨Cache.store_delete_self hi.available _, hKt.1.2.2⟩).tick, fun _ h => ?_, trivial⟩
        cases h
        exact ⟨w.clock, List.mem_cons_self⟩
    | deleteInvalidated =>
        refine ⟨quiet (documentFrame_invalidateTenant w _), fun _ h => ?_, trivial⟩
        cases h
        exact Uncached.mono hext.kept ht
    | @deleted t d row =>
        have hx := extends_publish w (DocumentService.deleteEvent t row)
        have hi' := hi.frame (documentFrame_publish w _) hav hev hx
        exact ⟨(hi'.record (e := .deleted t d) (Uncached.mono hx.kept ht)).tick,
          fun _ h => (by cases h), trivial⟩
    | _ => exact absurd rfl hs
  cancel := by
    intro w t hK _ hi _
    rcases cancel_cases rt w t with hc | ⟨r, q, g, hc⟩
    · rw [hc]; exact ⟨hi, trivial⟩
    · rw [hc] at hK ⊢
      exact ⟨hi.frame (.quiet rfl rfl) rfl hK.guarantee.1 (.quiet rfl rfl), trivial⟩
  disturb := by
    intro w e hK hP hi
    refine ⟨(hi.frame (documentFrame_disturb w e) ?_ hK.guarantee.1 (disturb_extends w e)).tick,
      trivial⟩
    cases e with
    | cache available => exact hP.trans hi.available.symm
    | _ => rfl
  stable := by
    intro w w' t hK _ hKt ht
    have hco := hK.guarantee.2
    cases t with
    | get s t d step =>
        cases step with
        | cacheWrite r =>
            intro a hm
            rcases hco.new hm with hm | rfl
            · exact ht a hm
            · exact le_of_lt hKt.2
        | _ => trivial
    | delete t d step =>
        cases step with
        | invalidate row | publish row => exact Uncached.mono hco.kept ht
        | _ => trivial
    | _ => trivial

/-- **No deleted document is served** in a run without a late fill. -/
theorem deleted_not_found (cfg : Settings) (rt : Runtime K) (engine : E.State)
    {s : Config (World E) (Task K)}
    (hr : (machine cfg rt E).Reach noLateFill (World.IsInitial engine) s) :
    DeletedNotFound s.world :=
  have hrows := (rows_established cfg rt engine).and (history_established cfg rt engine)
  ((documentCache_preserves.valid.established hrows.restrict).holds hr).1.notFound

/-- The deletion of a document before the step `n`, and a `get` of the document that started then
and found it. -/
def deletedBefore (t : Str) (d : Uuid) (n : ℕ) : ℕ → Entry K → Bool
  | a, .deleted t' d' => decide (t' = t ∧ d' = d ∧ a < n)
  | _, _ => false

def foundFrom (t : Str) (d : Uuid) (n : ℕ) : ℕ → Entry K → Bool
  | _, .got t' d' startedAt (.ok _) => decide (t' = t ∧ d' = d ∧ startedAt = n)
  | _, _ => false

theorem not_deletedNotFound {w : World E} {t : Str} {d : Uuid} {n : ℕ}
    (hd : (w.log.any fun x => deletedBefore t d n x.1 x.2) = true)
    (hg : (w.log.any fun x => foundFrom t d n x.1 x.2) = true) : ¬ DeletedNotFound w := by
  intro h
  obtain ⟨a, e, hm, he⟩ := World.exists_of_any _ hd
  obtain ⟨b, e', hm', he'⟩ := World.exists_of_any _ hg
  cases e with
  | deleted t₁ d₁ =>
      obtain ⟨rfl, rfl, hlt⟩ := of_decide_eq_true he
      cases e' with
      | got t₂ d₂ startedAt r =>
          cases r with
          | ok r =>
              obtain ⟨rfl, rfl, rfl⟩ := of_decide_eq_true he'
              cases h a b _ _ _ (.ok r) hm hm' hlt
          | error _ => cases he'
      | _ => cases he'
  | _ => cases he

end Pipeline

namespace Sample

open Pipeline

/-- A document is created and read, so that it is cached, and deleted, and read again. -/
def readBack : Actions :=
  [.start 0 (.create acme documentA payload), .resume 0 [], .resume 0 [], .resume 0 [],
    .start 0 (.get acme documentA), .resume 0 [], .resume 0 [], .resume 0 [],
    .start 0 (.delete acme documentA), .resume 0 [], .resume 0 [], .resume 0 [], .resume 0 [],
    .resume 0 [],
    .start 0 (.get acme documentA), .resume 0 [], .resume 0 []]

theorem readBack_runs : (service.run (Config.idle start) readBack).isSome := by decide +kernel

theorem deleted_not_found_sample :
    DeletedNotFound (service.after start readBack readBack_runs).world :=
  deleted_not_found settings runtime State.initial
    (Machine.reach_after start_isInitial readBack_runs (by decide +kernel))

/-- A `get` reads the row and is suspended before it fills the cache; the document is deleted; the
`get` fills the cache; another `get` starts. -/
def lateFill : Actions :=
  [.start 0 (.create acme documentA payload), .resume 0 [], .resume 0 [], .resume 0 [],
    .start 1 (.get acme documentA), .resume 1 [], .resume 1 [],
    .start 2 (.delete acme documentA), .resume 2 [], .resume 2 [], .resume 2 [], .resume 2 [],
    .resume 2 [],
    .resume 1 [],
    .start 3 (.get acme documentA), .resume 3 []]

theorem lateFill_runs : (service.run (Config.idle start) lateFill).isSome := by decide +kernel

/-- **A deleted document is served.**  The last `get` starts at step 14, after the `delete` has
returned at step 12. -/
theorem late_fill : ¬ ∀ s, service.Reach workingCache (World.IsInitial State.initial) s →
    DeletedNotFound s.world := by
  intro h
  have hreach := Machine.reach_after start_isInitial lateFill_runs
    (P := workingCache) (conforms_workingCache rfl)
  exact not_deletedNotFound (t := acme) (d := documentA) (n := 14) (by decide +kernel)
    (by decide +kernel) (h _ hreach)

end Sample

end DocSearch
