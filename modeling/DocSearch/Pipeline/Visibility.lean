import DocSearch.Clients.OpenSearchEngine
import DocSearch.Pipeline.Freshness

/-!
# Pipeline — Visibility

The search cache before an engine that shows its writes only at a refresh.  A worker increments the
generation right after its bulk call, so a search that reads the engine between the two and the
refresh fills the cache of the new generation with an answer that does not show the change.

* `never_hidden`: in the runs without such a read, an answer given after a refresh has seen it.
* `hidden_by_the_cache`: a run with one.
-/

namespace DocSearch

open CacheKeys InMemoryEngine OpenSearchEngine SearchService Interleaving

namespace Pipeline

variable {K : Type} {E : SearchEngine K}

/-- A refresh came after the bulk call and before the read. -/
def VisibleAt (w : World E) (bulkAt readAt : ℕ) : Prop :=
  ∃ refreshedAt, (refreshedAt, Entry.refreshed) ∈ w.log ∧ bulkAt < refreshedAt ∧ refreshedAt < readAt

/-- Once a worker has returned and a refresh has made its bulk call visible, a search that starts
after both is answered from an engine read that could see it. -/
def NeverHidden (w : World E) : Prop :=
  ∀ returnedAt ops succeeded bulkAt, (returnedAt, Entry.processed ops succeeded bulkAt) ∈ w.log →
    ∀ op ∈ ops, op.documentId ∈ succeeded →
      ∀ refreshedAt, (refreshedAt, Entry.refreshed) ∈ w.log → bulkAt < refreshedAt →
        ∀ answeredAt startedAt g a,
          (answeredAt, Entry.searched op.tenantId startedAt g (.ok a)) ∈ w.log →
          returnedAt < startedAt → refreshedAt < startedAt → VisibleAt w bulkAt a.readAt

/-- A refresh has come after the bulk call. -/
def RefreshedSince (w : World E) (bulkAt : ℕ) : Prop :=
  ∃ refreshedAt, (refreshedAt, Entry.refreshed) ∈ w.log ∧ bulkAt < refreshedAt

/-- If the entry is an increment for the tenant up to the generation, its bulk call has been
refreshed. -/
def Refreshed (w : World E) (tenantId : Str) (generation : ℕ) : Entry K → Prop
  | .bumped t g b => t = tenantId → g ≤ generation → RefreshedSince w b
  | _ => True

/-- No search reads the engine under a generation that stands for a bulk call without a refresh
since. -/
def refreshedReads : Restriction (World E) (Task K) Request Disturbance where
  start := keptGenerations.start
  resume w
    | .search _ _ q (.execute g _) => ∀ x ∈ w.log, Refreshed w q.tenantId g x.2
    | _ => True
  environment := keptGenerations.environment

/-! ### Deciding it -/

instance (w : World E) (bulkAt : ℕ) : Decidable (RefreshedSince w bulkAt) :=
  decidable_of_iff ((w.log.any fun x =>
      match x.2 with
      | .refreshed => decide (bulkAt < x.1)
      | _ => false) = true) <| by
    rw [List.any_eq_true]
    constructor
    · rintro ⟨⟨a, e⟩, hm, h⟩
      cases e with
      | refreshed => exact ⟨a, hm, of_decide_eq_true h⟩
      | _ => cases h
    · rintro ⟨a, hm, h⟩
      exact ⟨_, hm, decide_eq_true h⟩

instance (w : World E) (t : Str) (g : ℕ) : (e : Entry K) → Decidable (Refreshed w t g e)
  | .bumped t' g' b => inferInstanceAs (Decidable (t' = t → g' ≤ g → RefreshedSince w b))
  | .published _ | .applied _ _ | .refreshed | .processed _ _ _ | .created _ _ | .got _ _ _ _
  | .uncached _ _ | .deleted _ _ | .searched _ _ _ _ => .isTrue trivial

instance (w : World E) : (t : Task K) → Decidable (refreshedReads.resume w t)
  | .search _ _ q (.execute g _) =>
      inferInstanceAs (Decidable (∀ x ∈ w.log, Refreshed w q.tenantId g x.2))
  | .search _ _ _ .generation | .search _ _ _ (.cacheRead _) | .search _ _ _ (.flight _)
  | .search _ _ _ (.waiting _ _) | .search _ _ _ (.fill _ _ _) | .search _ _ _ (.finish _ _ _)
  | .create _ _ | .get _ _ _ _ | .delete _ _ _ | .process _ | .sweep _ => .isTrue trivial

instance (w : World E) (r : Request) :
    Decidable ((refreshedReads : Restriction _ (Task K) _ Disturbance).start w r) :=
  inferInstanceAs (Decidable ((keptGenerations : Restriction _ (Task K) _ Disturbance).start w r))

instance (w : World E) (e : Disturbance) :
    Decidable ((refreshedReads : Restriction _ (Task K) Request _).environment w e) :=
  inferInstanceAs (Decidable (keepsGenerations e))

/-! ### What is visible -/

theorem visible_seenRules : SeenRules (refreshedReads : Restriction (World E) (Task K) _ _)
    VisibleAt where
  stable hc h := h.imp fun _ h => ⟨hc.kept h.1, h.2⟩
  execute hpast hP hm hle _ := by
    obtain ⟨refreshedAt, hr, hlt⟩ := hP _ hm rfl hle
    exact ⟨refreshedAt, hr, hlt, hpast _ _ hr⟩

/-- **The cache hides nothing that is visible**, in a run in which no search reads the engine under
a generation whose bulk calls it cannot see yet. -/
theorem never_hidden [Zero K] (cfg : Settings) (settings : OpenSearchSettings) (C : Cluster K)
    (rt : Runtime K) (engine : C.State) {s : Config (World (openSearch settings C)) (Task K)}
    (hr : (machine cfg rt (openSearch settings C)).Reach refreshedReads (World.IsInitial engine) s) :
    NeverHidden s.world := by
  have hsee := searches_see visible_seenRules (fun s a h => ?_) hr
  · exact fun _ _ _ _ hp op hop hs _ _ _ _ _ _ _ hm hlt _ => hsee _ _ _ _ hp op hop hs _ _ _ _ hm hlt
  · cases a with
    | resume _ _ => exact fun _ _ => trivial
    | _ => exact h

end Pipeline

namespace Sample

open Pipeline

/-! ### A cluster -/

/-- The documents written and those that searches see, with the last version of every id. -/
structure ClusterState where
  versions : Dict Str ℤ
  written : Docs
  visible : Docs
  available : Bool

def ClusterState.initial : ClusterState := ⟨.empty, .empty, .empty, true⟩

/-- One action, under external versioning. -/
def perform (st : ClusterState) : BulkAction → BulkItem × ClusterState
  | .index m source =>
      if (st.versions.get? m.id).any fun v => decide (m.version ≤ v) then
        (⟨"index".toList, some m.id, some 409⟩, st)
      else
        (⟨"index".toList, some m.id, some 201⟩,
          { st with
            versions := st.versions.set m.id m.version
            written := st.written.set ⟨m.id, source.tenantId, m.version, source⟩ })
  | .delete m =>
      if (st.versions.get? m.id).any fun v => decide (m.version ≤ v) then
        (⟨"delete".toList, some m.id, some 409⟩, st)
      else
        (⟨"delete".toList, some m.id, some (if (st.written.get? m.id).isSome then 200 else 404)⟩,
          { st with versions := st.versions.set m.id m.version, written := st.written.pop m.id })

def performAll (st : ClusterState) : List BulkAction → List BulkItem × ClusterState
  | [] => ([], st)
  | a :: as =>
      let (item, st) := perform st a
      let (items, st) := performAll st as
      (item :: items, st)

def rawHit (h : EngineHit ℚ) : RawHit ℚ where
  id := some h.documentId
  score := some h.score
  source := ⟨some h.documentId, some h.title, h.contentType, some h.tags, some h.metadata,
    h.createdAt, h.updatedAt⟩
  highlightContent := h.snippet.toList
  highlightTitle := []

/-- A cluster whose searches read, as of the last refresh, the way the in-memory engine does. -/
def cluster : Cluster ℚ where
  State := ClusterState
  bulk st actions :=
    if st.available then ((.ok (performAll st actions).1), (performAll st actions).2)
    else (.error (.other "connection refused".toList), st)
  search st _ _ _ body :=
    if st.available then
      (InMemoryEngine.search runtime ⟨st.visible, true⟩
        { tenantId := body.tenantFilter
          text := body.must.query
          page := body.offset / body.size + 1
          size := body.size
          fuzzy := decide (body.must.operator = "or".toList)
          highlight := body.highlight.isSome
          facets := !body.aggs.isEmpty }).map fun r =>
        ⟨r.hits.map rawHit, r.total, some "eq".toList, r.facets⟩
    else .error (.other "connection refused".toList)
  setAvailable st available := { st with available := available }
  refresh st := { st with visible := st.written }

def openSearchSettings : OpenSearchSettings := ⟨"documents".toList, 10000⟩

abbrev searchService : Machine (World (openSearch openSearchSettings cluster)) (Task ℚ) Request Str
    Disturbance :=
  Pipeline.machine settings runtime (openSearch openSearchSettings cluster)

def searchStart : World (openSearch openSearchSettings cluster) := World.initial ClusterState.initial

theorem searchStart_isInitial : World.IsInitial ClusterState.initial searchStart := rfl

/-- The index is refreshed between the worker's bulk call and the first search. -/
def refreshedFirst : Actions :=
  indexing ++ [.environment .refresh,
    .start 2 (.search 0 (query acme)), .resume 2 [], .resume 2 [], .resume 2 [], .resume 2 [],
    .resume 2 [], .resume 2 [],
    .start 3 (.search 0 (query acme)), .resume 3 [], .resume 3 []]

theorem refreshedFirst_runs :
    (searchService.run (Config.idle searchStart) refreshedFirst).isSome := by decide +kernel

theorem never_hidden_sample :
    NeverHidden (searchService.after searchStart refreshedFirst refreshedFirst_runs).world :=
  never_hidden settings openSearchSettings cluster runtime ClusterState.initial
    (Machine.reach_after searchStart_isInitial refreshedFirst_runs (by decide +kernel))

/-- A search reads the engine after the worker has returned and before the refresh; another one
starts after it. -/
def searchedFirst : Actions :=
  indexing ++ [
    .start 2 (.search 0 (query acme)), .resume 2 [], .resume 2 [], .resume 2 [], .resume 2 [],
    .resume 2 [], .resume 2 [],
    .environment .refresh,
    .start 3 (.search 0 (query acme)), .resume 3 [], .resume 3 []]

theorem searchedFirst_runs :
    (searchService.run (Config.idle searchStart) searchedFirst).isSome := by decide +kernel

/-- The world after it. -/
def hidden : World (openSearch openSearchSettings cluster) :=
  (searchService.after searchStart searchedFirst searchedFirst_runs).world

/-- The worker returned at step 8 from its bulk call at step 6. -/
def processedAt8 : ℕ → Entry ℚ → Bool
  | a, .processed ops succeeded b =>
      decide (a = 8 ∧ b = 6 ∧ ∃ op ∈ ops, op.tenantId = acme ∧ op.documentId ∈ succeeded)
  | _, _ => false

/-- The last search started at step 17, and its answer is from step 13. -/
def searchedAt17 : ℕ → Entry ℚ → Bool
  | _, .searched t s _ (.ok a) => decide (t = acme ∧ s = 17 ∧ a.readAt = 13)
  | _, _ => false

/-- A refresh at step 16; the answer for the other entries is `orElse`. -/
def refreshedAt16 (orElse : Bool) : ℕ → Entry ℚ → Bool
  | a, .refreshed => decide (a = 16)
  | _, _ => orElse

-- the run is long, and one evaluation of it answers all four questions
theorem hidden_log :
    ((hidden.log.any fun x => processedAt8 x.1 x.2) &&
      (hidden.log.any fun x => searchedAt17 x.1 x.2) &&
      (hidden.log.any fun x => refreshedAt16 false x.1 x.2) &&
      hidden.log.all fun x => refreshedAt16 true x.1 x.2) = true := by decide +kernel

theorem hidden_processed : ∃ ops succeeded,
    (8, Entry.processed ops succeeded 6) ∈ hidden.log ∧
      ∃ op ∈ ops, op.tenantId = acme ∧ op.documentId ∈ succeeded := by
  have hlog := hidden_log
  simp only [Bool.and_eq_true] at hlog
  obtain ⟨a, e, hm, he⟩ := World.exists_of_any processedAt8 hlog.1.1.1
  cases e with
  | processed ops succeeded b =>
      obtain ⟨rfl, rfl, hop⟩ := of_decide_eq_true he
      exact ⟨ops, succeeded, hm, hop⟩
  | _ => cases he

theorem hidden_searched : ∃ answeredAt g a,
    (answeredAt, Entry.searched acme 17 g (.ok a)) ∈ hidden.log ∧ a.readAt = 13 := by
  have hlog := hidden_log
  simp only [Bool.and_eq_true] at hlog
  obtain ⟨a, e, hm, he⟩ := World.exists_of_any searchedAt17 hlog.1.1.2
  cases e with
  | searched t s g r =>
      cases r with
      | ok x =>
          obtain ⟨rfl, rfl, hread⟩ := of_decide_eq_true he
          exact ⟨a, g, x, hm, hread⟩
      | error _ => cases he
  | _ => cases he

/-- The only refresh was at step 16. -/
theorem hidden_refreshed {a : ℕ} : (a, Entry.refreshed) ∈ hidden.log ↔ a = 16 := by
  have hlog := hidden_log
  simp only [Bool.and_eq_true] at hlog
  constructor
  · intro hm
    exact of_decide_eq_true (List.all_eq_true.mp hlog.2 _ hm)
  · rintro rfl
    obtain ⟨a, e, hm, he⟩ := World.exists_of_any (refreshedAt16 false) hlog.1.2
    cases e with
    | refreshed => exact of_decide_eq_true he ▸ hm
    | _ => cases he

/-- **The cache hides a visible document.** -/
theorem hidden_by_the_cache :
    ¬ ∀ s, searchService.Reach keptGenerations (World.IsInitial ClusterState.initial) s →
      NeverHidden s.world := by
  intro h
  have hreach := Machine.reach_after searchStart_isInitial searchedFirst_runs
    (P := keptGenerations) (by decide +kernel)
  obtain ⟨ops, succeeded, hp, op, hop, ht, hs⟩ := hidden_processed
  obtain ⟨answeredAt, g, a, hm, hread⟩ := hidden_searched
  obtain ⟨refreshedAt, hr, hlt, hle⟩ := h _ hreach 8 ops succeeded 6 hp op hop hs 16
    (hidden_refreshed.mpr rfl) (by decide) answeredAt 17 g a (ht ▸ hm) (by decide) (by decide)
  have := hidden_refreshed.mp hr
  omega

end Sample

end DocSearch
