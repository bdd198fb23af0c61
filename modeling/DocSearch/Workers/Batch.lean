import DocSearch.Clients.InMemoryEngine
import DocSearch.Workers.Processor

/-!
# Workers — Batch

A whole `process` call on the in-memory engine: every operation of its batch is applied, and every
pending row it names is marked.

* `process_unavailable`, `process_available`: the two outcomes of the call.
-/

namespace DocSearch

open CacheKeys InMemoryEngine

namespace IndexingProcessor

variable {K : Type} [Field K] [LinearOrder K] {rt : Runtime K}

/-- An event names the document. -/
def Named (events : List Event) (id : Uuid) : Prop := ∃ e ∈ events, e.documentId = id.str

instance (events : List Event) (id : Uuid) : Decidable (Named events id) :=
  inferInstanceAs (Decidable (∃ e ∈ events, _))

/-- What a call that reaches the engine leaves. -/
structure Processed (rt : Runtime K) (w : World (inMemory rt)) (events : List Event)
    (w' : World (inMemory rt)) : Prop where
  documents : ∃ ids, w'.documents = DocumentRepository.markIndexed w.documents ids w.now ∧
    ∀ d, w.documents.find? d.id = some d → d.status = .pending → (d.id ∈ ids ↔ Named events d.id)
  docs : w'.engine.docs =
    applyAll w.engine.docs (plan rt.toUnicode w.documents events).operations
  available : w'.engine.available = w.engine.available
  store : ∀ t (d : Uuid), w'.cache.store (documentKey t d.str) = w.cache.store (documentKey t d.str)
  cache : w'.cache.available = w.cache.available
  publisher : w'.publisher = w.publisher
  now : w'.now = w.now
  clock : w'.clock = w.clock

/-- Increments leave everything but the counters and the log. -/
structure BumpFrame {E : SearchEngine K} (w w' : World E) : Prop where
  documents : w'.documents = w.documents
  engine : w'.engine = w.engine
  store : ∀ t (d : Uuid), w'.cache.store (documentKey t d.str) = w.cache.store (documentKey t d.str)
  cache : w'.cache.available = w.cache.available
  publisher : w'.publisher = w.publisher
  now : w'.now = w.now
  clock : w'.clock = w.clock

omit [Field K] [LinearOrder K] in
theorem bumpFrame_bump {E : SearchEngine K} (w : World E) (b : ℕ) (t : Str) :
    BumpFrame w (bump w b t) := by
  have hstore : ∀ s (d : Uuid), (w.cache.incr (searchGenerationKey t)).2.store (documentKey s d.str) =
      w.cache.store (documentKey s d.str) := fun s d =>
    Cache.store_incr_of_ne documentKey_ne_searchGenerationKey
  unfold bump
  split
  · exact ⟨rfl, rfl, hstore, Cache.available_incr _ _, rfl, rfl, rfl⟩
  · exact ⟨rfl, rfl, hstore, Cache.available_incr _ _, rfl, rfl, rfl⟩

omit [Field K] [LinearOrder K] in
theorem bumpFrame_bumps {E : SearchEngine K} (b : ℕ) :
    ∀ (ts : List Str) (w : World E), BumpFrame w (ts.foldl (fun w t => bump w b t) w)
  | [], _ => ⟨rfl, rfl, fun _ _ => rfl, rfl, rfl, rfl, rfl⟩
  | t :: ts, w => by
      have h₁ := bumpFrame_bump w b t
      have h₂ := bumpFrame_bumps b ts (bump w b t)
      exact ⟨h₂.documents.trans h₁.documents, h₂.engine.trans h₁.engine,
        fun s d => (h₂.store s d).trans (h₁.store s d), h₂.cache.trans h₁.cache,
        h₂.publisher.trans h₁.publisher, h₂.now.trans h₁.now, h₂.clock.trans h₁.clock⟩

omit [Field K] [LinearOrder K] in
theorem BumpFrame.record {E : SearchEngine K} {w w' : World E} (h : BumpFrame w w') (e : Entry K) :
    BumpFrame w (w'.record e) :=
  ⟨h.documents, h.engine, h.store, h.cache, h.publisher, h.now, h.clock⟩

/-- The call ends with increments. -/
theorem Processed.of_frame {w w₁ w' : World (inMemory rt)} {events : List Event}
    (h : BumpFrame w₁ w')
    (hd : ∃ ids, w₁.documents = DocumentRepository.markIndexed w.documents ids w.now ∧
      ∀ d, w.documents.find? d.id = some d → d.status = .pending → (d.id ∈ ids ↔ Named events d.id))
    (he : w₁.engine = { w.engine with
      docs := applyAll w.engine.docs (plan rt.toUnicode w.documents events).operations })
    (hc : w₁.cache = w.cache) (hp : w₁.publisher = w.publisher) (hn : w₁.now = w.now)
    (hk : w₁.clock = w.clock) : Processed rt w events w' where
  documents := h.documents.symm ▸ hd
  docs := by rw [h.engine, he]
  available := by rw [h.engine, he]
  store t d := (h.store t d).trans (by rw [hc])
  cache := h.cache.trans (by rw [hc])
  publisher := h.publisher.trans hp
  now := h.now.trans hn
  clock := h.clock.trans hk

/-- A call while the engine is down changes nothing. -/
theorem process_unavailable {w : World (inMemory rt)} (h : w.engine.available = false)
    (events : List Event) : (process rt w events).2 = w := by
  unfold process
  simp only
  split
  · rfl
  · simp only [bulk, inMemory, InMemoryEngine.bulk, h]
    rfl

/-! ### A call that reaches the engine -/

/-- An operation of a plan is an index operation exactly when its row is not deleted. -/
theorem isIndex_operationFor (s : Str) (d : Document) :
    (operationFor s d).isIndex = true ↔ d.status ≠ .deleted := by
  unfold operationFor
  split
  · rename_i hs; simp [Operation.isIndex, hs]
  · rename_i hs; simp [Operation.isIndex, hs]

section Plans

variable {c : Unicode} {t : Documents} {events : List Event}

/-- When every operation is confirmed, the pending rows that are marked are those that are named. -/
theorem mem_indexed_iff {r : BulkResult}
    (hr : ∀ op ∈ (plan c t events).operations, op.documentId ∈ r.succeeded) {d : Document}
    (hd : t.find? d.id = some d) (hs : d.status = .pending) :
    d.id ∈ ((plan c t events).outcome r).indexed.filterMap (Uuid.parse c) ↔ Named events d.id := by
  constructor
  · intro hm
    obtain ⟨s, hs, hp⟩ := List.mem_filterMap.mp hm
    obtain ⟨op, hop, -, rfl⟩ := Plan.mem_indexIds.mp (List.mem_filter.mp hs).1
    obtain ⟨row, -, he, rfl⟩ := mem_operations.mp hop
    rw [documentId_operationFor, Uuid.parse_str] at hp
    rw [Named, ← Option.some.inj hp]
    exact he
  · intro he
    have hop : operationFor d.id.str d ∈ (plan c t events).operations :=
      mem_operations.mpr ⟨d, hd, he, rfl⟩
    have hid := documentId_operationFor d.id.str d
    have hsucc := hr _ hop
    refine List.mem_filterMap.mpr ⟨d.id.str, List.mem_filter.mpr ⟨?_, ?_⟩, Uuid.parse_str c d.id⟩
    · exact Plan.mem_indexIds.mpr
        ⟨_, hop, (isIndex_operationFor _ _).mpr (by rw [hs]; simp), hid⟩
    · rw [hid] at hsucc
      exact decide_eq_true hsucc

end Plans

theorem bulk_available {w : World (inMemory rt)} (h : w.engine.available = true)
    (ops : List Operation) :
    bulk w ops = (.ok ⟨ops.map Operation.documentId, []⟩,
      ({ w with engine := { w.engine with docs := applyAll w.engine.docs ops } } :
        World (inMemory rt)).record (.applied ops (ops.map Operation.documentId))) := by
  simp only [bulk, inMemory, InMemoryEngine.bulk, h, if_true]

theorem process_available {w : World (inMemory rt)} (h : w.engine.available = true)
    (events : List Event) : Processed rt w events (process rt w events).2 := by
  unfold process
  simp only
  split
  · rename_i hempty
    have hnil := List.isEmpty_iff.mp hempty
    refine ⟨⟨[], ?_, fun d hd hs => ?_⟩, by rw [hnil]; rfl, rfl, fun _ _ => rfl, rfl, rfl, rfl, rfl⟩
    · exact (DocumentRepository.markIndexed_nil _ _).symm
    · refine ⟨fun hm => (by cases hm), fun he => ?_⟩
      have hop : operationFor d.id.str d ∈ (plan rt.toUnicode w.documents events).operations :=
        mem_operations.mpr ⟨d, hd, he, rfl⟩
      rw [hnil] at hop
      cases hop
  · rw [bulk_available h]
    refine .of_frame ((bumpFrame_bumps _ _ _).record _) ⟨_, rfl, fun d hd hs => ?_⟩ rfl rfl rfl rfl rfl
    exact mem_indexed_iff (fun op hop => List.mem_map_of_mem hop) hd hs

end IndexingProcessor

end DocSearch
