import DocSearch.Clients.InMemoryEngine
import DocSearch.Core.Sample
import DocSearch.Pipeline.Rows

/-!
# Pipeline — Index

The in-memory index against the table, over every run: each entry belongs to a row, with the
row's tenant and body and version 1, and an entry leaves the index only when its row is deleted.

* `index_established`: the outline.
* `indexed_truthful`: a row whose status is `INDEXED` has its entry.
-/

namespace DocSearch

open DocumentRepository InMemoryEngine IndexingProcessor Interleaving

namespace Pipeline

variable {K : Type} [Field K] [LinearOrder K] {rt : Runtime K}

/-! ### What a bulk call does to an entry -/

/-- Among operations that name different documents, the one on a document is found by its id. -/
theorem find?_operation {ops : List Operation} (h : (ops.map Operation.documentId).Nodup)
    {op : Operation} (hop : op ∈ ops) {k : Str} (hk : op.documentId = k) :
    ops.find? (fun o => decide (o.documentId = k)) = some op :=
  (find?_key_eq_some h).mpr ⟨hop, hk⟩

theorem entryAfter_index {op : Operation} (h : op.isIndex = true) (x : Option StoredDoc) :
    ∃ e, entryAfter op x = some e := by
  unfold entryAfter
  split
  · rename_i hx
    cases x with
    | none => cases hx
    | some e => exact ⟨e, rfl⟩
  · cases op with
    | index d t v s => exact ⟨_, rfl⟩
    | delete _ _ _ => cases h

/-- An entry after an operation was there before, or is what an index operation writes. -/
theorem entryAfter_cases {op : Operation} {x : Option StoredDoc} {e : StoredDoc}
    (h : entryAfter op x = some e) :
    x = some e ∨ (op.isIndex = true ∧ e.tenantId = op.tenantId ∧ e.version = op.version ∧
      op.source? = some e.source) := by
  unfold entryAfter at h
  split at h
  · exact .inl h
  · cases op with
    | index d t v s => cases h; exact .inr ⟨rfl, rfl, rfl, rfl⟩
    | delete _ _ _ => cases h

/-- A bulk call of the engine raises and changes nothing, or applies every operation. -/
theorem bulk_inMemory {st st' : State} {ops : List Operation}
    {r : Except EngineError BulkResult} (h : (inMemory rt).bulk st ops = (r, st')) :
    (st.available = false ∧ (∃ e, r = .error e) ∧ st' = st) ∨
      (st.available = true ∧ r = .ok ⟨ops.map Operation.documentId, []⟩ ∧
        st' = { st with docs := applyAll st.docs ops }) := by
  simp only [inMemory, InMemoryEngine.bulk] at h
  split at h
  · rename_i ha; cases h; exact .inr ⟨ha, rfl, rfl⟩
  · rename_i ha; cases h; exact .inl ⟨Bool.eq_false_iff.mpr ha, ⟨_, rfl⟩, rfl⟩

/-! ### The outline -/

/-- The document is in the index. -/
def Present (docs : Docs) (id : Uuid) : Prop := ∃ e, docs.get? id.str = some e

/-- Every entry belongs to a row, and every row marked as indexed has one. -/
structure IndexOk (t : Documents) (docs : Docs) : Prop where
  entry : ∀ k e, docs.get? k = some e →
    ∃ d, t.find? d.id = some d ∧ d.id.str = k ∧ e.tenantId = d.tenantId ∧ e.version = 1 ∧
      e.source.body = d.body
  indexed : ∀ id d, t.find? id = some d → d.status = .indexed → Present docs id

/-- Entries are removed only for deleted rows. -/
def EntriesStay (t' : Documents) (docs docs' : Docs) : Prop :=
  ∀ id, Present docs id → IsDeleted t' id ∨ Present docs' id

/-- The documents a worker is about to mark are in the index, or deleted by now. -/
def indexAssertion (t : Documents) (docs : Docs) : Task K → Prop
  | .process (.commit p r _) =>
      ∀ id : Uuid, id.str ∈ (p.outcome r).indexed → IsDeleted t id ∨ Present docs id
  | _ => True

def indexOutline : Outline (World (inMemory rt)) (Task K) where
  inv w := IndexOk w.documents w.engine.docs
  assertion w t := indexAssertion w.documents w.engine.docs t
  guarantee w w' := EntriesStay w'.documents w.engine.docs w'.engine.docs

theorem EntriesStay.refl (t : Documents) (docs : Docs) : EntriesStay t docs docs :=
  fun _ h => .inr h

/-- The table may evolve under the index as long as no row becomes `INDEXED` without an entry. -/
theorem IndexOk.evolve {t t' : Documents} {docs : Docs} (h : IndexOk t docs)
    (he : RowsEvolve t t')
    (hi : ∀ id d, t'.find? id = some d → d.status = .indexed → Present docs id) :
    IndexOk t' docs where
  entry k e hk := by
    obtain ⟨d, hd, hid, ht, hv, hb⟩ := h.entry k e hk
    obtain ⟨d', hd', hev⟩ := he d.id d hd
    exact ⟨d', hev.id ▸ hd', hev.id ▸ hid, hev.tenantId ▸ ht, hv, hb.trans hev.body.symm⟩
  indexed := hi

section Bulk

variable {t : Documents} {ops : List Operation}
  (hn : (ops.map Operation.documentId).Nodup) (hf : ∀ op ∈ ops, FromRow t op)
include hn hf

theorem entriesStay_applyAll (docs : Docs) : EntriesStay t docs (applyAll docs ops) := by
  rintro id ⟨e, he⟩
  unfold Present
  rw [get?_applyAll hn]
  cases hop : ops.find? fun op => decide (op.documentId = id.str) with
  | none => exact .inr ⟨e, he⟩
  | some op =>
      obtain ⟨hm, hk⟩ := (find?_key_eq_some hn).mp hop
      obtain ⟨d, hd, hid, -, ⟨hi, -⟩ | ⟨-, -, hs⟩⟩ := hf op hm
      · exact .inr (entryAfter_index hi _)
      · rw [hid, Uuid.str_inj] at hk
        exact .inl ⟨d, hk ▸ hd, hs⟩

theorem indexOk_applyAll {docs : Docs} (h : IndexOk t docs) :
    IndexOk t (applyAll docs ops) where
  entry k e hk := by
    rw [get?_applyAll hn] at hk
    cases hop : ops.find? fun op => decide (op.documentId = k) with
    | none => rw [hop] at hk; exact h.entry k e hk
    | some op =>
        rw [hop] at hk
        obtain ⟨hm, rfl⟩ := (find?_key_eq_some hn).mp hop
        rcases entryAfter_cases hk with hk | ⟨hi, ht, hv, hs⟩
        · exact h.entry _ e hk
        · obtain ⟨d, hd, hid, htd, ⟨-, hv', hb⟩ | ⟨hdel, -⟩⟩ := hf op hm
          · exact ⟨d, hd, hid.symm, ht.trans htd, hv.trans hv', hb _ hs⟩
          · rw [hdel] at hi; cases hi
  indexed id d hd hs := by
    rcases entriesStay_applyAll hn hf docs id (h.indexed id d hd hs) with ⟨d', hd', hs'⟩ | hp
    · rw [hd] at hd'
      cases hd'
      rw [hs] at hs'
      cases hs'
    · exact hp

end Bulk

/-- The rows a plan marks are those of its confirmed index operations. -/
theorem str_mem_indexed {t : Documents} {p : Plan Str} {r : BulkResult} {c : Unicode} {id : Uuid}
    (hf : ∀ op ∈ p.operations, FromRow t op)
    (h : id ∈ (p.outcome r).indexed.filterMap (Uuid.parse c)) : id.str ∈ (p.outcome r).indexed := by
  obtain ⟨s, hs, hp⟩ := List.mem_filterMap.mp h
  obtain ⟨op, hop, -, rfl⟩ := Plan.mem_indexIds.mp (List.mem_filter.mp hs).1
  obtain ⟨d, -, hid, -⟩ := hf op hop
  rw [hid, Uuid.parse_str] at hp
  cases hp
  exact hid ▸ hs

theorem index_preserves {cfg : Settings} :
    Preserves cfg rt .free (World.IsInitial State.initial) rowsOutline
      (indexOutline : Outline (World (inMemory rt)) (Task K)) where
  init := by
    rintro w rfl
    exact ⟨nofun, nofun⟩
  start := by
    intro w r _ _ hi
    refine ⟨hi, ?_, EntriesStay.refl _ _⟩
    cases r <;> trivial
  move := by
    intro w t w' u hK hKt _ hm hi ht
    -- a move that changes neither the table nor the index
    have same : ∀ {w' : World (inMemory rt)} {u : Option (Task K)}, w'.documents = w.documents →
        w'.engine = w.engine → (∀ t', u = some t' → indexAssertion w.documents w.engine.docs t') →
        IndexOk w'.documents w'.engine.docs ∧
          (∀ t', u = some t' → indexAssertion w'.documents w'.engine.docs t') ∧
          EntriesStay w'.documents w.engine.docs w'.engine.docs := by
      intro w' u hd he hu
      rw [hd, he]
      exact ⟨hi, hu, EntriesStay.refl _ _⟩
    cases hm with
    | inserted h =>
        refine ⟨hi.evolve hK.guarantee fun id d hd hs => ?_, fun _ ht' => by cases ht'; trivial,
          EntriesStay.refl _ _⟩
        -- the new row is `PENDING`
        obtain ⟨-, hfind⟩ := Table.find?_insert h
        replace hd := (hfind id).symm.trans hd
        split at hd
        · cases hd; cases hs
        · exact hi.indexed id d hd hs
    | softDeleted =>
        refine ⟨hi.evolve hK.guarantee fun id d hd hs => ?_, fun _ ht' => by cases ht'; trivial,
          EntriesStay.refl _ _⟩
        obtain ⟨r, hr, rfl⟩ := Option.map_eq_some_iff.mp ((find?_softDelete _ _ _ id).symm.trans hd)
        split at hs
        · cases hs
        · exact hi.indexed id r hr hs
    | @bulkReturned p r engine h =>
        obtain ⟨hn, hf⟩ := hKt
        rcases bulk_inMemory h with ⟨-, ⟨_, he⟩, -⟩ | ⟨-, -, rfl⟩
        · cases he
        refine ⟨indexOk_applyAll hn hf hi, fun _ ht' => ?_, entriesStay_applyAll hn hf _⟩
        cases ht'
        -- the operation that succeeded left an entry
        intro id hid
        obtain ⟨op, hop, hi', hk⟩ := Plan.mem_indexIds.mp (List.mem_filter.mp hid).1
        refine .inr ?_
        obtain ⟨e, he⟩ := entryAfter_index hi' (w.engine.docs.get? id.str)
        exact ⟨e, by
          change (applyAll w.engine.docs p.operations).get? id.str = some e
          rw [get?_applyAll hn, find?_operation hn hop hk]; exact he⟩
    | bulkRaised h =>
        rcases bulk_inMemory h with ⟨-, -, rfl⟩ | ⟨-, he, -⟩
        · exact same rfl rfl fun _ ht' => by cases ht'
        · cases he
    | @committed p r b w' next h =>
        obtain ⟨hn, hf⟩ := hKt
        have hcommit : IndexOk (commit rt.toUnicode w (p.outcome r).indexed).documents
            w.engine.docs := by
          refine hi.evolve (rows_markIndexed _ _ hK.before).2 fun id d hd hs => ?_
          obtain ⟨row, hrow, rfl⟩ := Option.map_eq_some_iff.mp
            ((find?_markIndexed _ _ _ id).symm.trans hd)
          split at hs
          · -- a row that is marked now was pending, so its entry is still there
            rename_i hp
            have hid := Table.key_of_find? hrow
            rw [hid] at hp
            rcases ht id (str_mem_indexed hf hp.1) with ⟨d', hd', hs'⟩ | hpres
            · rw [hrow] at hd'
              cases hd'
              rw [hp.2] at hs'
              cases hs'
            · exact hpres
          · exact hi.indexed id row hrow hs
        rcases proceed_cases h with ⟨-, rfl, rfl⟩ | ⟨rfl, rfl⟩
        · exact ⟨hcommit, fun _ ht' => (by cases ht'), EntriesStay.refl _ _⟩
        · exact ⟨hcommit, fun _ ht' => by cases ht'; trivial, EntriesStay.refl _ _⟩
    | @bumped p r b ts t w' next _ h =>
        have hd := bump_documents w b t
        have he := bump_engine w b t
        rcases proceed_cases h with ⟨-, rfl, rfl⟩ | ⟨rfl, rfl⟩
        · exact same hd he fun _ ht' => by cases ht'
        · exact same hd he fun _ ht' => by cases ht'; trivial
    | indexPublished =>
        exact same (publish_documents _ _) (publish_engine _ _) fun _ ht' => by cases ht'; trivial
    | deleted => exact same (publish_documents _ _) (publish_engine _ _) fun _ ht' => by cases ht'
    | @republished d ds w' h =>
        obtain ⟨-, rfl⟩ := World.publish_eq_some h
        refine same rfl rfl fun _ ht' => ?_
        cases ds <;> cases ht'
        trivial
    | selected =>
        refine same rfl rfl fun _ ht' => ?_
        obtain ⟨step, -, rfl⟩ := Option.map_eq_some_iff.mp ht'
        trivial
    | insertRefused | created | documentHit | rowMissing | documentCached | deleteMissing | searchHit
    | followed | finished | nothingToDo | republishFailed =>
        exact same rfl rfl fun _ ht' => by cases ht'
    | documentMiss | rowFound | deleteFound | uncached | deleteInvalidated | generationRead
    | searchMiss | joined | led | executed | engineFailed | filled | planned =>
        exact same rfl rfl fun _ ht' => by cases ht'; trivial
  cancel := by
    intro w t _ _ hi _
    rcases cancel_cases rt w t with hc | ⟨r, q, g, hc⟩ <;> rw [hc] <;>
      exact ⟨hi, EntriesStay.refl _ _⟩
  disturb := by
    intro w e _ _ hi
    cases e <;> exact ⟨hi, EntriesStay.refl _ _⟩
  stable := by
    intro w w' t hK ho _ ht
    cases t with
    | process step =>
        cases step with
        | commit p r b =>
            intro id hid
            rcases ht id hid with hd | hp
            · exact .inl (hd.mono hK.guarantee)
            · exact ho.guarantee id hp
        | _ => trivial
    | _ => trivial

/-- **The index against the table**, over every run. -/
theorem index_established (cfg : Settings) (rt : Runtime K) :
    (machine cfg rt (inMemory rt)).Established .free (World.IsInitial State.initial)
      (rowsOutline.and indexOutline) :=
  have hrows := rows_established cfg rt (E := inMemory rt) State.initial
  hrows.and (index_preserves.valid.established hrows)

/-- **Status `INDEXED` is truthful.**  In every reachable world a row with that status has an
entry in the index, with its id, its tenant and its version. -/
theorem indexed_truthful (cfg : Settings) (rt : Runtime K)
    {s : Config (World (inMemory rt)) (Task K)}
    (hr : (machine cfg rt (inMemory rt)).Reach .free
      (World.IsInitial State.initial) s)
    {id : Uuid} {d : Document} (hd : s.world.documents.find? id = some d)
    (hs : d.status = .indexed) :
    ∃ e, s.world.engine.docs.get? id.str = some e ∧ e.documentId = id.str ∧
      e.tenantId = d.tenantId ∧ e.version = d.version := by
  obtain ⟨hrows, hindex⟩ := ((index_established cfg rt).holds hr).1
  obtain ⟨e, he⟩ := hindex.indexed id d hd hs
  obtain ⟨d', hd', hid, ht, hv, -⟩ := hindex.entry _ e he
  -- the row the entry belongs to is this row
  rw [Uuid.str_inj.mp hid, hd] at hd'
  cases hd'
  have hlive : d.status ≠ .deleted := by rw [hs]; simp
  exact ⟨e, he, s.world.engine.docs.keyed he, ht, hv.trans ((hrows id d hd).live hlive).symm⟩

end Pipeline

namespace Sample

def settings : Settings := ⟨60, 500⟩

abbrev service : Machine (World (inMemory runtime)) (Task ℚ) Request Str Disturbance :=
  Pipeline.machine settings runtime (inMemory runtime)

def start : World (inMemory runtime) := World.initial State.initial

theorem start_isInitial : World.IsInitial State.initial start := rfl

abbrev Actions := List (Action Request Str Disturbance)

/-- A document is created and indexed. -/
def indexing : Actions :=
  [.start 0 (.create acme documentA payload), .resume 0 [], .resume 0 [], .resume 0 [],
    .start 1 (.process [⟨documentA.str, acme, 1, eventIndex⟩]), .resume 1 [], .resume 1 [],
    .resume 1 [], .resume 1 acme]

theorem indexing_runs : (service.run (Config.idle start) indexing).isSome := by decide +kernel

/-- The row after it. -/
def indexedRow : Option Document :=
  (service.after start indexing indexing_runs).world.documents.find? documentA

theorem indexedRow_isSome : indexedRow.isSome := by decide +kernel

theorem indexed_truthful_sample :
    ∃ e, (service.after start indexing indexing_runs).world.engine.docs.get? documentA.str = some e ∧
      e.documentId = documentA.str ∧ e.tenantId = (indexedRow.get indexedRow_isSome).tenantId ∧
      e.version = (indexedRow.get indexedRow_isSome).version :=
  Pipeline.indexed_truthful settings runtime
    (Machine.reach_after start_isInitial indexing_runs (Machine.conforms_free _ _))
    (Option.some_get indexedRow_isSome).symm (by decide +kernel)

end Sample

end DocSearch
