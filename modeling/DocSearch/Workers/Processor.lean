import DocSearch.Services.World
import Mathlib.Data.List.Dedup

/-!
# Workers — Processor

`IndexingProcessor.process`: the newest event of each document, the rows read again, one bulk
call, `mark_indexed`, and an increment of the generation of every tenant whose corpus changed.

* `mem_operations`: the operations of a batch are those of the rows its events name.
* `nodup_operations`: they name different documents.
-/

namespace DocSearch

open CacheKeys

/-- `ProcessOutcome`. -/
structure ProcessOutcome where
  indexed : List Str
  deleted : List Str
  failed : List Str
  skipped : List Str

namespace IndexingProcessor

/-! ### The batch -/

section Batch

variable {τ : Type}

/-- One event of the batch: it replaces one of its document that is not newer. -/
def keepNewest (acc : Dict Str (DocumentEvent Str τ)) (event : DocumentEvent Str τ) :
    Dict Str (DocumentEvent Str τ) :=
  match acc.get? event.documentId with
  | none => acc.set event.documentId event
  | some current =>
      if current.version ≤ event.version then acc.set event.documentId event else acc

/-- The newest event of each document. -/
def latest (events : List (DocumentEvent Str τ)) : Dict Str (DocumentEvent Str τ) :=
  events.foldl keepNewest .empty

def toSearchSource (d : Document) : SearchSource where
  documentId := d.id.str
  tenantId := d.tenantId
  title := d.title
  content := d.content
  contentType := d.contentType
  tags := d.tags
  metadata := d.docMetadata
  version := d.version
  createdAt := d.createdAt
  updatedAt := d.updatedAt

theorem body_toSearchSource (d : Document) : (toSearchSource d).body = d.body := rfl

/-- The operation for a document id, from the row that has it now. -/
def operationFor (documentId : Str) (d : Document) : Operation :=
  if d.status = .deleted then .delete documentId d.tenantId d.version
  else .index documentId d.tenantId d.version (toSearchSource d)

/-- `rows.get(document_id)`. -/
def rowOf (rows : List Document) (documentId : Str) : Option Document :=
  rows.find? fun d => decide (d.id.str = documentId)

/-- What `process` knows before its bulk call. -/
structure Plan (τ : Type) where
  latest : Dict Str (DocumentEvent Str τ)
  operations : List Operation
  skipped : List Str

def plan (c : Unicode) (documents : Documents) (events : List (DocumentEvent Str τ)) : Plan τ :=
  let latest := latest events
  let ids := latest.keys.filterMap (Uuid.parse c)
  let malformed := latest.keys.filter fun d => (Uuid.parse c d).isNone
  let rows := DocumentRepository.getMany documents ids
  let wellFormed := latest.keys.filter fun d => decide (d ∉ malformed)
  { latest := latest
    operations := wellFormed.filterMap fun d => (rowOf rows d).map (operationFor d)
    skipped := malformed ++ wellFormed.filter fun d => (rowOf rows d).isNone }

namespace Plan

def indexIds (p : Plan τ) : List Str :=
  (p.operations.filter Operation.isIndex).map Operation.documentId

def deleteIds (p : Plan τ) : List Str :=
  (p.operations.filter fun op => !op.isIndex).map Operation.documentId

/-- The outcome without a bulk call. -/
def idle (p : Plan τ) : ProcessOutcome := ⟨[], [], [], p.skipped⟩

/-- The outcome after a bulk call that raised. -/
def raised (p : Plan τ) : ProcessOutcome := ⟨[], [], p.latest.keys, p.skipped⟩

/-- The outcome after a bulk call. -/
def outcome (p : Plan τ) (result : BulkResult) : ProcessOutcome where
  indexed := p.indexIds.filter fun d => decide (d ∈ result.succeeded)
  deleted := p.deleteIds.filter fun d => decide (d ∈ result.succeeded)
  failed := (p.indexIds ++ p.deleteIds).filter fun d => decide (d ∉ result.succeeded)
  skipped := p.skipped

/-- The tenants of the changed documents, as the events have them. -/
def changedTenants (p : Plan τ) (o : ProcessOutcome) : List τ :=
  ((o.indexed ++ o.deleted).filterMap p.latest.get?).map DocumentEvent.tenantId

end Plan

/-! ### What a plan holds -/

/-- `keepNewest` holds the new event, or changes nothing. -/
theorem keepNewest_cases (acc : Dict Str (DocumentEvent Str τ)) (a : DocumentEvent Str τ) :
    keepNewest acc a = acc.set a.documentId a ∨
      (keepNewest acc a = acc ∧ a.documentId ∈ acc.keys) := by
  unfold keepNewest
  split
  · exact .inl rfl
  · rename_i current hc
    split
    · exact .inl rfl
    · exact .inr ⟨rfl, Dict.mem_keys.mpr ⟨current, hc⟩⟩

theorem get?_keepNewest {acc : Dict Str (DocumentEvent Str τ)} {a e : DocumentEvent Str τ} {k : Str}
    (h : (keepNewest acc a).get? k = some e) :
    (e = a ∧ a.documentId = k) ∨ acc.get? k = some e := by
  rcases keepNewest_cases acc a with hk | ⟨hk, -⟩
  · rw [hk, Dict.get?_set] at h
    split at h
    · rename_i he; exact .inl ⟨(Option.some.inj h).symm, he.symm⟩
    · exact .inr h
  · exact .inr (hk ▸ h)

theorem mem_keys_keepNewest {acc : Dict Str (DocumentEvent Str τ)} {a : DocumentEvent Str τ}
    {k : Str} : k ∈ (keepNewest acc a).keys ↔ k = a.documentId ∨ k ∈ acc.keys := by
  rcases keepNewest_cases acc a with hk | ⟨hk, hm⟩
  · rw [hk, Dict.mem_keys_set]
  · rw [hk]
    exact ⟨.inr, fun h => h.elim (fun e => e ▸ hm) id⟩

/-- What is held for a document is an event of the batch that names it. -/
theorem get?_latest {events : List (DocumentEvent Str τ)} {k : Str} {e : DocumentEvent Str τ}
    (h : (latest events).get? k = some e) : e ∈ events ∧ e.documentId = k := by
  have key : ∀ (l : List (DocumentEvent Str τ)) (acc : Dict Str (DocumentEvent Str τ)),
      (l.foldl keepNewest acc).get? k = some e → (e ∈ l ∧ e.documentId = k) ∨ acc.get? k = some e := by
    intro l
    induction l with
    | nil => exact fun acc h => .inr h
    | cons a l ih =>
        intro acc h
        rcases ih _ h with ⟨hm, hk⟩ | h
        · exact .inl ⟨List.mem_cons_of_mem a hm, hk⟩
        · rcases get?_keepNewest h with ⟨rfl, hk⟩ | h
          · exact .inl ⟨List.mem_cons_self, hk⟩
          · exact .inr h
  exact (key events .empty h).resolve_right fun h => by cases h

theorem mem_keys_latest {events : List (DocumentEvent Str τ)} {k : Str} :
    k ∈ (latest events).keys ↔ ∃ e ∈ events, e.documentId = k := by
  have key : ∀ (l : List (DocumentEvent Str τ)) (acc : Dict Str (DocumentEvent Str τ)),
      k ∈ (l.foldl keepNewest acc).keys ↔ k ∈ acc.keys ∨ ∃ e ∈ l, e.documentId = k := by
    intro l
    induction l with
    | nil => simp
    | cons a l ih =>
        intro acc
        rw [List.foldl_cons, ih, mem_keys_keepNewest, List.exists_mem_cons_iff, or_assoc,
          or_left_comm, eq_comm]
  rw [latest, key]
  simp [Dict.mem_keys]

theorem documentId_operationFor (s : Str) (d : Document) : (operationFor s d).documentId = s := by
  unfold operationFor; split <;> rfl

theorem tenantId_operationFor (s : Str) (d : Document) : (operationFor s d).tenantId = d.tenantId := by
  unfold operationFor; split <;> rfl

theorem rowOf_eq_some {rows : List Document} {s : Str} {d : Document}
    (h : rowOf rows s = some d) : d ∈ rows ∧ d.id.str = s :=
  ⟨List.mem_of_find?_eq_some h, of_decide_eq_true (List.find?_some h :)⟩

variable {c : Unicode} {documents : Documents} {events : List (DocumentEvent Str τ)}

/-- **The operations of a batch** are those of the rows its events name. -/
theorem mem_operations {op : Operation} :
    op ∈ (plan c documents events).operations ↔
      ∃ d, documents.find? d.id = some d ∧ (∃ e ∈ events, e.documentId = d.id.str) ∧
        op = operationFor d.id.str d := by
  simp only [plan, List.mem_filterMap, List.mem_filter, Option.map_eq_some_iff]
  constructor
  · rintro ⟨s, ⟨hs, -⟩, d, hd, rfl⟩
    obtain ⟨hm, rfl⟩ := rowOf_eq_some hd
    exact ⟨d, (DocumentRepository.mem_getMany.mp hm).1, mem_keys_latest.mp hs, rfl⟩
  · rintro ⟨d, hd, he, rfl⟩
    have hkey := mem_keys_latest.mpr he
    refine ⟨d.id.str, ⟨hkey, ?_⟩, d, ?_, rfl⟩
    · simp [Uuid.parse_str]
    · -- the id parses back, so the row is among those read, and it is the only one with its id
      have hmem : d ∈ DocumentRepository.getMany documents
          ((latest events).keys.filterMap (Uuid.parse c)) :=
        DocumentRepository.mem_getMany.mpr
          ⟨hd, List.mem_filterMap.mpr ⟨d.id.str, hkey, Uuid.parse_str c d.id⟩⟩
      have hsome : (rowOf (DocumentRepository.getMany documents
          ((latest events).keys.filterMap (Uuid.parse c))) d.id.str).isSome := by
        rw [rowOf, List.find?_isSome]
        exact ⟨d, hmem, decide_eq_true rfl⟩
      obtain ⟨x, hx⟩ := Option.isSome_iff_exists.mp hsome
      obtain ⟨hxm, hxs⟩ := rowOf_eq_some hx
      have hxd := (DocumentRepository.mem_getMany.mp hxm).1
      rw [Uuid.str_inj.mp hxs, hd] at hxd
      rw [hx, ← Option.some.inj hxd]

/-- The documents an operation is planned for. -/
theorem map_documentId_filterMap (f : Str → Option Document) (l : List Str) :
    (l.filterMap fun s => (f s).map (operationFor s)).map Operation.documentId =
      l.filter fun s => (f s).isSome := by
  induction l with
  | nil => rfl
  | cons s l ih => cases hf : f s <;> simp [hf, ih, documentId_operationFor]

theorem nodup_operations :
    ((plan c documents events).operations.map Operation.documentId).Nodup := by
  have hsub : ((plan c documents events).operations.map Operation.documentId).Sublist
      (latest events).keys := by
    simp only [plan, map_documentId_filterMap]
    exact List.filter_sublist.trans List.filter_sublist
  exact (Dict.keys_nodup _).sublist hsub

/-- The ids a plan indexes, and those it deletes, are the ids of its operations. -/
theorem Plan.mem_indexIds {p : Plan τ} {s : Str} :
    s ∈ p.indexIds ↔ ∃ op ∈ p.operations, op.isIndex = true ∧ op.documentId = s := by
  simp [Plan.indexIds, and_assoc]

theorem Plan.mem_deleteIds {p : Plan τ} {s : Str} :
    s ∈ p.deleteIds ↔ ∃ op ∈ p.operations, op.isIndex = false ∧ op.documentId = s := by
  simp [Plan.deleteIds, and_assoc]

/-- Every confirmed operation changes the document it names. -/
theorem Plan.mem_changed {p : Plan τ} {r : BulkResult} {s : Str} :
    s ∈ (p.outcome r).indexed ++ (p.outcome r).deleted ↔
      ∃ op ∈ p.operations, op.documentId = s ∧ s ∈ r.succeeded := by
  simp only [Plan.outcome, List.mem_append, List.mem_filter, Plan.mem_indexIds, Plan.mem_deleteIds,
    decide_eq_true_eq]
  constructor
  · rintro (⟨⟨op, hop, -, rfl⟩, hs⟩ | ⟨⟨op, hop, -, rfl⟩, hs⟩)
    · exact ⟨op, hop, rfl, hs⟩
    · exact ⟨op, hop, rfl, hs⟩
  · rintro ⟨op, hop, rfl, hs⟩
    cases hi : op.isIndex with
    | true => exact .inl ⟨⟨op, hop, hi, rfl⟩, hs⟩
    | false => exact .inr ⟨⟨op, hop, hi, rfl⟩, hs⟩

end Batch

/-! ### The call -/

variable {K : Type} {E : SearchEngine K}

/-- `engine.bulk`. -/
def bulk (w : World E) (ops : List Operation) : Except EngineError BulkResult × World E :=
  match E.bulk w.engine ops with
  | (.error e, engine) => (.error e, { w with engine := engine })
  | (.ok r, engine) => (.ok r, { w with engine := engine }.record (.applied ops r.succeeded))

/-- `mark_indexed` and the commit. -/
def commit (c : Unicode) (w : World E) (indexed : List Str) : World E :=
  { w with
    documents := DocumentRepository.markIndexed w.documents (indexed.filterMap (Uuid.parse c)) w.now }

/-- One increment of `_invalidate`. -/
def bump (w : World E) (bulkAt : ℕ) (tenantId : Str) : World E :=
  match (w.cache.incr (searchGenerationKey tenantId)).1 with
  | some generation => (w.invalidateTenant tenantId).record (.bumped tenantId generation bulkAt)
  | none => w.invalidateTenant tenantId

def process (rt : Runtime K) (w : World E) (events : List Event) : ProcessOutcome × World E :=
  let plan := plan rt.toUnicode w.documents events
  if plan.operations.isEmpty then (plan.idle, w)
  else
    match bulk w plan.operations with
    | (.error _, w) => (plan.raised, w)
    | (.ok result, w) =>
        let outcome := plan.outcome result
        let tenants := rt.iterateSet (plan.changedTenants outcome).toFinset
        let w' := tenants.foldl (fun w' t => bump w' w.clock t)
          (commit rt.toUnicode w outcome.indexed)
        (outcome, w'.record (.processed plan.operations result.succeeded w.clock))

/-! ### Its steps -/

inductive ProcessStep where
  | read (events : List Event)
  | bulk (plan : Plan Str)
  | commit (plan : Plan Str) (result : BulkResult) (bulkAt : ℕ)
  | invalidate (plan : Plan Str) (result : BulkResult) (bulkAt : ℕ) (tenants : List Str)

/-- On to the increments that are left, or the return. -/
def proceed (w : World E) (plan : Plan Str) (result : BulkResult) (bulkAt : ℕ) :
    List Str → World E × Option ProcessStep
  | [] => (w.record (.processed plan.operations result.succeeded bulkAt), none)
  | t :: ts => (w, some (.invalidate plan result bulkAt (t :: ts)))

/-- `pick` is the tenant that the iteration over the set of tenants comes to next. -/
def resumeProcess (c : Unicode) (w : World E) (pick : Str) :
    ProcessStep → Option (World E × Option ProcessStep)
  | .read events =>
      let plan := plan c w.documents events
      if plan.operations.isEmpty then some (w, none) else some (w, some (.bulk plan))
  | .bulk plan =>
      match IndexingProcessor.bulk w plan.operations with
      | (.error _, w') => some (w', none)
      | (.ok result, w') => some (w', some (.commit plan result w.clock))
  | .commit plan result bulkAt =>
      let outcome := plan.outcome result
      some (proceed (IndexingProcessor.commit c w outcome.indexed) plan result bulkAt
        (plan.changedTenants outcome).dedup)
  | .invalidate plan result bulkAt tenants =>
      if pick ∈ tenants then
        some (proceed (bump w bulkAt pick) plan result bulkAt (tenants.erase pick))
      else none

end IndexingProcessor

end DocSearch
