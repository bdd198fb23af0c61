import DocSearch.Clients.SearchEngine

/-!
# Clients — OpenSearchEngine

The adapter of the port to an OpenSearch cluster: the body of a bulk request and what its response
says of each operation, the body of a search and the hits made of its response.

* `mem_bulkResult`: every item of a bulk response is reported, and reported once.
-/

namespace DocSearch

/-- The settings the adapter reads. -/
structure OpenSearchSettings where
  opensearchIndex : Str
  searchTrackTotalHits : ℕ

namespace OpenSearchEngine

/-! ### bulk -/

structure ActionMeta where
  index : Str
  id : Str
  routing : Str
  version : ℤ
  versionType : Str

/-- An action of a bulk body, with its source line. -/
inductive BulkAction where
  | index (action : ActionMeta) (source : SearchSource)
  | delete (action : ActionMeta)

/-- An item of a bulk response: its action, and the `_id` and `status` it has. -/
structure BulkItem where
  action : Str
  id? : Option Str
  status? : Option ℤ

def actionOf (settings : OpenSearchSettings) (op : Operation) : BulkAction :=
  let action : ActionMeta :=
    ⟨settings.opensearchIndex, op.documentId, op.tenantId, op.version, "external".toList⟩
  match op with
  | .index _ _ _ source => .index action source
  | .delete _ _ _ => .delete action

namespace BulkItem

def docId (item : BulkItem) : Str := item.id?.getD []

/-- A version conflict means that a newer version already won; a delete that finds nothing is done. -/
def success (item : BulkItem) : Bool :=
  let status := item.status?.getD 500
  decide (status < 300) || decide (status = 409) ||
    (decide (item.action = "delete".toList) && decide (status = 404))

end BulkItem

def bulkResult (items : List BulkItem) : BulkResult where
  succeeded := (items.filter BulkItem.success).map BulkItem.docId
  failed := (items.filter fun item => !item.success).map BulkItem.docId

theorem mem_bulkResult {items : List BulkItem} {d : Str} :
    (d ∈ (bulkResult items).succeeded ∨ d ∈ (bulkResult items).failed ↔
      ∃ item ∈ items, item.docId = d) ∧
    (bulkResult items).succeeded.length + (bulkResult items).failed.length = items.length := by
  refine ⟨?_, ?_⟩
  · simp only [bulkResult, List.mem_map, List.mem_filter]
    constructor
    · rintro (⟨item, ⟨hm, -⟩, hd⟩ | ⟨item, ⟨hm, -⟩, hd⟩) <;> exact ⟨item, hm, hd⟩
    · rintro ⟨item, hm, hd⟩
      cases hs : item.success with
      | true => exact .inl ⟨item, ⟨hm, hs⟩, hd⟩
      | false => exact .inr ⟨item, ⟨hm, by rw [hs]; rfl⟩, hd⟩
  · rw [bulkResult, List.length_map, List.length_map]
    exact (List.length_eq_length_filter_add BulkItem.success).symm

/-! ### search -/

structure MultiMatch where
  query : Str
  fields : List Str
  type : Str
  operator : Str
  fuzziness : Option Str
  minimumShouldMatch : Option Str

structure Highlight where
  preTags : List Str
  postTags : List Str
  fragmentSize : ℕ
  numberOfFragments : ℕ

structure SearchBody where
  offset : ℤ
  size : ℤ
  trackTotalHits : ℕ
  sourceIncludes : List Str
  must : MultiMatch
  /-- The value of the `term` filter on `tenant_id`. -/
  tenantFilter : Str
  /-- The highlighting of `content`; `title` is highlighted whole. -/
  highlight : Option Highlight
  /-- The fields of the `terms` aggregations, and their size. -/
  aggs : List (Str × ℕ)

def sourceFields : List Str :=
  ["document_id", "title", "content_type", "tags", "metadata", "created_at", "updated_at"].map
    String.toList

/-- `_build_body`. -/
def buildBody (settings : OpenSearchSettings) (q : SearchQuery) : SearchBody where
  offset := q.offset
  size := q.size
  trackTotalHits := settings.searchTrackTotalHits
  sourceIncludes := sourceFields
  must :=
    { query := q.text
      -- title matches outrank body matches
      fields := ["title^3".toList, "content".toList]
      type := "best_fields".toList
      operator := if q.fuzzy then "or".toList else "and".toList
      fuzziness := if q.fuzzy then some "AUTO".toList else none
      minimumShouldMatch := if q.fuzzy then some "2<70%".toList else none }
  tenantFilter := q.tenantId
  highlight := if q.highlight then some ⟨["<em>".toList], ["</em>".toList], 160, 1⟩ else none
  aggs := if q.facets then [("content_type".toList, 10), ("tags".toList, 10)] else []

/-- The `_source` of a raw hit, with its dates parsed. -/
structure RawSource where
  documentId : Option Str
  title : Option Str
  contentType : Option Str
  tags : Option (List Str)
  metadata : Option (List (Str × Json))
  createdAt : Option Timestamp
  updatedAt : Option Timestamp

structure RawHit (K : Type) where
  id : Option Str
  score : Option K
  source : RawSource
  highlightContent : List Str
  highlightTitle : List Str

structure RawResponse (K : Type) where
  hits : List (RawHit K)
  totalValue : ℕ
  totalRelation : Option Str
  aggregations : List (Str × List (Str × ℕ))

/-- `_to_hit`. -/
def toHit {K : Type} [Zero K] (raw : RawHit K) : EngineHit K where
  documentId := raw.source.documentId.getD (raw.id.getD [])
  score := raw.score.getD 0
  title := raw.source.title.getD []
  snippet := (raw.highlightContent.head?).or raw.highlightTitle.head?
  contentType := raw.source.contentType
  tags := raw.source.tags.getD []
  metadata := raw.source.metadata.getD []
  createdAt := raw.source.createdAt
  updatedAt := raw.source.updatedAt

def toResult {K : Type} [Zero K] (response : RawResponse K) : EngineResult K where
  hits := response.hits.map toHit
  total := response.totalValue
  totalIsLowerBound := decide (response.totalRelation = some "gte".toList)
  facets := response.aggregations

/-- A cluster as its client shows it, with the retries of the calls and the circuit breaker of the
searches. -/
structure Cluster (K : Type) where
  State : Type
  bulk : State → List BulkAction → Except EngineError (List BulkItem) × State
  search : State → (index routing preference : Str) → SearchBody → Except EngineError (RawResponse K)
  setAvailable : State → Bool → State
  refresh : State → State

end OpenSearchEngine

open OpenSearchEngine in
/-- `OpenSearchEngine`. -/
def openSearch {K : Type} [Zero K] (settings : OpenSearchSettings) (C : Cluster K) : SearchEngine K where
  State := C.State
  bulk st ops :=
    if ops = [] then (.ok ⟨[], []⟩, st)
    else
      match C.bulk st (ops.map (actionOf settings)) with
      | (.ok items, st') => (.ok (bulkResult items), st')
      | (.error e, st') => (.error e, st')
  search st q :=
    match C.search st settings.opensearchIndex q.tenantId q.tenantId (buildBody settings q) with
    | .ok response => .ok (toResult response)
    | .error e => .error e
  setAvailable := C.setAvailable
  refresh := C.refresh

end DocSearch
