import DocSearch.Models.Document

/-!
# Clients — SearchEngine

The port of the search engine and the data carried across it.  A `SearchEngine` is any
implementation of the port: the state it keeps, what `bulk` and `search` do to it, and the two
things that happen to it from outside, an outage and a refresh.
-/

namespace DocSearch

/-- The `_source` of an indexed document. -/
structure SearchSource where
  documentId : Str
  tenantId : Str
  title : Str
  content : Str
  contentType : Str
  tags : List Str
  metadata : List (Str × Json)
  version : ℤ
  createdAt : Timestamp
  updatedAt : Timestamp

def SearchSource.body (s : SearchSource) : DocumentBody :=
  ⟨s.documentId, s.tenantId, s.title, s.content, s.contentType, s.tags, s.metadata, s.createdAt⟩

/-- `IndexOperation` and `DeleteOperation`. -/
inductive Operation where
  | index (documentId tenantId : Str) (version : ℤ) (source : SearchSource)
  | delete (documentId tenantId : Str) (version : ℤ)

namespace Operation

def documentId : Operation → Str
  | .index d _ _ _ | .delete d _ _ => d

def tenantId : Operation → Str
  | .index _ t _ _ | .delete _ t _ => t

def version : Operation → ℤ
  | .index _ _ v _ | .delete _ _ v => v

def isIndex : Operation → Bool
  | .index .. => true
  | .delete .. => false

def source? : Operation → Option SearchSource
  | .index _ _ _ s => some s
  | .delete .. => none

end Operation

structure BulkResult where
  succeeded : List Str
  failed : List Str

structure SearchQuery where
  tenantId : Str
  text : Str
  page : ℤ
  size : ℤ
  fuzzy : Bool
  highlight : Bool
  facets : Bool
  deriving DecidableEq

def SearchQuery.offset (q : SearchQuery) : ℤ := (q.page - 1) * q.size

structure EngineHit (K : Type) where
  documentId : Str
  score : K
  title : Str
  snippet : Option Str
  contentType : Option Str
  tags : List Str
  metadata : List (Str × Json)
  createdAt : Option Timestamp
  updatedAt : Option Timestamp

structure EngineResult (K : Type) where
  hits : List (EngineHit K)
  total : ℕ
  totalIsLowerBound : Bool
  facets : List (Str × List (Str × ℕ))

/-- What an engine call raises. -/
inductive EngineError where
  /-- `DependencyUnavailableError`, from an open circuit. -/
  | dependencyUnavailable (dependency : Str)
  | other (message : Str)

/-- An implementation of the port.  A `bulk` that raises may still have changed the index. -/
structure SearchEngine (K : Type) where
  State : Type
  bulk : State → List Operation → Except EngineError BulkResult × State
  search : State → SearchQuery → Except EngineError (EngineResult K)
  setAvailable : State → Bool → State
  refresh : State → State

end DocSearch
