import DocSearch.Core.Uuid
import DocSearch.Support.Table

/-!
# Models — Document

The `documents` table: its rows, its statuses, and the two shapes a document crosses the API in.
-/

namespace DocSearch

/-- An instant, in microseconds. -/
abbrev Timestamp := ℕ

inductive DocumentStatus where
  | pending
  | indexed
  | failed
  | deleted
  deriving DecidableEq

/-- A row of `documents`. -/
structure Document where
  id : Uuid
  tenantId : Str
  title : Str
  content : Str
  contentType : Str
  tags : List Str
  docMetadata : List (Str × Json)
  version : ℤ
  status : DocumentStatus
  createdAt : Timestamp
  updatedAt : Timestamp
  indexedAt : Option Timestamp
  deletedAt : Option Timestamp

/-- The `documents` table. -/
abbrev Documents := Table Document.id

/-- The body of `POST /documents`, after its validation. -/
structure DocumentCreate where
  title : Str
  content : Str
  contentType : Str
  tags : List Str
  metadata : List (Str × Json)

/-- The body of `GET /documents/{id}`. -/
structure DocumentResponse where
  id : Uuid
  tenantId : Str
  title : Str
  content : Str
  contentType : Str
  tags : List Str
  metadata : List (Str × Json)
  version : ℤ
  status : DocumentStatus
  createdAt : Timestamp
  updatedAt : Timestamp
  indexedAt : Option Timestamp

def DocumentResponse.fromModel (d : Document) : DocumentResponse where
  id := d.id
  tenantId := d.tenantId
  title := d.title
  content := d.content
  contentType := d.contentType
  tags := d.tags
  metadata := d.docMetadata
  version := d.version
  status := d.status
  createdAt := d.createdAt
  updatedAt := d.updatedAt
  indexedAt := d.indexedAt

/-- The part of a document that nothing changes once it is created. -/
structure DocumentBody where
  id : Str
  tenantId : Str
  title : Str
  content : Str
  contentType : Str
  tags : List Str
  metadata : List (Str × Json)
  createdAt : Timestamp

def Document.body (d : Document) : DocumentBody :=
  ⟨d.id.str, d.tenantId, d.title, d.content, d.contentType, d.tags, d.docMetadata, d.createdAt⟩

def DocumentResponse.body (r : DocumentResponse) : DocumentBody :=
  ⟨r.id.str, r.tenantId, r.title, r.content, r.contentType, r.tags, r.metadata, r.createdAt⟩

@[simp] theorem DocumentResponse.body_fromModel (d : Document) : (fromModel d).body = d.body := rfl

/-- The row `DocumentService.create` adds, with the column defaults. -/
def Document.new (id : Uuid) (tenantId : Str) (payload : DocumentCreate) (now : Timestamp) :
    Document where
  id := id
  tenantId := tenantId
  title := payload.title
  content := payload.content
  contentType := payload.contentType
  tags := payload.tags
  docMetadata := payload.metadata
  version := 1
  status := .pending
  createdAt := now
  updatedAt := now
  indexedAt := none
  deletedAt := none

end DocSearch
