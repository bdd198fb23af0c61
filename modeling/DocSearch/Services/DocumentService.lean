import DocSearch.Services.World

/-!
# Services — DocumentService

`create`, `get` and `delete`, each as one function of the world, and each cut at its awaits into
the steps that other tasks may come between: `resumeCreate`, `resumeGet` and `resumeDelete`.
-/

namespace DocSearch

open CacheKeys

namespace DocumentService

variable {K : Type} {E : SearchEngine K}

def notFound : ServiceError := .notFound "Document not found.".toList

/-- `_publish`: a failure is left to the reconciler. -/
def publish (w : World E) (event : Event) : World E := (w.publish event).getD w

def indexEvent (tenantId : Str) (document : Document) : Event :=
  ⟨document.id.str, tenantId, document.version, eventIndex⟩

def deleteEvent (tenantId : Str) (document : Document) : Event :=
  ⟨document.id.str, tenantId, document.version, eventDelete⟩

/-- The insertion and commit of a new row, `none` when the table refuses it. -/
def insert (w : World E) (tenantId : Str) (id : Uuid) (payload : DocumentCreate) :
    Option (Document × World E) :=
  let document := Document.new id tenantId payload w.now
  (DocumentRepository.create w.documents document).map fun t => (document, { w with documents := t })

/-- `soft_delete` of the object read earlier, and its commit. -/
def softDelete (w : World E) (document : Document) : Document × World E :=
  (DocumentRepository.softDeleted document w.now,
    { w with documents := DocumentRepository.softDelete w.documents document w.now })

def uncache (w : World E) (tenantId : Str) (documentId : Uuid) : World E :=
  { w with cache := w.cache.delete (documentKey tenantId documentId.str) }.record
    (.uncached tenantId documentId)

/-- `DocumentResponse.model_validate`. -/
def validate : CacheValue K → Except ServiceError DocumentResponse
  | .document response => .ok response
  | .generation _ | .search _ => .error .validation

/-! ### The requests -/

def create (w : World E) (tenantId : Str) (id : Uuid) (payload : DocumentCreate) :
    Option Document × World E :=
  match insert w tenantId id payload with
  | none => (none, w)
  | some (document, w) =>
      let w := publish w (indexEvent tenantId document)
      let w := w.invalidateTenant tenantId
      (some document, w.record (.created tenantId document))

def get (w : World E) (startedAt : ℕ) (tenantId : Str) (documentId : Uuid) :
    Except ServiceError DocumentResponse × World E :=
  let key := documentKey tenantId documentId.str
  let answer (w : World E) (r : Except ServiceError DocumentResponse) :=
    (r, w.record (.got tenantId documentId startedAt r))
  match w.cache.getJson key with
  | some cached => answer w (validate cached)
  | none =>
      match DocumentRepository.get w.documents tenantId documentId false with
      | none => answer w (.error notFound)
      | some document =>
          let response := DocumentResponse.fromModel document
          answer { w with cache := w.cache.setJson key (.document response) } (.ok response)

def delete (w : World E) (tenantId : Str) (documentId : Uuid) : Except ServiceError Unit × World E :=
  match DocumentRepository.get w.documents tenantId documentId false with
  | none => (.error notFound, w)
  | some document =>
      let (document, w) := softDelete w document
      let w := uncache w tenantId documentId
      let w := w.invalidateTenant tenantId
      let w := publish w (deleteEvent tenantId document)
      (.ok (), w.record (.deleted tenantId documentId))

/-! ### Their steps -/

/-- Where a suspended request stands: what it does when it runs again. -/
inductive CreateStep where
  | insert (id : Uuid) (payload : DocumentCreate)
  | publish (document : Document)
  | invalidate (document : Document)

inductive GetStep where
  | cacheRead
  | dbRead
  | cacheWrite (response : DocumentResponse)

inductive DeleteStep where
  | read
  | commit (document : Document)
  | cacheDelete (document : Document)
  | invalidate (document : Document)
  | publish (document : Document)

def resumeCreate (w : World E) (tenantId : Str) : CreateStep → World E × Option CreateStep
  | .insert id payload =>
      match insert w tenantId id payload with
      | none => (w, none)
      | some (document, w) => (w, some (.publish document))
  | .publish document => (publish w (indexEvent tenantId document), some (.invalidate document))
  | .invalidate document =>
      ((w.invalidateTenant tenantId).record (.created tenantId document), none)

def resumeGet (w : World E) (startedAt : ℕ) (tenantId : Str) (documentId : Uuid) :
    GetStep → World E × Option GetStep
  | .cacheRead =>
      match w.cache.getJson (documentKey tenantId documentId.str) with
      | some cached => (w.record (.got tenantId documentId startedAt (validate cached)), none)
      | none => (w, some .dbRead)
  | .dbRead =>
      match DocumentRepository.get w.documents tenantId documentId false with
      | none => (w.record (.got tenantId documentId startedAt (.error notFound)), none)
      | some document => (w, some (.cacheWrite (.fromModel document)))
  | .cacheWrite response =>
      ({ w with
          cache := w.cache.setJson (documentKey tenantId documentId.str) (.document response)
        }.record (.got tenantId documentId startedAt (.ok response)), none)

def resumeDelete (w : World E) (tenantId : Str) (documentId : Uuid) :
    DeleteStep → World E × Option DeleteStep
  | .read =>
      match DocumentRepository.get w.documents tenantId documentId false with
      | none => (w, none)
      | some document => (w, some (.commit document))
  | .commit document =>
      let (document, w) := softDelete w document
      (w, some (.cacheDelete document))
  | .cacheDelete document => (uncache w tenantId documentId, some (.invalidate document))
  | .invalidate document => (w.invalidateTenant tenantId, some (.publish document))
  | .publish document =>
      ((publish w (deleteEvent tenantId document)).record (.deleted tenantId documentId), none)

end DocumentService

end DocSearch
