import DocSearch.Core.Python

/-!
# Clients — Queue

Indexing events, and the publisher that holds them until a worker takes them.  The fields of an
event are typed only by convention: what arrives from the broker may be any JSON value, so an
event takes the type of its document id and of its other fields as parameters.
-/

namespace DocSearch

def eventIndex : Str := "document.index".toList

def eventDelete : Str := "document.delete".toList

structure DocumentEvent (ι τ : Type) where
  documentId : ι
  tenantId : τ
  version : ℤ
  type : τ
  deriving DecidableEq

/-- An event as the producers build it. -/
abbrev Event := DocumentEvent Str Str

/-- An event as a consumer decodes it. -/
abbrev DecodedEvent := DocumentEvent Json Json

namespace DocumentEvent

/-- `from_dict`, `none` when it raises, without the two fields of `StampedEvent`. -/
def fromDict (u : Unicode) (payload : Json) : Option DecodedEvent := do
  let documentId ← payload.item? "document_id".toList
  let tenantId ← payload.item? "tenant_id".toList
  let version ← (← payload.item? "version".toList).int? u
  return {
    documentId := documentId
    tenantId := tenantId
    version := version
    type := (payload.item? "type".toList).getD (.str eventIndex) }

/-- `asdict`, which `to_json` writes out; the last two fields are drawn when an event is built. -/
def asdict (e : Event) (eventId occurredAt : Str) : Json :=
  .object [("document_id".toList, .str e.documentId), ("tenant_id".toList, .str e.tenantId),
    ("version".toList, .int e.version), ("type".toList, .str e.type),
    ("event_id".toList, .str eventId), ("occurred_at".toList, .str occurredAt)]

/-- What a consumer decodes from an event of the producers. -/
def decoded (e : Event) : DecodedEvent where
  documentId := .str e.documentId
  tenantId := .str e.tenantId
  version := e.version
  type := .str e.type

theorem fromDict_asdict (u : Unicode) (e : Event) (eventId occurredAt : Str) :
    fromDict u (e.asdict eventId occurredAt) = some e.decoded := rfl

end DocumentEvent

/-- An event with the two fields that are drawn when it is built and that no code reads. -/
structure StampedEvent (ι τ : Type) extends DocumentEvent ι τ where
  eventId : τ
  occurredAt : τ

namespace StampedEvent

/-- `from_dict` with all its fields; `fresh` is the id drawn for an event that has none. -/
def fromDict (u : Unicode) (fresh : Str) (payload : Json) : Option (StampedEvent Json Json) :=
  (DocumentEvent.fromDict u payload).map fun event =>
    { event with
      eventId := (payload.item? "event_id".toList).getD (.str fresh)
      occurredAt := (payload.item? "occurred_at".toList).getD (.str []) }

def asdict (e : StampedEvent Str Str) : Json := e.toDocumentEvent.asdict e.eventId e.occurredAt

/-- What is decoded from it. -/
def decoded (e : StampedEvent Str Str) : StampedEvent Json Json where
  toDocumentEvent := e.toDocumentEvent.decoded
  eventId := .str e.eventId
  occurredAt := .str e.occurredAt

theorem fromDict_asdict (u : Unicode) (fresh : Str) (e : StampedEvent Str Str) :
    fromDict u fresh e.asdict = some e.decoded := rfl

end StampedEvent

/-- `InMemoryPublisher`: a durable queue. -/
structure Publisher where
  events : List Event
  available : Bool

namespace Publisher

/-- `publish`, `none` when it raises. -/
def publish (p : Publisher) (event : Event) : Option Publisher :=
  if p.available then some { p with events := p.events ++ [event] } else none

def drain (p : Publisher) : List Event × Publisher := (p.events, { p with events := [] })

theorem publish_of_available {p : Publisher} (h : p.available = true) (event : Event) :
    p.publish event = some { p with events := p.events ++ [event] } := if_pos h

end Publisher

end DocSearch
