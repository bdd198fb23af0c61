import DocSearch.Core.JsonText
import DocSearch.Workers.Fleet

/-!
# Workers — Wire

The events of the service as bytes: what the publisher writes, and what a consumer reads of it.

* `loads_body`: an event, whatever its strings are, is written and read back.
* `wire_transparent`: the messages of some events are decoded to these events, and a batch of them is
  processed like the events.
-/

namespace DocSearch

open JsonText

namespace StampedEvent

/-- `to_json`, `none` when it raises. -/
def toJson (reprFloat : PyFloat → Str) (e : StampedEvent Str Str) : Option Str :=
  dumps reprFloat e.asdict

/-- The body of the message that `RabbitMQPublisher.publish` hands to the exchange. -/
def body (reprFloat : PyFloat → Str) (e : StampedEvent Str Str) : Option (List UInt8) :=
  (e.toJson reprFloat).map encode

end StampedEvent

/-- The interpreter reads JSON as `json.loads` does; `parseFloat` reads the text of a float, and
`other` bytes that are not ASCII. -/
def ReadsJson {K : Type} (it : Interpreter K) : Prop :=
  ∃ (parseFloat : Str → PyFloat) (other : List UInt8 → Option Str),
    it.loads = loadsBytes parseFloat other

variable {K : Type} {it : Interpreter K} {reprFloat : PyFloat → Str}

theorem exact_asdict {e : StampedEvent Str Str} (hv : FewDigits e.version) : Exact e.asdict := by
  have hkeys : (["document_id", "tenant_id", "version", "type", "event_id", "occurred_at"].map
      String.toList).Nodup := by decide
  exact ⟨hkeys, trivial, trivial, hv, trivial, trivial, trivial, trivial⟩

/-- The body of an event, written and read. -/
theorem loads_body (h : ReadsJson it) {e : StampedEvent Str Str} (hv : FewDigits e.version) :
    ∃ body, e.body reprFloat = some body ∧ it.loads body = some e.asdict := by
  obtain ⟨parseFloat, other, hloads⟩ := h
  obtain ⟨s, hs, hread⟩ := (loadsBytes_dumps (exact_asdict hv) : ∃ s,
    JsonText.dumps reprFloat e.asdict = some s ∧ loadsBytes parseFloat other (encode s) = some e.asdict)
  refine ⟨encode s, ?_, by rw [hloads, hread]⟩
  rw [StampedEvent.body, StampedEvent.toJson, hs]
  rfl

/-- **The wire is transparent.**  For every list of events whose versions are not too long, with any
strings in them: all are written, what the consumer decodes are these events, with all their fields,
nothing raises when the batch is processed, and it is processed as `process` does the events
themselves.  Those of the service's two types are messages as the fleet of consumers relies on. -/
theorem wire_transparent {E : SearchEngine K} (h : ReadsJson it) (reprFloat : PyFloat → Str)
    (fresh : List UInt8 → Str) (w : World E) (events : List (StampedEvent Str Str))
    (hv : ∀ e ∈ events, FewDigits e.version) :
    ∃ bodies, events.mapM (StampedEvent.body reprFloat) = some bodies ∧
      bodies.mapM (fun body => (it.loads body).bind
        (StampedEvent.fromDict it.toUnicode (fresh body))) = some (events.map StampedEvent.decoded) ∧
      (bodies.mapM (Fleet.decode it)).map (IndexingProcessor.processDecoded it w) =
        some (.ok (IndexingProcessor.process it.toRuntime w
          (events.map StampedEvent.toDocumentEvent))) ∧
      ∀ e ∈ events, IsEventType e.type → ∃ body ∈ bodies, e.body reprFloat = some body ∧
        Fleet.Sound it ⟨body, e.type, .empty⟩ := by
  -- each event by itself
  have hread : ∃ bodies, events.mapM (StampedEvent.body reprFloat) = some bodies ∧
      bodies.mapM (fun body => (it.loads body).bind
        (StampedEvent.fromDict it.toUnicode (fresh body))) = some (events.map StampedEvent.decoded) ∧
      bodies.mapM (Fleet.decode it) =
        some ((events.map StampedEvent.toDocumentEvent).map DocumentEvent.decoded) ∧
      ∀ e ∈ events, ∃ body ∈ bodies, e.body reprFloat = some body ∧
        it.loads body = some e.asdict := by
    induction events with
    | nil => exact ⟨[], rfl, rfl, rfl, nofun⟩
    | cons e events ih =>
        obtain ⟨hhead, htail⟩ := List.forall_mem_cons.mp hv
        obtain ⟨bodies, hbodies, hstamped, hdecoded, hwritten⟩ := ih htail
        obtain ⟨body, hbody, hloads⟩ := (loads_body h hhead : ∃ body,
          e.body reprFloat = some body ∧ it.loads body = some e.asdict)
        have hevent : Fleet.decode it body = some e.toDocumentEvent.decoded := by
          rw [Fleet.decode, hloads]
          rfl
        refine ⟨body :: bodies, ?_, ?_, ?_, List.forall_mem_cons.mpr
          ⟨⟨body, List.mem_cons_self, hbody, hloads⟩, fun e he => ?_⟩⟩
        · simp only [List.mapM_cons, hbody, hbodies]
          rfl
        · simp only [List.mapM_cons, hloads, Option.bind_some, StampedEvent.fromDict_asdict, hstamped]
          rfl
        · simp only [List.mapM_cons, hevent, hdecoded]
          rfl
        · obtain ⟨body, hm, hrest⟩ := hwritten e he
          exact ⟨body, List.mem_cons_of_mem _ hm, hrest⟩
  obtain ⟨bodies, hbodies, hstamped, hdecoded, hwritten⟩ := hread
  refine ⟨bodies, hbodies, hstamped, ?_, fun e he htype => ?_⟩
  · rw [hdecoded, Option.map_some, IndexingProcessor.processDecoded_decoded]
  · obtain ⟨body, hm, hbody, hloads⟩ := hwritten e he
    exact ⟨body, hm, hbody, Fleet.sound_event htype hloads⟩

namespace Sample

/-- The sample interpreter, with `json.loads`. -/
def jsonInterpreter : Interpreter ℚ :=
  { interpreter with loads := loadsBytes (fun _ => .nan) fun _ => none }

/-- An event of a tenant whose name has a quote, a line break and a character beyond ASCII. -/
def awkwardEvent : StampedEvent Str Str where
  documentId := documentA.str
  tenantId := [quote, '\n', Char.ofNat 233, Char.ofNat 128512]
  version := 1
  type := eventIndex
  eventId := "0".toList
  occurredAt := "2024-01-01T00:00:00+00:00".toList

theorem wire_transparent_sample :
    ∃ bodies, [awkwardEvent].mapM (StampedEvent.body fun _ => []) = some bodies ∧
      bodies.mapM (fun body => (jsonInterpreter.loads body).bind
        (StampedEvent.fromDict jsonInterpreter.toUnicode [])) = some [awkwardEvent.decoded] ∧
      (bodies.mapM (Fleet.decode jsonInterpreter)).map
          (IndexingProcessor.processDecoded jsonInterpreter idleWorld) =
        some (.ok (IndexingProcessor.process jsonInterpreter.toRuntime idleWorld
          [awkwardEvent.toDocumentEvent])) ∧
      ∀ e ∈ [awkwardEvent], IsEventType e.type → ∃ body ∈ bodies,
        e.body (fun _ => []) = some body ∧ Fleet.Sound jsonInterpreter ⟨body, e.type, .empty⟩ :=
  wire_transparent ⟨_, _, rfl⟩ (fun _ => []) (fun _ => []) idleWorld [awkwardEvent]
    (by decide +kernel)

end Sample

end DocSearch
