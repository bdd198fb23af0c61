import DocSearch.Workers.Decoding

/-!
# Workers — Consumer

`IndexingConsumer.run`: the loop that collects the messages of the broker in a batch, and `_flush`,
which processes the batch and settles its messages.  Of the clock only the two readings of each
turn of the loop matter.
-/

namespace DocSearch

/-- A message of the broker, with the entries of its `x-death` header. -/
structure Message where
  body : List UInt8
  xDeath : List Json

/-- What `death_count` adds for an entry; it skips an entry it cannot read. -/
def deathsOf (u : Unicode) : Json → ℤ
  | .object fields => ((((Json.object fields).item? "count".toList).getD (.int 0)).int? u).getD 0
  | _ => 0

def deathCount (u : Unicode) (m : Message) : ℤ := (m.xDeath.map (deathsOf u)).sum

structure ConsumerSettings where
  workerBatchSize : ℤ
  workerBatchLingerMs : ℕ
  maxIndexAttempts : ℤ

/-- What the consumer asks the broker to do about the message with a delivery tag. -/
inductive ChannelCall where
  | ack (tag : ℕ)
  /-- `nack(requeue=False)`. -/
  | nack (tag : ℕ)
  /-- The publication to the DLQ exchange. -/
  | publish (tag : ℕ) (body : List UInt8) (routingKey : Json)

def ChannelCall.tag : ChannelCall → ℕ
  | .ack tag | .nack tag | .publish tag _ _ => tag

/-- A message of the batch and the event decoded from it; the tags of a channel count its
deliveries. -/
structure Delivery where
  tag : ℕ
  message : Message
  event : DecodedEvent

namespace IndexingConsumer

open IndexingProcessor

variable {K : Type} {E : SearchEngine K} (it : Interpreter K) (cfg : ConsumerSettings)

/-- The state of the loop. -/
structure Loop (E : SearchEngine K) where
  world : World E
  batch : List Delivery
  deadline : Option ℕ
  delivered : ℕ
  calls : List ChannelCall

/-- `_to_dlq`. -/
def toDlq (d : Delivery) : Except PyError (List ChannelCall) :=
  if it.routable d.event.type then .ok [.publish d.tag d.message.body d.event.type]
  else .error .routingKey

/-- `event.document_id in failed`. -/
def hasFailed (outcome : ProcessOutcome) (e : DecodedEvent) : Bool :=
  match e.documentId with
  | .str s => decide (s ∈ outcome.failed)
  | _ => false

/-- What `_flush` does with one message. -/
def settle (outcome : ProcessOutcome) (d : Delivery) : Except PyError (List ChannelCall) :=
  if hasFailed outcome d.event then
    if cfg.maxIndexAttempts ≤ deathCount it.toUnicode d.message + 1 then do
      return (← toDlq it d) ++ [.ack d.tag]
    else .ok [.nack d.tag]
  else .ok [.ack d.tag]

/-- `_flush`, and the empty batch after it. -/
def flush (s : Loop E) : Except PyError (Loop E) := do
  let (outcome, world) ← processDecoded it s.world (s.batch.map Delivery.event)
  let calls ← s.batch.mapM (settle it cfg outcome)
  return { s with world := world, batch := [], deadline := none, calls := s.calls ++ calls.flatten }

/-- A message arrives: it joins the batch, or is discarded when it cannot be decoded. -/
def receive (s : Loop E) (m : Message) (time : ℕ) : Loop E :=
  let received := { s with
    delivered := s.delivered + 1
    deadline := some (s.deadline.getD (time + cfg.workerBatchLingerMs)) }
  match (it.loads m.body).bind (DocumentEvent.fromDict it.toUnicode) with
  | some event => { received with batch := s.batch ++ [⟨s.delivered, m, event⟩] }
  | none => { received with calls := s.calls ++ [.ack s.delivered] }

/-- A turn of the loop: the message that arrived within the timeout, the clock when it did and when
the deadline is checked, and what other processes have done before. -/
structure Turn (E : SearchEngine K) where
  others : World E → World E
  message : Option Message
  received : ℕ
  checked : ℕ

/-- The first half of a turn. -/
def take (s : Loop E) (t : Turn E) : Loop E :=
  match t.message with
  | some m => receive it cfg { s with world := t.others s.world } m t.received
  | none => { s with world := t.others s.world }

/-- The batch is full, or its time is up. -/
def due (s : Loop E) (time : ℕ) : Bool :=
  !s.batch.isEmpty && (decide (cfg.workerBatchSize ≤ s.batch.length) ||
    s.deadline.any fun deadline => decide (deadline ≤ time))

def turn (s : Loop E) (t : Turn E) : Except PyError (Loop E) :=
  if due cfg (take it cfg s t) t.checked then flush it cfg (take it cfg s t)
  else .ok (take it cfg s t)

/-- The loop until the stream ends or the consumer is stopped, and the last flush. -/
def run (s : Loop E) : List (Turn E) → Except PyError (Loop E)
  | [] => if s.batch.isEmpty then .ok s else flush it cfg s
  | t :: ts => do run (← turn it cfg s t) ts

/-- The loop as `run` enters it. -/
def Loop.start (w : World E) : Loop E := ⟨w, [], none, 0, []⟩

end IndexingConsumer

end DocSearch
