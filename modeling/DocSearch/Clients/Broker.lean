import DocSearch.Clients.Queue

/-!
# Clients — Broker

The topology `declare_topology` sets up, and what the broker does in it with a message that is
published, rejected or left to expire.  Exchanges and queues are named by their part in the
topology; the settings give each its own name.

* `deadLetter_rejected`, `deadLetter_expired`: the two halves of a trip through the retry queue.
-/

namespace DocSearch

/-- `queue_exchange`, and with its suffixes `.retry` and `.dlq`. -/
inductive Exchange where
  | documents
  | retry
  | dlq
  deriving DecidableEq

/-- `queue_name`, `queue_retry_name` and `queue_dlq_name`. -/
inductive QueueName where
  | index
  | retry
  | dlq
  deriving DecidableEq

structure QueueArguments where
  messageTtl : Option ℕ
  deadLetterExchange : Option Exchange

structure Topology where
  arguments : QueueName → QueueArguments
  /-- A queue is bound to an exchange under a routing key. -/
  bindings : List (QueueName × Exchange × Str)

def declareTopology (queueRetryDelayMs : ℕ) : Topology where
  arguments
    | .index => ⟨none, some .retry⟩
    | .retry => ⟨some queueRetryDelayMs, some .documents⟩
    | .dlq => ⟨none, none⟩
  bindings := [eventIndex, eventDelete].flatMap fun routingKey =>
    [(.index, .documents, routingKey), (.retry, .retry, routingKey), (.dlq, .dlq, routingKey)]

/-- Why a message is dead-lettered. -/
inductive Reason where
  | rejected
  | expired
  deriving DecidableEq

/-- A message in a queue.  Its `x-death` header counts, for each queue and reason, how often it has
been dead-lettered there; the order of the entries is not that of the broker. -/
structure Queued where
  body : List UInt8
  routingKey : Str
  xDeath : Dict (QueueName × Reason) ℕ

namespace Topology

/-- The queues an exchange routes a key to; no binding has a wildcard. -/
def route (t : Topology) (exchange : Exchange) (routingKey : Str) : List QueueName :=
  (t.bindings.filter fun b => decide (b.2.1 = exchange ∧ b.2.2 = routingKey)).map Prod.fst

def publish (t : Topology) (exchange : Exchange) (m : Queued) : List (QueueName × Queued) :=
  (t.route exchange m.routingKey).map fun q => (q, m)

/-- One more death. -/
def recordDeath (queue : QueueName) (reason : Reason) (deaths : Dict (QueueName × Reason) ℕ) :
    Dict (QueueName × Reason) ℕ :=
  deaths.set (queue, reason) ((deaths.get? (queue, reason)).getD 0 + 1)

/-- A message leaves a queue for its dead-letter exchange, under the routing key it had. -/
def deadLetter (t : Topology) (queue : QueueName) (reason : Reason) (m : Queued) :
    List (QueueName × Queued) :=
  match (t.arguments queue).deadLetterExchange with
  | some exchange => t.publish exchange { m with xDeath := recordDeath queue reason m.xDeath }
  | none => []

/-- The time of every message in the retry queue is up. -/
def expire (t : Topology) (held : List (QueueName × Queued)) : List (QueueName × Queued) :=
  held.flatMap fun (q, m) =>
    if (t.arguments q).messageTtl.isSome then t.deadLetter q .expired m else [(q, m)]

end Topology

/-! ### A trip through the retry queue -/

/-- Every death counts once. -/
theorem sum_recordDeath (queue : QueueName) (reason : Reason)
    (deaths : Dict (QueueName × Reason) ℕ) :
    (Topology.recordDeath queue reason deaths).values.sum = deaths.values.sum + 1 := by
  have hsum := deaths.sum_values_set (queue, reason) ((deaths.get? (queue, reason)).getD 0 + 1)
  rw [Topology.recordDeath]
  omega

/-- A key of an event the service publishes. -/
def IsEventType (routingKey : Str) : Prop := routingKey = eventIndex ∨ routingKey = eventDelete

section Trip

variable {queueRetryDelayMs : ℕ} {m : Queued}

/-- Each exchange routes the keys of the service to its one queue. -/
theorem route_eventType {routingKey : Str} (h : IsEventType routingKey) :
    (declareTopology queueRetryDelayMs).route .documents routingKey = [.index] ∧
    (declareTopology queueRetryDelayMs).route .retry routingKey = [.retry] ∧
    (declareTopology queueRetryDelayMs).route .dlq routingKey = [.dlq] := by
  rcases h with rfl | rfl <;> exact ⟨rfl, rfl, rfl⟩

theorem deadLetter_rejected (h : IsEventType m.routingKey) :
    (declareTopology queueRetryDelayMs).deadLetter .index .rejected m =
      [(.retry, { m with xDeath := Topology.recordDeath .index .rejected m.xDeath })] := by
  change (declareTopology queueRetryDelayMs).publish .retry _ = _
  rw [Topology.publish, (route_eventType h).2.1]
  rfl

theorem deadLetter_expired (h : IsEventType m.routingKey) :
    (declareTopology queueRetryDelayMs).deadLetter .retry .expired m =
      [(.index, { m with xDeath := Topology.recordDeath .retry .expired m.xDeath })] := by
  change (declareTopology queueRetryDelayMs).publish .documents _ = _
  rw [Topology.publish, (route_eventType h).1]
  rfl

end Trip

end DocSearch
