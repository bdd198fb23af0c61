import DocSearch.Clients.Broker
import DocSearch.Support.Loop
import DocSearch.Workers.Poison

/-!
# Workers — RetryBudget

How often a message is handed to `process` whose document fails every time.  Each trip through the
retry queue adds a rejection and an expiry to its `x-death` header, and `death_count` adds up both.

* `delivered_step`: one delivery.
* `retry_budget`: how many there are before the DLQ.
-/

namespace DocSearch

def QueueName.name : QueueName → Str
  | .index => "documents.index".toList
  | .retry => "documents.index.retry".toList
  | .dlq => "documents.index.dlq".toList

def Reason.name : Reason → Str
  | .rejected => "rejected".toList
  | .expired => "expired".toList

namespace Queued

/-- An entry of the `x-death` header. -/
def death (entry : (QueueName × Reason) × ℕ) : Json :=
  .object [("count".toList, .int entry.2), ("queue".toList, .str entry.1.1.name),
    ("reason".toList, .str entry.1.2.name)]

/-- The message as the consumer receives it. -/
def message (m : Queued) : Message := ⟨m.body, m.xDeath.entries.map death⟩

/-- `death_count` adds up all deaths. -/
theorem deathCount_message (u : Unicode) (m : Queued) : deathCount u m.message = m.xDeath.values.sum := by
  have hentry : ∀ e, deathsOf u (death e) = e.2 := fun e => by
    simp [deathsOf, death, Json.item?, Json.int?]
  rw [deathCount, message, List.map_map, Dict.values]
  induction m.xDeath.entries with
  | nil => rfl
  | cons e es ih =>
      simp only [List.map_cons, List.sum_cons, Function.comp_apply, hentry, ih]
      exact (Nat.cast_add _ _).symm

end Queued

namespace IndexingConsumer

/-- A message since its publication: the queues that hold it, how often it has been handed to
`process`, and what the consumer has asked about it. -/
structure Life where
  held : List (QueueName × Queued)
  handed : ℕ
  calls : List ChannelCall

/-- What becomes of a delivered message at a call. -/
def ChannelCall.perform (t : Topology) (m : Queued) : ChannelCall → List (QueueName × Queued)
  | .ack _ => []
  | .nack _ => t.deadLetter .index .rejected m
  | .publish _ body (.str routingKey) => t.publish .dlq ⟨body, routingKey, .empty⟩
  | .publish _ _ _ => []

variable {K : Type} (it : Interpreter K) (cfg : ConsumerSettings) (t : Topology)

/-- The message is delivered, and settled as `_flush` does it after the outcome of the batch; then
the time in the retry queue goes by.  The flag says that the message is back in the main queue. -/
def deliver (outcome : ProcessOutcome) (l : Life) : Bool × Life :=
  match l.held.find? fun x => decide (x.1 = .index) with
  | none => (false, l)
  | some (_, m) =>
      let rest := l.held.eraseP fun x => decide (x.1 = .index)
      match (it.loads m.body).bind (DocumentEvent.fromDict it.toUnicode) with
      | none => (false, { l with held := rest, calls := l.calls ++ [.ack l.handed] })
      | some event =>
          match settle it cfg outcome ⟨l.handed, m.message, event⟩ with
          | .error _ => (false, { l with handed := l.handed + 1 })
          | .ok calls =>
              let held := t.expire (rest ++ calls.flatMap (ChannelCall.perform t m))
              (held.any fun x => decide (x.1 = .index),
                { held := held, handed := l.handed + 1, calls := l.calls ++ calls })

/-- The deliveries of a message that is published once, until it is in the main queue no more. -/
def deliveries (outcomes : ℕ → ProcessOutcome) (fuel : ℕ) (m : Queued) : Option Life :=
  loop (fun i l => deliver it cfg t (outcomes i) l) fuel 0 ⟨[(.index, m)], 0, []⟩

/-! ### One delivery -/

section Delivery

variable {it cfg} {n queueRetryDelayMs : ℕ} {m : Queued} {event : DecodedEvent}
  {outcome : ProcessOutcome} {l : Life}

/-- After `j` deliveries the message is back in the main queue with `2 * j` deaths. -/
structure Trips (n : ℕ) (m : Queued) (j : ℕ) (l : Life) : Prop where
  held : ∃ deaths, l.held = [(.index, { m with xDeath := deaths })] ∧ deaths.values.sum = 2 * j
  handed : l.handed = j
  calls : l.calls = (List.range j).map .nack
  le : 2 * j ≤ n

/-- It was rejected, until it was published to the DLQ and acked. -/
def GivenUp (m : Queued) (event : DecodedEvent) (l : Life) : Prop :=
  ∃ tag, l.calls = (List.range tag).map .nack ++ [.publish tag m.body event.type, .ack tag]

/-- What is published to the DLQ is in no other queue. -/
theorem publish_dlq (m' : Queued) :
    ∀ x ∈ (declareTopology queueRetryDelayMs).publish .dlq m', x.1 = .dlq := by
  have hb : ∀ b ∈ (declareTopology queueRetryDelayMs).bindings, b.2.1 = .dlq → b.1 = .dlq := by
    intro b hb he
    obtain ⟨key, -, hb⟩ := List.mem_flatMap.mp hb
    rcases List.mem_cons.mp hb with rfl | hb
    · cases he
    · rcases List.mem_cons.mp hb with rfl | hb
      · cases he
      · rw [List.mem_singleton.mp hb]
  intro x hx
  obtain ⟨q, hq, rfl⟩ := List.mem_map.mp hx
  obtain ⟨b, hm, rfl⟩ := List.mem_map.mp hq
  obtain ⟨hm, he⟩ := List.mem_filter.mp hm
  exact hb b hm (of_decide_eq_true he).1

/-- **One delivery** of a message whose document fails. -/
theorem delivered_step (queueRetryDelayMs : ℕ) {j : ℕ} (hcfg : cfg.maxIndexAttempts = n)
    (hkey : IsEventType m.routingKey)
    (he : (it.loads m.body).bind (DocumentEvent.fromDict it.toUnicode) = some event)
    (hr : it.routable event.type = true) (hf : hasFailed outcome event = true) (h : Trips n m j l) :
    (2 * j + 1 < n → (deliver it cfg (declareTopology queueRetryDelayMs) outcome l).1 = true ∧
      Trips n m (j + 1) (deliver it cfg (declareTopology queueRetryDelayMs) outcome l).2) ∧
    (n ≤ 2 * j + 1 → (deliver it cfg (declareTopology queueRetryDelayMs) outcome l).1 = false ∧
      GivenUp m event (deliver it cfg (declareTopology queueRetryDelayMs) outcome l).2 ∧
      (deliver it cfg (declareTopology queueRetryDelayMs) outcome l).2.handed = n / 2 + 1) := by
  obtain ⟨deaths, hheld, hsum⟩ := h.held
  let m' : Queued := { m with xDeath := deaths }
  have hcount : deathCount it.toUnicode m'.message = 2 * j := by
    rw [Queued.deathCount_message]
    exact_mod_cast hsum
  have hdeliver : deliver it cfg (declareTopology queueRetryDelayMs) outcome l =
      match settle it cfg outcome ⟨j, m'.message, event⟩ with
      | .error _ => (false, { l with handed := j + 1 })
      | .ok calls =>
          let held := (declareTopology queueRetryDelayMs).expire
            (calls.flatMap (ChannelCall.perform (declareTopology queueRetryDelayMs) m'))
          (held.any fun x => decide (x.1 = .index),
            { held := held, handed := j + 1, calls := l.calls ++ calls }) := by
    rw [deliver, hheld, h.handed]
    change (match (it.loads m.body).bind (DocumentEvent.fromDict it.toUnicode) with
      | none => _
      | some event => _) = _
    rw [he]
    rfl
  constructor
  · intro hlt
    -- rejected, and expired
    have hsettle : settle it cfg outcome ⟨j, m'.message, event⟩ = .ok [.nack j] := by
      rw [settle, if_pos hf, if_neg]
      rw [hcfg, hcount]
      omega
    have hkey' : IsEventType m'.routingKey := hkey
    let deaths' := Topology.recordDeath .retry .expired (Topology.recordDeath .index .rejected deaths)
    have hheld' : (declareTopology queueRetryDelayMs).expire
        ([ChannelCall.nack j].flatMap (ChannelCall.perform (declareTopology queueRetryDelayMs) m')) =
          [(.index, { m with xDeath := deaths' })] := by
      change (declareTopology queueRetryDelayMs).expire
        ((declareTopology queueRetryDelayMs).deadLetter .index .rejected m' ++ []) = _
      rw [deadLetter_rejected hkey']
      exact (List.append_nil _).trans (deadLetter_expired (m := { m' with
        xDeath := Topology.recordDeath .index .rejected m'.xDeath }) hkey')
    rw [hdeliver, hsettle]
    dsimp only
    rw [hheld']
    refine ⟨rfl, ⟨_, rfl, ?_⟩, rfl, ?_, by omega⟩
    · rw [sum_recordDeath, sum_recordDeath, hsum]
      omega
    · rw [h.calls, List.range_succ, List.map_append]
      rfl
  · intro hle
    have hsettle : settle it cfg outcome ⟨j, m'.message, event⟩ =
        .ok [.publish j m.body event.type, .ack j] := by
      rw [settle, if_pos hf, if_pos, toDlq, if_pos hr]
      · rfl
      · rw [hcfg, hcount]
        omega
    obtain rfl : j = n / 2 := by have := h.le; omega
    rw [hdeliver, hsettle]
    refine ⟨?_, ⟨n / 2, by rw [h.calls]⟩, rfl⟩
    -- what is left of it is in the DLQ
    refine List.any_eq_false.mpr fun x hx => ?_
    obtain ⟨y, hy, hx⟩ := List.mem_flatMap.mp hx
    have hdlq : y.1 = .dlq := by
      obtain ⟨c, hc, hy⟩ := List.mem_flatMap.mp hy
      rcases List.mem_cons.mp hc with rfl | hc
      · cases ht : event.type with
        | str key => rw [ht] at hy; exact publish_dlq _ y hy
        | null | bool _ | int _ | float _ | array _ | object _ => rw [ht] at hy; cases hy
      · rw [List.mem_singleton.mp hc] at hy
        cases hy
    have hsame : x = y := by
      obtain ⟨q, m''⟩ := y
      cases hdlq
      exact List.mem_singleton.mp hx
    rw [hsame, hdlq]
    decide

end Delivery

/-! ### All of them -/

/-- **The retry budget.**  A message whose document fails on every delivery is delivered `n / 2 + 1`
times before it is published to the DLQ and acked, which is `n` times only for `n ≤ 2`. -/
theorem retry_budget (it : Interpreter K) {cfg : ConsumerSettings} {n : ℕ} (hn : 1 ≤ n)
    (hcfg : cfg.maxIndexAttempts = n) (queueRetryDelayMs : ℕ) {m : Queued}
    (hkey : IsEventType m.routingKey) (hfresh : m.xDeath = .empty) {event : DecodedEvent}
    (he : (it.loads m.body).bind (DocumentEvent.fromDict it.toUnicode) = some event)
    (hr : it.routable event.type = true) {outcomes : ℕ → ProcessOutcome}
    (hf : ∀ i, hasFailed (outcomes i) event = true) :
    ∃ l, (∀ fuel > n, deliveries it cfg (declareTopology queueRetryDelayMs) outcomes fuel m =
        some l) ∧
      GivenUp m event l ∧ l.handed = n / 2 + 1 ∧ (l.handed = n ↔ n ≤ 2) := by
  have hstart : Trips n m 0 ⟨[(.index, m)], 0, []⟩ :=
    ⟨⟨.empty, by rw [← hfresh], rfl⟩, rfl, rfl, Nat.zero_le n⟩
  have hstep := fun (i j : ℕ) (l : Life) (h : Trips n m j l) =>
    delivered_step queueRetryDelayMs hcfg hkey he hr (hf i) h
  -- the flag says whether the budget is used up
  have hmore : ∀ i j l, Trips n m j l →
      (deliver it cfg (declareTopology queueRetryDelayMs) (outcomes i) l).1 = true →
      2 * j + 1 < n := by
    intro i j l h hm
    by_contra hle
    rw [((hstep i j l h).2 (by omega)).1] at hm
    cases hm
  obtain ⟨l, hl⟩ := loop_terminates
    (fun i l => deliver it cfg (declareTopology queueRetryDelayMs) (outcomes i) l)
    (I := fun l => ∃ j, Trips n m j l) (fun l => n - l.handed)
    (fun i l ⟨j, h⟩ hm => by
      have hlt := hmore i j l h hm
      have h' := ((hstep i j l h).1 hlt).2
      exact ⟨⟨j + 1, h'⟩, by rw [h'.handed, h.handed]; omega⟩)
    (i := 0) ⟨0, hstart⟩ (Nat.sub_le n _)
  have hgiven : GivenUp m event l ∧ l.handed = n / 2 + 1 :=
    loop_rule (I := fun l => ∃ j, Trips n m j l)
      (Q := fun l => GivenUp m event l ∧ l.handed = n / 2 + 1)
      (fun i l ⟨j, h⟩ hm => ⟨j + 1, ((hstep i j l h).1 (hmore i j l h hm)).2⟩)
      (fun i l ⟨j, h⟩ hm => by
        refine ((hstep i j l h).2 ?_).2
        by_contra hlt
        rw [((hstep i j l h).1 (by omega)).1] at hm
        cases hm)
      ⟨0, hstart⟩ hl
  refine ⟨l, fun fuel hfuel => loop_mono hl hfuel, hgiven.1, hgiven.2, ?_⟩
  rw [hgiven.2]
  omega

end IndexingConsumer

namespace Sample

open IndexingConsumer

/-- A message of the service, just published. -/
def published : Queued := ⟨wellFormed, eventIndex, .empty⟩

/-- The event in it, and an outcome in which it has failed. -/
def indexEvent : DecodedEvent := (⟨documentA.str, acme, 1, eventIndex⟩ : Event).decoded

def failing : ProcessOutcome := ⟨[], [], [documentA.str], []⟩

theorem retry_budget_sample :
    ∃ l, (∀ fuel > 3, deliveries interpreter consumerSettings (declareTopology 5000)
        (fun _ => failing) fuel published = some l) ∧
      GivenUp published indexEvent l ∧ l.handed = 3 / 2 + 1 ∧ (l.handed = 3 ↔ 3 ≤ 2) :=
  retry_budget interpreter (by decide) rfl 5000 (.inl rfl) rfl rfl rfl fun _ => by decide +kernel

/-- **Two attempts instead of three.** -/
theorem attempts_missing : ¬ ∀ n : ℕ, 1 ≤ n → ∃ fuel l,
    deliveries interpreter { consumerSettings with maxIndexAttempts := n } (declareTopology 5000)
      (fun _ => failing) fuel published = some l ∧
    GivenUp published indexEvent l ∧ l.handed = n := by
  intro h
  obtain ⟨fuel, l, hl, -, hn⟩ := h 3 (by decide)
  have hrun : (deliveries interpreter { consumerSettings with maxIndexAttempts := (3 : ℕ) }
      (declareTopology 5000) (fun _ => failing) 3 published).map Life.handed = some 2 := by
    decide +kernel
  obtain ⟨l', hl', hhanded⟩ := Option.map_eq_some_iff.mp hrun
  rw [loop_unique hl hl', hhanded] at hn
  cases hn

end Sample

end DocSearch
