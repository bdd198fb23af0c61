import DocSearch.Workers.RetryBudget

/-!
# Workers — Fleet

The broker and any number of consumers.  A consumer can go down wherever it stands: the broker then
takes back what it has not settled, and what it had asked and the broker had not read is lost.

* `Fleet.step`: one step of the broker, of a consumer, or of anything else.
* `Move`: what a step can do, one constructor an outcome.
* `Reached`: what a run leads to, in which messages are published as the service does it.
-/

namespace DocSearch

open IndexingProcessor IndexingConsumer

/-- A message the broker has delivered and waits for; `copied` says that its copy is in the DLQ. -/
structure Unacked where
  tag : ℕ
  message : Queued
  copied : Bool

/-- A message of a batch. -/
structure Held where
  tag : ℕ
  message : Queued
  event : DecodedEvent

def Held.delivery (d : Held) : Delivery := ⟨d.tag, d.message.message, d.event⟩

/-- A consumer, and its channel. -/
structure Client where
  unacked : List Unacked
  delivered : ℕ
  /-- What has arrived and was not taken yet. -/
  inbox : List (ℕ × Queued)
  batch : List Held
  /-- The outcome of the batch that is flushed, and what is left of it. -/
  flushing : Option (ProcessOutcome × List Held)
  /-- What was asked, and the broker has not read yet. -/
  calls : List ChannelCall

def Client.idle : Client := ⟨[], 0, [], [], none, []⟩

/-- A batch that a consumer has flushed: the world `process` was called in, and what it returned. -/
structure Flushed {K : Type} (E : SearchEngine K) where
  world : World E
  batch : List Held
  outcome : ProcessOutcome

/-- The broker, the consumers and the rest of the service.  The last five fields are a record of what
has become of the messages. -/
structure Fleet {K : Type} (E : SearchEngine K) (ι : Type) where
  world : World E
  queues : List (QueueName × Queued)
  clients : ι → Client
  published : List Queued
  /-- Acked, without a copy in the DLQ. -/
  finished : List Queued
  /-- Acked, with a copy in the DLQ. -/
  givenUp : List Queued
  /-- Taken back by the broker, with a copy in the DLQ. -/
  again : List Queued
  /-- Every batch that `process` has returned from. -/
  flushes : List (Flushed E)

inductive FleetAct {K : Type} (E : SearchEngine K) (ι : Type) where
  | publish (m : Queued)
  | deliver (c : ι) (position : ℕ)
  | receive (c : ι)
  | flush (c : ι)
  | settle (c : ι)
  | perform (c : ι)
  | crash (c : ι)
  | expire (position : ℕ)
  | others (f : World E → World E)

/-- What the broker still waits for after a call. -/
def ChannelCall.after (us : List Unacked) : ChannelCall → List Unacked
  | .ack tag | .nack tag => us.filter fun u => decide (u.tag ≠ tag)
  | .publish tag _ _ => us.map fun u => if u.tag = tag then { u with copied := true } else u

namespace Fleet

variable {K : Type} {E : SearchEngine K} {ι : Type} [DecidableEq ι] (it : Interpreter K)
  (cfg : ConsumerSettings) (t : Topology)

/-- `DocumentEvent.from_dict(json.loads(body))`. -/
def decode (body : List UInt8) : Option DecodedEvent :=
  (it.loads body).bind (DocumentEvent.fromDict it.toUnicode)

def start (w : World E) : Fleet E ι := ⟨w, [], fun _ => .idle, [], [], [], [], []⟩

def set (s : Fleet E ι) (c : ι) (x : Client) : Fleet E ι :=
  { s with clients := Function.update s.clients c x }

/-- The channel closes. -/
def crash (s : Fleet E ι) (c : ι) : Fleet E ι :=
  { s.set c .idle with
    queues := s.queues ++ (s.clients c).unacked.map fun u => (.index, u.message)
    again := s.again ++ ((s.clients c).unacked.filter Unacked.copied).map Unacked.message }

/-- The broker reads a call about a message. -/
def perform (s : Fleet E ι) (c : ι) (call : ChannelCall) (rest : List ChannelCall) (u : Unacked) :
    Fleet E ι :=
  let x := s.clients c
  let s := { s.set c { x with unacked := call.after x.unacked, calls := rest } with
    queues := s.queues ++ ChannelCall.perform t u.message call }
  match call with
  | .ack _ =>
      if u.copied then { s with givenUp := s.givenUp ++ [u.message] }
      else { s with finished := s.finished ++ [u.message] }
  | .nack _ | .publish _ _ _ => s

def step (s : Fleet E ι) : FleetAct E ι → Option (Fleet E ι)
  | .publish m =>
      some { s with
        queues := s.queues ++ t.publish .documents m
        published := s.published ++ [m] }
  | .deliver c position =>
      let x := s.clients c
      match s.queues[position]? with
      | some (.index, m) =>
          some { s.set c { x with
              unacked := x.unacked ++ [⟨x.delivered, m, false⟩]
              delivered := x.delivered + 1
              inbox := x.inbox ++ [(x.delivered, m)] } with
            queues := s.queues.eraseIdx position }
      | _ => none
  | .receive c =>
      let x := s.clients c
      match x.flushing, x.inbox with
      | none, (tag, m) :: rest =>
          match decode it m.body with
          | some event =>
              some (s.set c { x with inbox := rest, batch := x.batch ++ [⟨tag, m, event⟩] })
          | none => some (s.set c { x with inbox := rest, calls := x.calls ++ [.ack tag] })
      | _, _ => none
  | .flush c =>
      let x := s.clients c
      match x.flushing, x.batch with
      | none, d :: ds =>
          match processDecoded it s.world ((d :: ds).map Held.event) with
          | .ok (outcome, w) =>
              some { s.set c { x with batch := [], flushing := some (outcome, d :: ds) } with
                world := w
                flushes := s.flushes ++ [⟨s.world, d :: ds, outcome⟩] }
          | .error _ => some (s.crash c)
      | _, _ => none
  | .settle c =>
      let x := s.clients c
      match x.flushing with
      | some (outcome, d :: ds) =>
          match IndexingConsumer.settle it cfg outcome d.delivery with
          | .ok calls =>
              some (s.set c { x with flushing := some (outcome, ds), calls := x.calls ++ calls })
          | .error _ => some (s.crash c)
      | some (_, []) => some (s.set c { x with flushing := none })
      | none => none
  | .perform c =>
      match (s.clients c).calls with
      | call :: rest =>
          match (s.clients c).unacked.find? fun u => decide (u.tag = call.tag) with
          | some u => some (s.perform t c call rest u)
          -- the broker closes a channel that asks about a tag it does not know
          | none => some (s.crash c)
      | [] => none
  | .crash c => some (s.crash c)
  | .expire position =>
      match s.queues[position]? with
      | some (q, m) =>
          if (t.arguments q).messageTtl.isSome then
            some { s with queues := s.queues.eraseIdx position ++ t.deadLetter q .expired m }
          else none
      | none => none
  | .others f => some { s with world := f s.world }

/-- **Move.**  What a step can do. -/
inductive Move (s : Fleet E ι) : FleetAct E ι → Fleet E ι → Prop where
  | published {m} : Move s (.publish m)
      { s with queues := s.queues ++ t.publish .documents m, published := s.published ++ [m] }
  | delivered {c i m} (h : s.queues[i]? = some (.index, m)) : Move s (.deliver c i)
      { s.set c { s.clients c with
          unacked := (s.clients c).unacked ++ [⟨(s.clients c).delivered, m, false⟩]
          delivered := (s.clients c).delivered + 1
          inbox := (s.clients c).inbox ++ [((s.clients c).delivered, m)] } with
        queues := s.queues.eraseIdx i }
  | received {c tag m rest event} (hf : (s.clients c).flushing = none)
      (hi : (s.clients c).inbox = (tag, m) :: rest) (he : decode it m.body = some event) :
      Move s (.receive c) (s.set c { s.clients c with
        inbox := rest, batch := (s.clients c).batch ++ [⟨tag, m, event⟩] })
  | discarded {c tag m rest} (hi : (s.clients c).inbox = (tag, m) :: rest)
      (he : decode it m.body = none) :
      Move s (.receive c) (s.set c { s.clients c with
        inbox := rest, calls := (s.clients c).calls ++ [.ack tag] })
  | flushed {c outcome w} (hf : (s.clients c).flushing = none)
      (hp : processDecoded it s.world ((s.clients c).batch.map Held.event) = .ok (outcome, w)) :
      Move s (.flush c) { s.set c { s.clients c with
          batch := [], flushing := some (outcome, (s.clients c).batch) } with
        world := w
        flushes := s.flushes ++ [⟨s.world, (s.clients c).batch, outcome⟩] }
  | settled {c outcome d ds calls} (hf : (s.clients c).flushing = some (outcome, d :: ds))
      (hs : IndexingConsumer.settle it cfg outcome d.delivery = .ok calls) :
      Move s (.settle c) (s.set c { s.clients c with
        flushing := some (outcome, ds), calls := (s.clients c).calls ++ calls })
  | allSettled {c outcome} (hf : (s.clients c).flushing = some (outcome, [])) :
      Move s (.settle c) (s.set c { s.clients c with flushing := none })
  | performed {c call rest u} (hc : (s.clients c).calls = call :: rest)
      (hu : (s.clients c).unacked.find? (fun u => decide (u.tag = call.tag)) = some u) :
      Move s (.perform c) (s.perform t c call rest u)
  | crashed {a c} : Move s a (s.crash c)
  | expired {i q m} (h : s.queues[i]? = some (q, m)) (ht : (t.arguments q).messageTtl.isSome = true) :
      Move s (.expire i) { s with queues := s.queues.eraseIdx i ++ t.deadLetter q .expired m }
  | disturbed {f} : Move s (.others f) { s with world := f s.world }

theorem move_of_step {s s' : Fleet E ι} {a : FleetAct E ι} (h : step it cfg t s a = some s') :
    Move it cfg t s a s' := by
  cases a with
  | publish m => cases h; exact .published
  | deliver c i =>
      simp only [step] at h
      split at h
      · rename_i hq; cases h; exact .delivered hq
      · cases h
  | receive c =>
      simp only [step] at h
      split at h
      · rename_i hf hi
        split at h <;> rename_i he <;> cases h
        · exact .received hf hi he
        · exact .discarded hi he
      · cases h
  | flush c =>
      simp only [step] at h
      split at h
      · rename_i hf hb
        split at h <;> rename_i hp <;> cases h
        · rw [← hb] at hp ⊢
          exact .flushed hf hp
        · exact .crashed
      · cases h
  | settle c =>
      simp only [step] at h
      split at h
      · rename_i hf
        split at h <;> rename_i hs <;> cases h
        · exact .settled hf hs
        · exact .crashed
      · rename_i hf; cases h; exact .allSettled hf
      · cases h
  | perform c =>
      simp only [step] at h
      split at h
      · rename_i hc
        split at h <;> rename_i hu <;> cases h
        · exact .performed hc hu
        · exact .crashed
      · cases h
  | crash c => cases h; exact .crashed
  | expire i =>
      simp only [step] at h
      split at h
      · rename_i hq
        split at h
        · rename_i ht; cases h; exact .expired hq ht
        · cases h
      · cases h
  | others f => cases h; exact .disturbed

/-! ### Runs -/

/-- The routing key of a message, and that of the event in it, are those of the service. -/
structure Travelling (m : Queued) : Prop where
  key : IsEventType m.routingKey
  type : ∀ event, decode it m.body = some event → ∃ key, event.type = .str key ∧ IsEventType key

/-- A message as the service publishes it. -/
structure Sound (m : Queued) : Prop where
  fresh : m.xDeath = .empty
  travelling : Travelling it m

/-- The messages that others publish are like those of the service. -/
def Allowed : FleetAct E ι → Prop
  | .publish m => Sound it m
  | _ => True

/-- What a run leads to, in which messages are published as the service does it. -/
inductive Reached (queueRetryDelayMs : ℕ) : Fleet E ι → Prop where
  | start (w : World E) : Reached queueRetryDelayMs (.start w)
  | step {s s' : Fleet E ι} {a : FleetAct E ι} (h : Reached queueRetryDelayMs s)
      (ha : Allowed it a) (hs : step it cfg (declareTopology queueRetryDelayMs) s a = some s') :
      Reached queueRetryDelayMs s'

def run (s : Fleet E ι) (as : List (FleetAct E ι)) : Option (Fleet E ι) :=
  as.foldlM (step it cfg t) s

variable {it cfg} {queueRetryDelayMs : ℕ} {s s' : Fleet E ι}

theorem Reached.run (h : Reached it cfg queueRetryDelayMs s) {as : List (FleetAct E ι)}
    (ha : ∀ a ∈ as, Allowed it a)
    (hs : Fleet.run it cfg (declareTopology queueRetryDelayMs) s as = some s') :
    Reached it cfg queueRetryDelayMs s' := by
  induction as generalizing s with
  | nil => cases hs; exact h
  | cons a as ih =>
      obtain ⟨s₁, hs₁, hs⟩ := Option.bind_eq_some_iff.mp (List.foldlM_cons.symm.trans hs)
      obtain ⟨hhead, htail⟩ := List.forall_mem_cons.mp ha
      exact ih (h.step hhead hs₁) htail hs

/-- The messages of the service. -/
theorem sound_event {it : Interpreter K} {e : Event} (he : IsEventType e.type) {body : List UInt8}
    {eventId occurredAt : Str} (hb : it.loads body = some (e.asdict eventId occurredAt)) :
    Sound it ⟨body, e.type, .empty⟩ := by
  refine ⟨rfl, he, fun event h => ?_⟩
  rw [decode, hb, Option.bind_some, DocumentEvent.fromDict_asdict] at h
  cases h
  exact ⟨e.type, rfl, he⟩

end Fleet

namespace Sample

open Fleet

/-- Two consumers.  The first goes down with a message, and the second gets it. -/
def fleetRun : List (FleetAct (inMemory runtime) Bool) :=
  [.publish Sample.published, .deliver false 0, .receive false, .flush false, .crash false,
    .publish ⟨[], eventIndex, .empty⟩, .deliver true 0, .deliver true 0, .receive true,
    .receive true, .flush true, .settle true, .perform true, .perform true]

theorem fleetRun_runs : (Fleet.run interpreter consumerSettings (declareTopology 5000)
    (Fleet.start idleWorld) fleetRun).isSome := by decide +kernel

def fleet : Fleet (inMemory runtime) Bool :=
  (Fleet.run interpreter consumerSettings (declareTopology 5000) (Fleet.start idleWorld) fleetRun).get
    fleetRun_runs

theorem travelling_wellFormed : Travelling interpreter Sample.published :=
  ⟨.inl rfl, fun event h => by cases h; exact ⟨eventIndex, rfl, .inl rfl⟩⟩

theorem fleetRun_allowed : ∀ a ∈ fleetRun, Allowed interpreter a := by
  simp only [fleetRun, List.forall_mem_cons, Allowed, true_and]
  refine ⟨⟨rfl, travelling_wellFormed⟩, ⟨rfl, .inl rfl, fun event h => ?_⟩, nofun⟩
  cases h

theorem reached_fleet : Reached interpreter consumerSettings 5000 fleet :=
  (Reached.start idleWorld).run fleetRun_allowed (Option.some_get fleetRun_runs).symm

/-- One document is stored, and the engine is down. -/
def stranded : World (inMemory runtime) :=
  { World.initial { InMemoryEngine.State.initial with available := false } with
    documents := (Table.empty.insert (Document.new documentA acme payload 0)).getD .empty }

/-- Two messages about the document are rejected.  One waits in the retry queue, the other expires
there and is delivered again, to another consumer. -/
def strandedRun : List (FleetAct (inMemory runtime) Bool) :=
  [.publish Sample.published, .publish Sample.published, .deliver false 0, .deliver false 0,
    .receive false, .receive false, .flush false, .settle false, .settle false, .settle false,
    .perform false, .perform false, .expire 0, .deliver true 1]

theorem strandedRun_runs : (Fleet.run interpreter consumerSettings (declareTopology 5000)
    (Fleet.start stranded) strandedRun).isSome := by decide +kernel

def strandedFleet : Fleet (inMemory runtime) Bool :=
  (Fleet.run interpreter consumerSettings (declareTopology 5000) (Fleet.start stranded)
    strandedRun).get strandedRun_runs

theorem strandedRun_allowed : ∀ a ∈ strandedRun, Allowed interpreter a := by
  simp only [strandedRun, List.forall_mem_cons, Allowed, true_and]
  exact ⟨⟨rfl, travelling_wellFormed⟩, ⟨rfl, travelling_wellFormed⟩, nofun⟩

theorem reached_stranded : Reached interpreter consumerSettings 5000 strandedFleet :=
  (Reached.start stranded).run strandedRun_allowed (Option.some_get strandedRun_runs).symm

end Sample

end DocSearch
