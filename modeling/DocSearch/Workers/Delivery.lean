import DocSearch.Workers.Fleet

/-!
# Workers — Delivery

What holds of the broker and its consumers in every run: every call is about a message that the broker
waits for, and justified when the broker reads it.

* `CallsOk`: the calls on a channel that the broker has not read.
* `FleetOk.move`: one step.
* `deaths_bounded`: no message has more deaths than it is allowed.
-/

namespace DocSearch

open IndexingProcessor IndexingConsumer

namespace Fleet

variable {K : Type} {E : SearchEngine K} {ι : Type} [DecidableEq ι] (it : Interpreter K)
  (cfg : ConsumerSettings)

/-! ### A channel -/

/-- What is recorded of a flush is what `process` returned. -/
def Flushed.Returned (f : Flushed E) : Prop :=
  ∃ w', processDecoded it f.world (f.batch.map Held.event) = .ok (f.outcome, w')

/-- The message cannot be decoded, or was in a batch that a consumer has flushed, and its document has
not failed there. -/
def Finished (flushes : List (Flushed E)) (m : Queued) : Prop :=
  decode it m.body = none ∨ ∃ f ∈ flushes, Flushed.Returned it f ∧ ∃ d ∈ f.batch, d.message = m ∧
    decode it m.body = some d.event ∧ hasFailed f.outcome d.event = false

/-- All deaths of a message. -/
def deaths (m : Queued) : ℤ := m.xDeath.values.sum

/-- Why a call is made about a message. -/
def Justified (flushes : List (Flushed E)) (u : Unacked) : ChannelCall → Prop
  | .ack _ => u.copied = true ∨ Finished it flushes u.message
  | .nack _ => u.copied = false ∧ deaths u.message + 1 < cfg.maxIndexAttempts
  | .publish _ body routingKey => u.copied = false ∧ body = u.message.body ∧
      ∃ key, routingKey = .str key ∧ IsEventType key

def CallOk (flushes : List (Flushed E)) (us : List Unacked) (call : ChannelCall) : Prop :=
  ∃ u ∈ us, u.tag = call.tag ∧ Justified it cfg flushes u call

/-- Every call is justified when the broker reads it. -/
def CallsOk (flushes : List (Flushed E)) : List Unacked → List ChannelCall → Prop
  | _, [] => True
  | us, call :: calls => CallOk it cfg flushes us call ∧ CallsOk flushes (call.after us) calls

/-- What the broker waits for after all calls. -/
def afterAll (us : List Unacked) (calls : List ChannelCall) : List Unacked :=
  calls.foldl ChannelCall.after us

section Channel

variable {it cfg} {flushes flushes' : List (Flushed E)} {us vs : List Unacked} {u v : Unacked}
  {calls calls' : List ChannelCall}

theorem Finished.mono {m : Queued} (h : Finished it flushes m) (hf : flushes ⊆ flushes') :
    Finished it flushes' m := by
  refine h.imp_right ?_
  rintro ⟨f, hm, hrest⟩
  exact ⟨f, hf hm, hrest⟩

theorem Justified.mono {call : ChannelCall} (h : Justified it cfg flushes u call)
    (hf : flushes ⊆ flushes') : Justified it cfg flushes' u call := by
  cases call with
  | ack _ => exact Or.imp_right (fun h => Finished.mono h hf) h
  | nack _ | publish _ _ _ => exact h

theorem CallsOk.mono (hf : flushes ⊆ flushes') : ∀ {calls : List ChannelCall} {us : List Unacked},
    CallsOk it cfg flushes us calls → CallsOk it cfg flushes' us calls
  | [], _, _ => trivial
  | _ :: _, _, ⟨⟨u, hu, ht, hj⟩, h⟩ => ⟨⟨u, hu, ht, hj.mono hf⟩, CallsOk.mono hf h⟩

theorem tags_after (us : List Unacked) (call : ChannelCall) :
    ((call.after us).map Unacked.tag).Sublist (us.map Unacked.tag) := by
  cases call with
  | ack tag | nack tag => exact List.filter_sublist.map _
  | publish tag body key =>
      rw [ChannelCall.after, List.map_map]
      refine (List.map_congr_left fun u _ => ?_).symm ▸ List.Sublist.refl _
      rw [Function.comp_apply]
      split <;> rfl

theorem tags_afterAll : ∀ (calls : List ChannelCall) (us : List Unacked),
    ((afterAll us calls).map Unacked.tag).Sublist (us.map Unacked.tag)
  | [], _ => List.Sublist.refl _
  | call :: calls, us => (tags_afterAll calls (call.after us)).trans (tags_after us call)

theorem callsOk_append : CallsOk it cfg flushes us (calls ++ calls') ↔
    CallsOk it cfg flushes us calls ∧ CallsOk it cfg flushes (afterAll us calls) calls' := by
  induction calls generalizing us with
  | nil => exact ⟨fun h => ⟨trivial, h⟩, And.right⟩
  | cons call calls ih =>
      rw [List.cons_append, CallsOk, CallsOk, ih, and_assoc]
      rfl

theorem afterAll_append : afterAll us (calls ++ calls') = afterAll (afterAll us calls) calls' :=
  List.foldl_append

/-- One more delivery does not concern the calls that were made before. -/
theorem callsOk_deliver (h : CallsOk it cfg flushes us calls) (hu : ∀ v ∈ us, v.tag ≠ u.tag) :
    CallsOk it cfg flushes (us ++ [u]) calls ∧ afterAll (us ++ [u]) calls = afterAll us calls ++ [u] := by
  induction calls generalizing us with
  | nil => exact ⟨trivial, rfl⟩
  | cons call calls ih =>
      obtain ⟨⟨v, hv, htag, hj⟩, h⟩ := h
      have hne : u.tag ≠ call.tag := fun he => hu v hv (htag.trans he.symm)
      have hafter : call.after (us ++ [u]) = call.after us ++ [u] := by
        cases call with
        | ack tag | nack tag =>
            have hne' : u.tag ≠ tag := hne
            simp [ChannelCall.after, hne']
        | publish tag body key =>
            have hne' : u.tag ≠ tag := hne
            simp [ChannelCall.after, hne']
      obtain ⟨hok, hall⟩ := ih h fun x hx he => by
        obtain ⟨y, hy, hxy⟩ := List.mem_map.mp ((tags_after us call).subset (List.mem_map_of_mem hx))
        exact hu y hy (hxy.trans he)
      refine ⟨⟨⟨v, List.mem_append_left _ hv, htag, hj⟩, hafter ▸ hok⟩, ?_⟩
      rw [afterAll, List.foldl_cons, hafter]
      exact hall

/-- The one message a call is about, and the others. -/
theorem perm_after (hn : (us.map Unacked.tag).Nodup) (hu : u ∈ us) :
    us.Perm (u :: us.filter fun v => decide (v.tag ≠ u.tag)) := by
  induction us with
  | nil => cases hu
  | cons x us ih =>
      rw [List.map_cons, List.nodup_cons] at hn
      have hothers : ∀ v ∈ us, v.tag ≠ x.tag := fun v hv he => hn.1 (he ▸ List.mem_map_of_mem hv)
      rcases List.mem_cons.mp hu with rfl | hu
      · rw [List.filter_cons_of_neg (by simp), List.filter_eq_self.mpr fun v hv =>
          decide_eq_true (hothers v hv)]
      · rw [List.filter_cons, if_pos (decide_eq_true (hothers u hu).symm)]
        exact ((ih hn.2 hu).cons x).trans (.swap _ _ _)

theorem perm_publish (hn : (us.map Unacked.tag).Nodup) (hu : u ∈ us) (body : List UInt8) (key : Json) :
    (ChannelCall.after us (.publish u.tag body key)).Perm
      ({ u with copied := true } :: us.filter fun v => decide (v.tag ≠ u.tag)) := by
  have hp := (perm_after hn hu).map fun v => if v.tag = u.tag then { v with copied := true } else v
  rw [List.map_cons, if_pos rfl] at hp
  refine hp.trans (.of_eq (congrArg _ ((List.map_congr_left fun v hv => ?_).trans (List.map_id _))))
  exact if_neg (of_decide_eq_true (List.mem_filter.mp hv).2)

/-- **Settling** the oldest message that is left, after a flush. -/
theorem callsOk_settle {outcome : ProcessOutcome} {d : Held} (hn : ((⟨d.tag, d.message, false⟩ :: vs).map
      Unacked.tag).Nodup)
    (hs : IndexingConsumer.settle it cfg outcome d.delivery = .ok calls)
    (hd : decode it d.message.body = some d.event)
    (ht : ∃ key, d.event.type = .str key ∧ IsEventType key)
    (ho : ∃ f ∈ flushes, Flushed.Returned it f ∧ f.outcome = outcome ∧ d ∈ f.batch) :
    CallsOk it cfg flushes (⟨d.tag, d.message, false⟩ :: vs) calls ∧
      afterAll (⟨d.tag, d.message, false⟩ :: vs) calls = vs := by
  rw [List.map_cons, List.nodup_cons] at hn
  have hothers : ∀ v ∈ vs, v.tag ≠ d.tag := fun v hv he => hn.1 (List.mem_map.mpr ⟨v, hv, he⟩)
  have hfilter : ∀ b, (⟨d.tag, d.message, b⟩ :: vs).filter (fun v => decide (v.tag ≠ d.tag)) = vs :=
    fun b => by
      rw [List.filter_cons_of_neg (by simp),
        List.filter_eq_self.mpr fun v hv => decide_eq_true (hothers v hv)]
  unfold IndexingConsumer.settle at hs
  split at hs
  · split at hs
    · -- a copy, and then the ack
      obtain ⟨cs, hcs, hcalls⟩ := bind_eq_ok.mp hs
      unfold toDlq at hcs
      split at hcs
      · cases hcs
        cases hcalls
        have hcopied : ChannelCall.after (⟨d.tag, d.message, false⟩ :: vs)
            (.publish d.tag d.message.body d.event.type) = ⟨d.tag, d.message, true⟩ :: vs := by
          rw [ChannelCall.after, List.map_cons, if_pos rfl]
          exact congrArg _ ((List.map_congr_left fun v hv => if_neg (hothers v hv)).trans
            (List.map_id _))
        refine ⟨⟨⟨_, List.mem_cons_self, rfl, rfl, rfl, ht⟩, ?_⟩, ?_⟩
        · change CallsOk it cfg flushes (ChannelCall.after (⟨d.tag, d.message, false⟩ :: vs)
            (.publish d.tag d.message.body d.event.type)) [.ack d.tag]
          rw [hcopied]
          exact ⟨⟨_, List.mem_cons_self, rfl, .inl rfl⟩, trivial⟩
        · change ChannelCall.after (ChannelCall.after (⟨d.tag, d.message, false⟩ :: vs)
            (.publish d.tag d.message.body d.event.type)) (.ack d.tag) = vs
          rw [hcopied]
          exact hfilter true
      · cases hcs
    · rename_i hlt
      cases hs
      rw [Held.delivery, Queued.deathCount_message] at hlt
      exact ⟨⟨⟨_, List.mem_cons_self, rfl, rfl, not_le.mp hlt⟩, trivial⟩, hfilter false⟩
  · rename_i hfailed
    cases hs
    obtain ⟨f, hf, hreturned, rfl, hm⟩ := ho
    exact ⟨⟨⟨_, List.mem_cons_self, rfl, .inr (.inr ⟨f, hf, hreturned, d, hm, rfl, hd,
      Bool.eq_false_iff.mpr hfailed⟩)⟩, trivial⟩, hfilter false⟩

theorem mem_after {call : ChannelCall} (h : u ∈ call.after us) :
    ∃ v ∈ us, v.tag = u.tag ∧ v.message = u.message := by
  cases call with
  | ack tag | nack tag => exact ⟨u, (List.mem_filter.mp h).1, rfl, rfl⟩
  | publish tag body key =>
      obtain ⟨v, hv, rfl⟩ := List.mem_map.mp h
      refine ⟨v, hv, ?_⟩
      split <;> exact ⟨rfl, rfl⟩

theorem mem_afterAll : ∀ {calls : List ChannelCall} {us : List Unacked}, u ∈ afterAll us calls →
    ∃ v ∈ us, v.message = u.message
  | [], _, h => ⟨u, h, rfl⟩
  | call :: calls, us, h => by
      have hrest : u ∈ afterAll (call.after us) calls := h
      obtain ⟨v, hv, hm⟩ := mem_afterAll hrest
      obtain ⟨v', hv', -, hm'⟩ := mem_after hv
      exact ⟨v', hv', hm'.trans hm⟩

/-- The ack of one message takes it out of what is left. -/
theorem filter_middle (hn : ((us ++ u :: vs).map Unacked.tag).Nodup) :
    (us ++ u :: vs).filter (fun v => decide (v.tag ≠ u.tag)) = us ++ vs := by
  rw [List.map_append, List.map_cons, List.nodup_middle, List.nodup_cons, ← List.map_append] at hn
  have hothers : ∀ v ∈ us ++ vs, decide (v.tag ≠ u.tag) = true := fun v hv =>
    decide_eq_true fun he => hn.1 (List.mem_map.mpr ⟨v, hv, he⟩)
  rw [List.filter_append, List.filter_cons_of_neg (by simp),
    List.filter_eq_self.mpr fun v hv => hothers v (List.mem_append_left _ hv),
    List.filter_eq_self.mpr fun v hv => hothers v (List.mem_append_right _ hv)]

end Channel

/-! ### Consumers -/

/-- The deaths that a message can have in a queue. -/
def WithinBudget (m : Queued) : QueueName → Prop
  | .index => deaths m ≤ max 0 cfg.maxIndexAttempts
  | .retry => deaths m < cfg.maxIndexAttempts
  | .dlq => deaths m = 0

/-- What is left of the batch that is flushed. -/
def settling (x : Client) : List Held := (x.flushing.map Prod.snd).getD []

/-- What a consumer has not asked anything about, the oldest first. -/
def unasked (x : Client) : List Unacked :=
  (settling x ++ x.batch).map (fun d => ⟨d.tag, d.message, false⟩) ++
    x.inbox.map fun p => ⟨p.1, p.2, false⟩

structure ClientOk (flushes : List (Flushed E)) (x : Client) : Prop where
  nodup : (x.unacked.map Unacked.tag).Nodup
  lt : ∀ u ∈ x.unacked, u.tag < x.delivered
  messages : ∀ u ∈ x.unacked, Travelling it u.message ∧ WithinBudget cfg u.message .index
  calls : CallsOk it cfg flushes x.unacked x.calls
  unasked : afterAll x.unacked x.calls = unasked x
  decoded : ∀ d ∈ settling x ++ x.batch, decode it d.message.body = some d.event
  outcome : ∀ outcome ds, x.flushing = some (outcome, ds) →
    ∃ f ∈ flushes, Flushed.Returned it f ∧ f.outcome = outcome ∧ ds ⊆ f.batch

section Consumers

variable {it cfg} {flushes flushes' : List (Flushed E)} {x : Client}

theorem clientOk_idle : ClientOk it cfg flushes .idle :=
  ⟨List.nodup_nil, nofun, nofun, trivial, rfl, nofun, nofun⟩

/-- Other consumers flush too. -/
theorem ClientOk.mono (h : ClientOk it cfg flushes x) (hf : flushes ⊆ flushes') :
    ClientOk it cfg flushes' x := by
  refine ⟨h.nodup, h.lt, h.messages, h.calls.mono hf, h.unasked, h.decoded, fun o ds ho => ?_⟩
  obtain ⟨f, hm, hrest⟩ := h.outcome o ds ho
  exact ⟨f, hf hm, hrest⟩

theorem ClientOk.nodup_unasked (h : ClientOk it cfg flushes x) :
    ((Fleet.unasked x).map Unacked.tag).Nodup :=
  h.unasked ▸ h.nodup.sublist (tags_afterAll x.calls x.unacked)

theorem ClientOk.deliver (h : ClientOk it cfg flushes x) {m : Queued} (hm : Travelling it m)
    (hb : WithinBudget cfg m .index) :
    ClientOk it cfg flushes { x with
      unacked := x.unacked ++ [⟨x.delivered, m, false⟩]
      delivered := x.delivered + 1
      inbox := x.inbox ++ [(x.delivered, m)] } := by
  have hne : ∀ v ∈ x.unacked, v.tag ≠ x.delivered := fun v hv => (h.lt v hv).ne
  obtain ⟨hcalls, hall⟩ := callsOk_deliver (u := ⟨x.delivered, m, false⟩) h.calls hne
  refine ⟨?_, fun u hu => ?_, fun u hu => ?_, hcalls, ?_, h.decoded, h.outcome⟩
  · rw [List.map_append, List.map_singleton, List.nodup_append]
    refine ⟨h.nodup, List.nodup_singleton _, fun a ha b hb => ?_⟩
    obtain ⟨v, hv, rfl⟩ := List.mem_map.mp ha
    rw [List.mem_singleton.mp hb]
    exact hne v hv
  · rcases List.mem_append.mp hu with hu | hu
    · exact Nat.lt_succ_of_lt (h.lt u hu)
    · rw [List.mem_singleton.mp hu]
      exact Nat.lt_succ_self _
  · rcases List.mem_append.mp hu with hu | hu
    · exact h.messages u hu
    · rw [List.mem_singleton.mp hu]
      exact ⟨hm, hb⟩
  · rw [hall, h.unasked]
    simp [Fleet.unasked, settling]

theorem ClientOk.receive (h : ClientOk it cfg flushes x) {tag : ℕ} {m : Queued} {rest : List (ℕ × Queued)}
    {event : DecodedEvent} (hf : x.flushing = none) (hi : x.inbox = (tag, m) :: rest)
    (he : decode it m.body = some event) :
    ClientOk it cfg flushes { x with inbox := rest, batch := x.batch ++ [⟨tag, m, event⟩] } := by
  refine ⟨h.nodup, h.lt, h.messages, h.calls, ?_, fun d hd => ?_, h.outcome⟩
  · rw [h.unasked]
    simp [Fleet.unasked, settling, hf, hi]
  · simp only [settling, hf, Option.map_none, Option.getD_none, List.nil_append] at hd
    rcases List.mem_append.mp hd with hd | hd
    · exact h.decoded d (List.mem_append_right _ hd)
    · rw [List.mem_singleton.mp hd]
      exact he

theorem ClientOk.discard (h : ClientOk it cfg flushes x) {tag : ℕ} {m : Queued} {rest : List (ℕ × Queued)}
    (hi : x.inbox = (tag, m) :: rest) (he : decode it m.body = none) :
    ClientOk it cfg flushes { x with inbox := rest, calls := x.calls ++ [.ack tag] } := by
  have hsplit : Fleet.unasked x =
      (settling x ++ x.batch).map (fun d => ⟨d.tag, d.message, false⟩) ++
        ⟨tag, m, false⟩ :: rest.map fun p => ⟨p.1, p.2, false⟩ := by
    rw [Fleet.unasked, hi]
    rfl
  refine ⟨h.nodup, h.lt, h.messages, callsOk_append.mpr ⟨h.calls, ?_, trivial⟩, ?_, h.decoded,
    h.outcome⟩
  · rw [h.unasked, hsplit]
    exact ⟨_, List.mem_append_right _ List.mem_cons_self, rfl, .inr (.inl he)⟩
  · have hn := h.nodup_unasked
    rw [hsplit] at hn
    rw [afterAll_append, h.unasked, hsplit]
    exact filter_middle hn

theorem ClientOk.flush (h : ClientOk it cfg flushes x) {w w' : World E} {outcome : ProcessOutcome}
    (hf : x.flushing = none)
    (hp : processDecoded it w (x.batch.map Held.event) = .ok (outcome, w')) :
    ClientOk it cfg (flushes ++ [⟨w, x.batch, outcome⟩])
      { x with batch := [], flushing := some (outcome, x.batch) } := by
  refine ⟨h.nodup, h.lt, h.messages, h.calls.mono (List.subset_append_left _ _), ?_, fun d hd => ?_,
    fun o ds ho => ?_⟩
  · rw [h.unasked]
    simp [Fleet.unasked, settling, hf]
  · exact h.decoded d (List.mem_append_right _ ((List.append_nil x.batch) ▸ hd))
  · cases ho
    exact ⟨_, List.mem_append_right _ List.mem_cons_self, ⟨w', hp⟩, rfl, fun _ hd => hd⟩

theorem ClientOk.settle (h : ClientOk it cfg flushes x) {outcome : ProcessOutcome} {d : Held}
    {ds : List Held} {calls : List ChannelCall} (hf : x.flushing = some (outcome, d :: ds))
    (hs : IndexingConsumer.settle it cfg outcome d.delivery = .ok calls) :
    ClientOk it cfg flushes { x with flushing := some (outcome, ds), calls := x.calls ++ calls } := by
  have hsettling : settling x = d :: ds := by rw [settling, hf]; rfl
  have hsplit : Fleet.unasked x = ⟨d.tag, d.message, false⟩ ::
      Fleet.unasked { x with flushing := some (outcome, ds) } := by
    rw [Fleet.unasked, hsettling]
    rfl
  obtain ⟨f, hmem, hreturned, houtcome, hm⟩ := h.outcome _ _ hf
  have hd := h.decoded d (by rw [hsettling]; exact List.mem_cons_self)
  -- the message is unacked, and so is one of the service
  have hu : (⟨d.tag, d.message, false⟩ : Unacked) ∈ afterAll x.unacked x.calls := by
    rw [h.unasked, hsplit]
    exact List.mem_cons_self
  have ht : ∃ key, d.event.type = .str key ∧ IsEventType key := by
    obtain ⟨v, hv, hvm⟩ := mem_afterAll hu
    exact (hvm ▸ (h.messages v hv).1).type _ hd
  have hn := h.nodup_unasked
  rw [hsplit] at hn
  obtain ⟨hok, hall⟩ := callsOk_settle hn hs hd ht
    ⟨f, hmem, hreturned, houtcome, hm List.mem_cons_self⟩
  refine ⟨h.nodup, h.lt, h.messages, callsOk_append.mpr ⟨h.calls, ?_⟩, ?_, fun e he => ?_,
    fun o es ho => ?_⟩
  · rw [h.unasked, hsplit]
    exact hok
  · rw [afterAll_append, h.unasked, hsplit]
    exact hall
  · refine h.decoded e ?_
    rw [hsettling]
    exact List.mem_cons_of_mem _ he
  · cases ho
    exact ⟨f, hmem, hreturned, houtcome, fun _ he => hm (List.mem_cons_of_mem _ he)⟩

theorem ClientOk.perform (h : ClientOk it cfg flushes x) {call : ChannelCall} {rest : List ChannelCall}
    (hc : x.calls = call :: rest) :
    ClientOk it cfg flushes { x with unacked := call.after x.unacked, calls := rest } := by
  have hcalls := h.calls
  have hunasked := h.unasked
  rw [hc] at hcalls hunasked
  refine ⟨h.nodup.sublist (tags_after _ _), fun u hu => ?_, fun u hu => ?_, hcalls.2, hunasked,
    h.decoded, h.outcome⟩
  · obtain ⟨v, hv, ht, -⟩ := mem_after hu
    exact ht ▸ h.lt v hv
  · obtain ⟨v, hv, -, hm⟩ := mem_after hu
    exact hm ▸ h.messages v hv

end Consumers

/-! ### The fleet -/

structure FleetOk (s : Fleet E ι) : Prop where
  queues : ∀ x ∈ s.queues, Travelling it x.2 ∧ WithinBudget cfg x.2 x.1
  clients : ∀ c, ClientOk it cfg s.flushes (s.clients c)

section Preservation

variable {it cfg} {queueRetryDelayMs : ℕ} {s s' : Fleet E ι} {a : FleetAct E ι}

theorem Travelling.publish {m : Queued} (h : Travelling it m) (deaths : Dict (QueueName × Reason) ℕ) :
    Travelling it { m with xDeath := deaths } := ⟨h.key, h.type⟩

theorem deaths_recordDeath (q : QueueName) (r : Reason) (m : Queued) :
    deaths { m with xDeath := Topology.recordDeath q r m.xDeath } = deaths m + 1 := by
  rw [deaths, sum_recordDeath]
  exact Nat.cast_succ _

/-- Where a message goes at a justified call. -/
def goesTo (m : Queued) : ChannelCall → List (QueueName × Queued)
  | .ack _ => []
  | .nack _ => [(.retry, { m with xDeath := Topology.recordDeath .index .rejected m.xDeath })]
  | .publish _ body (.str key) => [(.dlq, ⟨body, key, .empty⟩)]
  | .publish _ _ _ => []

theorem perform_eq {flushes : List (Flushed E)} {u : Unacked} {call : ChannelCall}
    (hj : Justified it cfg flushes u call)
    (hu : Travelling it u.message) :
    ChannelCall.perform (declareTopology queueRetryDelayMs) u.message call =
      goesTo u.message call := by
  cases call with
  | ack _ => rfl
  | nack _ => exact deadLetter_rejected hu.key
  | publish tag body key =>
      obtain ⟨-, rfl, key, rfl, hkey⟩ := hj
      change (declareTopology queueRetryDelayMs).publish .dlq _ = _
      rw [Topology.publish, (route_eventType hkey).2.2]
      rfl

/-- The delivery a call is about. -/
theorem ClientOk.justified {flushes : List (Flushed E)} {x : Client}
    (h : ClientOk it cfg flushes x) {call : ChannelCall}
    {rest : List ChannelCall} {u : Unacked} (hc : x.calls = call :: rest)
    (hu : x.unacked.find? (fun u => decide (u.tag = call.tag)) = some u) :
    u ∈ x.unacked ∧ u.tag = call.tag ∧ Justified it cfg flushes u call := by
  have hcalls := h.calls
  rw [hc] at hcalls
  obtain ⟨⟨v, hv, ht, hj⟩, -⟩ := hcalls
  obtain ⟨hm, htag⟩ := (find?_key_eq_some h.nodup).mp hu
  have hsame := (find?_key_eq_some h.nodup).mpr ⟨hv, ht⟩
  rw [hu] at hsame
  cases hsame
  exact ⟨hm, htag, hj⟩

/-- Only the retry queue lets messages expire. -/
theorem expires_iff {q : QueueName} :
    ((declareTopology queueRetryDelayMs).arguments q).messageTtl.isSome = true ↔ q = .retry := by
  cases q with
  | retry => exact iff_of_true rfl rfl
  | index | dlq => exact iff_of_false nofun nofun

theorem FleetOk.set (h : FleetOk it cfg s) (c : ι) {x : Client} (hx : ClientOk it cfg s.flushes x) :
    FleetOk it cfg (s.set c x) where
  queues := h.queues
  clients c' := by
    change ClientOk it cfg s.flushes (Function.update s.clients c x c')
    by_cases hc : c' = c
    · rw [hc, Function.update_self]
      exact hx
    · rw [Function.update_of_ne hc]
      exact h.clients c'

omit [DecidableEq ι] in
/-- Messages come to the queues. -/
theorem FleetOk.queue (h : FleetOk it cfg s) {qs : List (QueueName × Queued)}
    (hq : ∀ x ∈ qs, x ∈ s.queues ∨ (Travelling it x.2 ∧ WithinBudget cfg x.2 x.1)) :
    ∀ x ∈ qs, Travelling it x.2 ∧ WithinBudget cfg x.2 x.1 :=
  fun x hx => (hq x hx).elim (h.queues x) id

/-- **One step** of the fleet. -/
theorem FleetOk.move (h : FleetOk it cfg s) (ha : Allowed it a)
    (hm : Move it cfg (declareTopology queueRetryDelayMs) s a s') : FleetOk it cfg s' := by
  cases hm with
  | @published m =>
      refine ⟨h.queue fun x hx => (List.mem_append.mp hx).imp_right fun hx => ?_, h.clients⟩
      rw [Topology.publish, (route_eventType ha.travelling.key).1] at hx
      rw [List.mem_singleton.mp hx]
      refine ⟨ha.travelling, ?_⟩
      rw [WithinBudget, deaths, ha.fresh]
      exact le_max_left _ _
  | @delivered c i m hq =>
      obtain ⟨ht, hb⟩ := h.queues _ (List.mem_of_getElem? hq)
      exact ⟨h.queue fun x hx => .inl (List.mem_of_mem_eraseIdx hx),
        (h.set c ((h.clients c).deliver ht hb)).clients⟩
  | @received c _ _ _ _ hf hi he => exact h.set c ((h.clients c).receive hf hi he)
  | @discarded c _ _ _ hi he => exact h.set c ((h.clients c).discard hi he)
  | @flushed c outcome w hf hp =>
      have hothers : FleetOk it cfg { s with
          flushes := s.flushes ++ [⟨s.world, (s.clients c).batch, outcome⟩] } :=
        ⟨h.queues, fun c' => (h.clients c').mono (List.subset_append_left _ _)⟩
      exact ⟨h.queues, (hothers.set c ((h.clients c).flush hf hp)).clients⟩
  | @settled c _ _ _ _ hf hs => exact h.set c ((h.clients c).settle hf hs)
  | @allSettled c outcome hf =>
      have hx := h.clients c
      have hsettling : settling (s.clients c) = [] := by rw [settling, hf]; rfl
      refine h.set c ⟨hx.nodup, hx.lt, hx.messages, hx.calls, ?_, fun d hd => ?_,
        fun _ _ h => (by cases h)⟩
      · rw [hx.unasked, unasked, hsettling]
        rfl
      · refine hx.decoded d ?_
        rw [hsettling]
        exact hd
  | @performed c call rest u hc hu =>
      obtain ⟨hmem, -, hj⟩ := (h.clients c).justified hc hu
      obtain ⟨ht, hb⟩ := (h.clients c).messages u hmem
      have hset := h.set c ((h.clients c).perform hc)
      have hok : FleetOk it cfg { s.set c { s.clients c with
          unacked := call.after (s.clients c).unacked, calls := rest } with
          queues := s.queues ++
            ChannelCall.perform (declareTopology queueRetryDelayMs) u.message call } := by
        refine ⟨h.queue fun x hx => (List.mem_append.mp hx).imp_right fun hnew => ?_, hset.clients⟩
        rw [perform_eq hj ht] at hnew
        cases call with
        | ack _ => cases hnew
        | nack _ =>
            rw [List.mem_singleton.mp hnew]
            exact ⟨ht.publish _, (deaths_recordDeath _ _ _).trans_lt hj.2⟩
        | publish _ _ _ =>
            obtain ⟨-, rfl, key, rfl, hkey⟩ := hj
            have hx : x = (.dlq, ⟨u.message.body, key, .empty⟩) := List.mem_singleton.mp hnew
            rw [hx]
            exact ⟨⟨hkey, ht.type⟩, rfl⟩
      cases call with
      | ack _ =>
          unfold Fleet.perform
          dsimp only
          split
          · exact ⟨hok.queues, hok.clients⟩
          · exact ⟨hok.queues, hok.clients⟩
      | nack _ | publish _ _ _ => exact hok
  | @crashed a c =>
      refine ⟨h.queue fun x hx => (List.mem_append.mp hx).imp_right fun hx => ?_,
        (h.set c clientOk_idle).clients⟩
      obtain ⟨u, hu, rfl⟩ := List.mem_map.mp hx
      exact (h.clients c).messages u hu
  | @expired i q m hq httl =>
      obtain rfl := expires_iff.mp httl
      obtain ⟨ht, hb⟩ := h.queues _ (List.mem_of_getElem? hq)
      refine ⟨h.queue fun x hx => (List.mem_append.mp hx).imp List.mem_of_mem_eraseIdx fun hx => ?_,
        h.clients⟩
      rw [deadLetter_expired ht.key] at hx
      rw [List.mem_singleton.mp hx]
      refine ⟨ht.publish _, (deaths_recordDeath _ _ _).trans_le ?_⟩
      have hb' : deaths m < cfg.maxIndexAttempts := hb
      exact le_max_of_le_right hb'
  | disturbed => exact ⟨h.queues, h.clients⟩

end Preservation

/-! ### Every run -/

theorem Reached.ok {it : Interpreter K} {cfg : ConsumerSettings} {queueRetryDelayMs : ℕ}
    {s : Fleet E ι} (h : Reached it cfg queueRetryDelayMs s) : FleetOk it cfg s := by
  induction h with
  | start w => exact ⟨nofun, fun _ => clientOk_idle⟩
  | step _ ha hs ih => exact ih.move ha (move_of_step it cfg _ hs)

/-- **No message goes round without end.**  In every state of every run, a message in the retry queue
has fewer deaths than a message may have attempts, and one in the main queue or with a consumer has not
more. -/
theorem deaths_bounded (it : Interpreter K) (cfg : ConsumerSettings) (queueRetryDelayMs : ℕ)
    {s : Fleet E ι} (h : Reached it cfg queueRetryDelayMs s) :
    (∀ x ∈ s.queues, WithinBudget cfg x.2 x.1) ∧
      ∀ c, ∀ u ∈ (s.clients c).unacked, WithinBudget cfg u.message .index :=
  ⟨fun x hx => (h.ok.queues x hx).2, fun c u hu => ((h.ok.clients c).messages u hu).2⟩

end Fleet

namespace Sample

open Fleet

/-- One message has died once, and one twice. -/
theorem stranded_deaths :
    strandedFleet.queues.map (fun x => (x.1, deaths x.2)) = [(.retry, 1)] ∧
      (strandedFleet.clients true).unacked.map (fun u => deaths u.message) = [2] := by
  decide +kernel

theorem deaths_bounded_sample :
    ((∀ x ∈ strandedFleet.queues, WithinBudget consumerSettings x.2 x.1) ∧
      ∀ c, ∀ u ∈ (strandedFleet.clients c).unacked, WithinBudget consumerSettings u.message .index) ∧
    strandedFleet.queues.map (fun x => (x.1, deaths x.2)) = [(.retry, 1)] ∧
      (strandedFleet.clients true).unacked.map (fun u => deaths u.message) = [2] :=
  ⟨deaths_bounded interpreter consumerSettings 5000 reached_stranded, stranded_deaths⟩

end Sample

end DocSearch
