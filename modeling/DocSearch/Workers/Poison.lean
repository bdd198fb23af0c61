import DocSearch.Core.Sample
import DocSearch.Workers.Consumer

/-!
# Workers — Poison

Which messages stop the consumer.  Everything it depends on is healthy: the engine answers every
bulk call, the database, the cache and the broker do what they are asked.

* `Poisoned`: a batch whose flush lets an exception escape.
* `settled_iff`: the loop comes to the end of a stream and has settled every message of it once,
  exactly when it flushes no such batch.
* `poison_message`: a message that stops it.
-/

namespace DocSearch

open IndexingProcessor

namespace IndexingConsumer

variable {K : Type} {E : SearchEngine K} (it : Interpreter K) (cfg : ConsumerSettings)

/-- An event has a document id that is no string; or the newest event of an accepted document has a
tenant that is not hashable; or a message that is due for the DLQ has a type that is no routing
key. -/
def Poisoned (H : HealthyEngine E) (w : World E) (batch : List Delivery) : Prop :=
  (∃ d ∈ batch, ∀ s, d.event.documentId ≠ .str s) ∨
  UnhashableTenant H w (batch.map Delivery.event) ∨
  ∃ d ∈ batch, Rejected H w d.event.documentId ∧
    cfg.maxIndexAttempts ≤ deathCount it.toUnicode d.message + 1 ∧
    it.routable d.event.type = false

/-- The calls settle the message: an ack, a nack, or its publication to the DLQ and an ack. -/
def Settlement (tag : ℕ) (m : Message) (calls : List ChannelCall) : Prop :=
  calls = [.ack tag] ∨ calls = [.nack tag] ∨
    ∃ routingKey, calls = [.publish tag m.body routingKey, .ack tag]

/-- What was asked about the message is one settlement. -/
def SettledOnce (calls : List ChannelCall) (tag : ℕ) (m : Message) : Prop :=
  Settlement tag m (calls.filter fun c => decide (c.tag = tag))

/-- The messages that arrive. -/
def arrivals (ts : List (Turn E)) : List Message := ts.filterMap Turn.message

/-- No batch is poisoned when it is flushed. -/
def Harmless (H : HealthyEngine E) : Loop E → List (Turn E) → Prop
  | s, [] => ¬ Poisoned it cfg H s.world s.batch
  | s, t :: ts =>
      (due cfg (take it cfg s t) t.checked = true →
        ¬ Poisoned it cfg H (take it cfg s t).world (take it cfg s t).batch) ∧
      ∀ s', turn it cfg s t = .ok s' → Harmless H s' ts

/-! ### A flush -/

section Flush

variable {it cfg} {H : HealthyEngine E}

theorem Settlement.tag_eq {tag : ℕ} {m : Message} {calls : List ChannelCall} (h : Settlement tag m calls) :
    ∀ c ∈ calls, c.tag = tag := by
  rcases h with rfl | rfl | ⟨key, rfl⟩ <;> simp [ChannelCall.tag]

/-- What `_flush` does with a message settles it. -/
theorem settlement_of_settle {o : ProcessOutcome} {d : Delivery} {calls : List ChannelCall}
    (h : settle it cfg o d = .ok calls) : Settlement d.tag d.message calls := by
  unfold settle at h
  split at h
  · split at h
    · obtain ⟨cs, hcs, hcalls⟩ := bind_eq_ok.mp h
      unfold toDlq at hcs
      split at hcs
      · cases hcs
        cases hcalls
        exact .inr (.inr ⟨d.event.type, rfl⟩)
      · cases hcs
    · cases h; exact .inr (.inl rfl)
  · cases h; exact .inl rfl

/-- It raises only for the routing key. -/
theorem exists_settle {o : ProcessOutcome} {d : Delivery} :
    (∃ calls, settle it cfg o d = .ok calls) ↔
      ¬ (hasFailed o d.event = true ∧
        cfg.maxIndexAttempts ≤ deathCount it.toUnicode d.message + 1 ∧
        it.routable d.event.type = false) := by
  unfold settle
  split
  · rename_i hfailed
    split
    · rename_i hdue
      simp only [bind_eq_ok, toDlq]
      split
      · rename_i hr
        exact iff_of_true ⟨_, _, rfl, rfl⟩ fun h => by rw [hr] at h; cases h.2.2
      · rename_i hr
        exact iff_of_false (by rintro ⟨_, _, h, _⟩; cases h)
          fun h => h ⟨hfailed, hdue, Bool.eq_false_iff.mpr hr⟩
    · rename_i hdue
      exact iff_of_true ⟨_, rfl⟩ fun h => hdue h.2.1
  · rename_i hfailed
    exact iff_of_true ⟨_, rfl⟩ fun h => hfailed h.1

/-- **A flush**, with a healthy engine. -/
theorem flush_healthy {s : Loop E} (hw : H.Up s.world.engine) :
    ((∃ s', flush it cfg s = .ok s') ↔ ¬ Poisoned it cfg H s.world s.batch) ∧
    ∀ s', flush it cfg s = .ok s' → H.Up s'.world.engine ∧ s'.batch = [] ∧
      s'.delivered = s.delivered ∧ ∃ calls, s'.calls = s.calls ++ calls.flatten ∧
        List.Forall₂ (fun d => Settlement d.tag d.message) s.batch calls := by
  obtain ⟨hraise, hok⟩ := processDecoded_healthy it (s.batch.map Delivery.event) hw
  constructor
  · constructor
    · rintro ⟨s', h⟩ hp
      obtain ⟨⟨o, w'⟩, ho, h⟩ := bind_eq_ok.mp h
      obtain ⟨calls, hcalls, -⟩ := bind_eq_ok.mp h
      obtain ⟨hids, hun⟩ := hraise.mp ⟨_, ho⟩
      rcases hp with ⟨d, hd, hno⟩ | hp | ⟨d, hd, hrej, hdue, hr⟩
      · obtain ⟨x, hx⟩ := hids d.event (List.mem_map_of_mem hd)
        exact hno x hx
      · exact hun hp
      · obtain ⟨x, hx⟩ := hids d.event (List.mem_map_of_mem hd)
        refine exists_settle.mp (exists_mapM.mp ⟨calls, hcalls⟩ d hd) ⟨?_, hdue, hr⟩
        rw [hasFailed, hx]
        exact decide_eq_true (((hok o w' ho).2 _ (List.mem_map_of_mem hd) x hx).mpr hrej)
    · intro hp
      have hids : ∀ e ∈ s.batch.map Delivery.event, ∃ x, e.documentId = .str x := by
        intro e he
        obtain ⟨d, hd, rfl⟩ := List.mem_map.mp he
        by_contra hno
        exact hp (.inl ⟨d, hd, fun x hx => hno ⟨x, hx⟩⟩)
      obtain ⟨⟨o, w'⟩, ho⟩ := hraise.mpr ⟨hids, fun hun => hp (.inr (.inl hun))⟩
      obtain ⟨calls, hcalls⟩ : ∃ calls, s.batch.mapM (settle it cfg o) = .ok calls := by
        refine exists_mapM.mpr fun d hd => exists_settle.mpr fun ⟨hfailed, hdue, hr⟩ => ?_
        obtain ⟨x, hx⟩ := hids _ (List.mem_map_of_mem hd)
        rw [hasFailed, hx] at hfailed
        exact hp (.inr (.inr ⟨d, hd, ((hok o w' ho).2 _ (List.mem_map_of_mem hd) x hx).mp
          (of_decide_eq_true hfailed), hdue, hr⟩))
      exact ⟨_, bind_eq_ok.mpr ⟨_, ho, bind_eq_ok.mpr ⟨calls, hcalls, rfl⟩⟩⟩
  · intro s' h
    obtain ⟨⟨o, w'⟩, ho, h⟩ := bind_eq_ok.mp h
    obtain ⟨calls, hcalls, h⟩ := bind_eq_ok.mp h
    cases h
    exact ⟨(hok o w' ho).1, rfl, rfl, calls, rfl,
      (mapM_eq_ok.mp hcalls).imp fun _ _ hc => settlement_of_settle hc⟩

/-- There is nothing in an empty batch. -/
theorem not_poisoned_nil (w : World E) : ¬ Poisoned it cfg H w [] := by
  rintro (⟨d, hd, -⟩ | ⟨row, -, -, e, hnew, -⟩ | ⟨d, hd, -⟩)
  · cases hd
  · cases hnew.mem
  · cases hd

end Flush

/-! ### The loop -/

section Run

variable {it cfg} {H : HealthyEngine E}

/-- The messages that have arrived are in the batch, once each, or settled. -/
structure LoopOk (s : Loop E) (ms : List Message) : Prop where
  delivered : s.delivered = ms.length
  nodup : (s.batch.map Delivery.tag).Nodup
  batch : ∀ d ∈ s.batch, ms[d.tag]? = some d.message ∧ ∀ c ∈ s.calls, c.tag ≠ d.tag
  calls : ∀ c ∈ s.calls, c.tag < ms.length
  settled : ∀ tag m, ms[tag]? = some m →
    (∃ d ∈ s.batch, d.tag = tag) ∨ SettledOnce s.calls tag m

theorem LoopOk.tag_lt {s : Loop E} {ms : List Message} (h : LoopOk s ms) {d : Delivery}
    (hd : d ∈ s.batch) : d.tag < ms.length :=
  (List.getElem?_eq_some_iff.mp (h.batch d hd).1).1

theorem loopOk_flush {s s' : Loop E} {ms : List Message} (h : LoopOk s ms)
    (hw : H.Up s.world.engine) (hf : flush it cfg s = .ok s') : LoopOk s' ms ∧ s'.batch = [] := by
  obtain ⟨-, hb, hd, calls, hc, hsettle⟩ := (flush_healthy (H := H) hw).2 s' hf
  -- what is new is about messages of the batch
  have hnew : ∀ c ∈ calls.flatten, ∃ d ∈ s.batch, d.tag = c.tag := by
    intro c hm
    obtain ⟨cs, hcs, hc⟩ := List.mem_flatten.mp hm
    obtain ⟨i, hi, rfl⟩ := List.getElem_of_mem hcs
    have hi' : i < s.batch.length := hsettle.length_eq ▸ hi
    exact ⟨_, List.getElem_mem hi', ((hsettle.get hi' hi).tag_eq c hc).symm⟩
  refine ⟨⟨hd.trans h.delivered, by rw [hb]; exact List.nodup_nil, by rw [hb]; nofun, ?_, ?_⟩, hb⟩
  · intro c hm
    rw [hc] at hm
    rcases List.mem_append.mp hm with hm | hm
    · exact h.calls c hm
    · obtain ⟨d, hd, ht⟩ := hnew c hm
      exact ht ▸ h.tag_lt hd
  · intro tag m hm
    refine .inr ?_
    rw [SettledOnce, hc, List.filter_append]
    by_cases hin : ∃ d ∈ s.batch, d.tag = tag
    · -- its first calls
      obtain ⟨d, hd, rfl⟩ := hin
      obtain ⟨hmsg, hnone⟩ := h.batch d hd
      obtain rfl : m = d.message := Option.some.inj (hm.symm.trans hmsg)
      rw [List.filter_eq_nil_iff.mpr fun c hc he => hnone c hc (of_decide_eq_true he),
        List.nil_append]
      exact filter_flatten (fun _ _ hs => hs.tag_eq) hsettle h.nodup hd
    · -- it was settled before
      have hnone : calls.flatten.filter (fun c => decide (c.tag = tag)) = [] := by
        refine List.filter_eq_nil_iff.mpr fun c hc he => hin ?_
        obtain ⟨d, hd, ht⟩ := hnew c hc
        exact ⟨d, hd, ht.trans (of_decide_eq_true he)⟩
      rw [hnone, List.append_nil]
      exact (h.settled tag m hm).resolve_left hin

theorem loopOk_receive {s : Loop E} {ms : List Message} (h : LoopOk s ms) (m : Message)
    (time : ℕ) : LoopOk (receive it cfg s m time) (ms ++ [m]) := by
  have hlast : (ms ++ [m])[s.delivered]? = some m := by
    rw [h.delivered, List.getElem?_concat_length]
  -- a message is one of those before, or this one
  have hcases : ∀ {tag x}, (ms ++ [m])[tag]? = some x →
      (tag < s.delivered ∧ ms[tag]? = some x) ∨ (tag = s.delivered ∧ x = m) := by
    intro tag x hx
    rw [h.delivered]
    rw [List.getElem?_append] at hx
    split at hx
    · rename_i hlt; exact .inl ⟨hlt, hx⟩
    · obtain ⟨hlt, rfl⟩ := List.getElem?_eq_some_iff.mp hx
      simp only [List.length_singleton] at hlt
      exact .inr ⟨by omega, by simp⟩
  have hbatch : ∀ d ∈ s.batch, d.tag < s.delivered ∧ (ms ++ [m])[d.tag]? = some d.message := by
    intro d hd
    have hlt := h.tag_lt hd
    exact ⟨h.delivered ▸ hlt, by rw [List.getElem?_append_left hlt]; exact (h.batch d hd).1⟩
  have hcalls : ∀ c ∈ s.calls, c.tag < s.delivered := fun c hc => h.delivered ▸ h.calls c hc
  unfold receive
  dsimp only
  split
  case h_1 event _ =>
    refine ⟨by simp [h.delivered], ?_, fun d hd => ?_, fun c hc => ?_, fun tag x hx => ?_⟩
    · rw [List.map_append, List.map_singleton, List.nodup_append]
      refine ⟨h.nodup, List.nodup_singleton _, fun a ha b hb => ?_⟩
      obtain ⟨d, hd, rfl⟩ := List.mem_map.mp ha
      rw [List.mem_singleton.mp hb]
      exact (hbatch d hd).1.ne
    · rcases List.mem_append.mp hd with hd | hd
      · exact ⟨(hbatch d hd).2, (h.batch d hd).2⟩
      · obtain rfl := List.mem_singleton.mp hd
        exact ⟨hlast, fun c hc => (hcalls c hc).ne⟩
    · rw [List.length_append]
      exact Nat.lt_succ_of_lt (h.calls c hc)
    · rcases hcases hx with ⟨-, hx⟩ | ⟨rfl, -⟩
      · exact (h.settled tag x hx).imp_left fun ⟨d, hd, ht⟩ => ⟨d, List.mem_append_left _ hd, ht⟩
      · exact .inl ⟨_, List.mem_append_right _ (List.mem_singleton.mpr rfl), rfl⟩
  case h_2 =>
    refine ⟨by simp [h.delivered], h.nodup, fun d hd => ⟨(hbatch d hd).2, fun c hc => ?_⟩,
      fun c hc => ?_, fun tag x hx => ?_⟩
    · rcases List.mem_append.mp hc with hc | hc
      · exact (h.batch d hd).2 c hc
      · obtain rfl := List.mem_singleton.mp hc
        exact (hbatch d hd).1.ne'
    · rw [List.length_append, List.length_singleton, ← h.delivered]
      rcases List.mem_append.mp hc with hc | hc
      · exact Nat.lt_succ_of_lt (hcalls c hc)
      · obtain rfl := List.mem_singleton.mp hc
        exact Nat.lt_succ_self _
    · rw [SettledOnce, List.filter_append]
      rcases hcases hx with ⟨hlt, hx⟩ | ⟨rfl, rfl⟩
      · have hother : [ChannelCall.ack s.delivered].filter (fun c => decide (c.tag = tag)) = [] := by
          refine List.filter_eq_nil_iff.mpr fun c hc he => ?_
          rw [List.mem_singleton.mp hc] at he
          exact hlt.ne' (of_decide_eq_true he)
        rw [hother, List.append_nil]
        exact h.settled tag x hx
      · -- discarded as it arrives
        have hnone : s.calls.filter (fun c => decide (c.tag = s.delivered)) = [] :=
          List.filter_eq_nil_iff.mpr fun c hc he => (hcalls c hc).ne (of_decide_eq_true he)
        rw [hnone]
        exact .inr (.inl (by simp [ChannelCall.tag]))

theorem world_take (it : Interpreter K) (cfg : ConsumerSettings) (s : Loop E) (t : Turn E) :
    (take it cfg s t).world = t.others s.world := by
  unfold take
  split
  · unfold receive
    dsimp only
    split <;> rfl
  · rfl

theorem loopOk_take (it : Interpreter K) (cfg : ConsumerSettings) {s : Loop E} {ms : List Message}
    (h : LoopOk s ms) (t : Turn E) :
    LoopOk (take it cfg s t) (ms ++ t.message.toList) := by
  have hothers : LoopOk { s with world := t.others s.world } ms :=
    ⟨h.delivered, h.nodup, h.batch, h.calls, h.settled⟩
  unfold take
  split
  · rename_i m hm
    rw [hm]
    exact loopOk_receive hothers m t.received
  · rename_i hm
    rw [hm, Option.toList_none, List.append_nil]
    exact hothers

theorem up_turn {s s' : Loop E} {t : Turn E} (hw : H.Up (t.others s.world).engine)
    (hs : turn it cfg s t = .ok s') : H.Up s'.world.engine := by
  rw [← world_take it cfg s t] at hw
  unfold turn at hs
  split at hs
  · exact ((flush_healthy hw).2 s' hs).1
  · cases hs
    exact hw

/-- **One turn** that does not raise. -/
theorem loopOk_turn {s s' : Loop E} {ms : List Message} {t : Turn E} (h : LoopOk s ms)
    (hw : H.Up (t.others s.world).engine) (hs : turn it cfg s t = .ok s') :
    LoopOk s' (ms ++ t.message.toList) := by
  have htake := loopOk_take it cfg h t
  rw [← world_take it cfg s t] at hw
  unfold turn at hs
  split at hs
  · exact (loopOk_flush htake hw hs).1
  · cases hs
    exact htake

theorem exists_turn {s : Loop E} {t : Turn E} (hw : H.Up (t.others s.world).engine) :
    (∃ s', turn it cfg s t = .ok s') ↔ (due cfg (take it cfg s t) t.checked = true →
      ¬ Poisoned it cfg H (take it cfg s t).world (take it cfg s t).batch) := by
  rw [← world_take it cfg s t] at hw
  unfold turn
  split
  · rename_i hdue
    rw [(flush_healthy hw).1]
    exact ⟨fun h _ => h, fun h => h hdue⟩
  · rename_i hdue
    exact iff_of_true ⟨_, rfl⟩ fun h => absurd h hdue

/-- The engine stays up whatever other processes do. -/
def KeepsUp (H : HealthyEngine E) (ts : List (Turn E)) : Prop :=
  ∀ t ∈ ts, ∀ w, H.Up w.engine → H.Up (t.others w).engine

/-- **A run** that does not raise. -/
theorem loopOk_run : ∀ {ts : List (Turn E)} {s s' : Loop E} {ms : List Message}, LoopOk s ms →
    KeepsUp H ts → H.Up s.world.engine → run it cfg s ts = .ok s' →
    LoopOk s' (ms ++ arrivals ts) ∧ s'.batch = []
  | [], s, s', ms, h, _, hw, hs => by
      rw [arrivals, List.filterMap_nil, List.append_nil]
      unfold run at hs
      split at hs
      · rename_i hempty
        cases hs
        exact ⟨h, List.isEmpty_iff.mp hempty⟩
      · exact loopOk_flush h hw hs
  | t :: ts, s, s', ms, h, ht, hw, hs => by
      obtain ⟨s₁, hs₁, hs⟩ := bind_eq_ok.mp hs
      obtain ⟨hhead, htail⟩ := List.forall_mem_cons.mp ht
      have hrun := loopOk_run (loopOk_turn h (hhead _ hw) hs₁) htail (up_turn (hhead _ hw) hs₁) hs
      have harrivals : t.message.toList ++ arrivals ts = arrivals (t :: ts) := by
        cases hm : t.message <;> simp [arrivals, hm]
      rwa [List.append_assoc, harrivals] at hrun

/-- The loop comes to its end exactly when no batch is poisoned. -/
theorem exists_run : ∀ {ts : List (Turn E)} {s : Loop E}, KeepsUp H ts → H.Up s.world.engine →
    ((∃ s', run it cfg s ts = .ok s') ↔ Harmless it cfg H s ts)
  | [], s, _, hw => by
      unfold run Harmless
      split
      · rename_i hempty
        rw [List.isEmpty_iff.mp hempty]
        exact iff_of_true ⟨s, rfl⟩ (not_poisoned_nil _)
      · exact (flush_healthy hw).1
  | t :: ts, s, ht, hw => by
      obtain ⟨hhead, htail⟩ := List.forall_mem_cons.mp ht
      unfold Harmless
      rw [← exists_turn (hhead _ hw)]
      constructor
      · rintro ⟨s', hs'⟩
        obtain ⟨s₁, hs₁, hs'⟩ := bind_eq_ok.mp hs'
        refine ⟨⟨s₁, hs₁⟩, fun s₂ hs₂ => ?_⟩
        obtain rfl := Except.ok.inj (hs₁.symm.trans hs₂)
        exact (exists_run htail (up_turn (hhead _ hw) hs₁)).mp ⟨s', hs'⟩
      · rintro ⟨⟨s₁, hs₁⟩, h⟩
        obtain ⟨s', hs'⟩ := (exists_run htail (up_turn (hhead _ hw) hs₁)).mpr (h s₁ hs₁)
        exact ⟨s', bind_eq_ok.mpr ⟨s₁, hs₁, hs'⟩⟩

/-- **Settled once.** -/
theorem settled_iff (it : Interpreter K) (cfg : ConsumerSettings) (H : HealthyEngine E) {w : World E}
    (hw : H.Up w.engine) {ts : List (Turn E)} (ht : KeepsUp H ts) :
    (∃ s, run it cfg (.start w) ts = .ok s ∧
      ∀ tag m, (arrivals ts)[tag]? = some m → SettledOnce s.calls tag m) ↔
      Harmless it cfg H (.start w) ts := by
  have hstart : LoopOk (.start w) [] :=
    ⟨rfl, List.nodup_nil, nofun, nofun, nofun⟩
  rw [← exists_run ht hw]
  refine exists_congr fun s => and_iff_left_of_imp fun hs tag m hm => ?_
  obtain ⟨h, hb⟩ := loopOk_run hstart ht hw hs
  rcases h.settled tag m hm with ⟨d, hd, -⟩ | h
  · rw [hb] at hd
    cases hd
  · exact h

end Run

end IndexingConsumer

/-- The in-memory engine while it is available. -/
def InMemoryEngine.healthy {K : Type} [Field K] [LinearOrder K] (rt : Runtime K) :
    HealthyEngine (inMemory rt) where
  Up st := st.available = true
  accepts _ _ := true
  bulk_up {st ops} h _ := by
    refine ⟨⟨ops.map Operation.documentId, []⟩, { st with docs := applyAll st.docs ops }, ?_, h,
      fun op hop => iff_of_true (List.mem_map_of_mem hop) rfl⟩
    simp only [inMemory, InMemoryEngine.bulk, h, if_true]

namespace Sample

open IndexingConsumer InMemoryEngine

/-- The bytes of an ASCII string. -/
def bytes (s : String) : List UInt8 := s.toList.map fun c => c.toNat.toUInt8

def wellFormed : List UInt8 :=
  bytes ("\x7b\"document_id\": \"3f2c9d8e-5b6a-4c7d-8e9f-0a1b2c3d4e5f\", " ++
    "\"tenant_id\": \"acme\", \"version\": 1\x7d")

/-- An id that is a number. -/
def poison : List UInt8 :=
  bytes "\x7b\"document_id\": 7, \"tenant_id\": \"acme\", \"version\": 1\x7d"

/-- `json.loads` on the two bodies; the others are no JSON. -/
def loads (body : List UInt8) : Option Json :=
  if body = wellFormed then
    some (.object [("document_id".toList, .str documentA.str), ("tenant_id".toList, .str acme),
      ("version".toList, .int 1)])
  else if body = poison then
    some (.object [("document_id".toList, .int 7), ("tenant_id".toList, .str acme),
      ("version".toList, .int 1)])
  else none

def isStr : Json → Bool
  | .str _ => true
  | _ => false

/-- The value of a JSON string. -/
def str? : Json → Option Str
  | .str s => some s
  | _ => none

def interpreter : Interpreter ℚ where
  toRuntime := runtime
  loads := loads
  strFloat _ := []
  iterateValues vs := (sorted (vs.filterMap str?).toFinset).map .str ++ vs.filter fun v => !isStr v
  iterateValues_str xs := by
    have hstr : (xs.map Json.str).filterMap str? = xs := by
      rw [List.filterMap_map]
      exact List.filterMap_some
    have hother : (xs.map Json.str).filter (fun v => !isStr v) = [] := by simp [isStr]
    rw [hstr, hother, List.append_nil]
    rfl
  routable v := isStr v

def consumerSettings : ConsumerSettings := ⟨100, 300, 3⟩

/-- A message that arrives, alone in its batch. -/
def alone (body : List UInt8) : Turn (inMemory runtime) := ⟨id, some ⟨body, []⟩, 0, 300⟩

def idleWorld : World (inMemory runtime) := World.initial State.initial

theorem settled_sample :
    (∃ s, run interpreter consumerSettings (.start idleWorld)
        [alone wellFormed, alone [], alone wellFormed] = .ok s ∧
      ∀ tag m, (arrivals [alone wellFormed, alone [], alone wellFormed])[tag]? = some m →
        SettledOnce s.calls tag m) ↔
      Harmless interpreter consumerSettings (InMemoryEngine.healthy runtime) (.start idleWorld)
        [alone wellFormed, alone [], alone wellFormed] :=
  settled_iff (w := idleWorld) interpreter consumerSettings (InMemoryEngine.healthy runtime) rfl
    (by simp [KeepsUp, alone])

/-- **A message that stops the consumer.** -/
theorem poison_message : ¬ ∀ ts : List (Turn (inMemory runtime)),
    KeepsUp (InMemoryEngine.healthy runtime) ts →
    ∃ s, run interpreter consumerSettings (.start idleWorld) ts = .ok s ∧
      ∀ tag m, (arrivals ts)[tag]? = some m → SettledOnce s.calls tag m := by
  intro h
  obtain ⟨s, hs, -⟩ := h [alone poison] (by simp [KeepsUp, alone])
  have hraise : (run interpreter consumerSettings (.start idleWorld) [alone poison]).toBool = false := by
    decide +kernel
  rw [hs] at hraise
  cases hraise

end Sample

end DocSearch
