import DocSearch.Workers.Delivery
import Mathlib.Algebra.BigOperators.Group.Finset.Basic
import Mathlib.Algebra.Order.Group.Multiset
import Mathlib.Data.Fintype.Basic
import Mathlib.Tactic.Abel

/-!
# Workers — Accounts

Where the messages are.  A message is counted by its body, which stays as it is on every way through
the broker.

* `Balanced`: the accounts of the broker, of the consumers and of the DLQ.
* `messages_conserved`: they balance in every state of every run.
-/

namespace DocSearch

open IndexingProcessor IndexingConsumer

namespace Fleet

variable {K : Type} {E : SearchEngine K} {ι : Type} [DecidableEq ι] {it : Interpreter K}
  {cfg : ConsumerSettings}

/-! ### The accounts -/

/-- The bodies of messages; nothing that happens to a message changes its body. -/
def bodies (ms : List Queued) : Multiset (List UInt8) := ↑(ms.map Queued.body)

/-- The messages in the main queue and in the retry queue. -/
def waiting (queues : List (QueueName × Queued)) : List Queued :=
  (queues.filter fun x => decide (x.1 ≠ .dlq)).map Prod.snd

def deadLettered (queues : List (QueueName × Queued)) : List Queued :=
  (queues.filter fun x => decide (x.1 = .dlq)).map Prod.snd

/-- The messages that a consumer has not settled. -/
def unsettled (x : Client) : Multiset (List UInt8) := bodies (x.unacked.map Unacked.message)

/-- Those of them that have a copy in the DLQ. -/
def copied (x : Client) : Multiset (List UInt8) :=
  bodies ((x.unacked.filter Unacked.copied).map Unacked.message)

/-- **The accounts.**  Every message that was published is waiting, with a consumer, finished or given
up; and those that were given up are in the DLQ, beside copies of messages that were not. -/
structure Balanced [Fintype ι] (s : Fleet E ι) : Prop where
  published : bodies s.published = bodies (waiting s.queues) + ∑ c, unsettled (s.clients c) +
    bodies s.finished + bodies s.givenUp
  dlq : bodies (deadLettered s.queues) = bodies s.givenUp + ∑ c, copied (s.clients c) +
    bodies s.again

section Sums

variable [Fintype ι] {M : Type} [AddCancelCommMonoid M] {f : Client → M} {g : ι → Client} {c : ι}
  {x : Client} {d : M}

theorem sum_update (f : Client → M) (g : ι → Client) (c : ι) (x : Client) :
    ∑ i, f (Function.update g c x i) + f (g c) = ∑ i, f (g i) + f x := by
  have hrest : ∑ i ∈ Finset.univ.erase c, f (Function.update g c x i) =
      ∑ i ∈ Finset.univ.erase c, f (g i) :=
    Finset.sum_congr rfl fun i hi => by rw [Function.update_of_ne (Finset.ne_of_mem_erase hi)]
  rw [← Finset.sum_erase_add _ _ (Finset.mem_univ c), hrest, Function.update_self, add_right_comm,
    Finset.sum_erase_add _ _ (Finset.mem_univ c)]

/-- A consumer gets something more. -/
theorem sum_update_add (h : f x = f (g c) + d) :
    ∑ i, f (Function.update g c x i) = ∑ i, f (g i) + d := by
  have hsum := sum_update f g c x
  rw [h, ← add_assoc, add_right_comm] at hsum
  exact add_right_cancel hsum

/-- A consumer gives something away. -/
theorem sum_update_sub (h : f (g c) = f x + d) :
    ∑ i, f (Function.update g c x i) + d = ∑ i, f (g i) := by
  have hsum := sum_update f g c x
  rw [h, ← add_assoc, add_right_comm] at hsum
  exact add_right_cancel hsum

end Sums

theorem bodies_append (xs ys : List Queued) : bodies (xs ++ ys) = bodies xs + bodies ys := by
  rw [bodies, List.map_append]
  exact (Multiset.coe_add _ _).symm

theorem bodies_perm {xs ys : List Queued} (h : xs.Perm ys) : bodies xs = bodies ys :=
  Multiset.coe_eq_coe.mpr (h.map _)

theorem waiting_append (xs ys : List (QueueName × Queued)) :
    bodies (waiting (xs ++ ys)) = bodies (waiting xs) + bodies (waiting ys) := by
  rw [waiting, List.filter_append, List.map_append, bodies_append]
  rfl

theorem deadLettered_append (xs ys : List (QueueName × Queued)) :
    bodies (deadLettered (xs ++ ys)) = bodies (deadLettered xs) + bodies (deadLettered ys) := by
  rw [deadLettered, List.filter_append, List.map_append, bodies_append]
  rfl

/-- A message is taken out of its queue. -/
theorem waiting_eraseIdx {xs : List (QueueName × Queued)} {i : ℕ} {x : QueueName × Queued}
    (h : xs[i]? = some x) (hx : x.1 ≠ .dlq) :
    bodies (waiting xs) = bodies (waiting (xs.eraseIdx i)) + {x.2.body} ∧
      bodies (deadLettered xs) = bodies (deadLettered (xs.eraseIdx i)) := by
  obtain ⟨hi, rfl⟩ := List.getElem?_eq_some_iff.mp h
  have hp := (List.getElem_cons_eraseIdx_perm hi).symm
  constructor
  · rw [waiting, bodies_perm ((hp.filter _).map _), List.filter_cons, if_pos (decide_eq_true hx), add_comm]
    rfl
  · rw [deadLettered, bodies_perm ((hp.filter _).map _),
      List.filter_cons_of_neg (by simpa using hx)]
    rfl

section Balance

variable [Fintype ι] {queueRetryDelayMs : ℕ} {s s' : Fleet E ι} {a : FleetAct E ι}

/-- A consumer goes on, and the broker does not notice. -/
theorem Balanced.set (h : Balanced s) (c : ι) {x : Client} (hx : x.unacked = (s.clients c).unacked) :
    Balanced (s.set c x) := by
  have hu : ∑ i, unsettled (Function.update s.clients c x i) = ∑ i, unsettled (s.clients i) + 0 :=
    sum_update_add (by rw [unsettled, hx, add_zero]; rfl)
  have hc : ∑ i, copied (Function.update s.clients c x i) = ∑ i, copied (s.clients i) + 0 :=
    sum_update_add (by rw [copied, hx, add_zero]; rfl)
  rw [add_zero] at hu hc
  exact ⟨h.published.trans (by rw [← hu]; rfl), h.dlq.trans (by rw [← hc]; rfl)⟩

omit [DecidableEq ι] in
theorem Balanced.publish (h : Balanced s) {m : Queued} (hm : IsEventType m.routingKey) :
    Balanced { s with
      queues := s.queues ++ (declareTopology queueRetryDelayMs).publish .documents m
      published := s.published ++ [m] } := by
  have hq : (declareTopology queueRetryDelayMs).publish .documents m = [(.index, m)] := by
    rw [Topology.publish, (route_eventType hm).1]
    rfl
  constructor
  · rw [bodies_append, h.published, waiting_append, hq]
    change _ + {m.body} = _ + {m.body} + _ + _ + _
    abel
  · rw [deadLettered_append, h.dlq, hq]
    exact add_zero _

theorem Balanced.deliver (h : Balanced s) {c : ι} {i : ℕ} {m : Queued} {x : Client}
    (hq : s.queues[i]? = some (.index, m)) {tag : ℕ}
    (hx : x.unacked = (s.clients c).unacked ++ [⟨tag, m, false⟩]) :
    Balanced { s.set c x with queues := s.queues.eraseIdx i } := by
  obtain ⟨hw, hd⟩ := waiting_eraseIdx hq nofun
  have hu : ∑ i, unsettled (Function.update s.clients c x i) =
      ∑ i, unsettled (s.clients i) + {m.body} :=
    sum_update_add (by rw [unsettled, hx, List.map_append, bodies_append]; rfl)
  have hc : ∑ i, copied (Function.update s.clients c x i) = ∑ i, copied (s.clients i) + 0 :=
    sum_update_add (by rw [copied, hx, List.filter_append, List.map_append, bodies_append]; rfl)
  constructor
  · refine h.published.trans ?_
    change _ = _ + ∑ i, unsettled (Function.update s.clients c x i) + _ + _
    rw [hw, hu]
    change _ = bodies (waiting (s.queues.eraseIdx i)) + _ + _ + _
    abel
  · refine (hd.symm.trans h.dlq).trans ?_
    change _ = _ + ∑ i, copied (Function.update s.clients c x i) + _
    rw [hc, add_zero]
    rfl

theorem Balanced.crash (h : Balanced s) (c : ι) : Balanced (s.crash c) := by
  have hu : ∑ i, unsettled (Function.update s.clients c .idle i) + unsettled (s.clients c) =
      ∑ i, unsettled (s.clients i) := sum_update_sub (zero_add _).symm
  have hc : ∑ i, copied (Function.update s.clients c .idle i) + copied (s.clients c) =
      ∑ i, copied (s.clients i) := sum_update_sub (zero_add _).symm
  have hback : waiting ((s.clients c).unacked.map fun u => (.index, u.message)) =
      (s.clients c).unacked.map Unacked.message := by
    rw [waiting, List.filter_eq_self.mpr, List.map_map]
    · rfl
    · intro x hx
      obtain ⟨u, -, rfl⟩ := List.mem_map.mp hx
      rfl
  have hdead : deadLettered ((s.clients c).unacked.map fun u => (.index, u.message)) = [] := by
    rw [deadLettered, List.filter_eq_nil_iff.mpr]
    · rfl
    · intro x hx
      obtain ⟨u, -, rfl⟩ := List.mem_map.mp hx
      exact Bool.false_ne_true
  constructor
  · change bodies s.published = bodies (waiting (s.queues ++ _)) +
      ∑ i, unsettled (Function.update s.clients c .idle i) + bodies s.finished + bodies s.givenUp
    rw [h.published, waiting_append, hback, ← hu, unsettled]
    abel
  · change bodies (deadLettered (s.queues ++ _)) = bodies s.givenUp +
      ∑ i, copied (Function.update s.clients c .idle i) + bodies (s.again ++ _)
    rw [deadLettered_append, hdead, h.dlq, bodies_append, ← hc, copied]
    change _ + 0 = _
    abel

omit [DecidableEq ι] in
theorem Balanced.expire (h : Balanced s) {i : ℕ} {m : Queued} (hm : IsEventType m.routingKey)
    (hq : s.queues[i]? = some (.retry, m)) :
    Balanced { s with queues := s.queues.eraseIdx i ++
      (declareTopology queueRetryDelayMs).deadLetter .retry .expired m } := by
  obtain ⟨hw, hd⟩ := waiting_eraseIdx hq nofun
  constructor
  · rw [h.published, waiting_append, deadLetter_expired hm, hw]
    rfl
  · rw [deadLettered_append, deadLetter_expired hm, ← hd, h.dlq]
    exact add_zero _

/-- The bodies of a delivery and of the others. -/
theorem bodies_unacked {us vs : List Unacked} {u : Unacked} (h : us.Perm (u :: vs)) :
    bodies (us.map Unacked.message) = bodies (vs.map Unacked.message) + {u.message.body} ∧
      bodies ((us.filter Unacked.copied).map Unacked.message) =
        bodies ((vs.filter Unacked.copied).map Unacked.message) +
          if u.copied then {u.message.body} else 0 := by
  constructor
  · rw [bodies_perm (h.map _), add_comm]
    rfl
  · rw [bodies_perm ((h.filter _).map _)]
    cases hc : u.copied with
    | true =>
        rw [List.filter_cons_of_pos hc, if_pos rfl, add_comm]
        rfl
    | false => rw [List.filter_cons_of_neg (by rw [hc]; exact Bool.false_ne_true), if_neg nofun, add_zero]

/-- A call that takes the delivery away from the consumer. -/
theorem sums_leave {c : ι} {x : Client} {u : Unacked}
    (h : (s.clients c).unacked.Perm (u :: x.unacked)) :
    ∑ i, unsettled (Function.update s.clients c x i) + {u.message.body} =
        ∑ i, unsettled (s.clients i) ∧
      ∑ i, copied (Function.update s.clients c x i) + (if u.copied then {u.message.body} else 0) =
        ∑ i, copied (s.clients i) :=
  ⟨sum_update_sub (bodies_unacked h).1, sum_update_sub (bodies_unacked h).2⟩

theorem Balanced.updated {c : ι} {x : Client} {queues : List (QueueName × Queued)}
    {finished givenUp : List Queued}
    (hp : bodies s.published = bodies (waiting queues) +
      ∑ i, unsettled (Function.update s.clients c x i) + bodies finished + bodies givenUp)
    (hd : bodies (deadLettered queues) =
      bodies givenUp + ∑ i, copied (Function.update s.clients c x i) + bodies s.again) :
    Balanced { s.set c x with queues := queues, finished := finished, givenUp := givenUp } :=
  ⟨hp, hd⟩

/-- The delivery a call is about is finished, given up or rejected, or gets its copy. -/
theorem Balanced.perform (h : Balanced s) (hok : FleetOk it cfg s) {c : ι} {call : ChannelCall}
    {rest : List ChannelCall} {u : Unacked} (hc : (s.clients c).calls = call :: rest)
    (hu : (s.clients c).unacked.find? (fun u => decide (u.tag = call.tag)) = some u) :
    Balanced (s.perform (declareTopology queueRetryDelayMs) c call rest u) := by
  obtain ⟨hmem, htag, hj⟩ := (hok.clients c).justified hc hu
  have hn := (hok.clients c).nodup
  have ht := ((hok.clients c).messages u hmem).1
  have hcall := @perform_eq _ _ it cfg queueRetryDelayMs _ _ _ hj ht
  let x : Client :=
    { s.clients c with unacked := call.after (s.clients c).unacked, calls := rest }
  have hsingle : bodies [u.message] = {u.message.body} := rfl
  unfold Fleet.perform
  rw [hcall]
  cases call with
  | ack tag =>
      obtain rfl : u.tag = tag := htag
      obtain ⟨hsum, hsumc⟩ := sums_leave (x := x) (perm_after hn hmem)
      rw [goesTo, List.append_nil]
      dsimp only
      split
      · rename_i hcopied
        rw [if_pos hcopied] at hsumc
        have hp : bodies s.published = bodies (waiting s.queues) +
            ∑ i, unsettled (Function.update s.clients c x i) + bodies s.finished +
              bodies (s.givenUp ++ [u.message]) := by
          rw [h.published, bodies_append, hsingle, ← hsum]
          abel
        have hd : bodies (deadLettered s.queues) = bodies (s.givenUp ++ [u.message]) +
            ∑ i, copied (Function.update s.clients c x i) + bodies s.again := by
          rw [h.dlq, bodies_append, hsingle, ← hsumc]
          abel
        exact .updated hp hd
      · rename_i hcopied
        rw [if_neg hcopied, add_zero] at hsumc
        have hp : bodies s.published = bodies (waiting s.queues) +
            ∑ i, unsettled (Function.update s.clients c x i) + bodies (s.finished ++ [u.message]) +
              bodies s.givenUp := by
          rw [h.published, bodies_append, hsingle, ← hsum]
          abel
        have hd : bodies (deadLettered s.queues) = bodies s.givenUp +
            ∑ i, copied (Function.update s.clients c x i) + bodies s.again := by
          rw [h.dlq, ← hsumc]
        exact .updated hp hd
  | nack tag =>
      obtain rfl : u.tag = tag := htag
      obtain ⟨hsum, hsumc⟩ := sums_leave (x := x) (perm_after hn hmem)
      rw [hj.1, if_neg Bool.false_ne_true, add_zero] at hsumc
      have hp : bodies s.published = bodies (waiting (s.queues ++ goesTo u.message (.nack u.tag))) +
          ∑ i, unsettled (Function.update s.clients c x i) + bodies s.finished + bodies s.givenUp := by
        rw [h.published, waiting_append, ← hsum]
        change _ = _ + {u.message.body} + _ + _ + _
        abel
      have hd : bodies (deadLettered (s.queues ++ goesTo u.message (.nack u.tag))) =
          bodies s.givenUp + ∑ i, copied (Function.update s.clients c x i) + bodies s.again := by
        rw [deadLettered_append, h.dlq, ← hsumc]
        exact add_zero _
      exact .updated hp hd
  | publish tag body key =>
      obtain rfl : u.tag = tag := htag
      obtain ⟨hcopied, rfl, key, rfl, -⟩ := hj
      -- the delivery stays, with its copy
      have hold := bodies_unacked (perm_after hn hmem)
      have hnew := bodies_unacked (perm_publish hn hmem u.message.body (.str key))
      have hsum : ∑ i, unsettled (Function.update s.clients c x i) =
          ∑ i, unsettled (s.clients i) + 0 :=
        sum_update_add (by rw [unsettled, unsettled, hold.1, add_zero]; exact hnew.1)
      have hsumc : ∑ i, copied (Function.update s.clients c x i) =
          ∑ i, copied (s.clients i) + {u.message.body} := by
        refine sum_update_add ?_
        rw [copied, copied, hold.2, hcopied, if_neg Bool.false_ne_true, add_zero]
        exact hnew.2
      have hp : bodies s.published =
          bodies (waiting (s.queues ++ goesTo u.message (.publish u.tag u.message.body (.str key)))) +
            ∑ i, unsettled (Function.update s.clients c x i) + bodies s.finished +
              bodies s.givenUp := by
        rw [h.published, waiting_append, hsum]
        change _ = _ + 0 + _ + _ + _
        abel
      have hd : bodies (deadLettered
            (s.queues ++ goesTo u.message (.publish u.tag u.message.body (.str key)))) =
          bodies s.givenUp + ∑ i, copied (Function.update s.clients c x i) + bodies s.again := by
        rw [deadLettered_append, h.dlq, hsumc]
        change _ + {u.message.body} = _
        abel
      exact .updated hp hd

/-- **One step** keeps the accounts. -/
theorem Balanced.move (h : Balanced s) (hok : FleetOk it cfg s) (ha : Allowed it a)
    (hm : Move it cfg (declareTopology queueRetryDelayMs) s a s') : Balanced s' := by
  cases hm with
  | published => exact h.publish ha.travelling.key
  | delivered hq => exact h.deliver hq rfl
  | @received c | @discarded c | @settled c | @allSettled c => exact h.set c rfl
  | @flushed c outcome =>
      have hset := h.set c (x := { s.clients c with
        batch := [], flushing := some (outcome, (s.clients c).batch) }) rfl
      exact ⟨hset.published, hset.dlq⟩
  | performed hc hu => exact h.perform hok hc hu
  | crashed => exact h.crash _
  | @expired i q m hq httl =>
      obtain rfl := expires_iff.mp httl
      exact h.expire (hok.queues _ (List.mem_of_getElem? hq)).1.key hq
  | disturbed => exact ⟨h.published, h.dlq⟩

end Balance

/-! ### Every run -/

section Run

variable {queueRetryDelayMs : ℕ} {s s' : Fleet E ι} {a : FleetAct E ι}

theorem Reached.balanced [Fintype ι] (h : Reached it cfg queueRetryDelayMs s) : Balanced s := by
  induction h with
  | start w =>
      have hu : ∑ i : ι, unsettled ((Fleet.start w : Fleet E ι).clients i) = 0 :=
        Finset.sum_eq_zero fun _ _ => rfl
      have hc : ∑ i : ι, copied ((Fleet.start w : Fleet E ι).clients i) = 0 :=
        Finset.sum_eq_zero fun _ _ => rfl
      exact ⟨by rw [hu]; rfl, by rw [hc]; rfl⟩
  | step h ha hs ih => exact ih.move h.ok ha (move_of_step it cfg _ hs)

/-- A message is finished when it is acked without a copy. -/
theorem finished_move (hok : FleetOk it cfg s) (h : ∀ m ∈ s.finished, Finished it s.flushes m)
    (hm : Move it cfg (declareTopology queueRetryDelayMs) s a s') :
    ∀ m ∈ s'.finished, Finished it s'.flushes m := by
  cases hm with
  | flushed hf hp => exact fun m hm => (h m hm).mono (List.subset_append_left _ _)
  | @performed c call rest u hc hu =>
      obtain ⟨-, -, hj⟩ := (hok.clients c).justified hc hu
      cases call with
      | ack tag =>
          unfold Fleet.perform
          dsimp only
          split
          · exact h
          · rename_i hcopied
            intro m hm
            rcases List.mem_append.mp hm with hm | hm
            · exact h m hm
            · rw [List.mem_singleton.mp hm]
              exact hj.resolve_left hcopied
      | nack _ | publish _ _ _ => exact h
  | _ => exact h

theorem Reached.finished (h : Reached it cfg queueRetryDelayMs s) :
    ∀ m ∈ s.finished, Finished it s.flushes m := by
  induction h with
  | start w => nofun
  | step h ha hs ih => exact finished_move h.ok ih (move_of_step it cfg _ hs)

end Run

end Fleet

namespace Sample

open Fleet

end Sample

end DocSearch
