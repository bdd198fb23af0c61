import DocSearch.Workers.Poison

/-!
# Workers — Flushing

When the consumer flushes its batch, with a clock beside the loop.  A round waits for a message for
the linger time at most, from when the last one was checked; flushing takes no time.

* `Rounds`: the rounds of the loop, for any arrivals.
* `Punctual`: the batch is flushed when it is full, or when the linger time has passed since its
  first valid message.
* `OnTime`: the arrivals for which it is.  A message that comes within the linger time starts the
  wait anew, so that the next timeout is late; a malformed one sets a deadline for a batch that has
  not begun.
* `rounds_punctual_iff`: the rounds of a run are punctual exactly when the arrivals are on time.
-/

namespace DocSearch

namespace IndexingConsumer

open IndexingProcessor

variable {K : Type} {E : SearchEngine K} (it : Interpreter K) (cfg : ConsumerSettings)

/-- The loop, when it last checked its batch, and when the first message of the batch came. -/
structure Clocked (E : SearchEngine K) where
  loop : Loop E
  now : ℕ
  first : Option ℕ

/-- The message of the round, if any, is one that can be decoded. -/
def valid (t : Turn E) : Bool :=
  t.message.any fun m => ((it.loads m.body).bind (DocumentEvent.fromDict it.toUnicode)).isSome

/-- `wait_for` returns a message at its arrival, or times out exactly at its timeout; the deadline is
checked at once. -/
structure Timed (now : ℕ) (t : Turn E) : Prop where
  checked : t.checked = t.received
  message : t.message.isSome → now ≤ t.received ∧ t.received ≤ now + cfg.workerBatchLingerMs
  timeout : t.message = none → t.received = now + cfg.workerBatchLingerMs

namespace Clocked

/-- When the first message of the batch came, with the message of the round. -/
def firstWith (s : Clocked E) (t : Turn E) : Option ℕ :=
  if valid it t then some (s.first.getD t.received) else s.first

/-- The length of the batch, with the message of the round. -/
def sizeWith (s : Clocked E) (t : Turn E) : ℕ :=
  s.loop.batch.length + if valid it t then 1 else 0

/-- The batch is flushed in the round. -/
def flushes (s : Clocked E) (t : Turn E) : Bool := due cfg (take it cfg s.loop t) t.checked

/-- The state after a round that has left the loop in `loop`. -/
def after (s : Clocked E) (t : Turn E) (loop : Loop E) : Clocked E :=
  ⟨loop, t.checked, if s.flushes it cfg t then none else s.firstWith it t⟩

end Clocked

/-- The rounds of the loop, the newest first, each with the state before it. -/
inductive Rounds : List (Clocked E × Turn E) → Clocked E → Prop where
  | start (w : World E) (now : ℕ) : Rounds [] ⟨.start w, now, none⟩
  | round {past s} (h : Rounds past s) (t : Turn E) (ht : Timed cfg s.now t) {loop : Loop E}
      (hok : turn it cfg s.loop t = .ok loop) : Rounds ((s, t) :: past) (s.after it cfg t loop)

/-- **Flushed in time**: no check comes after the linger time of the batch is over, and the batch is
flushed exactly when it is full or that time is over. -/
def Punctual (s : Clocked E) (t : Turn E) : Prop :=
  match s.firstWith it t with
  | none => s.flushes it cfg t = false
  | some f =>
      t.checked ≤ f + cfg.workerBatchLingerMs ∧
        (s.flushes it cfg t = true ↔
          cfg.workerBatchSize ≤ (take it cfg s.loop t).batch.length ∨
            f + cfg.workerBatchLingerMs ≤ t.checked)

/-- The arrivals that the loop is made for.  A wait that times out with a batch pending began when
the first message of the batch came.  A message comes within the linger time of its batch, and one
that leaves the batch short not between a deadline set before the batch and the end of that time. -/
def OnTime (s : Clocked E) (t : Turn E) : Prop :=
  match t.message with
  | none => ∀ f, s.first = some f → s.now = f
  | some _ => ∀ f, s.firstWith it t = some f →
      t.received ≤ f + cfg.workerBatchLingerMs ∧
        ((s.sizeWith it t : ℤ) < cfg.workerBatchSize →
          ∀ d, s.loop.deadline = some d →
            t.received < d ∨ f + cfg.workerBatchLingerMs ≤ t.received)

/-! ### What a round does -/

variable {it cfg} {s : Clocked E} {t : Turn E}

theorem length_take (cfg : ConsumerSettings) : (take it cfg s.loop t).batch.length = s.sizeWith it t := by
  unfold take Clocked.sizeWith valid
  cases hm : t.message with
  | none => rfl
  | some m =>
      unfold receive
      rw [Option.any_some]
      dsimp only
      split
      · rename_i hev
        rw [hev]
        exact List.length_append
      · rename_i hev
        rw [hev]
        rfl

theorem deadline_take : (take it cfg s.loop t).deadline =
    if t.message.isSome then some (s.loop.deadline.getD (t.received + cfg.workerBatchLingerMs))
    else s.loop.deadline := by
  unfold take
  cases t.message with
  | none => rfl
  | some m =>
      unfold receive
      dsimp only
      split <;> rfl

theorem flushes_iff : s.flushes it cfg t = true ↔ 0 < s.sizeWith it t ∧
    (cfg.workerBatchSize ≤ s.sizeWith it t ∨
      ∃ d, (take it cfg s.loop t).deadline = some d ∧ d ≤ t.checked) := by
  rw [Clocked.flushes, due, Bool.and_eq_true, Bool.or_eq_true, decide_eq_true_eq, length_take,
    ← length_take cfg, List.length_pos_iff, Bool.not_eq_true', List.isEmpty_eq_false_iff,
    Option.any_eq_true]
  simp only [decide_eq_true_eq]

theorem flush_ok {l l' : Loop E} (h : flush it cfg l = .ok l') : l'.batch = [] ∧ l'.deadline = none := by
  obtain ⟨_, _, h⟩ := bind_eq_ok.mp h
  obtain ⟨_, _, h⟩ := bind_eq_ok.mp h
  cases h
  exact ⟨rfl, rfl⟩

theorem turn_ok {loop : Loop E} (h : turn it cfg s.loop t = .ok loop) :
    if s.flushes it cfg t then loop.batch = [] ∧ loop.deadline = none
    else loop = take it cfg s.loop t := by
  unfold turn at h
  rw [← Clocked.flushes] at h
  split at h
  · rename_i hf
    rw [if_pos hf]
    exact flush_ok h
  · rename_i hf
    rw [if_neg hf]
    cases h
    rfl

/-! ### Runs -/

/-- **Between rounds**, a pending batch is short of its size, and its deadline is still to come, no
later than the end of its linger time. -/
structure Clocked.Pending (cfg : ConsumerSettings) (s : Clocked E) : Prop where
  deadline_le : ∀ d, s.loop.deadline = some d → d ≤ s.now + cfg.workerBatchLingerMs
  empty : s.first = none → s.loop.batch = []
  pending : ∀ f, s.first = some f → 0 < s.loop.batch.length ∧ f ≤ s.now ∧
    (s.loop.batch.length : ℤ) < cfg.workerBatchSize ∧
    ∃ d, s.loop.deadline = some d ∧ s.now < d ∧ d ≤ f + cfg.workerBatchLingerMs

theorem Timed.now_le (ht : Timed cfg s.now t) : s.now ≤ t.checked := by
  rw [ht.checked]
  cases hm : t.message with
  | none => exact (Nat.le_add_right _ _).trans (ht.timeout hm).ge
  | some m => exact (ht.message (hm ▸ rfl)).1

/-- The deadline a round leaves, before it is checked. -/
theorem deadline_cases {d : ℕ} (h : (take it cfg s.loop t).deadline = some d) :
    s.loop.deadline = some d ∨ s.loop.deadline = none ∧ d = t.received + cfg.workerBatchLingerMs := by
  rw [deadline_take] at h
  split at h
  · cases hd : s.loop.deadline with
    | none =>
        rw [hd] at h
        exact .inr ⟨rfl, (Option.some.inj h).symm⟩
    | some d' =>
        rw [hd] at h
        exact .inl h
  · exact .inl h

theorem deadline_of_some {d : ℕ} (h : s.loop.deadline = some d) :
    (take it cfg s.loop t).deadline = some d := by
  rw [deadline_take, h]
  split <;> rfl

/-- Without a first message there is no batch. -/
theorem Clocked.Pending.sizeWith_eq_zero (h : s.Pending cfg) (hf : s.firstWith it t = none) :
    s.sizeWith it t = 0 := by
  unfold Clocked.firstWith at hf
  split at hf
  · cases hf
  · rename_i hv
    rw [Clocked.sizeWith, if_neg hv, h.empty hf]
    rfl

/-- With one, there is a deadline, no later than the end of its linger time. -/
theorem Clocked.Pending.firstWith_spec (h : s.Pending cfg) (ht : Timed cfg s.now t) {f : ℕ}
    (hf : s.firstWith it t = some f) : f ≤ t.checked ∧ 0 < s.sizeWith it t ∧
      ∃ d, (take it cfg s.loop t).deadline = some d ∧ d ≤ f + cfg.workerBatchLingerMs := by
  have hnow := ht.now_le
  have hfirst : ∀ f', s.first = some f' → f = f' → f ≤ t.checked ∧ 0 < s.sizeWith it t ∧
      ∃ d, (take it cfg s.loop t).deadline = some d ∧ d ≤ f + cfg.workerBatchLingerMs := by
    rintro f' hs rfl
    obtain ⟨hlen, hle, -, d, hd, -, hdle⟩ := h.pending f hs
    exact ⟨hle.trans hnow, Nat.add_pos_left hlen _, d, deadline_of_some hd, hdle⟩
  unfold Clocked.firstWith at hf
  split at hf
  · rename_i hv
    cases hs : s.first with
    | some f' =>
        rw [hs] at hf
        exact hfirst f' hs (Option.some.inj hf).symm
    | none =>
        rw [hs] at hf
        obtain rfl : t.received = f := Option.some.inj hf
        have hsome : t.message.isSome = true := Option.isSome_of_any hv
        refine ⟨ht.checked.ge, ?_, _, (deadline_take.trans (if_pos hsome)), ?_⟩
        · rw [Clocked.sizeWith, if_pos hv]
          exact Nat.succ_pos _
        · cases hd : s.loop.deadline with
          | none => exact le_rfl
          | some d =>
              have hdle := h.deadline_le d hd
              rw [Option.getD_some]
              rw [ht.checked] at hnow
              omega
  · exact hfirst f hf rfl

theorem Clocked.Pending.after (h : s.Pending cfg) (ht : Timed cfg s.now t) {loop : Loop E}
    (hok : turn it cfg s.loop t = .ok loop) : (s.after it cfg t loop).Pending cfg := by
  have hnow := ht.now_le
  have hturn := turn_ok hok
  unfold Clocked.after
  by_cases hfl : s.flushes it cfg t = true
  · rw [if_pos hfl] at hturn ⊢
    refine ⟨fun d hd => ?_, fun _ => hturn.1, fun f hf => by cases hf⟩
    rw [hturn.2] at hd
    cases hd
  · rw [if_neg hfl] at hturn ⊢
    subst hturn
    rw [flushes_iff, not_and, not_or] at hfl
    refine ⟨fun d hd => ?_, fun hf => ?_, fun f hf => ?_⟩
    · rcases deadline_cases hd with hd | ⟨-, hd⟩
      · exact (h.deadline_le d hd).trans (Nat.add_le_add_right hnow _)
      · rw [hd, ← ht.checked]
    · have hzero := h.sizeWith_eq_zero hf
      rw [← length_take cfg] at hzero
      exact List.length_eq_zero_iff.mp hzero
    · obtain ⟨hle, hpos, d, hd, hdle⟩ := h.firstWith_spec ht hf
      obtain ⟨hshort, hopen⟩ := hfl hpos
      refine ⟨length_take cfg ▸ hpos, hle, ?_, d, hd, ?_, hdle⟩
      · rw [length_take]
        exact not_le.mp hshort
      · exact not_le.mp fun hdue => hopen ⟨d, hd, hdue⟩

/-- **One round.** -/
theorem Clocked.Pending.punctual_iff (hlinger : 0 < cfg.workerBatchLingerMs) (h : s.Pending cfg)
    (ht : Timed cfg s.now t) : Punctual it cfg s t ↔ OnTime it cfg s t := by
  unfold Punctual OnTime
  have hchecked := ht.checked
  cases hf : s.firstWith it t with
  | none =>
      -- nothing to flush
      have hno : s.flushes it cfg t = false := Bool.eq_false_iff.mpr fun hfl =>
        (flushes_iff.mp hfl).1.ne' (h.sizeWith_eq_zero hf)
      refine iff_of_true hno ?_
      cases hm : t.message with
      | none =>
          intro f hs
          rw [Clocked.firstWith, valid, hm, Option.any_none, if_neg Bool.false_ne_true, hs] at hf
          cases hf
      | some m => exact fun f hs => by cases hs
  | some f =>
      obtain ⟨hle, hpos, d, hd, hdle⟩ := h.firstWith_spec ht hf
      have hflush : s.flushes it cfg t = true ↔
          cfg.workerBatchSize ≤ s.sizeWith it t ∨ d ≤ t.checked := by
        rw [flushes_iff, and_iff_right hpos, hd]
        simp
      dsimp only
      rw [hflush, length_take]
      cases hm : t.message with
      | none =>
          have hvalid : valid it t = false := by rw [valid, hm]; rfl
          have hs : s.first = some f := by rwa [Clocked.firstWith, hvalid] at hf
          have hn : s.sizeWith it t = s.loop.batch.length := by rw [Clocked.sizeWith, hvalid]; rfl
          obtain ⟨-, hnow, hshort, -⟩ := h.pending f hs
          have htimeout := ht.timeout hm
          rw [hs, hn]
          constructor
          · rintro ⟨hlate, -⟩ f' hf'
            cases hf'
            omega
          · intro hbegan
            have he := hbegan f rfl
            refine ⟨by omega, iff_of_true (.inr (by omega)) (.inr (by omega))⟩
      | some m =>
          rw [hchecked] at hle ⊢
          constructor
          · rintro ⟨hlate, hexact⟩ f' hf'
            cases hf'
            refine ⟨hlate, fun hshort d' hd' => ?_⟩
            obtain rfl : d' = d := Option.some.inj ((deadline_of_some hd').symm.trans hd)
            omega
          · intro hon
            obtain ⟨hlate, hearly⟩ := hon f rfl
            refine ⟨hlate, ?_⟩
            rcases deadline_cases hd with hd | ⟨-, hd⟩
            · by_cases hshort : (s.sizeWith it t : ℤ) < cfg.workerBatchSize
              · have := hearly hshort d hd
                omega
              · exact iff_of_true (.inl (not_lt.mp hshort)) (.inl (not_lt.mp hshort))
            · -- the deadline is the message's own
              omega

theorem Rounds.pending {past : List (Clocked E × Turn E)} (h : Rounds it cfg past s) :
    s.Pending cfg := by
  induction h with
  | start w now => exact ⟨fun d hd => (by cases hd), fun _ => rfl, fun f hf => (by cases hf)⟩
  | round _ t ht hok ih => exact ih.after ht hok

/-- Each round of a run starts in a state of the run. -/
theorem Rounds.each {past : List (Clocked E × Turn E)} (h : Rounds it cfg past s) :
    ∀ p ∈ past, p.1.Pending cfg ∧ Timed cfg p.1.now p.2 := by
  induction h with
  | start => exact fun p hp => by cases hp
  | round h t ht _ ih => exact List.forall_mem_cons.mpr ⟨⟨h.pending, ht⟩, ih⟩

/-- **Batches are flushed in time** in a run, with the round that comes next, exactly when its
messages are on time. -/
theorem rounds_punctual_iff (hlinger : 0 < cfg.workerBatchLingerMs)
    {past : List (Clocked E × Turn E)} (h : Rounds it cfg past s) (ht : Timed cfg s.now t) :
    (∀ p ∈ (s, t) :: past, Punctual it cfg p.1 p.2) ↔ ∀ p ∈ (s, t) :: past, OnTime it cfg p.1 p.2 := by
  have hall : ∀ p ∈ (s, t) :: past, p.1.Pending cfg ∧ Timed cfg p.1.now p.2 :=
    List.forall_mem_cons.mpr ⟨⟨h.pending, ht⟩, h.each⟩
  exact forall₂_congr fun p hp => (hall p hp).1.punctual_iff hlinger (hall p hp).2

/-- A round without a flush. -/
theorem Rounds.wait {past : List (Clocked E × Turn E)} (h : Rounds it cfg past s) (t : Turn E)
    (ht : Timed cfg s.now t) (hno : s.flushes it cfg t = false) :
    Rounds it cfg ((s, t) :: past) (s.after it cfg t (take it cfg s.loop t)) := by
  refine h.round t ht ?_
  rw [turn, ← Clocked.flushes, hno]
  rfl

end IndexingConsumer

namespace Sample

open IndexingConsumer

/-- A message that is received and checked at a time. -/
def arrives (body : List UInt8) (time : ℕ) : Turn (inMemory runtime) := ⟨id, some ⟨body, []⟩, time, time⟩

def timesOut (time : ℕ) : Turn (inMemory runtime) := ⟨id, none, time, time⟩

/-- The loop after a round without a flush. -/
def afterWait (s : Clocked (inMemory runtime)) (t : Turn (inMemory runtime)) :
    Clocked (inMemory runtime) :=
  s.after interpreter consumerSettings t (take interpreter consumerSettings s.loop t)

def idle : Clocked (inMemory runtime) := ⟨.start idleWorld, 0, none⟩

/-- The loop when a message has come at 0. -/
def pendingOne : Clocked (inMemory runtime) := afterWait idle (arrives wellFormed 0)

theorem rounds_pendingOne :
    Rounds interpreter consumerSettings [(idle, arrives wellFormed 0)] pendingOne :=
  (Rounds.start idleWorld 0).wait (arrives wellFormed 0)
    ⟨rfl, fun _ => ⟨le_rfl, Nat.zero_le _⟩, fun h => (by cases h)⟩ (by decide +kernel)

/-- Nothing comes after it, and the wait times out in time. -/
theorem rounds_punctual_sample :
    (∀ p ∈ [(pendingOne, timesOut 300), (idle, arrives wellFormed 0)],
        Punctual interpreter consumerSettings p.1 p.2) ↔
      ∀ p ∈ [(pendingOne, timesOut 300), (idle, arrives wellFormed 0)],
        OnTime interpreter consumerSettings p.1 p.2 :=
  rounds_punctual_iff (by decide) rounds_pendingOne
    ⟨rfl, fun h => (by cases h), fun _ => rfl⟩

/-- **A late flush.**  A second message comes at 200, and the wait after it times out at 500, where
the linger time of the batch was over at 300. -/
theorem flushed_late : ¬ ∀ (past : List (Clocked (inMemory runtime) × Turn (inMemory runtime))) s t,
    Rounds interpreter consumerSettings past s → Timed consumerSettings s.now t →
    ∀ p ∈ (s, t) :: past, Punctual interpreter consumerSettings p.1 p.2 := by
  intro h
  have hrun : Rounds interpreter consumerSettings
      [(pendingOne, arrives wellFormed 200), (idle, arrives wellFormed 0)]
      (afterWait pendingOne (arrives wellFormed 200)) :=
    rounds_pendingOne.wait (arrives wellFormed 200)
      ⟨rfl, fun _ => (by decide : 0 ≤ 200 ∧ 200 ≤ 0 + 300), fun h => (by cases h)⟩
      (by decide +kernel)
  have hlast := h _ _ (timesOut 500) hrun
    ⟨rfl, fun h => (by cases h), fun _ => rfl⟩ _ List.mem_cons_self
  have hfirst : (afterWait pendingOne (arrives wellFormed 200)).firstWith interpreter
      (timesOut 500) = some 0 := by decide +kernel
  unfold Punctual at hlast
  dsimp only at hlast
  rw [hfirst] at hlast
  exact absurd hlast.1 (by decide)

-- a malformed message at 0 has a batch that begins at 300 flushed with its first message
example : (afterWait idle (arrives [] 0)).flushes interpreter consumerSettings
    (arrives wellFormed 300) = true := by decide +kernel

end Sample

end DocSearch
