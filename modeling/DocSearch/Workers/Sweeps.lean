import DocSearch.Core.Sample
import DocSearch.Workers.Batch
import DocSearch.Workers.Reconciler

/-!
# Workers — Sweeps

What repeated sweeps come to.  `find_stale` selects `PENDING` and `FAILED` rows, oldest first, up
to the batch size; a sweep changes no row, and `mark_indexed` changes `PENDING` rows only.

* `leaves_sweep_iff`: which of the rows a sweep finds are `INDEXED` once their event is processed.
* `insertionSort_split`: a sort of two groups of which one comes first.
* `stale_of_later`: a full batch is found again, however late.
* `exists_not_stale`: a row beyond the batch is not found.
* `covers_iff`: when enough sweeps publish an event for every overdue row.
-/

namespace DocSearch

open DocumentRepository IndexingProcessor

namespace Reconciler

/-! ### A row that is swept and processed -/

/-- The row is confirmed, and no sweep finds it. -/
structure LeavesSweep (t : Documents) (id : Uuid) : Prop where
  indexed : ∃ d, t.find? id = some d ∧ d.status = .indexed
  unseen : ∀ now older limit, ∀ d ∈ findStale t now older limit, d.id ≠ id

theorem leavesSweep_of_indexed {t : Documents} {id : Uuid} {d : Document}
    (hd : t.find? id = some d) (hs : d.status = .indexed) : LeavesSweep t id := by
  refine ⟨⟨d, hd, hs⟩, fun now older limit x hx he => ?_⟩
  obtain ⟨hx, hstale⟩ := mem_findStale hx
  rw [he, hd] at hx
  cases hx
  rw [hs] at hstale
  rcases hstale with h | h <;> cases h

section Republish

variable {K : Type} {E : SearchEngine K}

/-- A sweep changes neither the rows nor the engine. -/
theorem sweep_frame (cfg : Settings) (w : World E) :
    (sweepOnce cfg w).2.documents = w.documents ∧ (sweepOnce cfg w).2.engine = w.engine ∧
      (sweepOnce cfg w).2.now = w.now :=
  republish_frame w (stale cfg w)

end Republish

section InMemory

variable {K : Type} [Field K] [LinearOrder K] {rt : Runtime K}

/-- **A row that is swept and processed** is `INDEXED` after it if it was `PENDING`, and only
then. -/
theorem leaves_sweep_iff (cfg : Settings) {w : World (inMemory rt)} (hup : w.engine.available = true)
    {d : Document} (hd : d ∈ stale cfg w) {events : List Event} (he : eventFor d ∈ events) :
    LeavesSweep (process rt (sweepOnce cfg w).2 events).2.documents d.id ↔ d.status = .pending := by
  obtain ⟨hfind, hstale⟩ := mem_findStale hd
  obtain ⟨hdocs, hengine, -⟩ := sweep_frame cfg w
  obtain ⟨ids, hmark, hids⟩ := (process_available (hengine.symm ▸ hup) events).documents
  have hrow := find?_markIndexed w.documents ids (sweepOnce cfg w).2.now d.id
  rw [hdocs] at hmark hids
  rw [hmark]
  rw [hfind, Option.map_some] at hrow
  constructor
  · rintro ⟨⟨d', hd', hs⟩, -⟩
    rcases hstale with hp | hf
    · exact hp
    · -- a `FAILED` row is not among those that are marked
      have hnot : ¬ (d.id ∈ ids ∧ d.status = .pending) := fun h => by
        rw [hf] at h; cases h.2
      rw [if_neg hnot] at hrow
      cases hrow.symm.trans hd'
      rw [hf] at hs
      cases hs
  · intro hp
    rw [if_pos ⟨(hids d hfind hp).mpr ⟨_, he, rfl⟩, hp⟩] at hrow
    exact leavesSweep_of_indexed hrow rfl

end InMemory

/-! ### Sorting two groups -/

section Sorting

variable {α : Type*} {r : α → α → Prop} [DecidableRel r]

theorem orderedInsert_append_of_le {a : α} {t : List α} (h : ∀ b ∈ t, r a b) (s : List α) :
    (s ++ t).orderedInsert r a = s.orderedInsert r a ++ t := by
  induction s with
  | nil =>
      cases t with
      | nil => rfl
      | cons b t => exact List.orderedInsert_cons_of_le r t (h b List.mem_cons_self)
  | cons b s ih =>
      rw [List.cons_append, List.orderedInsert_cons, List.orderedInsert_cons, ih]
      split <;> rfl

theorem orderedInsert_append_of_not_le {a : α} {s : List α} (h : ∀ b ∈ s, ¬ r a b) (t : List α) :
    (s ++ t).orderedInsert r a = s ++ t.orderedInsert r a := by
  induction s with
  | nil => rfl
  | cons b s ih =>
      rw [List.cons_append, List.orderedInsert_of_not_le r _ (h b List.mem_cons_self),
        ih fun c hc => h c (List.mem_cons_of_mem b hc), List.cons_append]

/-- **A stable sort of two groups**, when every element of the first comes before every element of
the second. -/
theorem insertionSort_split (p : α → Bool) {l : List α}
    (h : ∀ a ∈ l, ∀ b ∈ l, p a = true → p b = false → r a b ∧ ¬ r b a) :
    l.insertionSort r = (l.filter p).insertionSort r ++ (l.filter fun a => !p a).insertionSort r := by
  induction l with
  | nil => rfl
  | cons a l ih =>
      have hl := ih fun x hx y hy => h x (List.mem_cons_of_mem a hx) y (List.mem_cons_of_mem a hy)
      rw [List.insertionSort_cons, hl]
      cases ha : p a with
      | true =>
          rw [List.filter_cons_of_pos ha, List.filter_cons_of_neg (by simp [ha]),
            List.insertionSort_cons]
          refine orderedInsert_append_of_le (fun b hb => ?_) _
          obtain ⟨hb, hpb⟩ := List.mem_filter.mp ((List.mem_insertionSort r).mp hb)
          exact (h a List.mem_cons_self b (List.mem_cons_of_mem a hb) ha (by simpa using hpb)).1
      | false =>
          rw [List.filter_cons_of_neg (by simp [ha]), List.filter_cons_of_pos (by simp [ha]),
            List.insertionSort_cons]
          refine orderedInsert_append_of_not_le (fun b hb => ?_) _
          obtain ⟨hb, hpb⟩ := List.mem_filter.mp ((List.mem_insertionSort r).mp hb)
          exact (h b (List.mem_cons_of_mem a hb) a List.mem_cons_self hpb ha).2

end Sorting

/-! ### Sweep after sweep -/

section Sweeps

variable {K : Type} {E : SearchEngine K} {cfg : Settings}

/-- The row is `PENDING` or `FAILED`, and past the grace period. -/
def isOverdue (cfg : Settings) (now : Timestamp) (d : Document) : Bool :=
  (decide (d.status = .pending) || decide (d.status = .failed)) &&
    decide (d.updatedAt + cfg.reconcileStaleAfterSeconds * 1000000 < now)

/-- The stale rows, without a limit on their number. -/
def overdue (cfg : Settings) (w : World E) : List Document :=
  w.documents.rows.filter (isOverdue cfg w.now)

/-- The events a sweep publishes. -/
def swept (cfg : Settings) (w : World E) : List Event :=
  (sweepOnce cfg w).2.publisher.events.drop w.publisher.events.length

/-- Between two sweeps no row changes, and the broker stays up. -/
structure Lull (w w' : World E) : Prop where
  documents : w'.documents = w.documents
  publisher : w'.publisher.available = true
  now : w.now ≤ w'.now

/-- Some sweeps, and the events they publish. -/
inductive Sweeps (cfg : Settings) : ℕ → World E → List Event → Prop where
  | none (w : World E) : Sweeps cfg 0 w []
  | sweep {w w₁ : World E} {n : ℕ} {es : List Event} (h : Lull (sweepOnce cfg w).2 w₁)
      (t : Sweeps cfg n w₁ es) : Sweeps cfg (n + 1) w (swept cfg w ++ es)

/-- The number of batches of `limit` rows that `n` rows take. -/
def batches (n limit : ℕ) : ℕ := (n + limit - 1) / limit

/-- Every overdue row has an event. -/
def Covers (cfg : Settings) (w : World E) (es : List Event) : Prop :=
  ∀ d ∈ overdue cfg w, ∃ e ∈ es, e.documentId = d.id.str

theorem swept_available {w : World E} (h : w.publisher.available = true) :
    swept cfg w = (stale cfg w).map eventFor := by
  rw [swept, sweepOnce, republish_available h, List.drop_left]

theorem stale_eq (cfg : Settings) (w : World E) :
    stale cfg w = ((overdue cfg w).insertionSort fun a b => a.updatedAt ≤ b.updatedAt).take
      cfg.reconcileBatchSize := rfl

/-- **A full batch is found again**, however late: what becomes stale later is younger. -/
theorem stale_of_later {w w' : World E} (hd : w'.documents = w.documents) (hn : w.now ≤ w'.now)
    (hfull : cfg.reconcileBatchSize ≤ (overdue cfg w).length) : stale cfg w' = stale cfg w := by
  -- the rows overdue before are overdue now
  have hmono : ∀ d, isOverdue cfg w.now d = true → isOverdue cfg w'.now d = true := by
    intro d h
    simp only [isOverdue, Bool.and_eq_true, decide_eq_true_eq] at h ⊢
    exact ⟨h.1, h.2.trans_le hn⟩
  have hold : (overdue cfg w').filter (isOverdue cfg w.now) = overdue cfg w := by
    rw [overdue, overdue, hd, List.filter_filter]
    refine List.filter_congr fun d _ => ?_
    cases h : isOverdue cfg w.now d with
    | true => simp [hmono d h]
    | false => rfl
  have hsplit := insertionSort_split (r := fun a b => a.updatedAt ≤ b.updatedAt)
    (isOverdue cfg w.now) (l := overdue cfg w') ?_
  · rw [stale_eq, stale_eq, hsplit, hold, List.take_append_of_le_length]
    rwa [List.length_insertionSort]
  · intro a _ b hb ha hb'
    have hb := (List.mem_filter.mp hb).2
    simp only [isOverdue, Bool.and_eq_true, decide_eq_true_eq] at ha hb
    rw [isOverdue, hb.1, Bool.true_and, decide_eq_false_iff_not] at hb'
    have hlt : a.updatedAt < b.updatedAt := Nat.lt_of_add_lt_add_right (ha.2.trans_le (not_lt.mp hb'))
    exact ⟨hlt.le, hlt.not_ge⟩

/-- What the sweeps publish while a full batch is overdue. -/
theorem mem_sweeps {n : ℕ} {w : World E} {es : List Event} (h : Sweeps cfg n w es)
    (hup : w.publisher.available = true)
    (hfull : cfg.reconcileBatchSize ≤ (overdue cfg w).length) {e : Event} (he : e ∈ es) :
    e ∈ (stale cfg w).map eventFor := by
  induction h with
  | none => cases he
  | @sweep w w₁ n es hl _ ih =>
      obtain ⟨hdocs, -, hnow⟩ := sweep_frame cfg w
      have hd : w₁.documents = w.documents := hl.documents.trans hdocs
      have hn : w.now ≤ w₁.now := hnow ▸ hl.now
      have hstale := stale_of_later hd hn hfull
      rcases List.mem_append.mp he with he | he
      · rwa [swept_available hup] at he
      · rw [← hstale]
        refine ih hl.publisher ?_ he
        have hlen := congrArg List.length hstale
        simp only [stale_eq, List.length_take, List.length_insertionSort] at hlen
        omega

theorem mem_overdue_of_stale {w : World E} {d : Document} (h : d ∈ stale cfg w) :
    d ∈ overdue cfg w :=
  (List.perm_insertionSort _ _).mem_iff.mp (List.mem_of_mem_take h)

/-- When the overdue rows do not fit into one batch, the row after the batch is not found. -/
theorem exists_not_stale {w : World E} (h : cfg.reconcileBatchSize < (overdue cfg w).length) :
    ∃ d ∈ overdue cfg w, d ∉ stale cfg w := by
  have hperm := List.perm_insertionSort (fun a b : Document => a.updatedAt ≤ b.updatedAt)
    (overdue cfg w)
  have hlen := hperm.length_eq.symm ▸ h
  refine ⟨_, hperm.mem_iff.mp (List.getElem_mem hlen), fun hm => ?_⟩
  obtain ⟨i, hi, heq⟩ := List.mem_take_iff_getElem.mp hm
  have hnodup := hperm.nodup_iff.mpr (w.documents.nodup.sublist (List.filter_sublist.map _)).of_map
  have := (hnodup.getElem_inj_iff).mp heq
  omega

/-- **Enough sweeps for the number of overdue rows** publish an event for each of them exactly when
they fit into one batch. -/
theorem covers_iff {w : World E} {es : List Event} (hup : w.publisher.available = true)
    (hlimit : 1 ≤ cfg.reconcileBatchSize)
    (h : Sweeps cfg (batches (overdue cfg w).length cfg.reconcileBatchSize) w es) :
    Covers cfg w es ↔ (overdue cfg w).length ≤ cfg.reconcileBatchSize := by
  constructor
  · intro hcovers
    by_contra hmore
    rw [not_le] at hmore
    obtain ⟨d, hd, hlast⟩ := exists_not_stale hmore
    obtain ⟨e, he, hid⟩ := hcovers d hd
    obtain ⟨x, hx, rfl⟩ := List.mem_map.mp (mem_sweeps h hup hmore.le he)
    -- an event names one row
    have hkeys : ((overdue cfg w).map Document.id).Nodup :=
      w.documents.nodup.sublist (List.filter_sublist.map _)
    have hsame : x = d := List.inj_on_of_nodup_map hkeys (mem_overdue_of_stale hx) hd
      (Uuid.str_inj.mp hid)
    exact hlast (hsame ▸ hx)
  · intro hfew d hd
    have hpos : 1 ≤ batches (overdue cfg w).length cfg.reconcileBatchSize := by
      have := List.length_pos_of_mem hd
      rw [batches, Nat.le_div_iff_mul_le hlimit]
      omega
    obtain ⟨n, hn⟩ := Nat.exists_eq_add_of_le' hpos
    rw [hn] at h
    cases h with
    | sweep hl ht =>
        refine ⟨eventFor d, List.mem_append_left _ ?_, rfl⟩
        rw [swept_available hup, stale_eq, List.take_of_length_le]
        · exact List.mem_map_of_mem ((List.perm_insertionSort _ _).mem_iff.mpr hd)
        · rwa [List.length_insertionSort]

end Sweeps

end Reconciler

namespace Sample

open Reconciler

/-- Two documents, written one microsecond apart and never confirmed, two minutes later. -/
def backlog : World (inMemory runtime) :=
  { World.initial InMemoryEngine.State.initial with
    documents := (do
      let t ← Table.empty.insert (Document.new documentA acme payload 0)
      t.insert (Document.new documentB acme payload 1)).getD .empty
    now := 120000000 }

/-- Rows are stale after a minute. -/
def sweepSettings (limit : ℕ) : Settings := ⟨60, limit⟩

/-! ### Rows that are processed -/

/-- The first row a sweep finds. -/
def firstStale (w : World (inMemory runtime)) (h : stale (sweepSettings 1) w ≠ []) : Document :=
  (stale (sweepSettings 1) w).head h

theorem backlog_stale : stale (sweepSettings 1) backlog ≠ [] :=
  List.length_pos_iff.mp (by decide +kernel)

theorem leaves_sweep_sample :
    LeavesSweep (IndexingProcessor.process runtime (sweepOnce (sweepSettings 1) backlog).2
        [eventFor (firstStale backlog backlog_stale)]).2.documents
          (firstStale backlog backlog_stale).id ↔
      (firstStale backlog backlog_stale).status = .pending :=
  leaves_sweep_iff (sweepSettings 1) rfl (List.head_mem _) List.mem_cons_self

/-- The same, after the first document has been marked as failed. -/
def failedBacklog : World (inMemory runtime) :=
  { backlog with documents := DocumentRepository.markFailed backlog.documents [documentA] 0 }

theorem failedBacklog_stale : stale (sweepSettings 1) failedBacklog ≠ [] :=
  List.length_pos_iff.mp (by decide +kernel)

/-- **A `FAILED` row is swept, indexed and swept again.** -/
theorem failed_row_stays :
    ¬ ∀ (w : World (inMemory runtime)) (d : Document) (events : List Event),
      w.engine.available = true → d ∈ stale (sweepSettings 1) w → eventFor d ∈ events →
        LeavesSweep (IndexingProcessor.process runtime (sweepOnce (sweepSettings 1) w).2
          events).2.documents d.id := by
  intro h
  obtain ⟨⟨d, hd, hs⟩, -⟩ := h failedBacklog (firstStale failedBacklog failedBacklog_stale)
    [eventFor (firstStale failedBacklog failedBacklog_stale)] rfl (List.head_mem _)
    List.mem_cons_self
  have hfailed : ((IndexingProcessor.process runtime
      (sweepOnce (sweepSettings 1) failedBacklog).2
      [eventFor (firstStale failedBacklog failedBacklog_stale)]).2.documents.find?
        (firstStale failedBacklog failedBacklog_stale).id).map Document.status = some .failed := by
    decide +kernel
  rw [hd, Option.map_some, hs] at hfailed
  cases hfailed

/-! ### Rows that stay as they are -/

theorem lull_self {w : World (inMemory runtime)} (h : w.publisher.available = true) : Lull w w :=
  ⟨rfl, h, le_refl _⟩

/-- Two sweeps of one row each. -/
theorem backlog_sweeps : Sweeps (sweepSettings 1) 2 backlog
    (swept (sweepSettings 1) backlog ++
      (swept (sweepSettings 1) (sweepOnce (sweepSettings 1) backlog).2 ++ [])) :=
  .sweep (lull_self (by decide +kernel)) (.sweep (lull_self (by decide +kernel)) (.none _))

theorem backlog_batches :
    batches (overdue (sweepSettings 1) backlog).length (sweepSettings 1).reconcileBatchSize = 2 := by
  decide +kernel

theorem covers_sample :
    Covers (sweepSettings 1) backlog (swept (sweepSettings 1) backlog ++
        (swept (sweepSettings 1) (sweepOnce (sweepSettings 1) backlog).2 ++ [])) ↔
      (overdue (sweepSettings 1) backlog).length ≤ 1 :=
  covers_iff rfl (le_refl 1) (backlog_batches ▸ backlog_sweeps)

/-- **The second row is never published.** -/
theorem second_row_starves :
    ¬ ∀ (cfg : Settings) (w : World (inMemory runtime)) (es : List Event),
      w.publisher.available = true → 1 ≤ cfg.reconcileBatchSize →
        Sweeps cfg (batches (overdue cfg w).length cfg.reconcileBatchSize) w es →
          Covers cfg w es := by
  intro h
  have hcovers := h _ _ _ rfl (le_refl 1) (backlog_batches ▸ backlog_sweeps)
  have hall : (overdue (sweepSettings 1) backlog).all (fun d =>
      (swept (sweepSettings 1) backlog ++
        (swept (sweepSettings 1) (sweepOnce (sweepSettings 1) backlog).2 ++ [])).any fun e =>
          decide (e.documentId = d.id.str)) = true :=
    List.all_eq_true.mpr fun d hd => by
      obtain ⟨e, he, hid⟩ := hcovers d hd
      exact List.any_eq_true.mpr ⟨e, he, decide_eq_true hid⟩
  exact absurd hall (by decide +kernel)

end Sample

end DocSearch
