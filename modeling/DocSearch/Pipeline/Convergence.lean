import DocSearch.Pipeline.Index
import DocSearch.Support.Loop
import DocSearch.Workers.Batch
import DocSearch.Workers.Reconciler

/-!
# Pipeline — Convergence

What the reconciler repairs.  From any reachable world, with everything healthy and every row past
the grace period, sweeping and processing until a sweep finds nothing comes to an end, and leaves
every live row in the index; a deleted row whose removal was lost stays there, since no sweep looks
at it.

* `convergence`: the passes end, and when the index is exact after them.
* `lost_delete`: a world from which it is not.
-/

namespace DocSearch

open DocumentRepository InMemoryEngine IndexingProcessor Reconciler Interleaving

namespace Pipeline

variable {K : Type} [Field K] [LinearOrder K] {rt : Runtime K}

/-- One pass: some time goes by, a sweep, and a batch of everything that is queued. -/
def pass (cfg : Settings) (rt : Runtime K) (pause : ℕ) (w : World (inMemory rt)) :
    ℕ × World (inMemory rt) :=
  let (found, w) := sweepOnce cfg { w with now := w.now + pause }
  let (events, publisher) := w.publisher.drain
  (found, (process rt { w with publisher := publisher } events).2)

/-- Passes until a sweep finds nothing. -/
def converge (cfg : Settings) (rt : Runtime K) (pauses : ℕ → ℕ) (fuel : ℕ)
    (w : World (inMemory rt)) : Option (World (inMemory rt)) :=
  loop (fun i w => (decide ((pass cfg rt (pauses i) w).1 ≠ 0), (pass cfg rt (pauses i) w).2)) fuel 0 w

def IsLive (t : Documents) (id : Uuid) : Prop := ∃ d, t.find? id = some d ∧ d.status ≠ .deleted

/-- The index holds the ids of the rows that are not deleted, and no others. -/
def Exact (w : World (inMemory rt)) : Prop :=
  ∀ k, (∃ e, w.engine.docs.get? k = some e) ↔ ∃ id, IsLive w.documents id ∧ id.str = k

/-- Every row is past the grace period. -/
def Overdue (cfg : Settings) (w : World (inMemory rt)) : Prop :=
  ∀ d ∈ w.documents.rows, d.updatedAt + cfg.reconcileStaleAfterSeconds * 1000000 < w.now

/-- The queue still has an event for every deleted row in the index, and, if sweeps take no rows,
for every live row that is not there. -/
def Recoverable (cfg : Settings) (w : World (inMemory rt)) : Prop :=
  (∀ id, IsDeleted w.documents id → Present w.engine.docs id → Named w.publisher.events id) ∧
    (0 < cfg.reconcileBatchSize ∨ ∀ id, IsLive w.documents id →
      Present w.engine.docs id ∨ Named w.publisher.events id)

/-! ### A batch -/

section Batch

variable {w w' : World (inMemory rt)} {events : List Event}

theorem fromRow_operations (hr : RowsOk w.documents) :
    ∀ op ∈ (plan rt.toUnicode w.documents events).operations, FromRow w.documents op := by
  intro op hop
  obtain ⟨d, hd, -, rfl⟩ := mem_operations.mp hop
  exact fromRow_operationFor hr hd

/-- The operation on a row that is named. -/
theorem find?_named {d : Document} (hd : w.documents.find? d.id = some d)
    (hn : Named events d.id) :
    (plan rt.toUnicode w.documents events).operations.find?
      (fun op => decide (op.documentId = d.id.str)) = some (operationFor d.id.str d) :=
  find?_operation nodup_operations (mem_operations.mpr ⟨d, hd, hn, rfl⟩) (documentId_operationFor _ _)

/-- A document that is not named keeps its entry. -/
theorem get?_unnamed {id : Uuid} (hn : ¬ Named events id) :
    (applyAll w.engine.docs (plan rt.toUnicode w.documents events).operations).get? id.str =
      w.engine.docs.get? id.str := by
  have hnone : (plan rt.toUnicode w.documents events).operations.find?
      (fun op => decide (op.documentId = id.str)) = none := by
    refine List.find?_eq_none.mpr fun op hop hk => hn ?_
    obtain ⟨d, -, he, rfl⟩ := mem_operations.mp hop
    have hid := of_decide_eq_true hk
    rw [documentId_operationFor, Uuid.str_inj] at hid
    exact hid ▸ he
  rw [get?_applyAll nodup_operations, hnone]

/-- **The index after a batch.**  A live row is there if it was or is named, a deleted one if it was
and is not. -/
theorem present_processed (hp : Processed rt w events w') (hr : RowsOk w.documents)
    (hi : IndexOk w.documents w.engine.docs) (id : Uuid) :
    (IsLive w.documents id →
      (Present w'.engine.docs id ↔ Present w.engine.docs id ∨ Named events id)) ∧
    (IsDeleted w.documents id →
      (Present w'.engine.docs id ↔ Present w.engine.docs id ∧ ¬ Named events id)) := by
  unfold Present
  rw [hp.docs]
  by_cases hn : Named events id
  · -- the operation on the row decides
    have hop : ∀ d, w.documents.find? id = some d →
        (applyAll w.engine.docs (plan rt.toUnicode w.documents events).operations).get? id.str =
          entryAfter (operationFor id.str d) (w.engine.docs.get? id.str) := by
      intro d hd
      obtain rfl := Table.key_of_find? hd
      rw [get?_applyAll nodup_operations, find?_named hd hn]
    refine ⟨fun ⟨d, hd, hs⟩ => ?_, fun ⟨d, hd, hs⟩ => ?_⟩
    · rw [hop d hd]
      exact iff_of_true (entryAfter_index ((isIndex_operationFor _ _).mpr hs) _) (.inr hn)
    · rw [hop d hd]
      refine iff_of_false ?_ fun h => h.2 hn
      rintro ⟨e, he⟩
      -- an entry has version 1, and the delete operation version 2
      have hdel : operationFor id.str d = .delete id.str d.tenantId d.version := if_pos hs
      rw [hdel] at he
      rcases entryAfter_cases he with he' | ⟨hidx, -⟩
      · obtain ⟨-, -, -, -, hv, -⟩ := hi.entry _ e he'
        have h2 := (hr id d hd).dead hs
        rw [entryAfter, he'] at he
        simp [Operation.version, hv, h2] at he
      · cases hidx
  · rw [get?_unnamed hn]
    exact ⟨fun _ => ⟨.inl, fun h => h.resolve_right hn⟩, fun _ => ⟨fun h => ⟨h, hn⟩, And.left⟩⟩

end Batch

/-! ### Marking -/

section Marking

variable (t : Documents) (ids : List Uuid) (now : Timestamp) (id : Uuid)

theorem isDeleted_markIndexed : IsDeleted (markIndexed t ids now) id ↔ IsDeleted t id := by
  unfold IsDeleted
  rw [find?_markIndexed]
  constructor
  · rintro ⟨d, hd, hs⟩
    obtain ⟨r, hr, rfl⟩ := Option.map_eq_some_iff.mp hd
    refine ⟨r, hr, ?_⟩
    split at hs
    · cases hs
    · exact hs
  · rintro ⟨d, hd, hs⟩
    refine ⟨d, ?_, hs⟩
    rw [hd, Option.map_some, if_neg]
    rintro ⟨-, hp⟩
    rw [hs] at hp
    cases hp

theorem isLive_markIndexed : IsLive (markIndexed t ids now) id ↔ IsLive t id := by
  unfold IsLive
  rw [find?_markIndexed]
  constructor
  · rintro ⟨d, hd, hs⟩
    obtain ⟨r, hr, rfl⟩ := Option.map_eq_some_iff.mp hd
    refine ⟨r, hr, ?_⟩
    split at hs
    · rename_i hp; rw [hp.2]; simp
    · exact hs
  · rintro ⟨d, hd, hs⟩
    refine ⟨_, by rw [hd, Option.map_some], ?_⟩
    split
    · simp
    · exact hs

/-- A row that is pending after the marking was pending, and is as it was. -/
theorem pending_markIndexed {d : Document} (hd : (markIndexed t ids now).find? id = some d)
    (hs : d.status = .pending) : t.find? id = some d ∧ d.id ∉ ids := by
  rw [find?_markIndexed, Option.map_eq_some_iff] at hd
  obtain ⟨r, hr, rfl⟩ := hd
  split at hs
  · cases hs
  · rename_i hp
    rw [if_neg hp]
    exact ⟨hr, fun hm => hp ⟨hm, hs⟩⟩

end Marking

/-- The number of pending rows. -/
def pendingCount (t : Documents) : ℕ := (t.rows.filter fun d => decide (d.status = .pending)).length

/-- Marking a pending row lowers it. -/
theorem pendingCount_markIndexed {t : Documents} {ids : List Uuid} (now : Timestamp) {d : Document}
    (hd : t.find? d.id = some d) (hs : d.status = .pending) (hm : d.id ∈ ids) :
    pendingCount (markIndexed t ids now) < pendingCount t := by
  -- what is pending afterwards are the pending rows that are not marked
  have hrows : (markIndexed t ids now).rows.filter (fun d => decide (d.status = .pending)) =
      (t.rows.filter fun d => decide (d.status = .pending)).filter fun d => decide (d.id ∉ ids) := by
    rw [markIndexed, Table.update, List.filter_map, List.filter_filter]
    refine (List.map_congr_left fun d hd => ?_).trans ((List.map_id _).trans
      (List.filter_congr fun d _ => ?_))
    · obtain ⟨-, hp⟩ := List.mem_filter.mp hd
      by_cases hm : d.id ∈ ids ∧ d.status = .pending
      · simp [hm] at hp
      · simp [hm]
    · by_cases hm : d.id ∈ ids <;> by_cases hs : d.status = .pending <;> simp [hm, hs]
  rw [pendingCount, hrows, pendingCount, List.length_filter_lt_length_iff_exists]
  exact ⟨d, List.mem_filter.mpr ⟨Table.mem_rows.mpr hd, decide_eq_true hs⟩, by simp [hm]⟩

/-! ### A pass -/

/-- What the passes need, and keep. -/
structure Healthy (cfg : Settings) (w : World (inMemory rt)) : Prop where
  rows : RowsOk w.documents
  index : IndexOk w.documents w.engine.docs
  engine : w.engine.available = true
  publisher : w.publisher.available = true
  overdue : ∀ d ∈ w.documents.rows, d.status = .pending →
    d.updatedAt + cfg.reconcileStaleAfterSeconds * 1000000 < w.now

theorem named_append {es es' : List Event} {id : Uuid} :
    Named (es ++ es') id ↔ Named es id ∨ Named es' id := by
  simp [Named, or_and_right, exists_or]

theorem named_eventFor {ds : List Document} {id : Uuid} :
    Named (ds.map eventFor) id ↔ ∃ d ∈ ds, d.id = id := by
  simp [Named, eventFor, Uuid.str_inj]

/-- A pass is a batch of what was queued and of what the sweep adds. -/
theorem pass_processed (cfg : Settings) {w : World (inMemory rt)} (he : w.engine.available = true)
    (hp : w.publisher.available = true) (pause : ℕ) :
    ∃ w₂ : World (inMemory rt), w₂.documents = w.documents ∧ w₂.engine = w.engine ∧
      w₂.now = w.now + pause ∧ w₂.publisher = ⟨[], true⟩ ∧
      (pass cfg rt pause w).1 = (stale cfg w₂).length ∧
      Processed rt w₂ (w.publisher.events ++ (stale cfg w₂).map eventFor) (pass cfg rt pause w).2 := by
  -- the world of the sweep, and the one after it
  let w₀ : World (inMemory rt) := { w with now := w.now + pause }
  let w₁ := republish w₀ (stale cfg w₀)
  obtain ⟨hd, hen, hn⟩ := republish_frame w₀ (stale cfg w₀)
  have hq : w₁.publisher = ⟨w.publisher.events ++ (stale cfg w₀).map eventFor, true⟩ :=
    republish_available (show w₀.publisher.available = true from hp) _
  have hstale : stale cfg w₁ = stale cfg w₀ := by rw [stale, hd, hn, ← stale]
  have hpass : (pass cfg rt pause w).2 =
      (process rt { w₁ with publisher := ⟨[], true⟩ }
        (w.publisher.events ++ (stale cfg w₁).map eventFor)).2 := by
    rw [hstale]
    change (process rt { w₁ with publisher := { w₁.publisher with events := [] } }
      w₁.publisher.events).2 = _
    rw [hq]
  refine ⟨{ w₁ with publisher := ⟨[], true⟩ }, hd, hen, hn, rfl, congrArg List.length hstale.symm, ?_⟩
  have hav : ({ w₁ with publisher := ⟨[], true⟩ } : World (inMemory rt)).engine.available = true :=
    (congrArg State.available hen).trans he
  rw [hpass]
  exact process_available hav _

/-- **One pass**, in which the sweep finds `n` rows. -/
structure Passed (cfg : Settings) (w : World (inMemory rt)) (n : ℕ) (w' : World (inMemory rt)) :
    Prop where
  healthy : Healthy cfg w'
  isDeleted : ∀ id, IsDeleted w'.documents id ↔ IsDeleted w.documents id
  isLive : ∀ id, IsLive w'.documents id ↔ IsLive w.documents id
  drained : w'.publisher.events = []
  removed : ∀ id, IsDeleted w.documents id →
    (Present w'.engine.docs id ↔ Present w.engine.docs id ∧ ¬ Named w.publisher.events id)
  added : n = 0 → ∀ id, IsLive w.documents id →
    (Present w'.engine.docs id ↔ Present w.engine.docs id ∨ Named w.publisher.events id)
  noRoom : cfg.reconcileBatchSize = 0 → n = 0
  done : n = 0 → 0 < cfg.reconcileBatchSize → ∀ id, IsLive w.documents id → Present w.engine.docs id
  lowers : n ≠ 0 → pendingCount w'.documents < pendingCount w.documents

theorem passed {cfg : Settings} {w : World (inMemory rt)} (h : Healthy cfg w) (pause : ℕ) :
    Passed cfg w (pass cfg rt pause w).1 (pass cfg rt pause w).2 := by
  obtain ⟨w₂, hd, he, hn, hq, hfound, hp⟩ := pass_processed cfg h.engine h.publisher pause
  rw [hfound]
  generalize (pass cfg rt pause w).2 = w' at hp ⊢
  obtain ⟨ids, hdocs, hids⟩ := hp.documents
  rw [hd] at hdocs hids
  have hrows₂ : RowsOk w₂.documents := hd ▸ h.rows
  have hindex₂ : IndexOk w₂.documents w₂.engine.docs := by rw [hd, he]; exact h.index
  -- the sweep takes pending rows, which are live
  have hstale : ∀ d ∈ stale cfg w₂, w.documents.find? d.id = some d ∧ d.status = .pending := by
    intro d hm
    obtain ⟨hf, hs⟩ := mem_findStale hm
    rw [hd] at hf
    exact ⟨hf, hs.resolve_right (h.rows d.id d hf).notFailed⟩
  have hpresent := present_processed hp hrows₂ hindex₂
  rw [hd, he] at hpresent
  have hnil : (stale cfg w₂).length = 0 ↔ stale cfg w₂ = [] := List.length_eq_zero_iff
  constructor
  case healthy =>
    refine ⟨?_, ?_, hp.available.trans (he ▸ h.engine), by rw [hp.publisher, hq], fun d hm hs => ?_⟩
    · rw [hdocs]
      exact (rows_markIndexed ids _ h.rows).1
    · -- the batch keeps the index, and what it marks it has put there
      have happlied : IndexOk w₂.documents w'.engine.docs := by
        rw [hp.docs]
        exact indexOk_applyAll nodup_operations (fromRow_operations hrows₂) hindex₂
      rw [hd] at happlied
      rw [hdocs]
      refine happlied.evolve (rows_markIndexed ids _ h.rows).2 fun id d hf hs => ?_
      obtain ⟨r, hr, rfl⟩ := Option.map_eq_some_iff.mp ((find?_markIndexed _ _ _ id).symm.trans hf)
      split at hs
      · rename_i hm
        obtain rfl := Table.key_of_find? hr
        exact ((hpresent r.id).1 ⟨r, hr, by rw [hm.2]; simp⟩).mpr (.inr ((hids r hr hm.2).mp hm.1))
      · exact happlied.indexed id r hr hs
    · rw [Table.mem_rows, hdocs] at hm
      have hlt := h.overdue d (Table.mem_rows.mpr (pending_markIndexed _ _ _ _ hm hs).1) hs
      rw [hp.now, hn]
      exact Nat.lt_add_right pause hlt
  case isDeleted => exact fun id => hdocs ▸ isDeleted_markIndexed _ _ _ id
  case isLive => exact fun id => hdocs ▸ isLive_markIndexed _ _ _ id
  case drained => rw [hp.publisher, hq]
  case removed =>
    intro id hdel
    rw [(hpresent id).2 hdel, named_append, named_eventFor]
    refine and_congr_right fun _ => not_congr (or_iff_left ?_)
    rintro ⟨d, hm, rfl⟩
    obtain ⟨hf, hpending⟩ := hstale d hm
    obtain ⟨d', hd', hs⟩ := hdel
    rw [hf] at hd'
    cases hd'
    rw [hpending] at hs
    cases hs
  case added =>
    intro hz id hlive
    rw [(hpresent id).1 hlive, hnil.mp hz, List.map_nil, List.append_nil]
  case noRoom => exact fun hz => hnil.mpr (findStale_eq_nil.mpr (.inl hz))
  case done =>
    rintro hz hpos id ⟨d, hf, hlive⟩
    refine h.index.indexed id d hf ?_
    have hok := h.rows id d hf
    cases hs : d.status with
    | indexed => rfl
    | deleted => exact absurd hs hlive
    | failed => exact absurd hs hok.notFailed
    | pending =>
        -- the sweep would have found it
        obtain rfl := Table.key_of_find? hf
        have hm := Table.mem_rows.mpr hf
        rcases findStale_eq_nil.mp (hnil.mp hz) with hz' | hnone
        · omega
        · have hle := hnone d (hd ▸ hm) (.inl hs)
          have hlt := h.overdue d hm hs
          rw [hn] at hle
          exact absurd (Nat.lt_add_right pause hlt) (Nat.not_lt.mpr hle)
  case lowers =>
    intro hne
    obtain ⟨d, hm⟩ := List.exists_mem_of_ne_nil _ fun hz => hne (hnil.mpr hz)
    obtain ⟨hf, hpending⟩ := hstale d hm
    rw [hdocs]
    exact pendingCount_markIndexed _ hf hpending
      ((hids d hf hpending).mpr (named_append.mpr (.inr (named_eventFor.mpr ⟨d, hm, rfl⟩))))

/-! ### All the passes -/

/-- What the passes keep of the world `w₀` they start in. -/
structure Kept (cfg : Settings) (w₀ w : World (inMemory rt)) : Prop where
  healthy : Healthy cfg w
  isDeleted : ∀ id, IsDeleted w.documents id ↔ IsDeleted w₀.documents id
  isLive : ∀ id, IsLive w.documents id ↔ IsLive w₀.documents id
  removed : ∀ id, IsDeleted w₀.documents id →
    (Present w.engine.docs id ∧ ¬ Named w.publisher.events id ↔
      Present w₀.engine.docs id ∧ ¬ Named w₀.publisher.events id)
  added : cfg.reconcileBatchSize = 0 → ∀ id, IsLive w₀.documents id →
    (Present w.engine.docs id ∨ Named w.publisher.events id ↔
      Present w₀.engine.docs id ∨ Named w₀.publisher.events id)

/-- What they end with. -/
structure Settled (cfg : Settings) (w₀ w : World (inMemory rt)) : Prop where
  index : IndexOk w.documents w.engine.docs
  isDeleted : ∀ id, IsDeleted w.documents id ↔ IsDeleted w₀.documents id
  isLive : ∀ id, IsLive w.documents id ↔ IsLive w₀.documents id
  removed : ∀ id, IsDeleted w₀.documents id →
    (Present w.engine.docs id ↔ Present w₀.engine.docs id ∧ ¬ Named w₀.publisher.events id)
  added : ∀ id, IsLive w₀.documents id → (Present w.engine.docs id ↔
    0 < cfg.reconcileBatchSize ∨ Present w₀.engine.docs id ∨ Named w₀.publisher.events id)

section Passes

variable {cfg : Settings} {w₀ w : World (inMemory rt)}

theorem not_named_nil (id : Uuid) : ¬ Named [] id := by
  rintro ⟨e, he, -⟩
  cases he

/-- A pass whose sweep finds something. -/
theorem Kept.more (h : Kept cfg w₀ w) {pause : ℕ} (hn : (pass cfg rt pause w).1 ≠ 0) :
    Kept cfg w₀ (pass cfg rt pause w).2 := by
  have hp := passed h.healthy pause
  refine ⟨hp.healthy, fun id => (hp.isDeleted id).trans (h.isDeleted id),
    fun id => (hp.isLive id).trans (h.isLive id), fun id hd => ?_, fun hz => absurd (hp.noRoom hz) hn⟩
  rw [hp.drained, and_iff_left (not_named_nil id), hp.removed id ((h.isDeleted id).mpr hd)]
  exact h.removed id hd

/-- The last pass. -/
theorem Kept.last (h : Kept cfg w₀ w) {pause : ℕ} (hn : (pass cfg rt pause w).1 = 0) :
    Settled cfg w₀ (pass cfg rt pause w).2 := by
  have hp := passed h.healthy pause
  refine ⟨hp.healthy.index, fun id => (hp.isDeleted id).trans (h.isDeleted id),
    fun id => (hp.isLive id).trans (h.isLive id), fun id hd => ?_, fun id hl => ?_⟩
  · exact (hp.removed id ((h.isDeleted id).mpr hd)).trans (h.removed id hd)
  · have hl' := (h.isLive id).mpr hl
    rw [hp.added hn id hl']
    rcases Nat.eq_zero_or_pos cfg.reconcileBatchSize with hz | hpos
    · rw [h.added hz id hl, or_iff_right (Nat.not_lt.mpr hz.le)]
    · exact iff_of_true (.inl (hp.done hn hpos id hl')) (.inl hpos)

/-- An index that satisfies the outline is exact when it has the live rows and not the deleted
ones. -/
theorem exact_iff (h : IndexOk w.documents w.engine.docs) : Exact w ↔
    (∀ id, IsLive w.documents id → Present w.engine.docs id) ∧
      ∀ id, IsDeleted w.documents id → ¬ Present w.engine.docs id := by
  constructor
  · refine fun hx => ⟨fun id hl => (hx id.str).mpr ⟨id, hl, rfl⟩, fun id ⟨d, hd, hs⟩ hp => ?_⟩
    obtain ⟨i, ⟨r, hr, hlive⟩, hi⟩ := (hx id.str).mp hp
    rw [Uuid.str_inj.mp hi, hd] at hr
    cases hr
    exact hlive hs
  · rintro ⟨hl, hd⟩ k
    constructor
    · rintro ⟨e, he⟩
      -- the entry has a row, which is not deleted
      obtain ⟨d, hf, rfl, -⟩ := h.entry k e he
      exact ⟨d.id, ⟨d, hf, fun hs => hd d.id ⟨d, hf, hs⟩ ⟨e, he⟩⟩, rfl⟩
    · rintro ⟨id, hlive, rfl⟩
      exact hl id hlive

theorem Settled.exact_iff (h : Settled cfg w₀ w) : Exact w ↔ Recoverable cfg w₀ := by
  rw [Pipeline.exact_iff h.index, and_comm, Recoverable, ← forall_or_left]
  refine and_congr (forall_congr' fun id => ?_) (forall_congr' fun id => ?_)
  · rw [h.isDeleted]
    refine forall_congr' fun hd => ?_
    rw [h.removed id hd, not_and_not_right]
  · rw [h.isLive]
    have hadded := h.added id
    tauto

end Passes

/-- **Convergence.**  From every reachable world with everything healthy and every row past the grace
period, the passes come to an end, and the index is exact after them if and only if the world was
recoverable. -/
theorem convergence (cfg : Settings) (rt : Runtime K) {s : Config (World (inMemory rt)) (Task K)}
    (hr : (machine cfg rt (inMemory rt)).Reach .free (World.IsInitial State.initial) s)
    (hp : s.world.publisher.available = true) (he : s.world.engine.available = true)
    (hg : Overdue cfg s.world) (pauses : ℕ → ℕ) :
    ∃ n w', (∀ m ≥ n, converge cfg rt pauses m s.world = some w') ∧
      (Exact w' ↔ Recoverable cfg s.world) := by
  obtain ⟨hrows, hindex⟩ := ((index_established cfg rt).holds hr).1
  have hkept : Kept cfg s.world s.world :=
    ⟨⟨hrows, hindex, he, hp, fun d hd _ => hg d hd⟩, fun _ => .rfl, fun _ => .rfl, fun _ _ => .rfl,
      fun _ _ _ => .rfl⟩
  obtain ⟨w', hw'⟩ := loop_terminates
    (fun i w => (decide ((pass cfg rt (pauses i) w).1 ≠ 0), (pass cfg rt (pauses i) w).2))
    (I := Kept cfg s.world) (fun w => pendingCount w.documents)
    (fun i w hk hm => ⟨hk.more (of_decide_eq_true hm),
      (passed hk.healthy (pauses i)).lowers (of_decide_eq_true hm)⟩) hkept le_rfl
  have hsettled : Settled cfg s.world w' :=
    loop_rule (I := Kept cfg s.world) (fun i w hk hm => hk.more (of_decide_eq_true hm))
      (fun i w hk hm => hk.last (of_not_not (of_decide_eq_false hm))) hkept hw'
  exact ⟨_, w', fun m hm => loop_mono hw' hm, hsettled.exact_iff⟩

end Pipeline

namespace Sample

open Pipeline

/-- A document is created and its event is lost. -/
def lostCreate : Actions :=
  [.start 0 (.create acme documentA payload), .resume 0 [], .resume 0 [], .resume 0 [],
    .environment (.lose 0), .environment (.elapse 61000000)]

/-- A document is indexed and its event leaves the queue; then it is deleted while the broker is
down. -/
def lostDelete : Actions :=
  indexing ++ [.environment (.lose 0), .environment (.publisher false),
    .start 0 (.delete acme documentA), .resume 0 [], .resume 0 [], .resume 0 [], .resume 0 [],
    .resume 0 [], .environment (.publisher true), .environment (.elapse 61000000)]

theorem lostCreate_runs : (service.run (Config.idle start) lostCreate).isSome := by decide +kernel

theorem lostDelete_runs : (service.run (Config.idle start) lostDelete).isSome := by decide +kernel

theorem convergence_sample : ∃ n w', (∀ m ≥ n, converge settings runtime (fun _ => 0) m
      (service.after start lostCreate lostCreate_runs).world = some w') ∧
    (Exact w' ↔ Recoverable settings (service.after start lostCreate lostCreate_runs).world) :=
  convergence settings runtime
    (Machine.reach_after start_isInitial lostCreate_runs (Machine.conforms_free _ _))
    (by decide +kernel) (by decide +kernel) (by unfold Overdue; decide +kernel) _

/-- The world after the other run. -/
def lostWorld : World (inMemory runtime) :=
  (service.after start lostDelete lostDelete_runs).world

/-- **A deletion that is never repaired.** -/
theorem lost_delete : ¬ ∀ s, service.Reach .free (World.IsInitial State.initial) s →
    s.world.publisher.available = true → s.world.engine.available = true →
    Overdue settings s.world → ∀ pauses, ∃ n w',
      converge settings runtime pauses n s.world = some w' ∧ Exact w' := by
  intro h
  obtain ⟨n, w', hw', hexact⟩ := h _
    (Machine.reach_after start_isInitial lostDelete_runs (Machine.conforms_free _ _))
    (by decide +kernel) (by decide +kernel) (by unfold Overdue; decide +kernel) (fun _ => 0)
  -- the first sweep finds nothing
  have hfound : (pass settings runtime 0 lostWorld).1 = 0 := by decide +kernel
  have hone : converge settings runtime (fun _ => 0) 1 lostWorld =
      some (pass settings runtime 0 lostWorld).2 := by
    simp only [converge, loop_succ, hfound]
    rfl
  obtain rfl := loop_unique hw' hone
  have hentry : ((pass settings runtime 0 lostWorld).2.engine.docs.get? documentA.str).isSome := by
    decide +kernel
  have hrow : ((pass settings runtime 0 lostWorld).2.documents.find? documentA).map
      Document.status = some .deleted := by decide +kernel
  -- an entry, but no row that is not deleted
  obtain ⟨id, ⟨d, hd, hs⟩, hid⟩ := (hexact documentA.str).mp (Option.isSome_iff_exists.mp hentry)
  rw [Uuid.str_inj.mp hid] at hd
  rw [hd] at hrow
  exact hs (Option.some.inj hrow)

end Sample

end DocSearch
