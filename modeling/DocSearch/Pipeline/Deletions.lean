import DocSearch.Pipeline.Tenancy
import DocSearch.Repositories.Transactions

/-!
# Pipeline — Deletions

Concurrent `delete` requests for one document.  Each reads the row, and later writes the version
it read plus one; two that read the live row both write version 2.

* `move_transaction`, `columns_established`: the service writes its table by the transactions of
  the repository only, so its rows have their life cycle.
* `versionGrows_iff`: when a `delete` stores a greater version.
* `one_delete_wins`: the runs in which none commits over a row that is deleted already.
* `two_deletes_win`: a run in which two return.
-/

namespace DocSearch

open DocumentRepository DocumentService IndexingProcessor Interleaving

namespace Pipeline

variable {K : Type} {E : SearchEngine K} {cfg : Settings} {rt : Runtime K}

/-! ### The transactions of the service -/

/-- **A move leaves the table, or runs a statement of a transaction on it.** -/
theorem move_transaction {w w' : World E} {t : Task K} {u : Option (Task K)}
    (h : Move cfg rt w t w' u) (ht : rowsAssertion w.documents t) : w'.documents = w.documents ∨
      ∃ task, Transactions.assertion task ∧
        w'.documents = (Transactions.resume w.documents w.now task).1 := by
  cases h with
  | @inserted t id payload documents h =>
      exact .inr ⟨.create t id payload, trivial, by rw [Transactions.resume, h]; rfl⟩
  | @softDeleted t d row => exact .inr ⟨.write row, ht.2.1, rfl⟩
  | @committed p r b w' next h =>
      refine .inr ⟨.markIndexed ((p.outcome r).indexed.filterMap (Uuid.parse rt.toUnicode)), trivial,
        (proceed_frame h).1⟩
  | bumped _ h => exact .inl ((proceed_frame h).1.trans (bump_documents _ _ _))
  | indexPublished | deleted => exact .inl (publish_documents _ _)
  | republished h => obtain ⟨-, rfl⟩ := World.publish_eq_some h; exact .inl rfl
  | _ => exact .inl rfl

/-- The life cycle of the rows, seen from the service. -/
def columnsOutline : Outline (World E) (Task K) where
  inv w := Transactions.AllRows w.documents
  guarantee w w' := Transactions.Final w.documents w'.documents

theorem columns_preserves {engine : E.State} :
    Preserves cfg rt .free (World.IsInitial engine) rowsOutline
      (columnsOutline : Outline (World E) (Task K)) := by
  have quiet (w : World E) (hi : Transactions.AllRows w.documents) {w' : World E}
      (hd : w'.documents = w.documents) :
      Transactions.AllRows w'.documents ∧ Transactions.Final w.documents w'.documents :=
    ⟨hd ▸ hi, hd ▸ .refl _⟩
  constructor
  · rintro _ rfl id d hd
    cases hd
  · rintro w r - - hi
    exact ⟨hi, trivial, .refl _⟩
  · rintro w t w' u - ht - hm hi -
    rcases move_transaction hm ht with hd | ⟨task, hv, hd⟩
    · obtain ⟨hr, hf⟩ := quiet w hi (show w'.tick.documents = w.documents from hd)
      exact ⟨hr, fun _ _ => trivial, hf⟩
    · obtain ⟨hr, -, hf⟩ := Transactions.lifeCycle_resume w.now hi hv
      rw [← hd] at hr hf
      exact ⟨hr, fun _ _ => trivial, hf⟩
  · rintro w t - - hi -
    refine quiet w hi ?_
    rcases cancel_cases rt w t with hc | ⟨r, q, g, hc⟩ <;> rw [hc]
    rfl
  · rintro w e - - hi
    refine quiet w hi ?_
    cases e <;> rfl
  · rintro w w' t - - - -
    trivial

/-- **The columns of a row agree with its status** in every run of the service. -/
theorem columns_established (cfg : Settings) (rt : Runtime K) (engine : E.State) :
    (machine cfg rt E).Established .free (World.IsInitial engine) columnsOutline :=
  columns_preserves.valid.established (rows_established cfg rt engine)

/-! ### What a `delete` commits and returns -/

/-- The row got a greater version. -/
def VersionGrows (t t' : Documents) (id : Uuid) : Prop :=
  ∃ r r', t.find? id = some r ∧ t'.find? id = some r' ∧ r.version < r'.version

/-- The document of a `delete` that has committed and not returned. -/
def committed : Task K → Option Uuid
  | .delete _ id (.cacheDelete _) | .delete _ id (.invalidate _) | .delete _ id (.publish _) => some id
  | _ => none

/-- The return of a `delete` of the document. -/
def isDeletion (id : Uuid) : Entry K → Bool
  | .deleted _ d => decide (d = id)
  | _ => false

/-- How many `delete` requests for the document have returned without an error. -/
def deletions (w : World E) (id : Uuid) : ℕ := w.log.countP fun x => isDeletion id x.2

/-- No `delete` commits over a row that is deleted already. -/
def liveCommits : Restriction (World E) (Task K) Request Disturbance where
  resume w
    | .delete _ id (.commit _) => ¬ IsDeleted w.documents id
    | _ => True

instance (w : World E) (r : Request) :
    Decidable ((liveCommits : Restriction _ (Task K) Request Disturbance).start w r) := .isTrue trivial

instance (w : World E) : (t : Task K) →
    Decidable ((liveCommits : Restriction _ (Task K) Request Disturbance).resume w t)
  | .delete _ id (.commit _) =>
      inferInstanceAs (Decidable (¬ ∃ d ∈ w.documents.find? id, d.status = .deleted))
  | .delete _ _ .read | .delete _ _ (.cacheDelete _) | .delete _ _ (.invalidate _)
  | .delete _ _ (.publish _) | .create _ _ | .get _ _ _ _ | .search _ _ _ _ | .process _
  | .sweep _ => .isTrue trivial

instance (w : World E) (e : Disturbance) :
    Decidable ((liveCommits : Restriction _ (Task K) Request _).environment w e) := .isTrue trivial

/-- At most one `delete` of a document returns, and every one that commits stores a greater
version, in the runs `P` allows. -/
structure OneDeleteWins (cfg : Settings) (rt : Runtime K) (E : SearchEngine K)
    (P : Restriction (World E) (Task K) Request Disturbance) (init : World E → Prop) : Prop where
  once : ∀ {s}, (machine cfg rt E).Reach P init s → ∀ id, deletions s.world id ≤ 1
  grows : ∀ {s s' i pick tenantId id row}, (machine cfg rt E).Reach P init s →
    P.Allows s (.resume i pick) → s.tasks i = some (.delete tenantId id (.commit row)) →
    (machine cfg rt E).step s (.resume i pick) = some s' →
    VersionGrows s.world.documents s'.world.documents id

/-- **What a commit stores** is greater exactly when the row was alive. -/
theorem versionGrows_iff {t : Documents} {id : Uuid} {row : Document} (now : Timestamp)
    {tenantId : Str} (ht : RowsOk t) (hid : row.id = id) (hv : row.version = 1)
    (hrow : HasRow t id tenantId) :
    VersionGrows t (softDelete t row now) id ↔ ¬ IsDeleted t id := by
  obtain ⟨r, hr, -⟩ := hrow
  have hafter := find?_softDelete t row now id
  rw [hr, Option.map_some, if_pos ((Table.key_of_find? hr).trans hid.symm)] at hafter
  constructor
  · rintro ⟨r₁, r₂, h₁, h₂, hlt⟩ ⟨r₃, h₃, hs⟩
    cases hr.symm.trans h₁
    cases hr.symm.trans h₃
    rw [hafter] at h₂
    cases h₂
    -- both versions are 2
    have hdead := (ht id r hr).dead hs
    dsimp only at hlt
    omega
  · intro hlive
    have hone : r.version = 1 := (ht id r hr).live fun hs => hlive ⟨r, hr, hs⟩
    refine ⟨r, _, hr, hafter, ?_⟩
    dsimp only
    omega

/-! ### Counting the returns -/

theorem deletions_record (w : World E) (e : Entry K) (id : Uuid) :
    deletions (w.record e) id = deletions w id + if isDeletion id e then 1 else 0 :=
  List.countP_cons

theorem deletions_publish (w : World E) (e : Event) (id : Uuid) :
    deletions (DocumentService.publish w e) id = deletions w id := by
  rcases publish_cases w e with h | h <;> rw [h]
  rfl

theorem deletions_bump (w : World E) (b : ℕ) (t : Str) (id : Uuid) :
    deletions (bump w b t) id = deletions w id := by
  rcases bump_cases w b t with ⟨h, -⟩ | ⟨g, h, -⟩ <;> rw [h] <;> rfl

theorem deletions_proceed {w w' : World E} {p : Plan Str} {r : BulkResult} {b : ℕ} {ts : List Str}
    {next : Option ProcessStep} (h : IndexingProcessor.proceed w p r b ts = (w', next)) (id : Uuid) :
    deletions w' id = deletions w id := by
  rcases proceed_cases h with ⟨-, rfl, -⟩ | ⟨rfl, -⟩ <;> rfl

theorem committed_process (o : Option ProcessStep) :
    (o.map Task.process).bind (committed (K := K)) = none := by
  cases o <;> rfl

theorem committed_sweep (o : Option Reconciler.SweepStep) :
    (o.map Task.sweep).bind (committed (K := K)) = none := by
  cases o <;> rfl

/-- **What a move does to the deletions**: it commits one, returns from one, or neither. -/
theorem committed_move {w w' : World E} {t : Task K} {u : Option (Task K)}
    (h : Move cfg rt w t w' u) :
    (∃ tenantId id row, t = .delete tenantId id (.commit row) ∧
      w'.documents = softDelete w.documents row w.now ∧ u.bind committed = some id ∧
      ∀ d, deletions w' d = deletions w d) ∨
    (∃ id, committed t = some id ∧ u = none ∧
      ∀ d, deletions w' d = deletions w d + if id = d then 1 else 0) ∨
    (u.bind committed = committed t ∧ ∀ d, deletions w' d = deletions w d) := by
  cases h with
  | softDeleted => exact .inl ⟨_, _, _, rfl, rfl, rfl, fun _ => rfl⟩
  | @deleted t id row =>
      refine .inr (.inl ⟨id, rfl, rfl, fun d => ?_⟩)
      rw [deletions_record, deletions_publish]
      by_cases e : id = d <;> simp [isDeletion, e]
  | indexPublished => exact .inr (.inr ⟨rfl, deletions_publish w _⟩)
  | republished h =>
      obtain ⟨-, rfl⟩ := World.publish_eq_some h
      exact .inr (.inr ⟨committed_sweep _, fun _ => rfl⟩)
  | selected => exact .inr (.inr ⟨committed_sweep _, fun _ => rfl⟩)
  | committed h => exact .inr (.inr ⟨committed_process _, fun d => (deletions_proceed h d).trans rfl⟩)
  | bumped _ h =>
      exact .inr (.inr ⟨committed_process _,
        fun d => (deletions_proceed h d).trans (deletions_bump _ _ _ d)⟩)
  | _ => exact .inr (.inr ⟨rfl, fun _ => rfl⟩)

/-! ### One deletion at a time -/

/-- Of the `delete` requests for a document one at most has committed, those that have returned
counted in; then its row is deleted. -/
structure Deletes (s : Config (World E) (Task K)) : Prop where
  once : ∀ id, deletions s.world id ≤ 1
  returned : ∀ id, deletions s.world id ≠ 0 → IsDeleted s.world.documents id
  committed : ∀ i t id, s.tasks i = some t → committed t = some id →
    IsDeleted s.world.documents id ∧ deletions s.world id = 0
  alone : ∀ i j t t' id, s.tasks i = some t → s.tasks j = some t' → Pipeline.committed t = some id →
    Pipeline.committed t' = some id → i = j

theorem Deletes.idle {engine : E.State} {w : World E} (h : World.IsInitial engine w) :
    Deletes (K := K) (Config.idle w) := by
  subst h
  exact ⟨fun _ => Nat.zero_le 1, fun _ h => absurd rfl h, fun _ _ _ h => (by cases h),
    fun _ _ _ _ _ h => (by cases h)⟩

/-- The step of a task that neither commits a deletion nor returns from one. -/
theorem Deletes.frame {s : Config (World E) (Task K)} (h : Deletes s) {w : World E} {i : ℕ}
    {u : Option (Task K)} (he : RowsEvolve s.world.documents w.documents)
    (hd : ∀ id, deletions w id = deletions s.world id)
    (hu : ∀ id, u.bind Pipeline.committed = some id →
      (s.tasks i).bind Pipeline.committed = some id) :
    Deletes ⟨w, Function.update s.tasks i u⟩ := by
  -- a task that has committed had done so before the step
  have before : ∀ j t id, Function.update s.tasks i u j = some t → Pipeline.committed t = some id →
      ∃ t', s.tasks j = some t' ∧ Pipeline.committed t' = some id := by
    intro j t id hj ht
    rcases Machine.update_eq_some hj with ⟨rfl, rfl⟩ | hj
    · exact Option.bind_eq_some_iff.mp (hu id ht)
    · exact ⟨t, hj, ht⟩
  refine ⟨fun id => (hd id).trans_le (h.once id), fun id hn => ?_, fun j t id hj ht => ?_, ?_⟩
  · rw [hd] at hn
    exact (h.returned id hn).mono he
  · obtain ⟨t', hj', ht'⟩ := before j t id hj ht
    obtain ⟨hdel, hzero⟩ := h.committed j t' id hj' ht'
    exact ⟨hdel.mono he, (hd id).trans hzero⟩
  · intro j k t t' id hj hk ht ht'
    obtain ⟨_, hj', htj⟩ := before j t id hj ht
    obtain ⟨_, hk', htk⟩ := before k t' id hk ht'
    exact h.alone j k _ _ id hj' hk' htj htk

/-- The commit of a `delete` over a live row. -/
theorem Deletes.commit {s : Config (World E) (Task K)} (h : Deletes s) {w : World E} {i : ℕ}
    {t' : Task K} {id : Uuid} (he : RowsEvolve s.world.documents w.documents)
    (hd : ∀ d, deletions w d = deletions s.world d) (ht' : Pipeline.committed t' = some id)
    (hlive : ¬ IsDeleted s.world.documents id) (hdel : IsDeleted w.documents id) :
    Deletes ⟨w, Function.update s.tasks i (some t')⟩ := by
  -- no other `delete` of the document can have committed
  have hnone : ∀ j t, s.tasks j = some t → Pipeline.committed t ≠ some id := fun j t hj ht =>
    hlive (h.committed j t id hj ht).1
  have hzero : deletions s.world id = 0 := by
    by_contra hn
    exact hlive (h.returned id hn)
  refine ⟨fun d => (hd d).trans_le (h.once d), fun d hn => ?_, fun j t d hj ht => ?_, ?_⟩
  · rw [hd] at hn
    exact (h.returned d hn).mono he
  · rcases Machine.update_eq_some hj with ⟨-, hu⟩ | hj
    · cases hu
      cases ht'.symm.trans ht
      exact ⟨hdel, (hd id).trans hzero⟩
    · obtain ⟨hdel', hzero'⟩ := h.committed j t d hj ht
      exact ⟨hdel'.mono he, (hd d).trans hzero'⟩
  · intro j k t t₁ d hj hk ht ht₁
    rcases Machine.update_eq_some hj with ⟨rfl, hu⟩ | hj' <;>
      rcases Machine.update_eq_some hk with ⟨rfl, hu'⟩ | hk'
    · rfl
    · cases hu
      cases ht'.symm.trans ht
      exact absurd ht₁ (hnone k t₁ hk')
    · cases hu'
      cases ht'.symm.trans ht₁
      exact absurd ht (hnone j t hj')
    · exact h.alone j k t t₁ d hj' hk' ht ht₁

/-- The return of a `delete`. -/
theorem Deletes.return {s : Config (World E) (Task K)} (h : Deletes s) {w : World E} {i : ℕ}
    {t : Task K} {id : Uuid} (he : RowsEvolve s.world.documents w.documents)
    (hd : ∀ d, deletions w d = deletions s.world d + if id = d then 1 else 0)
    (hi : s.tasks i = some t) (ht : Pipeline.committed t = some id) :
    Deletes ⟨w, Function.update s.tasks i none⟩ := by
  obtain ⟨hdel, hzero⟩ := h.committed i t id hi ht
  have old : ∀ j t', Function.update s.tasks i none j = some t' → j ≠ i ∧ s.tasks j = some t' := by
    intro j t' hj
    by_cases e : j = i
    · subst e
      rw [Function.update_self] at hj
      cases hj
    · exact ⟨e, (Function.update_of_ne e _ _).symm.trans hj⟩
  refine ⟨fun d => ?_, fun d hn => ?_, fun j t' d hj ht' => ?_, fun j k t₁ t₂ d hj hk ht₁ ht₂ => ?_⟩
  · dsimp only
    rw [hd]
    split
    · rename_i e
      rw [← e, hzero]
    · exact h.once d
  · by_cases e : id = d
    · subst e
      exact hdel.mono he
    · rw [hd, if_neg e] at hn
      exact (h.returned d hn).mono he
  · obtain ⟨hne, hj⟩ := old j t' hj
    obtain ⟨hdel', hzero'⟩ := h.committed j t' d hj ht'
    refine ⟨hdel'.mono he, ?_⟩
    dsimp only
    rw [hd, hzero', if_neg]
    rintro rfl
    exact hne (h.alone j i t' t id hj hi ht' ht)
  · exact h.alone j k t₁ t₂ d (old j t₁ hj).2 (old k t₂ hk).2 ht₁ ht₂

theorem committed_start (w : World E) (r : Request) : committed (K := K) (start w r) = none := by
  cases r <;> rfl

theorem deletions_cancel (w : World E) (t : Task K) (id : Uuid) :
    deletions (cancel rt w t) id = deletions w id := by
  rcases cancel_cases rt w t with h | ⟨r, q, g, h⟩ <;> rw [h]
  rfl

theorem deletions_disturb (w : World E) (e : Disturbance) (id : Uuid) :
    deletions (disturb w e) id = deletions w id := by
  cases e with
  | refresh => exact deletions_record _ _ id
  | _ => rfl

theorem deletes_step {s s' : Config (World E) (Task K)} {engine : E.State}
    {a : Action Request Str Disturbance}
    (hr : (machine cfg rt E).Reach liveCommits (World.IsInitial engine) s)
    (hP : liveCommits.Allows s a) (hs : (machine cfg rt E).step s a = some s') (h : Deletes s) :
    Deletes s' := by
  have hrows := rows_established cfg rt engine
  have he : RowsEvolve s.world.documents s'.world.documents :=
    hrows.guarantee hr.free (Restriction.free_allows _ _) hs
  rcases Machine.step_cases hs with ⟨i, r, w, t, rfl, -, hw, rfl⟩ |
    ⟨i, pick, t, w, u, rfl, ht, hw, rfl⟩ | ⟨i, t, rfl, ht, rfl⟩ | ⟨e, w, rfl, hw, rfl⟩
  · cases hw
    refine h.frame he (fun _ => rfl) fun id hu => ?_
    rw [Option.bind_some, committed_start] at hu
    cases hu
  · obtain ⟨⟨w₁, u'⟩, hres, hw⟩ := Option.map_eq_some_iff.mp hw
    cases hw
    rcases committed_move (resume_move hres) with ⟨tn, id, row, rfl, hdocs, hc, hd⟩ |
      ⟨id, hc, rfl, hd⟩ | ⟨hc, hd⟩
    · obtain ⟨t', rfl, ht'⟩ := Option.bind_eq_some_iff.mp hc
      obtain ⟨hid, -, hrow⟩ := (hrows.holds hr.free).2 i _ ht
      refine h.commit he hd ht' (hP _ ht) ?_
      rw [World.tick_documents, hdocs, ← hid]
      exact isDeleted_softDelete (hid ▸ hrow)
    · exact h.return he hd ht hc
    · refine h.frame he hd fun id hu => ?_
      rw [ht, Option.bind_some, ← hc]
      exact hu
  · exact h.frame he (deletions_cancel s.world t) fun id hu => by cases hu
  · cases hw
    have hframe := h.frame (i := 0) (u := s.tasks 0) he (deletions_disturb s.world e) fun _ => id
    rwa [Function.update_eq_self] at hframe

theorem deletes_reach {engine : E.State} {s : Config (World E) (Task K)}
    (hr : (machine cfg rt E).Reach liveCommits (World.IsInitial engine) s) : Deletes s := by
  induction hr with
  | idle h => exact .idle h
  | step hr hP hs ih => exact deletes_step hr hP hs ih

/-- **One `delete` wins** in the runs in which none commits over a row that is deleted already. -/
theorem one_delete_wins (cfg : Settings) (rt : Runtime K) (engine : E.State) :
    OneDeleteWins cfg rt E liveCommits (World.IsInitial engine) where
  once hr := (deletes_reach hr).once
  grows := by
    intro s s' i pick tenantId id row hr hP ht hs
    obtain ⟨hrows, hassert⟩ := (rows_established cfg rt engine).holds hr.free
    obtain ⟨hid, hv, hrow⟩ := hassert i _ ht
    rcases Machine.step_cases hs with ⟨_, _, _, _, ha, -⟩ | ⟨j, c, t, w, u, ha, ht', hw, rfl⟩ |
      ⟨_, _, ha, -⟩ | ⟨_, _, ha, -⟩
    · cases ha
    · cases ha
      cases ht.symm.trans ht'
      cases hw
      exact (versionGrows_iff s.world.now hrows hid hv hrow).mpr (hP _ ht)
    · cases ha
    · cases ha

end Pipeline

namespace Sample

open Pipeline

/-- A document is created, and two `delete` requests read its row before either commits. -/
def race : Actions :=
  [.start 0 (.create acme documentA payload), .resume 0 [], .resume 0 [], .resume 0 [],
    .start 1 (.delete acme documentA), .start 2 (.delete acme documentA),
    .resume 1 [], .resume 2 [], .resume 1 [], .resume 2 [],
    .resume 1 [], .resume 1 [], .resume 1 [], .resume 2 [], .resume 2 [], .resume 2 []]

theorem race_runs : (service.run (Config.idle start) race).isSome := by decide +kernel

/-- A document is created and deleted. -/
def createdAndDeleted : Actions :=
  [.start 0 (.create acme documentA payload), .resume 0 [], .resume 0 [], .resume 0 [],
    .start 1 (.delete acme documentA), .resume 1 [], .resume 1 [], .resume 1 [], .resume 1 [],
    .resume 1 []]

theorem createdAndDeleted_runs : (service.run (Config.idle start) createdAndDeleted).isSome := by
  decide +kernel

/-- The `delete` commits over a live row, and returns. -/
example : service.Conforms liveCommits (Config.idle start) createdAndDeleted ∧
    deletions (service.after start createdAndDeleted createdAndDeleted_runs).world documentA = 1 := by
  decide +kernel

/-- **Two `delete` requests return.** -/
theorem two_deletes_win :
    ¬ OneDeleteWins settings runtime (inMemory runtime) .free (World.IsInitial InMemoryEngine.State.initial) := by
  intro h
  have hreach := Machine.reach_after start_isInitial race_runs (Machine.conforms_free _ _)
  have hone := h.once hreach documentA
  exact absurd hone (by decide +kernel)

end Sample

end DocSearch
