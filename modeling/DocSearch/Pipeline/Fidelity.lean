import DocSearch.Pipeline.Index

/-!
# Pipeline — Fidelity

The index as a read model of the table: the source an entry holds against the source
`to_search_source` makes of the row as it is stored now.  `mark_indexed` refreshes `updated_at`
through `onupdate` and leaves the version alone, so the copy written before it is out of step, and
no later write of the same version replaces it.

* `Faithful`: every entry of a row that is not deleted holds the row's source.
* `marksAtOnce`: a row is marked in the instant it was last written.
* `read_model_fidelity`: the index is faithful on every run that does so, and a step breaks it
  exactly when it does not.
-/

namespace DocSearch

open DocumentRepository InMemoryEngine IndexingProcessor Interleaving

namespace Pipeline

/-- Every row that is not deleted and is in the index has there the source made of it as it is
stored now. -/
def Faithful (t : Documents) (docs : Docs) : Prop :=
  ∀ id d e, t.find? id = some d → d.status ≠ .deleted → docs.get? id.str = some e →
    e.source = toSearchSource d

/-- The operation would write the source of its row, unless the row is deleted by now. -/
def FreshOp (t : Documents) (op : Operation) : Prop :=
  ∀ s, op.source? = some s → ∃ d, t.find? d.id = some d ∧ op.documentId = d.id.str ∧
    (d.status = .deleted ∨ s = toSearchSource d)

/-- The source made of a row stays, unless the row is deleted. -/
def SourcesStay (t t' : Documents) : Prop :=
  ∀ id d, t.find? id = some d → ∃ d', t'.find? id = some d' ∧
    (d'.status = .deleted ∨ toSearchSource d' = toSearchSource d)

theorem SourcesStay.refl (t : Documents) : SourcesStay t t := fun _ d h => ⟨d, h, .inr rfl⟩

theorem FreshOp.mono {t t' : Documents} {op : Operation} (h : FreshOp t op) (he : RowsEvolve t t')
    (hs : SourcesStay t t') : FreshOp t' op := by
  intro s hop
  obtain ⟨d, hd, hid, hd'⟩ := h s hop
  obtain ⟨d₁, hd₁, hev⟩ := he d.id d hd
  obtain ⟨d₂, hd₂, hsrc⟩ := hs d.id d hd
  rw [hd₁] at hd₂
  cases hd₂
  refine ⟨d₁, hev.id ▸ hd₁, hev.id ▸ hid, ?_⟩
  rcases hd' with hdel | rfl
  · exact .inl (hev.deleted hdel)
  · exact hsrc.imp id Eq.symm

theorem freshOp_operationFor {t : Documents} {d : Document} (hd : t.find? d.id = some d) :
    FreshOp t (operationFor d.id.str d) := by
  intro s hs
  refine ⟨d, hd, documentId_operationFor _ _, ?_⟩
  unfold operationFor at hs
  split at hs
  · cases hs
  · exact .inr (Option.some.inj hs).symm

/-- The table may evolve under the index as long as the sources stay. -/
theorem Faithful.evolve {t t' : Documents} {docs : Docs} (h : Faithful t docs) (hi : IndexOk t docs)
    (he : RowsEvolve t t') (hs : SourcesStay t t') : Faithful t' docs := by
  intro id d' e hd' hlive hk
  -- an entry belongs to a row that was there before
  obtain ⟨d, hd, hid, -⟩ := hi.entry _ e hk
  rw [Uuid.str_inj.mp hid] at hd
  obtain ⟨d₁, hd₁, hev⟩ := he id d hd
  obtain ⟨d₂, hd₂, hsrc⟩ := hs id d hd
  rw [hd'] at hd₁ hd₂
  cases hd₁
  cases hd₂
  have hold := h id d e hd (fun hdel => hlive (hev.deleted hdel)) hk
  exact hold.trans (hsrc.resolve_left hlive).symm

theorem faithful_applyAll {t : Documents} {docs : Docs} {ops : List Operation}
    (hn : (ops.map Operation.documentId).Nodup) (hf : ∀ op ∈ ops, FreshOp t op)
    (h : Faithful t docs) : Faithful t (applyAll docs ops) := by
  intro id d e hd hlive hk
  rw [get?_applyAll hn] at hk
  cases hop : ops.find? fun op => decide (op.documentId = id.str) with
  | none =>
      rw [hop] at hk
      exact h id d e hd hlive hk
  | some op =>
      rw [hop] at hk
      obtain ⟨hm, hid⟩ := (find?_key_eq_some hn).mp hop
      rcases entryAfter_cases hk with hk | ⟨-, -, -, hs⟩
      · exact h id d e hd hlive hk
      · obtain ⟨d', hd', hid', hsrc⟩ := hf op hm _ hs
        rw [← Uuid.str_inj.mp (hid.symm.trans hid'), hd] at hd'
        cases hd'
        exact hsrc.resolve_left hlive

/-! ### The statements -/

section Statements

variable {t t' : Documents}

theorem sourcesStay_create {d : Document} (hc : create t d = some t') : SourcesStay t t' := by
  obtain ⟨hnone, hf⟩ := Table.find?_insert hc
  intro id r hr
  refine ⟨r, ?_, .inr rfl⟩
  rw [hf, if_neg, hr]
  rintro rfl
  cases hnone.symm.trans hr

theorem sourcesStay_softDelete (d : Document) (now : Timestamp) :
    SourcesStay t (softDelete t d now) := by
  intro id r hr
  refine ⟨_, by rw [find?_softDelete, hr, Option.map_some], ?_⟩
  split
  · exact .inl rfl
  · exact .inr rfl

theorem sourcesStay_markIndexed {ids : List Uuid} {now : Timestamp}
    (h : ∀ d ∈ t.rows, d.id ∈ ids → d.status = .pending → d.updatedAt = now) :
    SourcesStay t (markIndexed t ids now) := by
  intro id r hr
  refine ⟨_, by rw [find?_markIndexed, hr, Option.map_some], .inr ?_⟩
  split
  · rename_i hp
    have hid := Table.key_of_find? hr
    have hu := h r (Table.mem_rows.mpr (hid.symm ▸ hr)) hp.1 hp.2
    unfold toSearchSource
    rw [hu]
  · rfl

end Statements

/-! ### The moves -/

variable {K : Type} {rt : Runtime K}

/-- Whether the task is about to write the table or the index. -/
def writesStore : Task K → Bool
  | .create _ (.insert _ _) | .delete _ _ (.commit _) | .process (.bulk _)
  | .process (.commit _ _ _) => true
  | _ => false

theorem store_move {E : SearchEngine K} {cfg : Settings} {w w' : World E} {t : Task K}
    {u : Option (Task K)} (h : Move cfg rt w t w' u) (ht : writesStore t = false) :
    w'.documents = w.documents ∧ w'.engine = w.engine := by
  cases h with
  | inserted | insertRefused | softDeleted | bulkRaised | bulkReturned | committed => cases ht
  | indexPublished | deleted => exact ⟨publish_documents _ _, publish_engine _ _⟩
  | republished h =>
      obtain ⟨-, rfl⟩ := World.publish_eq_some h
      exact ⟨rfl, rfl⟩
  | bumped _ h =>
      obtain ⟨hd, he, -⟩ := proceed_frame h
      exact ⟨hd.trans (bump_documents _ _ _), he.trans (bump_engine _ _ _)⟩
  | _ => exact ⟨rfl, rfl⟩

def fidelityAssertion (t : Documents) : Task K → Prop
  | .process (.bulk p) => ∀ op ∈ p.operations, FreshOp t op
  | _ => True

/-- A plan about to be written was made in the move before. -/
theorem fidelityAssertion_move {E : SearchEngine K} {cfg : Settings} {w w' : World E} {t u : Task K}
    (h : Move cfg rt w t w' (some u)) : fidelityAssertion w.documents u := by
  generalize hu : some u = o at h
  cases h with
  | planned =>
      cases hu
      intro op hop
      obtain ⟨d, hd, -, rfl⟩ := mem_operations.mp hop
      exact freshOp_operationFor hd
  | committed h =>
      rcases proceed_cases h with ⟨-, -, rfl⟩ | ⟨-, rfl⟩ <;> cases hu
      trivial
  | bumped _ h =>
      rcases proceed_cases h with ⟨-, -, rfl⟩ | ⟨-, rfl⟩ <;> cases hu
      trivial
  | selected =>
      obtain ⟨step, -, rfl⟩ := Option.map_eq_some_iff.mp hu.symm
      trivial
  | republished =>
      obtain ⟨step, -, rfl⟩ := Option.map_eq_some_iff.mp hu.symm
      trivial
  | _ => cases hu <;> trivial

/-! ### The outline -/

variable [Field K] [LinearOrder K]

/-- `mark_indexed` reaches a row in the instant the row was last written. -/
def marksAtOnce (rt : Runtime K) :
    Restriction (World (inMemory rt)) (Task K) Request Disturbance where
  resume w t :=
    match t with
    | .process (.commit p r _) => ∀ d ∈ w.documents.rows,
        d.id ∈ (p.outcome r).indexed.filterMap (Uuid.parse rt.toUnicode) → d.status = .pending →
          d.updatedAt = w.now
    | _ => True

instance (w : World (inMemory rt)) : (t : Task K) → Decidable ((marksAtOnce rt).resume w t)
  | .process (.commit p r _) => inferInstanceAs (Decidable (∀ d ∈ w.documents.rows,
      d.id ∈ (p.outcome r).indexed.filterMap (Uuid.parse rt.toUnicode) → d.status = .pending →
        d.updatedAt = w.now))
  | .process (.read _) | .process (.bulk _) | .process (.invalidate _ _ _ _) | .create _ _
  | .get _ _ _ _ | .delete _ _ _ | .search _ _ _ _ | .sweep _ => .isTrue trivial

instance (w : World (inMemory rt)) (r : Request) : Decidable ((marksAtOnce rt).start w r) :=
  .isTrue trivial

instance (w : World (inMemory rt)) (e : Disturbance) :
    Decidable ((marksAtOnce rt).environment w e) :=
  .isTrue trivial

def fidelityOutline : Outline (World (inMemory rt)) (Task K) where
  inv w := Faithful w.documents w.engine.docs
  assertion w t := fidelityAssertion w.documents t
  guarantee w w' := SourcesStay w.documents w'.documents

theorem fidelity_preserves {cfg : Settings} :
    Preserves cfg rt (marksAtOnce rt) (World.IsInitial State.initial) (rowsOutline.and indexOutline)
      (fidelityOutline : Outline (World (inMemory rt)) (Task K)) where
  init := by
    rintro w rfl id d e hd
    cases hd
  start := by
    intro w r _ _ hi
    refine ⟨hi, ?_, SourcesStay.refl _⟩
    cases r <;> trivial
  move := by
    intro w t w' u hK hKt hP hm hi ht
    -- the table evolves under the same index
    have evolves : ∀ {w' : World (inMemory rt)}, w'.engine = w.engine →
        RowsEvolve w.documents w'.documents → SourcesStay w.documents w'.documents →
        Faithful w'.documents w'.engine.docs := by
      intro w' he hev hs
      rw [he]
      exact Faithful.evolve hi hK.before.2 hev hs
    by_cases hw : writesStore t = false
    · obtain ⟨hd, he⟩ := store_move hm hw
      have hs : SourcesStay w.documents w'.documents := hd ▸ SourcesStay.refl _
      refine ⟨evolves he hK.guarantee.1 hs, ?_, hs⟩
      rintro t' rfl
      change fidelityAssertion w'.documents t'
      rw [hd]
      exact fidelityAssertion_move hm
    cases hm with
    | insertRefused => exact ⟨hi, fun _ h => (by cases h), SourcesStay.refl _⟩
    | inserted h =>
        have hs := sourcesStay_create h
        exact ⟨evolves rfl hK.guarantee.1 hs, fun _ h => (by cases h; trivial), hs⟩
    | @softDeleted _ _ row =>
        have hs := sourcesStay_softDelete (t := w.documents) row w.now
        exact ⟨evolves rfl hK.guarantee.1 hs, fun _ h => (by cases h; trivial), hs⟩
    | bulkRaised h =>
        rcases bulk_inMemory h with ⟨-, -, rfl⟩ | ⟨-, he, -⟩
        · exact ⟨hi, fun _ h => (by cases h), SourcesStay.refl _⟩
        · cases he
    | bulkReturned h =>
        rcases bulk_inMemory h with ⟨-, ⟨_, he⟩, -⟩ | ⟨-, -, rfl⟩
        · cases he
        · exact ⟨faithful_applyAll hKt.1.1 ht hi, fun _ h => (by cases h; trivial),
            SourcesStay.refl _⟩
    | @committed p r b w' next h =>
        have hs := sourcesStay_markIndexed (t := w.documents) hP
        rcases proceed_cases h with ⟨-, rfl, rfl⟩ | ⟨rfl, rfl⟩
        · exact ⟨evolves rfl hK.guarantee.1 hs, fun _ h => (by cases h), hs⟩
        · exact ⟨evolves rfl hK.guarantee.1 hs, fun _ h => (by cases h; trivial), hs⟩
    | _ => exact absurd rfl hw
  cancel := by
    intro w t _ _ hi _
    rcases cancel_cases rt w t with hc | ⟨r, q, g, hc⟩ <;> rw [hc] <;>
      exact ⟨hi, SourcesStay.refl _⟩
  disturb := by
    intro w e _ _ hi
    cases e <;> exact ⟨hi, SourcesStay.refl _⟩
  stable := by
    intro w w' t hK ho _ ht
    cases t with
    | process step =>
        cases step with
        | bulk p => exact fun op hop => (ht op hop).mono hK.guarantee.1 ho.guarantee
        | _ => trivial
    | _ => trivial

theorem fidelity_established (cfg : Settings) (rt : Runtime K) :
    (machine cfg rt (inMemory rt)).Established (marksAtOnce rt) (World.IsInitial State.initial)
      fidelityOutline :=
  fidelity_preserves.valid.established (index_established cfg rt).restrict

/-- A commit that marks a row later than it was last written puts it out of step. -/
theorem not_faithful_of_late {w : World (inMemory rt)} {p : Plan Str} {r : BulkResult}
    (hi : Faithful w.documents w.engine.docs) (hf : ∀ op ∈ p.operations, FromRow w.documents op)
    (hp : ∀ id : Uuid, id.str ∈ (p.outcome r).indexed →
      IsDeleted w.documents id ∨ Present w.engine.docs id) {d : Document}
    (hd : w.documents.find? d.id = some d)
    (hm : d.id ∈ (p.outcome r).indexed.filterMap (Uuid.parse rt.toUnicode))
    (hs : d.status = .pending) (hlate : d.updatedAt ≠ w.now) :
    ¬ Faithful (commit rt.toUnicode w (p.outcome r).indexed).documents w.engine.docs := by
  intro hf'
  obtain ⟨e, he⟩ : Present w.engine.docs d.id := by
    rcases hp d.id (str_mem_indexed hf hm) with ⟨d', hd', hdel⟩ | hpres
    · rw [hd] at hd'
      cases hd'
      rw [hs] at hdel
      cases hdel
    · exact hpres
  have hbefore := hi d.id d e hd (by rw [hs]; simp) he
  have hmarked : (commit rt.toUnicode w (p.outcome r).indexed).documents.find? d.id =
      some { d with status := .indexed, indexedAt := some w.now, updatedAt := w.now } := by
    refine (find?_markIndexed _ _ _ d.id).trans ?_
    rw [hd, Option.map_some, if_pos ⟨hm, hs⟩]
  have hafter := hf' d.id _ e hmarked (by simp) he
  -- the entry would hold both instants
  exact hlate (congrArg SearchSource.updatedAt (hbefore.symm.trans hafter))

/-- **Read-model fidelity.**  On every run whose commits mark rows in the instant they were last
written, the entry of a row that is not deleted holds the source made of the row as it is stored
now.  The next step keeps this exactly when it does so too. -/
theorem read_model_fidelity {cfg : Settings} {s : Config (World (inMemory rt)) (Task K)}
    (hr : (machine cfg rt (inMemory rt)).Reach (marksAtOnce rt) (World.IsInitial State.initial) s) :
    Faithful s.world.documents s.world.engine.docs ∧
      ∀ a s', (machine cfg rt (inMemory rt)).step s a = some s' →
        (Faithful s'.world.documents s'.world.engine.docs ↔ (marksAtOnce rt).Allows s a) := by
  have hi := ((fidelity_established cfg rt).holds hr).1
  refine ⟨hi, fun a s' hs => ⟨fun hf' => ?_, fun ha => ?_⟩⟩
  · rcases Machine.step_cases hs with ⟨i, q, w, t, rfl, -, -, -⟩ |
      ⟨i, c, t, w, u, rfl, ht, hw, rfl⟩ | ⟨i, t, rfl, -, -⟩ | ⟨e, w, rfl, -, -⟩
    · trivial
    · intro t' ht'
      rw [ht] at ht'
      cases ht'
      obtain ⟨⟨w₁, u₁⟩, hm, he⟩ := Option.map_eq_some_iff.mp hw
      cases he
      have hm := resume_move hm
      have hk := (index_established cfg rt).holds hr.free
      cases hm with
      | committed h =>
          intro d hd hid hpend
          by_contra hlate
          refine not_faithful_of_late hi (hk.2 i _ ht).1.2 (hk.2 i _ ht).2 (Table.mem_rows.mp hd) hid
            hpend hlate ?_
          rcases proceed_cases h with ⟨-, rfl, -⟩ | ⟨rfl, -⟩ <;> exact hf'
      | _ => trivial
    · trivial
    · trivial
  · exact ((fidelity_established cfg rt).holds (.step hr ha hs)).1

end Pipeline

namespace Sample

theorem read_model_fidelity_sample :
    Pipeline.Faithful (service.after start indexing indexing_runs).world.documents
        (service.after start indexing indexing_runs).world.engine.docs ∧
      ∀ a s', service.step (service.after start indexing indexing_runs) a = some s' →
        (Pipeline.Faithful s'.world.documents s'.world.engine.docs ↔
          (Pipeline.marksAtOnce runtime).Allows (service.after start indexing indexing_runs) a) :=
  Pipeline.read_model_fidelity
    (Machine.reach_after start_isInitial indexing_runs (by decide +kernel))

/-- A document is created, and indexed a second later. -/
def indexedLater : Actions :=
  [.start 0 (.create acme documentA payload), .resume 0 [], .resume 0 [], .resume 0 [],
    .environment (.elapse 1000000), .start 1 (.process [⟨documentA.str, acme, 1, eventIndex⟩]),
    .resume 1 [], .resume 1 [], .resume 1 [], .resume 1 acme]

theorem indexedLater_runs : (service.run (Config.idle start) indexedLater).isSome := by
  decide +kernel

/-- The world after it. -/
def laterWorld : World (inMemory runtime) := (service.after start indexedLater indexedLater_runs).world

theorem laterRow : (laterWorld.documents.find? documentA).map (fun d => (d.status, d.updatedAt)) =
    some (.indexed, 1000000) := by decide +kernel

theorem laterEntry : (laterWorld.engine.docs.get? documentA.str).map (fun e => e.source.updatedAt) =
    some 0 := by decide +kernel

/-- **A stale copy.**  The row has the instant it was marked in, the index the one it was created
in. -/
theorem stale_copy : ¬ ∀ s, service.Reach .free (World.IsInitial State.initial) s →
    Pipeline.Faithful s.world.documents s.world.engine.docs := by
  intro h
  have hf := h _ (Machine.reach_after start_isInitial indexedLater_runs (Machine.conforms_free _ _))
  obtain ⟨d, hd, hrow⟩ := Option.map_eq_some_iff.mp laterRow
  obtain ⟨e, he, hentry⟩ := Option.map_eq_some_iff.mp laterEntry
  obtain ⟨hs, hu⟩ := Prod.mk.inj hrow
  have hsrc := congrArg SearchSource.updatedAt (hf documentA d e hd (by rw [hs]; simp) he)
  rw [hentry] at hsrc
  exact absurd (hsrc.trans hu) (by decide)

end Sample

end DocSearch
