import DocSearch.Pipeline.Generations

/-!
# Pipeline — Invalidation

What a worker's return says: every tenant whose document an operation of its bulk call has changed
got an increment of its counter, because the events that were published name the tenants of their
rows.

* `invalidation_established`: the outline, for every engine.
-/

namespace DocSearch

open CacheKeys IndexingProcessor Interleaving

namespace Pipeline

variable {K : Type} {E : SearchEngine K}

/-- The event names a document, and the tenant its row has. -/
def NamesRow (t : Documents) (e : Event) : Prop :=
  ∃ id : Uuid, e.documentId = id.str ∧ HasRow t id e.tenantId

theorem NamesRow.mono {t t' : Documents} {e : Event} (h : NamesRow t e) (he : RowsEvolve t t') :
    NamesRow t' e := by
  obtain ⟨id, hid, hrow⟩ := h
  exact ⟨id, hid, hrow.mono he⟩

/-- A worker has incremented the counter of the tenant after its bulk call. -/
def Bumped (w : World E) (tenantId : Str) (bulkAt : ℕ) : Prop :=
  ∃ a g, (a, Entry.bumped tenantId g bulkAt) ∈ w.log

theorem Bumped.mono {w w' : World E} (hx : Extends w w') {t : Str} {b : ℕ} (h : Bumped w t b) :
    Bumped w' t b := by
  obtain ⟨a, g, hm⟩ := h
  exact ⟨a, g, hx.kept hm⟩

/-! ### The tenants of a batch -/

/-- The event that a batch holds for the document of an operation has the operation's tenant. -/
def OwnTenants (p : Plan Str) : Prop :=
  ∀ op ∈ p.operations, ∃ e, p.latest.get? op.documentId = some e ∧ e.tenantId = op.tenantId

theorem ownTenants_plan {c : Unicode} {t : Documents} {events : List Event}
    (h : ∀ e ∈ events, NamesRow t e) : OwnTenants (plan c t events) := by
  intro op hop
  obtain ⟨d, hd, ⟨e, he, hed⟩, rfl⟩ := mem_operations.mp hop
  rw [documentId_operationFor, tenantId_operationFor]
  obtain ⟨e', he'⟩ := Dict.mem_keys.mp (mem_keys_latest.mpr ⟨e, he, hed⟩)
  obtain ⟨hm, hid⟩ := get?_latest he'
  obtain ⟨id, hid', hrow⟩ := h e' hm
  obtain rfl := Uuid.str_inj.mp (hid'.symm.trans hid)
  exact ⟨e', he', hrow.unique (hasRow_of_find? hd)⟩

theorem OwnTenants.mem_changedTenants {p : Plan Str} (h : OwnTenants p) {r : BulkResult}
    {op : Operation} (hop : op ∈ p.operations) (hs : op.documentId ∈ r.succeeded) :
    op.tenantId ∈ p.changedTenants (p.outcome r) := by
  obtain ⟨e, he, ht⟩ := h op hop
  exact List.mem_map.mpr
    ⟨e, List.mem_filterMap.mpr ⟨_, Plan.mem_changed.mpr ⟨op, hop, rfl, hs⟩, he⟩, ht⟩

/-! ### The outline -/

structure InvalidationOk (w : World E) : Prop where
  published : ∀ a e, (a, Entry.published e) ∈ w.log → NamesRow w.documents e
  processed : ∀ a ops succeeded b, (a, Entry.processed ops succeeded b) ∈ w.log →
    ∀ op ∈ ops, op.documentId ∈ succeeded → ∃ a' g, (a', Entry.bumped op.tenantId g b) ∈ w.log ∧ a' ≤ a

def invalidationAssertion (w : World E) : Task K → Prop
  | .process (.read events) => ∀ e ∈ events, NamesRow w.documents e
  | .process (.bulk p) | .process (.commit p _ _) => OwnTenants p
  | .process (.invalidate p r b ts) => OwnTenants p ∧
      ∀ op ∈ p.operations, op.documentId ∈ r.succeeded → op.tenantId ∈ ts ∨ Bumped w op.tenantId b
  | _ => True

def invalidationOutline : Outline (World E) (Task K) where
  inv := InvalidationOk
  assertion := invalidationAssertion

theorem InvalidationOk.evolve {w w' : World E} (h : InvalidationOk w)
    (he : RowsEvolve w.documents w'.documents) (hl : w'.log = w.log) : InvalidationOk w' where
  published a e hm := (h.published a e (hl ▸ hm)).mono he
  processed := hl.symm ▸ h.processed

/-- What a step may add to the log. -/
def EntryInvalidated (w : World E) : Entry K → Prop
  | .published e => NamesRow w.documents e
  | .processed ops succeeded b =>
      ∀ op ∈ ops, op.documentId ∈ succeeded → Bumped w op.tenantId b
  | _ => True

theorem InvalidationOk.record {w w' : World E} (h : InvalidationOk w)
    (hp : ∀ {a e}, (a, e) ∈ w.log → a ≤ w.clock) (he : RowsEvolve w.documents w'.documents)
    {e : Entry K} (hl : w'.log = (w.clock, e) :: w.log) (hen : EntryInvalidated w' e) :
    InvalidationOk w' where
  published a e' hm := by
    rcases List.mem_cons.mp (hl ▸ hm) with hm | hm
    · cases hm; exact hen
    · exact (h.published a e' hm).mono he
  processed a ops succeeded b hm op hop hs := by
    rw [hl] at hm ⊢
    rcases List.mem_cons.mp hm with hm | hm
    · cases hm
      obtain ⟨a', g, hm'⟩ := hen op hop hs
      rw [hl] at hm'
      refine ⟨a', g, hm', ?_⟩
      rcases List.mem_cons.mp hm' with hm' | hm'
      · cases hm'
      · exact hp hm'
    · obtain ⟨a', g, hm', hle⟩ := h.processed a ops succeeded b hm op hop hs
      exact ⟨a', g, List.mem_cons_of_mem _ hm', hle⟩

theorem invalidation_publish {w : World E} (h : InvalidationOk w)
    (hp : ∀ {a e}, (a, e) ∈ w.log → a ≤ w.clock) {e : Event} (he : NamesRow w.documents e) :
    InvalidationOk (DocumentService.publish w e) := by
  rcases publish_cases w e with hc | hc <;> rw [hc]
  · exact h
  · exact h.record hp (RowsEvolve.refl _) rfl he

/-- A worker that returns has incremented every counter it had to. -/
theorem invalidation_proceed {w w' : World E} {p : Plan Str} {r : BulkResult} {b : ℕ} {ts : List Str}
    {next : Option ProcessStep} (h : IndexingProcessor.proceed w p r b ts = (w', next))
    (hi : InvalidationOk w) (hp : ∀ {a e}, (a, e) ∈ w.log → a ≤ w.clock) (ho : OwnTenants p)
    (hb : ∀ op ∈ p.operations, op.documentId ∈ r.succeeded →
      op.tenantId ∈ ts ∨ Bumped w op.tenantId b) :
    InvalidationOk w' ∧
      ∀ t', next.map (Task.process (K := K)) = some t' → invalidationAssertion w' t' := by
  rcases proceed_cases h with ⟨rfl, rfl, rfl⟩ | ⟨rfl, rfl⟩
  · refine ⟨hi.record hp (RowsEvolve.refl _) rfl fun op hop hs => ?_, fun _ h => (by cases h)⟩
    obtain ⟨a, g, hm⟩ := (hb op hop hs).resolve_left List.not_mem_nil
    exact ⟨a, g, List.mem_cons_of_mem _ hm⟩
  · exact ⟨hi, fun _ h => by cases h; exact ⟨ho, hb⟩⟩

theorem invalidationAssertion_mono {w w' : World E}
    (hl : ∀ {a e}, (a, e) ∈ w.log → (a, e) ∈ w'.log) (he : RowsEvolve w.documents w'.documents)
    {t : Task K} (h : invalidationAssertion w t) : invalidationAssertion w' t := by
  cases t with
  | process step =>
      cases step with
      | read events => exact fun e hm => (h e hm).mono he
      | bulk _ | commit _ _ _ => exact h
      | invalidate p r b ts =>
          refine ⟨h.1, fun op hop hs => (h.2 op hop hs).imp_right fun hb => ?_⟩
          obtain ⟨a, g, hm⟩ := hb
          exact ⟨a, g, hl hm⟩
  | _ => trivial

theorem invalidation_preserves {cfg : Settings} {rt : Runtime K} {engine : E.State} :
    Preserves cfg rt keptGenerations (World.IsInitial engine)
      (rowsOutline.and (historyOutline.and generationOutline))
      (invalidationOutline : Outline (World E) (Task K)) where
  init := by
    rintro w rfl
    exact ⟨fun _ _ h => (by cases h), fun _ _ _ _ h => (by cases h)⟩
  start := by
    intro w r _ hP hi
    refine ⟨hi.evolve (RowsEvolve.refl _) rfl, ?_, trivial⟩
    cases r with
    | process events =>
        intro e he
        obtain ⟨a, hm⟩ := hP e he
        exact hi.published a e hm
    | _ => trivial
  move := by
    intro w t w' u hK hKt _ hm hi ht
    have hev := hK.guarantee.1
    have hext := move_extends hm
    have hpast : ∀ {a e}, (a, e) ∈ w.log → a ≤ w.clock := fun {a e} hm =>
      le_of_lt (hK.before.2.1 a e hm)
    have after : ∀ {u : Option (Task K)}, InvalidationOk w' →
        (∀ t', u = some t' → invalidationAssertion w' t') →
        invalidationOutline.inv w'.tick ∧
          (∀ t', u = some t' → invalidationOutline.assertion w'.tick t') ∧
          invalidationOutline.guarantee w w'.tick := fun ha hu =>
      ⟨ha.evolve (RowsEvolve.refl _) rfl,
        fun t' ht' => invalidationAssertion_mono id (RowsEvolve.refl _) (hu t' ht'), trivial⟩
    cases hm with
    | @indexPublished t d =>
        exact after (invalidation_publish hi hpast ⟨d.id, rfl, hKt.1⟩) fun _ h => by
          cases h; trivial
    | @deleted t id row =>
        obtain ⟨rfl, hrow, -⟩ := hKt.1
        have hx := extends_publish w (DocumentService.deleteEvent t row)
        have hi' := invalidation_publish hi hpast (e := DocumentService.deleteEvent t row)
          ⟨row.id, rfl, hrow⟩
        exact after (hi'.record (hx.past hK.before.2.1) (RowsEvolve.refl _) rfl trivial)
          fun _ h => (by cases h)
    | @republished d ds w' h =>
        obtain ⟨-, rfl⟩ := World.publish_eq_some h
        have hrow := hKt.1 d List.mem_cons_self
        refine after (hi.record hpast hev rfl ⟨d.id, rfl, hrow⟩) fun _ h' => ?_
        obtain ⟨step, -, rfl⟩ := Option.map_eq_some_iff.mp h'
        trivial
    | @committed p r b w' next h =>
        have hi' : InvalidationOk (commit rt.toUnicode w (p.outcome r).indexed) :=
          hi.evolve (rows_markIndexed _ _ hK.before.1).2 rfl
        obtain ⟨hok, hu⟩ := invalidation_proceed h hi' hpast ht fun op hop hs =>
          .inl (List.mem_dedup.mpr (OwnTenants.mem_changedTenants ht hop hs))
        exact after hok hu
    | @bumped p r b ts t w' next _ h =>
        obtain ⟨ho, hb⟩ := ht
        -- the cache works, so the increment goes through and is recorded
        obtain ⟨g, hbump⟩ : ∃ g, bump w b t = (w.invalidateTenant t).record (.bumped t g b) := by
          rcases bump_cases w b t with ⟨-, hnone⟩ | ⟨g, hbump, -⟩
          · rw [(Cache.incr_eq hK.before.2.2.available (hK.before.2.2.numbers t)).1] at hnone
            cases hnone
          · exact ⟨g, hbump⟩
        have hx := extends_bump w b t
        have hi' : InvalidationOk (bump w b t) := by
          rw [hbump]
          exact hi.record hpast (RowsEvolve.refl _) rfl trivial
        obtain ⟨hok, hu⟩ := invalidation_proceed h hi' (hx.past hK.before.2.1) ho fun op hop hs => by
          rcases hb op hop hs with hm | hm
          · by_cases he : op.tenantId = t
            · rw [he, hbump]
              exact .inr ⟨w.clock, g, List.mem_cons_self⟩
            · exact .inl ((List.mem_erase_of_ne he).mpr hm)
          · exact .inr (hm.mono hx)
        exact after hok hu
    | planned => exact after hi fun _ h => by cases h; exact ownTenants_plan ht
    | bulkReturned => exact after (hi.record hpast hev rfl trivial) fun _ h => by cases h; exact ht
    | uncached => exact after (hi.record hpast hev rfl trivial) fun _ h => by cases h; trivial
    | created | documentHit | rowMissing | documentCached | searchHit | followed | finished =>
        exact after (hi.record hpast hev rfl trivial) fun _ h => (by cases h)
    | insertRefused | deleteMissing | nothingToDo | bulkRaised | republishFailed =>
        exact after (hi.evolve hev rfl) fun _ h => (by cases h)
    | inserted | documentMiss | rowFound | deleteFound | softDeleted | deleteInvalidated
    | generationRead | searchMiss | joined | led | executed | engineFailed | filled =>
        exact after (hi.evolve hev rfl) fun _ h => by cases h; trivial
    | selected =>
        refine after (hi.evolve hev rfl) fun _ h => ?_
        obtain ⟨step, -, rfl⟩ := Option.map_eq_some_iff.mp h
        trivial
  cancel := by
    intro w t _ _ hi _
    rcases cancel_cases rt w t with hc | ⟨r, q, g, hc⟩ <;> rw [hc]
    · exact ⟨hi, trivial⟩
    · exact ⟨hi.evolve (RowsEvolve.refl _) rfl, trivial⟩
  disturb := by
    intro w e hK _ hi
    have hpast : ∀ {a e}, (a, e) ∈ w.log → a ≤ w.clock := fun {a e} hm =>
      le_of_lt (hK.before.2.1 a e hm)
    refine ⟨?_, trivial⟩
    cases e with
    | refresh => exact hi.record hpast (RowsEvolve.refl _) rfl trivial
    | _ => exact hi.evolve (RowsEvolve.refl _) rfl
  stable := by
    intro w w' t hK _ _ ht
    exact invalidationAssertion_mono hK.guarantee.2.1.kept hK.guarantee.1 ht

theorem invalidation_established (cfg : Settings) (rt : Runtime K) (engine : E.State) :
    (machine cfg rt E).Established keptGenerations (World.IsInitial engine)
      (generationOutline.and invalidationOutline) :=
  have hg := generations_established cfg rt engine
  hg.and (invalidation_preserves.valid.established
    ((rows_established cfg rt engine).restrict.and
      ((history_established cfg rt engine).restrict.and hg)))

end Pipeline

end DocSearch
