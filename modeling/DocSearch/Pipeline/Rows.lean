import DocSearch.Pipeline.Machine

/-!
# Pipeline — Rows

The life of a row over every run: it is never `FAILED`, it has version 2 once it is deleted and
version 1 before, its tenant never changes and its deletion is final.  Every operation a worker
holds was built from such a row, a delete operation from a deleted one.

* `rowsOutline`, `rows_established`: the outline, for every engine.
-/

namespace DocSearch

open DocumentRepository DocumentService IndexingProcessor Reconciler Interleaving

namespace Pipeline

/-! ### The table -/

structure RowOk (d : Document) : Prop where
  notFailed : d.status ≠ .failed
  live : d.status ≠ .deleted → d.version = 1
  dead : d.status = .deleted → d.version = 2

def RowsOk (t : Documents) : Prop := ∀ id d, t.find? id = some d → RowOk d

/-- Every row is still there, and evolved. -/
def RowsEvolve (t t' : Documents) : Prop :=
  ∀ id d, t.find? id = some d → ∃ d', t'.find? id = some d' ∧ Evolves d d'

/-- The document has a row, of the tenant. -/
def HasRow (t : Documents) (id : Uuid) (tenantId : Str) : Prop :=
  ∃ d, t.find? id = some d ∧ d.tenantId = tenantId

def IsDeleted (t : Documents) (id : Uuid) : Prop :=
  ∃ d, t.find? id = some d ∧ d.status = .deleted

/-- The operation was built from a row, a delete operation from a deleted one. -/
def FromRow (t : Documents) (op : Operation) : Prop :=
  ∃ d, t.find? d.id = some d ∧ op.documentId = d.id.str ∧ op.tenantId = d.tenantId ∧
    ((op.isIndex = true ∧ op.version = 1 ∧ ∀ s, op.source? = some s → s.body = d.body) ∨
      (op.isIndex = false ∧ op.version = 2 ∧ d.status = .deleted))

theorem RowsEvolve.refl (t : Documents) : RowsEvolve t t := fun _ d h => ⟨d, h, Evolves.refl d⟩

theorem HasRow.mono {t t' : Documents} {id : Uuid} {tenantId : Str} (h : HasRow t id tenantId)
    (he : RowsEvolve t t') : HasRow t' id tenantId := by
  obtain ⟨d, hd, ht⟩ := h
  obtain ⟨d', hd', hev⟩ := he id d hd
  exact ⟨d', hd', hev.tenantId.trans ht⟩

theorem HasRow.unique {t : Documents} {id : Uuid} {s s' : Str} (h : HasRow t id s)
    (h' : HasRow t id s') : s = s' := by
  obtain ⟨d, hd, rfl⟩ := h
  obtain ⟨d', hd', rfl⟩ := h'
  rw [hd] at hd'
  rw [Option.some.inj hd']

theorem IsDeleted.mono {t t' : Documents} {id : Uuid} (h : IsDeleted t id)
    (he : RowsEvolve t t') : IsDeleted t' id := by
  obtain ⟨d, hd, hs⟩ := h
  obtain ⟨d', hd', hev⟩ := he id d hd
  exact ⟨d', hd', hev.deleted hs⟩

theorem FromRow.mono {t t' : Documents} {op : Operation} (h : FromRow t op)
    (he : RowsEvolve t t') : FromRow t' op := by
  obtain ⟨d, hd, hid, ht, hv⟩ := h
  obtain ⟨d', hd', hev⟩ := he d.id d hd
  refine ⟨d', hev.id ▸ hd', hev.id ▸ hid, hev.tenantId ▸ ht, hv.imp (fun h => ?_) fun h => ?_⟩
  · exact ⟨h.1, h.2.1, fun s hs => (h.2.2 s hs).trans hev.body.symm⟩
  · exact ⟨h.1, h.2.1, hev.deleted h.2.2⟩

theorem hasRow_of_find? {t : Documents} {id : Uuid} {d : Document} (h : t.find? id = some d) :
    HasRow t d.id d.tenantId :=
  ⟨d, (Table.key_of_find? h).symm ▸ h, rfl⟩

/-- A row without deletion has version 1. -/
theorem RowsOk.version_of_get {t : Documents} (h : RowsOk t) {tenantId : Str} {id : Uuid}
    {d : Document} (hd : get t tenantId id false = some d) :
    d.id = id ∧ d.tenantId = tenantId ∧ d.version = 1 := by
  obtain ⟨hf, ht, hs⟩ := get_eq_some.mp hd
  exact ⟨Table.key_of_find? hf, ht, (h id d hf).live hs⟩

theorem fromRow_operationFor {t : Documents} (h : RowsOk t) {d : Document}
    (hd : t.find? d.id = some d) : FromRow t (operationFor d.id.str d) := by
  refine ⟨d, hd, documentId_operationFor _ _, ?_⟩
  have hok := h d.id d hd
  by_cases hs : d.status = .deleted
  · rw [operationFor, if_pos hs]
    exact ⟨rfl, .inr ⟨rfl, hok.dead hs, hs⟩⟩
  · rw [operationFor, if_neg hs]
    exact ⟨rfl, .inl ⟨rfl, hok.live hs, fun s h => Option.some.inj h ▸ body_toSearchSource d⟩⟩

/-! ### The statements -/

section Statements

variable {t t' : Documents}

theorem rows_create {tenantId : Str} {id : Uuid} {payload : DocumentCreate} {now : Timestamp}
    (h : RowsOk t) (hc : create t (Document.new id tenantId payload now) = some t') :
    RowsOk t' ∧ RowsEvolve t t' ∧ HasRow t' id tenantId := by
  obtain ⟨hnone, hf⟩ := Table.find?_insert hc
  refine ⟨fun i d hd => ?_, fun i d hd => ⟨d, ?_, Evolves.refl d⟩, ?_⟩
  · rw [hf] at hd
    split at hd
    · cases hd
      exact ⟨by simp [Document.new], fun _ => rfl, fun hs => by cases hs⟩
    · exact h i d hd
  · rw [hf, if_neg, hd]
    rintro rfl
    cases hnone.symm.trans hd
  · exact ⟨Document.new id tenantId payload now, by rw [hf]; exact if_pos rfl, rfl⟩

theorem rows_softDelete {d : Document} (now : Timestamp) (h : RowsOk t) (hv : d.version = 1) :
    RowsOk (softDelete t d now) ∧ RowsEvolve t (softDelete t d now) := by
  refine ⟨fun i r hr => ?_, fun i r hr => ?_⟩
  · rw [find?_softDelete, Option.map_eq_some_iff] at hr
    obtain ⟨r₀, hr₀, rfl⟩ := hr
    split
    · exact ⟨by simp, fun hs => absurd rfl hs, fun _ => by simp [hv]⟩
    · exact h i r₀ hr₀
  · refine ⟨_, by rw [find?_softDelete, hr, Option.map_some], ?_⟩
    split
    · exact ⟨rfl, rfl, fun _ => rfl⟩
    · exact Evolves.refl r

theorem isDeleted_softDelete {d : Document} {now : Timestamp} {tenantId : Str}
    (h : HasRow t d.id tenantId) : IsDeleted (softDelete t d now) d.id := by
  obtain ⟨r, hr, -⟩ := h
  exact ⟨_, by rw [find?_softDelete, hr]; rfl, by simp [Table.key_of_find? hr]⟩

theorem rows_markIndexed (ids : List Uuid) (now : Timestamp) (h : RowsOk t) :
    RowsOk (markIndexed t ids now) ∧ RowsEvolve t (markIndexed t ids now) := by
  refine ⟨fun i r hr => ?_, fun i r hr => ?_⟩
  · rw [find?_markIndexed, Option.map_eq_some_iff] at hr
    obtain ⟨r₀, hr₀, rfl⟩ := hr
    have hok := h i r₀ hr₀
    split
    · rename_i hp
      exact ⟨by simp, fun _ => hok.live (by rw [hp.2]; simp), fun hs => by cases hs⟩
    · exact hok
  · refine ⟨_, by rw [find?_markIndexed, hr, Option.map_some], ?_⟩
    split
    · rename_i hp
      exact ⟨rfl, rfl, fun hs => by rw [hp.2] at hs; cases hs⟩
    · exact Evolves.refl r

end Statements

/-! ### The outline -/

variable {K : Type} {E : SearchEngine K}

/-- What a task knows about the rows. -/
def rowsAssertion (t : Documents) : Task K → Prop
  | .create tenantId (.publish d) | .create tenantId (.invalidate d) => HasRow t d.id tenantId
  | .delete tenantId id (.commit d) => d.id = id ∧ d.version = 1 ∧ HasRow t id tenantId
  | .delete tenantId id (.cacheDelete d) | .delete tenantId id (.invalidate d)
  | .delete tenantId id (.publish d) => d.id = id ∧ HasRow t id tenantId ∧ IsDeleted t id
  | .process (.bulk p) | .process (.commit p _ _) | .process (.invalidate p _ _ _) =>
      (p.operations.map Operation.documentId).Nodup ∧ ∀ op ∈ p.operations, FromRow t op
  | .sweep (.publish d ds) => ∀ x ∈ d :: ds, HasRow t x.id x.tenantId
  | _ => True

/-- The rows keep their life cycle, and every step lets them evolve. -/
def rowsOutline : Outline (World E) (Task K) where
  inv w := RowsOk w.documents
  assertion w t := rowsAssertion w.documents t
  guarantee w w' := RowsEvolve w.documents w'.documents

theorem rowsAssertion_mono {t t' : Documents} (he : RowsEvolve t t') {task : Task K}
    (h : rowsAssertion t task) : rowsAssertion t' task := by
  cases task with
  | create tenantId step =>
      cases step with
      | insert _ _ => trivial
      | publish _ | invalidate _ => exact h.mono he
  | get _ _ _ _ => trivial
  | delete tenantId id step =>
      cases step with
      | read => trivial
      | commit d => exact ⟨h.1, h.2.1, h.2.2.mono he⟩
      | cacheDelete _ | invalidate _ | publish _ => exact ⟨h.1, h.2.1.mono he, h.2.2.mono he⟩
  | search _ _ _ _ => trivial
  | process step =>
      cases step with
      | read _ => trivial
      | bulk p | commit p _ _ | invalidate p _ _ _ => exact ⟨h.1, fun op hop => (h.2 op hop).mono he⟩
  | sweep step =>
      cases step with
      | select => trivial
      | publish d ds => exact fun x hx => (h x hx).mono he

theorem rowsAssertion_proceed {t : Documents} {w w' : World E} {p : Plan Str} {r : BulkResult}
    {b : ℕ} {ts : List Str} {next : Option ProcessStep}
    (hp : (p.operations.map Operation.documentId).Nodup ∧ ∀ op ∈ p.operations, FromRow t op)
    (h : IndexingProcessor.proceed w p r b ts = (w', next)) :
    w'.documents = w.documents ∧ ∀ t', next.map Task.process = some t' →
      rowsAssertion (K := K) t t' := by
  rcases proceed_cases h with ⟨-, rfl, rfl⟩ | ⟨rfl, rfl⟩
  · exact ⟨rfl, fun _ ht => by cases ht⟩
  · exact ⟨rfl, fun _ ht => by cases ht; exact hp⟩

theorem rows_preserves {cfg : Settings} {rt : Runtime K} {engine : E.State} :
    Preserves cfg rt .free (World.IsInitial engine) .trivial
      (rowsOutline : Outline (World E) (Task K)) where
  init := by
    rintro w rfl id d hd
    cases hd
  start := by
    intro w r _ _ hi
    refine ⟨hi, ?_, RowsEvolve.refl _⟩
    cases r <;> trivial
  move := by
    intro w t w' u _ _ _ hm hi ht
    -- a move that keeps the table keeps the outline, once the next assertion is there
    have same : ∀ {w' : World E} {u : Option (Task K)}, w'.documents = w.documents →
        (∀ t', u = some t' → rowsAssertion w.documents t') →
        RowsOk w'.documents ∧ (∀ t', u = some t' → rowsAssertion w'.documents t') ∧
          RowsEvolve w.documents w'.documents := by
      intro w' u hd hu
      rw [hd]
      exact ⟨hi, hu, RowsEvolve.refl _⟩
    cases hm with
    | inserted h =>
        obtain ⟨hok, hev, hrow⟩ := rows_create hi h
        exact ⟨hok, fun _ ht' => by cases ht'; exact hrow, hev⟩
    | softDeleted =>
        obtain ⟨rfl, hv, hrow⟩ := ht
        obtain ⟨hok, hev⟩ := rows_softDelete w.now hi hv
        exact ⟨hok, fun _ ht' => by
          cases ht'; exact ⟨rfl, hrow.mono hev, isDeleted_softDelete hrow⟩, hev⟩
    | @committed p r b w' next h =>
        obtain ⟨hok, hev⟩ := rows_markIndexed ((p.outcome r).indexed.filterMap
          (Uuid.parse rt.toUnicode)) w.now hi
        obtain ⟨hd, hnext⟩ := rowsAssertion_proceed ⟨ht.1, fun op hop => (ht.2 op hop).mono hev⟩ h
        refine ⟨?_, fun t' ht' => ?_, ?_⟩
        · change RowsOk w'.documents; rw [hd]; exact hok
        · change rowsAssertion w'.documents t'; rw [hd]; exact hnext t' ht'
        · change RowsEvolve w.documents w'.documents; rw [hd]; exact hev
    | @bumped p r b ts t w' next _ h =>
        obtain ⟨hd, hnext⟩ := rowsAssertion_proceed ht h
        exact same (hd.trans (bump_documents w b t)) hnext
    | indexPublished => exact same (publish_documents _ _) fun _ ht' => by cases ht'; exact ht
    | deleted => exact same (publish_documents _ _) fun _ ht' => by cases ht'
    | deleteFound h =>
        obtain ⟨hid, htn, hv⟩ := hi.version_of_get h
        exact same rfl fun _ ht' => by
          cases ht'; exact ⟨hid, hv, _, (get_eq_some.mp h).1, htn⟩
    | uncached | deleteInvalidated => exact same rfl fun _ ht' => by cases ht'; exact ht
    | planned =>
        refine same rfl fun _ ht' => ?_
        cases ht'
        refine ⟨nodup_operations, fun op hop => ?_⟩
        obtain ⟨d, hd, -, rfl⟩ := mem_operations.mp hop
        exact fromRow_operationFor hi hd
    | bulkReturned => exact same rfl fun _ ht' => by cases ht'; exact ht
    | selected =>
        have hrow : ∀ x ∈ stale cfg w, HasRow w.documents x.id x.tenantId := fun x hx =>
          hasRow_of_find? (mem_findStale hx).1
        refine same rfl fun _ ht' => ?_
        cases hs : stale cfg w with
        | nil => rw [hs] at ht'; cases ht'
        | cons d ds => rw [hs] at ht' hrow; cases ht'; exact hrow
    | @republished d ds w' h =>
        obtain ⟨-, rfl⟩ := World.publish_eq_some h
        refine same rfl fun _ ht' => ?_
        cases ds with
        | nil => cases ht'
        | cons e es => cases ht'; exact fun x hx => ht x (List.mem_cons_of_mem d hx)
    | insertRefused | created | documentHit | rowMissing | documentCached | deleteMissing | searchHit
    | followed | finished | nothingToDo | bulkRaised | republishFailed =>
        exact same rfl fun _ ht' => by cases ht'
    | documentMiss | rowFound | generationRead | searchMiss | joined | led | executed | engineFailed
    | filled => exact same rfl fun _ ht' => by cases ht'; trivial
  cancel := by
    intro w t _ _ hi _
    rcases cancel_cases rt w t with hc | ⟨r, q, g, hc⟩ <;> rw [hc] <;>
      exact ⟨hi, RowsEvolve.refl _⟩
  disturb := by
    intro w e _ _ hi
    cases e <;> exact ⟨hi, RowsEvolve.refl _⟩
  stable := by
    intro w w' t _ ho _ ht
    exact rowsAssertion_mono ho.guarantee ht

/-- **The life of a row**, over every run. -/
theorem rows_established (cfg : Settings) (rt : Runtime K) (engine : E.State) :
    (machine cfg rt E).Established .free (World.IsInitial engine) rowsOutline :=
  rows_preserves.valid.established Machine.established_trivial

end Pipeline

end DocSearch
