import DocSearch.Workers.Batch
import DocSearch.Core.Sample

/-!
# Workers — Classification

The lists `process` returns.  A batch that is planned falls into operations and skipped documents;
a bulk call that returns divides the operations into those it confirms and those it does not, and
one that raises has every document of the batch reported as failed, skipped or not.

* `plan_perm`, `outcome_perm`: the two divisions.
* `classifies_iff`: when every document is in one list, once.
* `skipped_and_failed`: a batch with a document in two.
-/

namespace DocSearch

namespace IndexingProcessor

/-- Every document id of the batch is in one of the lists, once, and no other is. -/
structure Classifies (o : ProcessOutcome) (events : List Event) : Prop where
  nodup : (o.indexed ++ o.deleted ++ o.failed ++ o.skipped).Nodup
  mem : ∀ s, s ∈ o.indexed ++ o.deleted ++ o.failed ++ o.skipped ↔ ∃ e ∈ events, e.documentId = s

/-- The document id is that of a row, as `str` writes it. -/
def IsStored (t : Documents) (s : Str) : Prop := ∃ d, t.find? d.id = some d ∧ d.id.str = s

/-- The batch has document ids with a row, and without. -/
def Mixed (t : Documents) (events : List Event) : Prop :=
  (∃ e ∈ events, IsStored t e.documentId) ∧ ∃ e ∈ events, ¬ IsStored t e.documentId

variable {K : Type} {E : SearchEngine K} {rt : Runtime K}

/-- The bulk call of the batch raises. -/
def BulkRaises (rt : Runtime K) (w : World E) (events : List Event) : Prop :=
  ∃ e, (E.bulk w.engine (plan rt.toUnicode w.documents events).operations).1 = .error e

/-! ### The plan -/

section Plans

variable {c : Unicode} {t : Documents} {events : List Event}

/-- **A plan** divides the documents of the batch. -/
theorem plan_perm : ((plan c t events).operations.map Operation.documentId ++
    (plan c t events).skipped).Perm (plan c t events).latest.keys := by
  simp only [plan, map_documentId_filterMap]
  generalize (latest events).keys = keys
  -- the well-formed ids are those that are not malformed
  have hwell : (keys.filter fun d => decide (d ∉ keys.filter fun d => (Uuid.parse c d).isNone)) =
      keys.filter fun d => !(Uuid.parse c d).isNone :=
    List.filter_congr fun d hd => by
      simp only [List.mem_filter, hd, true_and, Bool.not_eq_true]
      cases Uuid.parse c d <;> rfl
  rw [hwell]
  generalize DocumentRepository.getMany t (keys.filterMap (Uuid.parse c)) = rows
  have hnone : (fun d => (rowOf rows d).isNone) = fun d => !(rowOf rows d).isSome := by
    funext d
    cases rowOf rows d <;> rfl
  rw [hnone]
  refine (List.perm_append_comm_assoc _ _ _).trans ?_
  refine (List.Perm.append_left _ (List.filter_append_perm _ _)).trans ?_
  exact List.filter_append_perm (fun d => (Uuid.parse c d).isNone) keys

theorem keys_plan : (plan c t events).latest.keys = (latest events).keys := rfl

theorem nodup_plan : ((plan c t events).operations.map Operation.documentId ++
    (plan c t events).skipped).Nodup :=
  plan_perm.nodup_iff.mpr (latest events).keys_nodup

theorem mem_documentIds {s : Str} : s ∈ (plan c t events).operations.map Operation.documentId ↔
    IsStored t s ∧ ∃ e ∈ events, e.documentId = s := by
  simp only [List.mem_map, mem_operations]
  constructor
  · rintro ⟨_, ⟨d, hd, he, rfl⟩, rfl⟩
    rw [documentId_operationFor]
    exact ⟨⟨d, hd, rfl⟩, he⟩
  · rintro ⟨⟨d, hd, rfl⟩, he⟩
    exact ⟨_, ⟨d, hd, he, rfl⟩, documentId_operationFor _ _⟩

theorem mem_skipped {s : Str} :
    s ∈ (plan c t events).skipped ↔ ¬ IsStored t s ∧ ∃ e ∈ events, e.documentId = s := by
  have hkeys : s ∈ (plan c t events).operations.map Operation.documentId ++
      (plan c t events).skipped ↔ ∃ e ∈ events, e.documentId = s := by
    rw [plan_perm.mem_iff, keys_plan, mem_keys_latest]
  rw [List.mem_append, mem_documentIds] at hkeys
  have hdisjoint : ((plan c t events).operations.map Operation.documentId).Disjoint
      (plan c t events).skipped := (List.nodup_append'.mp nodup_plan).2.2
  constructor
  · intro hs
    refine ⟨fun hrow => hdisjoint (mem_documentIds.mpr ⟨hrow, hkeys.mp (.inr hs)⟩) hs,
      hkeys.mp (.inr hs)⟩
  · rintro ⟨hrow, he⟩
    exact (hkeys.mpr he).resolve_left fun h => hrow h.1

/-- A batch is mixed when its plan has operations and skipped documents. -/
theorem mixed_iff : Mixed t events ↔
    (plan c t events).operations ≠ [] ∧ (plan c t events).skipped ≠ [] := by
  have hne : ∀ l : List Str, l ≠ [] ↔ ∃ s, s ∈ l := fun l =>
    ⟨List.exists_mem_of_ne_nil l, fun ⟨_, h⟩ => List.ne_nil_of_mem h⟩
  have hops : (plan c t events).operations ≠ [] ↔
      ∃ s, s ∈ (plan c t events).operations.map Operation.documentId := by
    rw [← hne]
    simp
  rw [Mixed, hops, hne]
  simp only [mem_documentIds, mem_skipped]
  constructor
  · rintro ⟨⟨e, he, hr⟩, ⟨e', he', hr'⟩⟩
    exact ⟨⟨_, hr, e, he, rfl⟩, ⟨_, hr', e', he', rfl⟩⟩
  · rintro ⟨⟨_, hr, e, he, rfl⟩, ⟨_, hr', e', he', rfl⟩⟩
    exact ⟨⟨e, he, hr⟩, ⟨e', he', hr'⟩⟩

/-! ### The outcome -/

/-- **A bulk call that returns** divides the operations. -/
theorem outcome_perm (p : Plan Str) (r : BulkResult) :
    ((p.outcome r).indexed ++ (p.outcome r).deleted ++ (p.outcome r).failed).Perm
      (p.operations.map Operation.documentId) := by
  have hids : (p.indexIds ++ p.deleteIds).Perm (p.operations.map Operation.documentId) := by
    rw [Plan.indexIds, Plan.deleteIds, ← List.map_append]
    exact (List.filter_append_perm Operation.isIndex p.operations).map _
  have hsucc : (fun d => decide (d ∉ r.succeeded)) = fun d => !decide (d ∈ r.succeeded) := by
    funext d
    exact decide_not
  simp only [Plan.outcome, hsucc]
  rw [← List.filter_append]
  exact (List.filter_append_perm _ _).trans hids

theorem classifies_of_perm {o : ProcessOutcome}
    (h : (o.indexed ++ o.deleted ++ o.failed ++ o.skipped).Perm (latest events).keys) :
    Classifies o events :=
  ⟨h.nodup_iff.mpr (latest events).keys_nodup, fun _ => h.mem_iff.trans mem_keys_latest⟩

theorem classifies_idle (h : (plan c t events).operations = []) :
    Classifies (plan c t events).idle events := by
  have hperm : ((plan c t events).operations.map Operation.documentId ++
      (plan c t events).skipped).Perm (plan c t events).latest.keys := plan_perm
  rw [h] at hperm
  exact classifies_of_perm hperm

theorem classifies_outcome (r : BulkResult) : Classifies ((plan c t events).outcome r) events :=
  classifies_of_perm (((outcome_perm _ r).append_right _).trans plan_perm)

/-- After a bulk call that raised, a skipped document is in two lists. -/
theorem classifies_raised_iff :
    Classifies (plan c t events).raised events ↔ (plan c t events).skipped = [] := by
  constructor
  · intro h
    have hdisjoint := (List.nodup_append'.mp h.nodup).2.2
    refine List.eq_nil_iff_forall_not_mem.mpr fun s hs => hdisjoint ?_ hs
    exact mem_keys_latest.mpr (mem_skipped.mp hs).2
  · intro h
    refine classifies_of_perm ?_
    rw [Plan.raised, h, List.append_nil]
    exact .refl _

end Plans

/-- What `process` returns. -/
theorem outcome_process (w : World E) (events : List Event) :
    (process rt w events).1 =
      if (plan rt.toUnicode w.documents events).operations = [] then
        (plan rt.toUnicode w.documents events).idle
      else
        match (E.bulk w.engine (plan rt.toUnicode w.documents events).operations).1 with
        | .error _ => (plan rt.toUnicode w.documents events).raised
        | .ok r => (plan rt.toUnicode w.documents events).outcome r := by
  simp only [process, List.isEmpty_iff]
  split
  · rfl
  · simp only [bulk]
    rcases E.bulk w.engine (plan rt.toUnicode w.documents events).operations with ⟨_ | _, engine⟩ <;>
      rfl

/-- **Every document of a batch is classified once**, unless the bulk call of a mixed batch
raises. -/
theorem classifies_iff (rt : Runtime K) (w : World E) (events : List Event) :
    Classifies (process rt w events).1 events ↔
      ¬ (BulkRaises rt w events ∧ Mixed w.documents events) := by
  rw [outcome_process, mixed_iff (c := rt.toUnicode), BulkRaises]
  split
  · rename_i hnil
    exact iff_of_true (classifies_idle hnil) fun h => h.2.1 hnil
  · rename_i hops
    cases hb : (E.bulk w.engine (plan rt.toUnicode w.documents events).operations).1 with
    | error e =>
        rw [classifies_raised_iff]
        simp [hops]
    | ok r => exact iff_of_true (classifies_outcome r) fun h => (by obtain ⟨⟨_, h⟩, -⟩ := h; cases h)

end IndexingProcessor

namespace Sample

open IndexingProcessor

/-- One document is stored, and the engine is down. -/
def engineDown : World (inMemory runtime) :=
  { World.initial { InMemoryEngine.State.initial with available := false } with
    documents := (Table.empty.insert (Document.new documentA acme payload 0)).getD .empty }

/-- An event of the document, and one of a document that is not stored. -/
def bothEvents : List Event :=
  [⟨documentA.str, acme, 1, eventIndex⟩, ⟨documentB.str, acme, 1, eventIndex⟩]

/-- **A skipped document is reported as failed.** -/
theorem skipped_and_failed :
    ¬ ∀ (w : World (inMemory runtime)) (events : List Event),
      Classifies (process runtime w events).1 events := by
  intro h
  exact absurd (h engineDown bothEvents).nodup (by decide +kernel)

end Sample

end DocSearch
