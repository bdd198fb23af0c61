import DocSearch.Models.Document

/-!
# Repositories — DocumentRepository

The statements the service runs against the `documents` table.  Each is one statement, and for
the writers one transaction: `soft_delete` is a read of the row in an earlier statement followed
by a write of absolute values, `mark_indexed` and `mark_failed` are guarded updates.

* `find?_softDelete`, `find?_markIndexed`, `find?_markFailed`: the rows after a write.
* `Evolves`: what may become of a row.
-/

namespace DocSearch

namespace DocumentRepository

def create (t : Documents) (document : Document) : Option Documents := t.insert document

def get (t : Documents) (tenantId : Str) (documentId : Uuid) (includeDeleted : Bool) :
    Option Document :=
  (t.find? documentId).filter fun d =>
    decide (d.tenantId = tenantId) && (includeDeleted || decide (d.status ≠ .deleted))

def getMany (t : Documents) (documentIds : List Uuid) : List Document :=
  t.rows.filter fun d => decide (d.id ∈ documentIds)

/-- The document as `soft_delete` leaves the object it was given. -/
def softDeleted (document : Document) (now : Timestamp) : Document :=
  { document with
    status := .deleted
    deletedAt := some now
    updatedAt := now
    version := document.version + 1 }

/-- The flush of `soft_delete`: the changed attributes of the object, whatever the row holds
by now. -/
def softDelete (t : Documents) (document : Document) (now : Timestamp) : Documents :=
  t.update (fun r => decide (r.id = document.id))
    (fun r => { r with
      status := .deleted
      deletedAt := some now
      updatedAt := now
      version := document.version + 1 })
    fun _ => rfl

/-- Guarded by `status = PENDING`; `onupdate` refreshes `updated_at`. -/
def markIndexed (t : Documents) (documentIds : List Uuid) (now : Timestamp) : Documents :=
  t.update (fun r => decide (r.id ∈ documentIds) && decide (r.status = .pending))
    (fun r => { r with status := .indexed, indexedAt := some now, updatedAt := now })
    fun _ => rfl

/-- Guarded like `mark_indexed`. -/
def markFailed (t : Documents) (documentIds : List Uuid) (now : Timestamp) : Documents :=
  t.update (fun r => decide (r.id ∈ documentIds) && decide (r.status = .pending))
    (fun r => { r with status := .failed, updatedAt := now })
    fun _ => rfl

/-- The rows the index never confirmed, oldest first; rows of one instant stay in the order of
the table. -/
def findStale (t : Documents) (now : Timestamp) (olderThanSeconds limit : ℕ) : List Document :=
  ((t.rows.filter fun d =>
    (decide (d.status = .pending) || decide (d.status = .failed)) &&
      decide (d.updatedAt + olderThanSeconds * 1000000 < now)).insertionSort
    fun a b => a.updatedAt ≤ b.updatedAt).take limit

/-! ### Reads -/

theorem get_eq_some {t : Documents} {tenantId : Str} {documentId : Uuid} {d : Document} :
    get t tenantId documentId false = some d ↔
      t.find? documentId = some d ∧ d.tenantId = tenantId ∧ d.status ≠ .deleted := by
  simp [get, Option.filter_eq_some_iff]

theorem mem_getMany {t : Documents} {ids : List Uuid} {d : Document} :
    d ∈ getMany t ids ↔ t.find? d.id = some d ∧ d.id ∈ ids := by
  simp [getMany, Table.mem_rows]

theorem mem_findStale {t : Documents} {now : Timestamp} {older limit : ℕ} {d : Document}
    (h : d ∈ findStale t now older limit) :
    t.find? d.id = some d ∧ (d.status = .pending ∨ d.status = .failed) := by
  have hm := List.mem_of_mem_take h
  simp only [List.mem_insertionSort, List.mem_filter, Bool.and_eq_true, Bool.or_eq_true,
    decide_eq_true_eq] at hm
  exact ⟨Table.mem_rows.mp hm.1, hm.2.1⟩

/-- A sweep with room finds something when a row is overdue. -/
theorem findStale_eq_nil {t : Documents} {now : Timestamp} {older limit : ℕ} :
    findStale t now older limit = [] ↔ limit = 0 ∨ ∀ d ∈ t.rows,
      d.status = .pending ∨ d.status = .failed → now ≤ d.updatedAt + older * 1000000 := by
  have hsort : ∀ l : List Document,
      l.insertionSort (fun a b => a.updatedAt ≤ b.updatedAt) = [] ↔ l = [] := fun l => by
    rw [← List.length_eq_zero_iff, List.length_insertionSort, List.length_eq_zero_iff]
  rw [findStale, List.take_eq_nil_iff, hsort, List.filter_eq_nil_iff]
  refine or_congr_right (forall₂_congr fun d _ => ?_)
  simp

/-! ### Writes -/

theorem find?_softDelete (t : Documents) (d : Document) (now : Timestamp) (id : Uuid) :
    (softDelete t d now).find? id = (t.find? id).map fun r =>
      if r.id = d.id then
        { r with
          status := .deleted
          deletedAt := some now
          updatedAt := now
          version := d.version + 1 }
      else r := by
  simp [softDelete, Table.find?_update]

theorem find?_markIndexed (t : Documents) (ids : List Uuid) (now : Timestamp) (id : Uuid) :
    (markIndexed t ids now).find? id = (t.find? id).map fun r =>
      if r.id ∈ ids ∧ r.status = .pending then
        { r with status := .indexed, indexedAt := some now, updatedAt := now }
      else r := by
  simp [markIndexed, Table.find?_update]

theorem find?_markFailed (t : Documents) (ids : List Uuid) (now : Timestamp) (id : Uuid) :
    (markFailed t ids now).find? id = (t.find? id).map fun r =>
      if r.id ∈ ids ∧ r.status = .pending then { r with status := .failed, updatedAt := now }
      else r := by
  simp [markFailed, Table.find?_update]

@[simp] theorem markIndexed_nil (t : Documents) (now : Timestamp) : markIndexed t [] now = t := by
  obtain ⟨rows, nodup⟩ := t
  simp [markIndexed, Table.update]

/-- What may become of a row: its body stays, and once it is deleted it stays deleted. -/
structure Evolves (r r' : Document) : Prop where
  id : r'.id = r.id
  body : r'.body = r.body
  deleted : r.status = .deleted → r'.status = .deleted

theorem Evolves.refl (r : Document) : Evolves r r := ⟨rfl, rfl, fun h => h⟩

theorem Evolves.tenantId {r r' : Document} (h : Evolves r r') : r'.tenantId = r.tenantId :=
  congrArg DocumentBody.tenantId h.body

end DocumentRepository

end DocSearch
