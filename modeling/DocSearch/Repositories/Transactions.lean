import DocSearch.Core.Sample
import DocSearch.Repositories.DocumentRepository
import DocSearch.Support.Interleaving

/-!
# Repositories — Transactions

The transactions on `documents`, in any order and any number at a time: the insertion of
`create`, `soft_delete` with its read in an earlier statement, and the guarded updates of
`mark_indexed` and `mark_failed`.  Each may be rolled back before it commits.

* `lifeCycle_update`: an update keeps the life cycle when it does so on the rows it selects.
* `lifeCycle_established`: the outline.
* `row_life_cycle`: the life of a row, over every run.
-/

namespace DocSearch

open Interleaving

/-- A transaction, before its next statement. -/
inductive Transaction where
  | create (tenantId : Str) (id : Uuid) (payload : DocumentCreate)
  | read (tenantId : Str) (documentId : Uuid)
  | write (document : Document)
  | markIndexed (documentIds : List Uuid)
  | markFailed (documentIds : List Uuid)

/-- What begins one. -/
inductive Begin where
  | create (tenantId : Str) (id : Uuid) (payload : DocumentCreate)
  | softDelete (tenantId : Str) (documentId : Uuid)
  | markIndexed (documentIds : List Uuid)
  | markFailed (documentIds : List Uuid)

namespace Transactions

open DocumentRepository

def start : Begin → Transaction
  | .create tenantId id payload => .create tenantId id payload
  | .softDelete tenantId documentId => .read tenantId documentId
  | .markIndexed documentIds => .markIndexed documentIds
  | .markFailed documentIds => .markFailed documentIds

/-- The next statement, at the instant `now`; the last one commits. -/
def resume (t : Documents) (now : Timestamp) : Transaction → Documents × Option Transaction
  | .create tenantId id payload => ((create t (Document.new id tenantId payload now)).getD t, none)
  | .read tenantId documentId => (t, (get t tenantId documentId false).map .write)
  | .write document => (softDelete t document now, none)
  | .markIndexed documentIds => (markIndexed t documentIds now, none)
  | .markFailed documentIds => (markFailed t documentIds now, none)

/-- The database; a cancelled transaction is rolled back. -/
def machine : Machine Documents Transaction Begin Timestamp Empty where
  start t r := some (t, start r)
  resume t task now := some (resume t now task)
  cancel t _ := t
  environment _ e := e.elim

/-- No rows. -/
def IsInitial (t : Documents) : Prop := t = .empty

/-! ### The life of a row -/

/-- What the status says about the other columns. -/
structure LifeCycle (d : Document) : Prop where
  live : d.version = 1 ↔ d.status ≠ .deleted
  dead : d.version = 2 ↔ d.status = .deleted
  deletedAt : d.deletedAt.isSome ↔ d.status = .deleted
  indexedAt : d.status = .indexed → d.indexedAt.isSome

def AllRows (t : Documents) : Prop := ∀ id d, t.find? id = some d → LifeCycle d

/-- What is left of a deleted row `d`. -/
structure Kept (d d' : Document) : Prop where
  status : d'.status = .deleted
  version : d'.version = d.version
  indexedAt : d'.indexedAt = d.indexedAt

/-- Deletion is final. -/
def Final (t t' : Documents) : Prop :=
  ∀ id d, t.find? id = some d → d.status = .deleted → ∃ d', t'.find? id = some d' ∧ Kept d d'

theorem Kept.refl {d : Document} (h : d.status = .deleted) : Kept d d := ⟨h, rfl, rfl⟩

theorem Kept.trans {d d₁ d₂ : Document} (h : Kept d d₁) (h' : Kept d₁ d₂) : Kept d d₂ :=
  ⟨h'.status, h'.version.trans h.version, h'.indexedAt.trans h.indexedAt⟩

theorem Final.refl (t : Documents) : Final t t := fun _ d hd hs => ⟨d, hd, .refl hs⟩

theorem Final.trans {t t₁ t₂ : Documents} (h : Final t t₁) (h' : Final t₁ t₂) : Final t t₂ := by
  intro id d hd hs
  obtain ⟨d₁, hd₁, hk₁⟩ := h id d hd hs
  obtain ⟨d₂, hd₂, hk₂⟩ := h' id d₁ hd₁ hk₁.status
  exact ⟨d₂, hd₂, hk₁.trans hk₂⟩

/-! ### The statements -/

variable {t t' : Documents}

/-- **An update**, by what it makes of a row it selects. -/
theorem lifeCycle_update {p : Document → Bool} {f : Document → Document}
    {hf : ∀ r, (f r).id = r.id}
    (h : ∀ r, LifeCycle r → p r = true → LifeCycle (f r) ∧ (r.status = .deleted → Kept r (f r)))
    (ht : AllRows t) : AllRows (t.update p f hf) ∧ Final t (t.update p f hf) := by
  refine ⟨fun id d hd => ?_, fun id d hd hs => ⟨_, by rw [Table.find?_update, hd]; rfl, ?_⟩⟩
  · rw [Table.find?_update, Option.map_eq_some_iff] at hd
    obtain ⟨r, hr, rfl⟩ := hd
    split
    · rename_i hp
      exact (h r (ht id r hr) hp).1
    · exact ht id r hr
  · change Kept d (if p d = true then f d else d)
    split
    · rename_i hp
      exact (h d (ht id d hd) hp).2 hs
    · exact .refl hs

theorem lifeCycle_create {tenantId : Str} {id : Uuid} {payload : DocumentCreate} {now : Timestamp}
    (ht : AllRows t) (h : create t (Document.new id tenantId payload now) = some t') :
    AllRows t' ∧ Final t t' := by
  obtain ⟨hnone, hf⟩ := Table.find?_insert h
  refine ⟨fun i d hd => ?_, fun i d hd hs => ⟨d, ?_, .refl hs⟩⟩
  · rw [hf] at hd
    split at hd
    · cases hd
      exact ⟨by simp [Document.new], by simp [Document.new], by simp [Document.new],
        fun hs => by cases hs⟩
    · exact ht i d hd
  · rw [hf, if_neg, hd]
    rintro rfl
    cases hnone.symm.trans hd

/-- A soft delete of a row that was read alive: at a row that another one deleted meanwhile it
writes what is there. -/
theorem lifeCycle_softDelete {document : Document} (now : Timestamp) (hv : document.version = 1)
    (ht : AllRows t) : AllRows (softDelete t document now) ∧ Final t (softDelete t document now) := by
  refine lifeCycle_update (fun r hr _ => ⟨⟨?_, ?_, ?_, ?_⟩, fun hs => ⟨rfl, ?_, rfl⟩⟩) ht
  · simp [hv]
  · simp [hv]
  · simp
  · intro hi
    cases hi
  · exact (congrArg (· + 1) hv).trans (hr.dead.mpr hs).symm

theorem lifeCycle_markIndexed (ids : List Uuid) (now : Timestamp) (ht : AllRows t) :
    AllRows (markIndexed t ids now) ∧ Final t (markIndexed t ids now) := by
  refine lifeCycle_update (fun r hr hp => ?_) ht
  have hs : r.status = .pending := by simp at hp; exact hp.2
  refine ⟨⟨?_, ?_, ?_, fun _ => rfl⟩, fun hd => ?_⟩
  · simpa [hs] using hr.live
  · simpa [hs] using hr.dead
  · simpa [hs] using hr.deletedAt
  · rw [hs] at hd
    cases hd

theorem lifeCycle_markFailed (ids : List Uuid) (now : Timestamp) (ht : AllRows t) :
    AllRows (markFailed t ids now) ∧ Final t (markFailed t ids now) := by
  refine lifeCycle_update (fun r hr hp => ?_) ht
  have hs : r.status = .pending := by simp at hp; exact hp.2
  refine ⟨⟨?_, ?_, ?_, fun hi => ?_⟩, fun hd => ?_⟩
  · simpa [hs] using hr.live
  · simpa [hs] using hr.dead
  · simpa [hs] using hr.deletedAt
  · cases hi
  · rw [hs] at hd
    cases hd

/-! ### Every run -/

/-- A soft delete has read a row of version 1. -/
def assertion : Transaction → Prop
  | .write document => document.version = 1
  | _ => True

def outline : Outline Documents Transaction where
  inv := AllRows
  assertion _ := assertion
  guarantee := Final

theorem lifeCycle_resume {task : Transaction} (now : Timestamp) (ht : AllRows t)
    (ha : assertion task) :
    AllRows (resume t now task).1 ∧ (∀ u, (resume t now task).2 = some u → assertion u) ∧
      Final t (resume t now task).1 := by
  cases task with
  | create tenantId id payload =>
      cases hc : create t (Document.new id tenantId payload now) with
      | none =>
          rw [resume, hc]
          exact ⟨ht, fun _ h => (by cases h), .refl t⟩
      | some t' =>
          obtain ⟨hr, hf⟩ := lifeCycle_create ht hc
          rw [resume, hc]
          exact ⟨hr, fun _ h => (by cases h), hf⟩
  | read tenantId documentId =>
      refine ⟨ht, fun u hu => ?_, .refl t⟩
      obtain ⟨d, hd, rfl⟩ := Option.map_eq_some_iff.mp hu
      obtain ⟨hd, -, hs⟩ := get_eq_some.mp hd
      exact (ht _ d hd).live.mpr hs
  | write document =>
      obtain ⟨hr, hf⟩ := lifeCycle_softDelete now ha ht
      exact ⟨hr, fun _ h => (by cases h), hf⟩
  | markIndexed documentIds =>
      obtain ⟨hr, hf⟩ := lifeCycle_markIndexed documentIds now ht
      exact ⟨hr, fun _ h => (by cases h), hf⟩
  | markFailed documentIds =>
      obtain ⟨hr, hf⟩ := lifeCycle_markFailed documentIds now ht
      exact ⟨hr, fun _ h => (by cases h), hf⟩

theorem lifeCycle_established :
    machine.Established .free IsInitial outline := by
  refine Machine.Valid.established (K := .trivial) ?_ Machine.established_trivial
  constructor
  · rintro _ rfl id d hd
    cases hd
  · rintro w r w' t - - hs hi
    cases hs
    refine ⟨hi, ?_, .refl w⟩
    cases r <;> trivial
  · rintro w t c w' u - - - hs hi ha
    obtain ⟨rfl, rfl⟩ := Prod.mk.inj (Option.some.inj hs)
    exact lifeCycle_resume _ hi ha
  · rintro w t - - hi -
    exact ⟨hi, .refl w⟩
  · rintro w ⟨⟩
  · rintro w w' t - - - ha
    exact ha

/-- **The life of a row**: in every reachable state the columns agree with the status, and from
then on a deleted row stays as it is. -/
theorem row_life_cycle {s : Config Documents Transaction}
    (hs : machine.Reach .free IsInitial s) :
    (∀ id d, s.world.find? id = some d → LifeCycle d) ∧
      ∀ as s', machine.run s as = some s' → Final s.world s'.world :=
  ⟨(lifeCycle_established.holds hs).1, fun as _ hr =>
    lifeCycle_established.guarantee_run Final.refl Final.trans hs (Machine.conforms_free as s) hr⟩

end Transactions

namespace Sample

open Transactions

/-- Two deletions have read the row; it is marked, and one of them has committed. -/
def overlapping : List (Action Begin Timestamp Empty) :=
  [.start 0 (.create acme documentA payload), .resume 0 0,
    .start 1 (.softDelete acme documentA), .resume 1 1,
    .start 2 (.softDelete acme documentA), .resume 2 2,
    .start 3 (.markIndexed [documentA]), .resume 3 3, .resume 1 4]

theorem overlapping_runs : (machine.run (Config.idle .empty) overlapping).isSome := by decide +kernel

theorem row_life_cycle_sample :
    (∀ id d, (machine.after .empty overlapping overlapping_runs).world.find? id = some d →
        LifeCycle d) ∧
      ∀ as s', machine.run (machine.after .empty overlapping overlapping_runs) as = some s' →
        Final (machine.after .empty overlapping overlapping_runs).world s'.world :=
  row_life_cycle (Machine.reach_after (show IsInitial .empty from rfl) overlapping_runs
    (Machine.conforms_free _ _))

end Sample

end DocSearch
