import DocSearch.Clients.SearchEngine
import Mathlib.Logic.Function.Basic

/-!
# Clients — Cache

`CacheClient` over its backend: a store of JSON values, each of which is a generation counter, a
document or a search response, and the fail-open operations on it.  An entry leaves the store by
`delete` or, at any time, by its expiry.
-/

namespace DocSearch

structure SearchHit (K : Type) where
  id : Str
  title : Str
  score : K
  snippet : Option Str
  contentType : Option Str
  tags : List Str
  metadata : List (Str × Json)
  createdAt : Option Timestamp
  updatedAt : Option Timestamp

structure SearchResponse (K : Type) where
  query : Str
  tenantId : Str
  page : ℤ
  size : ℤ
  total : ℕ
  totalIsLowerBound : Bool
  cached : Bool
  hits : List (SearchHit K)
  facets : List (Str × List (Str × ℕ))

/-- A search response with the step at which the engine was read for it, which the code does not
keep. -/
structure Answer (K : Type) where
  response : SearchResponse K
  readAt : ℕ

def Answer.withCached {K : Type} (a : Answer K) (cached : Bool) : Answer K :=
  { a with response := { a.response with cached := cached } }

/-- What the service stores under a key. -/
inductive CacheValue (K : Type) where
  | generation (n : ℕ)
  | document (response : DocumentResponse)
  | search (answer : Answer K)

/-- The backend, and whether calls to it succeed. -/
structure Cache (K : Type) where
  store : Str → Option (CacheValue K)
  available : Bool

namespace Cache

variable {K : Type}

def empty : Cache K := ⟨fun _ => none, true⟩

/-- `get_json`: a failure is a miss. -/
def getJson (c : Cache K) (key : Str) : Option (CacheValue K) :=
  if c.available then c.store key else none

def setJson (c : Cache K) (key : Str) (value : CacheValue K) : Cache K :=
  if c.available then { c with store := Function.update c.store key (some value) } else c

def delete (c : Cache K) (key : Str) : Cache K :=
  if c.available then { c with store := Function.update c.store key none } else c

/-- `incr`: `none` when the backend fails, or holds something else than a number. -/
def incr (c : Cache K) (key : Str) : Option ℕ × Cache K :=
  if c.available then
    match c.store key with
    | none => (some 1, c.setJson key (.generation 1))
    | some (.generation n) => (some (n + 1), c.setJson key (.generation (n + 1)))
    | some _ => (none, c)
  else (none, c)

/-- An entry expires. -/
def expire (c : Cache K) (key : Str) : Cache K :=
  { c with store := Function.update c.store key none }

/-! ### The store after an operation -/

@[simp] theorem available_setJson (c : Cache K) (key : Str) (v : CacheValue K) :
    (c.setJson key v).available = c.available := by
  unfold setJson; split <;> rfl

@[simp] theorem available_delete (c : Cache K) (key : Str) :
    (c.delete key).available = c.available := by
  unfold delete; split <;> rfl

@[simp] theorem available_incr (c : Cache K) (key : Str) :
    (c.incr key).2.available = c.available := by
  unfold incr; split
  · split <;> simp
  · rfl

@[simp] theorem available_expire (c : Cache K) (key : Str) :
    (c.expire key).available = c.available := rfl

theorem store_of_getJson {c : Cache K} {key : Str} {v : CacheValue K} (h : c.getJson key = some v) :
    c.store key = some v := by
  unfold getJson at h
  split at h
  · exact h
  · cases h

theorem get_setJson (c : Cache K) (key k : Str) (v : CacheValue K) :
    (c.setJson key v).store k = if c.available ∧ k = key then some v else c.store k := by
  unfold setJson
  split
  · rename_i hc; simp [Function.update_apply, hc]
  · rename_i hc; simp [hc]

theorem get_delete (c : Cache K) (key k : Str) :
    (c.delete key).store k = if c.available ∧ k = key then none else c.store k := by
  unfold delete
  split
  · rename_i hc; simp [Function.update_apply, hc]
  · rename_i hc; simp [hc]

theorem get_expire (c : Cache K) (key k : Str) :
    (c.expire key).store k = if k = key then none else c.store k := by
  simp [expire, Function.update_apply]

/-- An entry found after a fill is the new one, or was there before. -/
theorem store_setJson {c : Cache K} {key k : Str} {v w : CacheValue K}
    (h : (c.setJson key v).store k = some w) : (k = key ∧ w = v) ∨ c.store k = some w := by
  rw [get_setJson] at h
  split at h
  · rename_i hk; exact .inl ⟨hk.2, (Option.some.inj h).symm⟩
  · exact .inr h

theorem store_setJson_of_ne {c : Cache K} {key k : Str} {v : CacheValue K} (h : k ≠ key) :
    (c.setJson key v).store k = c.store k := by
  simp [get_setJson, h]

theorem store_setJson_self {c : Cache K} (hc : c.available = true) (key : Str)
    (v : CacheValue K) : (c.setJson key v).store key = some v := by
  simp [get_setJson, hc]

/-- A deletion adds nothing. -/
theorem store_delete {c : Cache K} {key k : Str} {w : CacheValue K}
    (h : (c.delete key).store k = some w) : c.store k = some w := by
  rw [get_delete] at h
  split at h
  · cases h
  · exact h

theorem store_delete_self {c : Cache K} (hc : c.available = true) (key : Str) :
    (c.delete key).store key = none := by
  simp [get_delete, hc]

theorem store_delete_of_ne {c : Cache K} {key k : Str} (h : k ≠ key) :
    (c.delete key).store k = c.store k := by
  simp [get_delete, h]

theorem store_expire {c : Cache K} {key k : Str} {w : CacheValue K}
    (h : (c.expire key).store k = some w) : c.store k = some w := by
  rw [get_expire] at h
  split at h
  · cases h
  · exact h

theorem store_expire_of_ne {c : Cache K} {key k : Str} (h : k ≠ key) :
    (c.expire key).store k = c.store k := by
  simp [get_expire, h]

/-- An increment puts a number under its key, or changes nothing. -/
theorem store_incr {c : Cache K} {key k : Str} {w : CacheValue K}
    (h : (c.incr key).2.store k = some w) :
    (k = key ∧ ∃ n, w = .generation n) ∨ c.store k = some w := by
  unfold incr at h
  split at h
  · split at h
    · exact (store_setJson h).imp_left fun e => ⟨e.1, _, e.2⟩
    · exact (store_setJson h).imp_left fun e => ⟨e.1, _, e.2⟩
    · exact .inr h
  · exact .inr h

theorem store_incr_of_ne {c : Cache K} {key k : Str} (h : k ≠ key) :
    (c.incr key).2.store k = c.store k := by
  unfold incr
  split
  · split
    · exact store_setJson_of_ne h
    · exact store_setJson_of_ne h
    · rfl
  · rfl

/-- The number under a key, `0` when there is none. -/
def counter (c : Cache K) (key : Str) : ℕ :=
  match c.store key with
  | some (.generation n) => n
  | _ => 0

/-- With the backend working and a number or nothing under the key, an increment returns the
next number and stores it. -/
theorem incr_eq {c : Cache K} (hc : c.available = true) {key : Str}
    (h : ∀ v, c.store key = some v → ∃ n, v = .generation n) :
    (c.incr key).1 = some (c.counter key + 1) ∧ (c.incr key).2.counter key = c.counter key + 1 := by
  unfold incr
  rw [if_pos hc]
  cases hs : c.store key with
  | none => simp [counter, hs, store_setJson_self hc]
  | some v =>
      obtain ⟨n, rfl⟩ := h v hs
      simp [counter, hs, store_setJson_self hc]

theorem counter_congr {c c' : Cache K} {key : Str} (h : c'.store key = c.store key) :
    c'.counter key = c.counter key := by
  rw [counter, counter, h]

end Cache

end DocSearch
