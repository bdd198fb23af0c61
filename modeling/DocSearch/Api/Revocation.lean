import DocSearch.Api.Deps
import DocSearch.Core.Sample

/-!
# Api — Revocation

For how long a credential is accepted after its row was changed.  The cache keeps what was read of
the table for a time, and no hit makes that time longer.

* `AuthRun`: requests, one after the other, expiries of cache entries and changes of the table, under
  a clock that does not go back.
* `AuthRun.backed`: what is cached was read from the table when its life began.
* `revocation_window`: a tenant that is accepted had the credential within the life of an entry.
-/

namespace DocSearch

open CacheKeys

namespace Revocation

variable {K : Type}

/-- The table at a time. -/
structure Moment where
  time : Timestamp
  tenants : Tenants

structure AuthState where
  now : Timestamp
  tenants : Tenants
  cache : TenantCache

/-- A run, and the moments it has come through. -/
inductive AuthRun (rt : Runtime K) (ttlSeconds : ℕ) : List Moment → AuthState → Prop where
  | start (now : Timestamp) (tenants : Tenants) :
      AuthRun rt ttlSeconds [⟨now, tenants⟩] ⟨now, tenants, fun _ => none⟩
  | pass {past s} (h : AuthRun rt ttlSeconds past s) (later : Timestamp) (hl : s.now ≤ later) :
      AuthRun rt ttlSeconds (⟨later, s.tenants⟩ :: past) { s with now := later }
  | change {past s} (h : AuthRun rt ttlSeconds past s) (tenants : Tenants) :
      AuthRun rt ttlSeconds (⟨s.now, tenants⟩ :: past) { s with tenants := tenants }
  | expire {past s} (h : AuthRun rt ttlSeconds past s) (key : Str) :
      AuthRun rt ttlSeconds past { s with cache := Function.update s.cache key none }
  | request {past s} (h : AuthRun rt ttlSeconds past s) (apiKey : Option Str)
      (getRaises setRaises : Bool) (later : Timestamp) (hl : s.now ≤ later) :
      AuthRun rt ttlSeconds (⟨later, s.tenants⟩ :: past)
        { s with
          now := later
          cache := (Deps.getCurrentTenantAt rt s.tenants ttlSeconds s.now later getRaises setRaises
            s.cache apiKey).2 }

/-- The row of the tenant is active and has the credential. -/
def Holds (tenants : Tenants) (tenant : Tenant) (apiKeyHash : Str) : Prop :=
  ∃ row ∈ tenants.rows, row.id = tenant.id ∧ row.status = "active".toList ∧
    row.apiKeyHash = apiKeyHash

theorem holds_of_get {tenants : Tenants} {hash : Str} {tenant : Tenant}
    (h : TenantRepository.getByApiKeyHash tenants hash = some tenant) : Holds tenants tenant hash := by
  have hrow := List.find?_some h
  rw [Bool.and_eq_true, decide_eq_true_eq, decide_eq_true_eq] at hrow
  exact ⟨tenant, List.mem_of_find?_eq_some h, rfl, hrow.2, hrow.1⟩

/-- **What is cached** was in the table when the life of the entry began. -/
def Backed (ttlSeconds : ℕ) (past : List Moment) : TenantCache → Prop :=
  CachedAll fun hash x =>
    ∃ m ∈ past, x.2 = m.time + ttlSeconds * 1000000 ∧ Holds m.tenants x.1 hash

section Backed

variable {ttlSeconds : ℕ} {past : List Moment} {cache : TenantCache}

theorem Backed.cons (h : Backed ttlSeconds past cache) (m : Moment) :
    Backed ttlSeconds (m :: past) cache := fun hash x hx =>
  have ⟨m', hm', hrest⟩ := h hash x hx
  ⟨m', List.mem_cons_of_mem m hm', hrest⟩

/-- A request keeps it: a hit writes nothing, and a miss caches what it has just read. -/
theorem Backed.getCurrentTenantAt (h : Backed ttlSeconds past cache) (rt : Runtime K) {m : Moment}
    (hm : m ∈ past) (now : Timestamp) (getRaises setRaises : Bool) (apiKey : Option Str) :
    Backed ttlSeconds past (Deps.getCurrentTenantAt rt m.tenants ttlSeconds now m.time
      getRaises setRaises cache apiKey).2 := by
  unfold Deps.getCurrentTenantAt
  split
  · exact h
  · exact h
  · rename_i apiKey _
    have hget := CachedAll.getTenant h getRaises (tenantKey (Deps.hashApiKey rt apiKey)) now
    dsimp only
    split
    · rename_i heq
      rw [heq] at hget
      exact hget
    · rename_i heq
      rw [heq] at hget
      split
      · exact hget
      · rename_i hrow
        exact hget.setTenant setRaises ⟨m, hm, rfl, holds_of_get hrow⟩

end Backed

/-! ### Runs -/

section Run

variable {rt : Runtime K} {ttlSeconds : ℕ} {past : List Moment} {s : AuthState}

/-- The present is a moment of the run. -/
theorem AuthRun.present (h : AuthRun rt ttlSeconds past s) : ⟨s.now, s.tenants⟩ ∈ past := by
  induction h with
  | start => exact List.mem_singleton.mpr rfl
  | pass | change | request => exact List.mem_cons_self
  | expire _ _ ih => exact ih

theorem AuthRun.time_le (h : AuthRun rt ttlSeconds past s) : ∀ m ∈ past, m.time ≤ s.now := by
  induction h with
  | start now tenants => exact fun m hm => List.mem_singleton.mp hm ▸ le_rfl
  | change _ tenants ih => exact List.forall_mem_cons.mpr ⟨le_rfl, ih⟩
  | expire _ _ ih => exact ih
  | pass _ later hl ih | request _ _ _ _ later hl ih =>
      exact List.forall_mem_cons.mpr ⟨le_rfl, fun m hm => (ih m hm).trans hl⟩

/-- **In a run**, what is cached is what the table said when the life of the entry began. -/
theorem AuthRun.backed (h : AuthRun rt ttlSeconds past s) : Backed ttlSeconds past s.cache := by
  induction h with
  | start => exact fun _ _ hx => by cases hx
  | pass _ _ _ ih => exact ih.cons _
  | change _ _ ih => exact ih.cons _
  | expire _ key ih => exact CachedAll.drop ih key
  | @request past s _ apiKey getRaises setRaises later _ ih =>
      exact (ih.cons ⟨later, s.tenants⟩).getCurrentTenantAt rt List.mem_cons_self s.now getRaises
        setRaises apiKey

/-- What a request is accepted on: an entry that has not expired, or the table. -/
theorem accepted_cases {P : Str → Tenant × Timestamp → Prop} {tenants : Tenants}
    {now later : Timestamp} {getRaises setRaises : Bool} {cache : TenantCache} {apiKey : Str}
    {tenant : Tenant} (hcache : CachedAll P cache)
    (h : (Deps.getCurrentTenantAt rt tenants ttlSeconds now later getRaises setRaises cache
      (some apiKey)).1 = .ok tenant) :
    (∃ expiresAt, now ≤ expiresAt ∧ P (Deps.hashApiKey rt apiKey) (tenant, expiresAt)) ∨
    TenantRepository.getByApiKeyHash tenants (Deps.hashApiKey rt apiKey) = some tenant := by
  cases apiKey with
  | nil => cases h
  | cons c apiKey =>
      unfold Deps.getCurrentTenantAt at h
      dsimp only at h
      split at h
      · rename_i heq
        cases h
        exact .inl (hcache.hit (congrArg Prod.fst heq))
      · split at h
        · cases h
        · rename_i hrow
          cases h
          exact .inr hrow

/-- **The window.**  A request that is accepted as a tenant comes no later than the life of an entry
after a time at which the row of the tenant was active and had the credential. -/
theorem revocation_window (h : AuthRun rt ttlSeconds past s) (later : Timestamp)
    (getRaises setRaises : Bool) (apiKey : Str) (tenant : Tenant)
    (hok : (Deps.getCurrentTenantAt rt s.tenants ttlSeconds s.now later getRaises setRaises s.cache
      (some apiKey)).1 = .ok tenant) :
    ∃ m ∈ past, s.now ≤ m.time + ttlSeconds * 1000000 ∧ m.time ≤ s.now ∧
      Holds m.tenants tenant (Deps.hashApiKey rt apiKey) := by
  rcases accepted_cases h.backed hok with ⟨expiresAt, hlive, m, hm, he, hholds⟩ | hrow
  · exact ⟨m, hm, hlive.trans he.le, h.time_le m hm, hholds⟩
  · exact ⟨_, h.present, Nat.le_add_right _ _, le_rfl, holds_of_get hrow⟩

end Run

end Revocation

namespace Sample

open Revocation

/-- A table in which the tenant `acme` has the credential `secret`, and is active or is not. -/
def tenantTable (status : String) : Tenants where
  rows := [⟨acme, "Acme".toList, Deps.hashApiKey runtime "secret".toList, status.toList, 60⟩]
  nodup := List.nodup_singleton _

/-- A request is accepted, and then the tenant is disabled, for 200 seconds. -/
theorem run_disabled : AuthRun runtime 300
    [⟨200000000, tenantTable "disabled"⟩, ⟨5, tenantTable "disabled"⟩, ⟨5, tenantTable "active"⟩,
      ⟨0, tenantTable "active"⟩]
    ⟨200000000, tenantTable "disabled", (Deps.getCurrentTenantAt runtime (tenantTable "active") 300 0 5
      false false (fun _ => none) (some "secret".toList)).2⟩ :=
  .pass (.change (.request (.start 0 (tenantTable "active")) (some "secret".toList) false false 5
    (Nat.zero_le 5)) (tenantTable "disabled")) 200000000 (show 5 ≤ 200000000 by decide)

theorem ok_of_toOption {x : Except RouteError Tenant} {tenant : Tenant}
    (h : x.toOption = some tenant) : x = .ok tenant := by
  cases x with
  | error _ => cases h
  | ok _ => exact congrArg Except.ok (Option.some.inj h)

/-- It is still accepted: the entry is kept for 300 seconds. -/
theorem revocation_window_sample : ∃ m ∈ [⟨200000000, tenantTable "disabled"⟩,
      ⟨5, tenantTable "disabled"⟩, ⟨5, tenantTable "active"⟩, (⟨0, tenantTable "active"⟩ : Moment)],
    200000000 ≤ m.time + 300 * 1000000 ∧ m.time ≤ 200000000 ∧
      Holds m.tenants ⟨acme, "Acme".toList, Deps.hashApiKey runtime "secret".toList,
        "active".toList, 60⟩ (Deps.hashApiKey runtime "secret".toList) :=
  revocation_window run_disabled 200000000 false false "secret".toList _
    (ok_of_toOption (by decide +kernel))

end Sample

end DocSearch
