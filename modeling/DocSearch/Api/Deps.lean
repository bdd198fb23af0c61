import DocSearch.Models.Tenant
import DocSearch.Services.World

/-!
# Api — Deps

What a protected route depends on: the tenant of the credential, and the check of an asserted
tenant against it.

* `CachedAll`: what holds of each cached tenant is kept by the calls of the cache.
-/

namespace DocSearch

open CacheKeys

/-- What a route raises. -/
inductive RouteError where
  | unauthorized (message : Str)
  | forbidden (message : Str)
  | service (e : ServiceError)

/-- The cached tenants, each with the time it expires at. -/
abbrev TenantCache := Str → Option (Tenant × Timestamp)

namespace Deps

/-- `InMemoryCache.get` through the client: a call that raises is a miss, and an entry that has
expired is dropped. -/
def getTenant (cache : TenantCache) (raises : Bool) (key : Str) (now : Timestamp) :
    Option Tenant × TenantCache :=
  if raises then (none, cache)
  else
    match cache key with
    | none => (none, cache)
    | some (tenant, expiresAt) =>
        if expiresAt < now then (none, Function.update cache key none) else (some tenant, cache)

/-- `InMemoryCache.set` through the client. -/
def setTenant (cache : TenantCache) (raises : Bool) (key : Str) (tenant : Tenant)
    (ttlSeconds : ℕ) (now : Timestamp) : TenantCache :=
  if raises then cache
  else Function.update cache key (some (tenant, now + ttlSeconds * 1000000))

/-- `hash_api_key`. -/
def hashApiKey {K : Type} (rt : Runtime K) (apiKey : Str) : Str := rt.hexdigest apiKey

/-- `get_current_tenant`, which reads the clock at `now` when it looks into the cache, and at `later`
when it writes to it; `getRaises` and `setRaises` say which of its cache calls raise. -/
def getCurrentTenantAt {K : Type} (rt : Runtime K) (tenants : Tenants) (ttlSeconds : ℕ)
    (now later : Timestamp) (getRaises setRaises : Bool) (cache : TenantCache)
    (apiKey : Option Str) : Except RouteError Tenant × TenantCache :=
  match apiKey with
  | none | some [] => (.error (.unauthorized "Missing X-API-Key header.".toList), cache)
  | some apiKey =>
      let keyHash := hashApiKey rt apiKey
      match getTenant cache getRaises (tenantKey keyHash) now with
      | (some tenant, cache) => (.ok tenant, cache)
      | (none, cache) =>
          match TenantRepository.getByApiKeyHash tenants keyHash with
          -- one answer for an unknown key and a disabled tenant
          | none => (.error (.unauthorized "Missing or invalid API credentials.".toList), cache)
          | some tenant =>
              (.ok tenant, setTenant cache setRaises (tenantKey keyHash) tenant ttlSeconds later)

/-- It takes no time. -/
def getCurrentTenant {K : Type} (rt : Runtime K) (tenants : Tenants) (ttlSeconds : ℕ)
    (now : Timestamp) (getRaises setRaises : Bool) (cache : TenantCache) (apiKey : Option Str) :
    Except RouteError Tenant × TenantCache :=
  getCurrentTenantAt rt tenants ttlSeconds now now getRaises setRaises cache apiKey

/-- `enforce_tenant_scope`: an empty assertion is none. -/
def enforceTenantScope (requestedTenant : Option Str) (tenant : Tenant) : Except RouteError Str :=
  match requestedTenant with
  | none | some [] => .ok tenant.id
  | some requested =>
      if requested = tenant.id then .ok tenant.id
      else .error (.forbidden
        "The requested tenant does not match the authenticated tenant.".toList)

end Deps

/-! ### What is cached -/

/-- What holds of each cached tenant, its expiry, and the hash it is cached under. -/
def CachedAll (P : Str → Tenant × Timestamp → Prop) (cache : TenantCache) : Prop :=
  ∀ hash x, cache (tenantKey hash) = some x → P hash x

namespace CachedAll

variable {P : Str → Tenant × Timestamp → Prop} {cache : TenantCache}

theorem drop (h : CachedAll P cache) (key : Str) : CachedAll P (Function.update cache key none) := by
  intro hash x hx
  by_cases hk : tenantKey hash = key
  · rw [hk, Function.update_self] at hx
    cases hx
  · rw [Function.update_of_ne hk] at hx
    exact h hash x hx

/-- A hit is an entry that has not expired. -/
theorem hit (h : CachedAll P cache) {raises : Bool} {hash : Str} {now : Timestamp} {tenant : Tenant}
    (hget : (Deps.getTenant cache raises (tenantKey hash) now).1 = some tenant) :
    ∃ expiresAt, now ≤ expiresAt ∧ P hash (tenant, expiresAt) := by
  unfold Deps.getTenant at hget
  split at hget
  · cases hget
  · split at hget
    · cases hget
    · rename_i expiresAt hentry
      split at hget
      · cases hget
      · rename_i hlive
        cases hget
        exact ⟨expiresAt, not_lt.mp hlive, h hash _ hentry⟩

theorem getTenant (h : CachedAll P cache) (raises : Bool) (key : Str) (now : Timestamp) :
    CachedAll P (Deps.getTenant cache raises key now).2 := by
  unfold Deps.getTenant
  split
  · exact h
  · split
    · exact h
    · split
      · exact h.drop key
      · exact h

theorem setTenant (h : CachedAll P cache) (raises : Bool) {hash : Str} {tenant : Tenant}
    {ttlSeconds : ℕ} {now : Timestamp} (hp : P hash (tenant, now + ttlSeconds * 1000000)) :
    CachedAll P (Deps.setTenant cache raises (tenantKey hash) tenant ttlSeconds now) := by
  unfold Deps.setTenant
  split
  · exact h
  · intro hash' x hx
    by_cases hk : tenantKey hash' = tenantKey hash
    · rw [hk, Function.update_self] at hx
      cases hx
      rw [tenantKey_inj hk]
      exact hp
    · rw [Function.update_of_ne hk] at hx
      exact h hash' x hx

end CachedAll

end DocSearch
