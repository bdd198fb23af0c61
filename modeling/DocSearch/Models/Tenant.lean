import DocSearch.Core.Python
import DocSearch.Support.Table

/-!
# Models — Tenant

The `tenants` table.
-/

namespace DocSearch

/-- A row of `tenants`, and what is cached of it. -/
structure Tenant where
  id : Str
  name : Str
  apiKeyHash : Str
  status : Str
  rateLimitPerMinute : ℤ
  deriving DecidableEq

/-- The `tenants` table. -/
abbrev Tenants := Table Tenant.id

namespace TenantRepository

/-- The active tenant with the credential hash, of which the table has no two. -/
def getByApiKeyHash (t : Tenants) (apiKeyHash : Str) : Option Tenant :=
  t.rows.find? fun r => decide (r.apiKeyHash = apiKeyHash) && decide (r.status = "active".toList)

end TenantRepository

end DocSearch
