import DocSearch.Services.Normalization

/-!
# Services — KeySpace

The five kinds of key share one Redis.

* `normal_of_key`: a key determines the function it comes from and the arguments, the text of a
  query up to its normal form.
* `keys_never_collide`: calls share a key exactly when they are one call in normal form.
-/

namespace DocSearch

open CacheKeys

/-- The buckets the routes are limited in. -/
inductive RateBucket where
  | search
  | read
  | write
  deriving DecidableEq

def RateBucket.name : RateBucket → Str
  | .search => "search".toList
  | .read => "read".toList
  | .write => "write".toList

/-- A call of one of the functions that make keys. -/
inductive KeyCall where
  | searchGeneration (tenantId : Str)
  | search (generation : ℕ) (query : SearchQuery)
  | document (tenantId : Str) (documentId : Uuid)
  | tenant (apiKeyHash : Str)
  | rateLimit (tenantId : Str) (bucket : RateBucket)

namespace KeyCall

variable {K : Type} {rt : Runtime K}

/-- The key it makes. -/
def key (rt : Runtime K) : KeyCall → Str
  | searchGeneration tenantId => searchGenerationKey tenantId
  | search generation q =>
      searchKey rt q.tenantId generation q.text q.page q.size q.fuzzy q.highlight q.facets
  | document tenantId documentId => documentKey tenantId documentId.str
  | tenant apiKeyHash => tenantKey apiKeyHash
  | rateLimit tenantId bucket => rateLimitKey tenantId bucket.name

/-- The call with the text of its query in normal form. -/
def normal (u : Unicode) : KeyCall → KeyCall
  | search generation q => search generation { q with text := normalizeQuery u q.text }
  | c => c

/-- The canonical form it takes the digest of, if any, is one of `S`. -/
def Within (rt : Runtime K) (S : Set Str) : KeyCall → Prop
  | search _ q => canonicalOf rt q ∈ S
  | _ => True

/-- The first character of the key. -/
def initial : KeyCall → Char
  | searchGeneration _ | search _ _ | document _ _ => 't'
  | tenant _ => 'a'
  | rateLimit _ _ => 'r'

theorem head?_key (rt : Runtime K) (c : KeyCall) : (c.key rt).head? = some c.initial := by
  cases c <;> rfl

theorem colon_notMem_name : ∀ b : RateBucket, ':' ∉ b.name
  | .search => by decide
  | .read => by decide
  | .write => by decide

theorem name_injective : Function.Injective RateBucket.name := fun a b h => by
  cases a <;> cases b <;> first | rfl | exact absurd h (by decide)

/-- **A key determines** the function and the arguments, where the digest does the canonical form. -/
theorem normal_of_key {c c' : KeyCall} {S : Set Str}
    (hS : S.InjOn fun s => (rt.hexdigest s).take 24) (hc : c.Within rt S) (hc' : c'.Within rt S)
    (h : c.key rt = c'.key rt) : c.normal rt.toUnicode = c'.normal rt.toUnicode := by
  have hinitial : c.initial = c'.initial := by
    have hhead := congrArg List.head? h
    rw [head?_key, head?_key] at hhead
    exact Option.some.inj hhead
  cases c with
  | searchGeneration t =>
      cases c' with
      | searchGeneration t' => exact congrArg searchGeneration (searchGenerationKey_inj h)
      | search g' q' => exact absurd h.symm searchKey_ne_searchGenerationKey
      | document t' d' => exact absurd h.symm documentKey_ne_searchGenerationKey
      | tenant _ | rateLimit _ _ => simp [initial] at hinitial
  | search g q =>
      cases c' with
      | searchGeneration t' => exact absurd h searchKey_ne_searchGenerationKey
      | search g' q' =>
          obtain ⟨ht, hdigest⟩ := keyOf_inj h
          obtain ⟨-, rfl⟩ := searchKey_inj h
          obtain ⟨hn, hp, hs, hf, hh, hfc⟩ := canonical_inj (hS hc hc' hdigest)
          rw [normal, normal, ht, hn, hp, hs, hf, hh, hfc]
      | document t' d' => exact absurd h searchKey_ne_documentKey
      | tenant _ | rateLimit _ _ => simp [initial] at hinitial
  | document t d =>
      cases c' with
      | searchGeneration t' => exact absurd h documentKey_ne_searchGenerationKey
      | search g' q' => exact absurd h.symm searchKey_ne_documentKey
      | document t' d' =>
          obtain ⟨rfl, rfl⟩ := documentKey_inj h
          rfl
      | tenant _ | rateLimit _ _ => simp [initial] at hinitial
  | tenant hash =>
      cases c' with
      | tenant hash' => exact congrArg tenant (tenantKey_inj h)
      | searchGeneration _ | search _ _ | document _ _ | rateLimit _ _ =>
          simp [initial] at hinitial
  | rateLimit t b =>
      cases c' with
      | rateLimit t' b' =>
          obtain ⟨rfl, hname⟩ := rateLimitKey_inj (colon_notMem_name b) (colon_notMem_name b') h
          rw [name_injective hname]
      | searchGeneration _ | search _ _ | document _ _ | tenant _ =>
          simp [initial] at hinitial

/-- The key depends on the text by its normal form only. -/
theorem key_of_normal {c c' : KeyCall} (h : c.normal rt.toUnicode = c'.normal rt.toUnicode) :
    c.key rt = c'.key rt := by
  cases c with
  | search g q =>
      cases c' with
      | search g' q' =>
          obtain ⟨rfl, hq⟩ := search.inj h
          obtain ⟨ht, hn, hp, hs, hf, hh, hfc⟩ := SearchQuery.mk.inj hq
          simp only [key, searchKey, canonical, ht, hn, hp, hs, hf, hh, hfc]
      | searchGeneration _ | document _ _ | tenant _ | rateLimit _ _ => cases h
  | searchGeneration _ | document _ _ | tenant _ | rateLimit _ _ =>
      cases c' with
      | search g' q' => cases h
      | searchGeneration _ | document _ _ | tenant _ | rateLimit _ _ => exact congrArg (key rt) h

/-- **No two calls share a key** unless they are one call in normal form. -/
theorem keys_never_collide (rt : Runtime K) :
    (∀ q q' : SearchQuery, canonicalOf rt q = canonicalOf rt q' →
      normalizeQuery rt.toUnicode q.text = normalizeQuery rt.toUnicode q'.text ∧ q.page = q'.page ∧
        q.size = q'.size ∧ q.fuzzy = q'.fuzzy ∧ q.highlight = q'.highlight ∧ q.facets = q'.facets) ∧
    ∀ S : Set Str, (S.InjOn fun s => (rt.hexdigest s).take 24) →
      ∀ c c' : KeyCall, c.Within rt S → c'.Within rt S →
        (c.key rt = c'.key rt ↔ c.normal rt.toUnicode = c'.normal rt.toUnicode) :=
  ⟨fun _ _ => canonical_inj, fun _ hS _ _ hc hc' => ⟨normal_of_key hS hc hc', key_of_normal⟩⟩

end KeyCall

namespace Sample

/-- A search in another spelling, and of pages of one document. -/
def spelled : SearchQuery := { query acme with text := " Revenue ".toList, size := 1 }

/-- Two searches, of the two canonical forms in use. -/
theorem keys_never_collide_sample :
    KeyCall.key runtime (.search 3 (query acme)) = KeyCall.key runtime (.search 3 spelled) ↔
      KeyCall.normal runtime.toUnicode (.search 3 (query acme)) =
        KeyCall.normal runtime.toUnicode (.search 3 spelled) :=
  (KeyCall.keys_never_collide runtime).2
    {canonicalOf runtime (query acme), canonicalOf runtime spelled}
    (Set.injOn_pair.mpr fun h => absurd h (by decide +kernel)) _ _ (.inl rfl) (.inr rfl)

end Sample

end DocSearch
