import DocSearch.Core.Uuid
import Mathlib.Data.List.Basic

/-!
# Services — CacheKeys

The keys of the cache.  Every key starts with the tenant, which may be any string, so the parts
of a key are read from its right end: a document key ends in the 36 characters of an id, a search
key in 24 hexadecimal digits after the digits of a generation, a generation key in `gen`.

* `documentKey_inj`, `searchKey_inj`, `searchGenerationKey_inj`: what a key determines.
* `searchKey_ne_documentKey` and the two others: keys of different kinds are different.
-/

namespace DocSearch

namespace CacheKeys

/-- `re.sub(r"\s+", " ", s)`; the flag says that the last character was white space. -/
def collapse (u : Unicode) : Bool → Str → Str
  | _, [] => []
  | inSpace, c :: s =>
      if u.space c then if inSpace then collapse u true s else ' ' :: collapse u true s
      else c :: collapse u false s

def normalizeQuery (u : Unicode) (text : Str) : Str := collapse u false (u.lower (pyStrip u.space text))

def searchGenerationKey (tenantId : Str) : Str := "t:".toList ++ tenantId ++ ":search:gen".toList

/-- The parameters of a search that a cached response depends on. -/
def canonical (u : Unicode) (query : Str) (page size : ℤ) (fuzzy highlight facets : Bool) : Str :=
  normalizeQuery u query ++ "|p=".toList ++ strInt page ++ "|s=".toList ++ strInt size ++
    "|f=".toList ++ strNat fuzzy.toNat ++ "|h=".toList ++ strNat highlight.toNat ++
    "|a=".toList ++ strNat facets.toNat

def searchKey {K : Type} (rt : Runtime K) (tenantId : Str) (generation : ℕ) (query : Str)
    (page size : ℤ) (fuzzy highlight facets : Bool) : Str :=
  "t:".toList ++ tenantId ++ ":search:g".toList ++ strNat generation ++ ":".toList ++
    (rt.hexdigest (canonical rt.toUnicode query page size fuzzy highlight facets)).take 24

def documentKey (tenantId documentId : Str) : Str :=
  "t:".toList ++ tenantId ++ ":doc:".toList ++ documentId

/-- Keyed by the hash of a credential. -/
def tenantKey (apiKeyHash : Str) : Str := "auth:key:".toList ++ apiKeyHash

def rateLimitKey (tenantId bucket : Str) : Str := "rl:".toList ++ tenantId ++ ":".toList ++ bucket

/-! ### What a key determines -/

theorem length_digest {K : Type} (rt : Runtime K) (s : Str) : ((rt.hexdigest s).take 24).length = 24 := by
  simp [Runtime.hexdigest]

theorem mem_digest {K : Type} {rt : Runtime K} {s : Str} {c : Char}
    (h : c ∈ (rt.hexdigest s).take 24) : ∃ d, c = hexChar d := by
  obtain ⟨d, -, rfl⟩ := List.mem_map.mp (List.mem_of_mem_take h)
  exact ⟨d, rfl⟩

/-- The first occurrence of a character splits a string in one way. -/
theorem append_cons_inj_left {c : Char} : ∀ {x y a b : Str}, c ∉ x → c ∉ y →
    x ++ c :: a = y ++ c :: b → x = y ∧ a = b
  | [], [], _, _, _, _, h => ⟨rfl, (List.cons.inj h).2⟩
  | [], d :: y, _, _, _, hy, h => absurd ((List.cons.inj h).1 ▸ List.mem_cons_self) hy
  | d :: x, [], _, _, hx, _, h => absurd ((List.cons.inj h).1 ▸ List.mem_cons_self) hx
  | d :: x, e :: y, _, _, hx, hy, h => by
      obtain ⟨rfl, htail⟩ := List.cons.inj h
      obtain ⟨rfl, hab⟩ := append_cons_inj_left (fun hm => hx (List.mem_cons_of_mem d hm))
        (fun hm => hy (List.mem_cons_of_mem d hm)) htail
      exact ⟨rfl, hab⟩

/-- So does the last. -/
theorem append_cons_inj {a b x y : Str} {c : Char} (hx : c ∉ x) (hy : c ∉ y)
    (h : a ++ c :: x = b ++ c :: y) : a = b ∧ x = y := by
  have hr : x.reverse ++ c :: a.reverse = y.reverse ++ c :: b.reverse := by
    simpa using congrArg List.reverse h
  have hx' : c ∉ x.reverse := fun hm => hx (List.mem_reverse.mp hm)
  have hy' : c ∉ y.reverse := fun hm => hy (List.mem_reverse.mp hm)
  obtain ⟨h₁, h₂⟩ := append_cons_inj_left hx' hy' hr
  exact ⟨List.reverse_injective h₂, List.reverse_injective h₁⟩

/-- A document key determines its tenant and its document. -/
theorem documentKey_inj {t t' : Str} {u v : Uuid} (h : documentKey t u.str = documentKey t' v.str) :
    t = t' ∧ u = v := by
  have hl : u.str.length = v.str.length := by rw [Uuid.length_str, Uuid.length_str]
  obtain ⟨hp, hs⟩ := List.append_inj' h hl
  refine ⟨?_, Uuid.str_injective hs⟩
  exact List.append_cancel_left (List.append_cancel_right hp)

/-- A search key determines its tenant and its generation. -/
theorem searchKey_inj {K : Type} {rt : Runtime K} {t t' q q' : Str} {g g' : ℕ} {p p' s s' : ℤ}
    {f f' hl hl' fc fc' : Bool}
    (h : searchKey rt t g q p s f hl fc = searchKey rt t' g' q' p' s' f' hl' fc') :
    t = t' ∧ g = g' := by
  -- the digests have one length, and then the last `g` is the one before the generation
  obtain ⟨h₁, -⟩ := List.append_inj' h (by rw [length_digest, length_digest])
  have h₂ := List.append_cancel_right h₁
  have hsplit : ∀ (t : Str) (g : ℕ), "t:".toList ++ t ++ ":search:g".toList ++ strNat g =
      ("t:".toList ++ t ++ ":search:".toList) ++ 'g' :: strNat g := fun t g => by simp
  have hg : ∀ g : ℕ, 'g' ∉ strNat g := fun g hm => by
    have := isDigit_of_mem_strNat hm
    revert this; decide
  rw [hsplit, hsplit] at h₂
  obtain ⟨hp, hn⟩ := append_cons_inj (hg g) (hg g') h₂
  exact ⟨List.append_cancel_left (List.append_cancel_right hp), strNat_injective hn⟩

theorem searchGenerationKey_inj {t t' : Str} (h : searchGenerationKey t = searchGenerationKey t') :
    t = t' :=
  List.append_cancel_left (List.append_cancel_right h)

theorem tenantKey_inj {h h' : Str} (e : tenantKey h = tenantKey h') : h = h' :=
  List.append_cancel_left e

/-- A limiter key determines its tenant and its bucket, when the names of buckets have no colon. -/
theorem rateLimitKey_inj {t t' b b' : Str} (hb : ':' ∉ b) (hb' : ':' ∉ b')
    (h : rateLimitKey t b = rateLimitKey t' b') : t = t' ∧ b = b' := by
  have hsplit : ∀ t b : Str, rateLimitKey t b = ("rl:".toList ++ t) ++ ':' :: b := fun t b => by
    simp [rateLimitKey]
  rw [hsplit, hsplit] at h
  obtain ⟨hp, hs⟩ := append_cons_inj hb hb' h
  exact ⟨List.append_cancel_left hp, hs⟩

/-! ### Keys of different kinds -/

theorem getLast?_searchGenerationKey (t : Str) : (searchGenerationKey t).getLast? = some 'n' := by
  rw [searchGenerationKey, List.getLast?_append]; rfl

theorem hexChar_ne_n : ∀ d : Fin 16, hexChar d ≠ 'n' := by decide

theorem searchKey_ne_searchGenerationKey {K : Type} {rt : Runtime K} {t t' q : Str} {g : ℕ}
    {p s : ℤ} {f hl fc : Bool} :
    searchKey rt t g q p s f hl fc ≠ searchGenerationKey t' := by
  intro h
  have hlast := congrArg List.getLast? h
  rw [getLast?_searchGenerationKey, searchKey, List.getLast?_append] at hlast
  cases hd : ((rt.hexdigest (canonical rt.toUnicode q p s f hl fc)).take 24).getLast? with
  | none =>
      have := length_digest rt (canonical rt.toUnicode q p s f hl fc)
      rw [List.getLast?_eq_none_iff.mp hd] at this
      cases this
  | some c =>
      obtain ⟨d, rfl⟩ := mem_digest (List.mem_of_getLast? hd)
      rw [hd] at hlast
      exact hexChar_ne_n d (Option.some.inj hlast)

theorem documentKey_ne_searchGenerationKey {t t' : Str} {u : Uuid} :
    documentKey t u.str ≠ searchGenerationKey t' := by
  intro h
  have hlast := congrArg List.getLast? h
  rw [getLast?_searchGenerationKey, documentKey, List.getLast?_append] at hlast
  cases hd : u.str.getLast? with
  | none =>
      have := u.length_str
      rw [List.getLast?_eq_none_iff.mp hd] at this
      cases this
  | some c =>
      rw [hd] at hlast
      rcases Uuid.mem_str (List.mem_of_getLast? hd) with rfl | ⟨d, rfl⟩
      · cases hlast
      · exact hexChar_ne_n d (Option.some.inj hlast)

/-- The last 24 characters of a document key contain a hyphen, those of a search key do not. -/
theorem searchKey_ne_documentKey {K : Type} {rt : Runtime K} {t t' q : Str} {g : ℕ} {p s : ℤ}
    {f hl fc : Bool} {u : Uuid} : searchKey rt t g q p s f hl fc ≠ documentKey t' u.str := by
  intro h
  have hne : ∀ d : Fin 16, hexChar d ≠ '-' := by decide
  have htake := congrArg (fun k => k.reverse.take 24) h
  simp only [searchKey, documentKey, List.reverse_append] at htake
  rw [List.take_append_of_le_length (by rw [List.length_reverse, length_digest]),
    List.take_append_of_le_length (by simp [Uuid.length_str])] at htake
  have hmem : '-' ∈ u.str.reverse.take 24 := by
    have hlen : ((u.hex.drop 20).reverse ++ ['-']).length ≤ 24 := by simp
    have hsplit : u.str.reverse = ((u.hex.drop 20).reverse ++ ['-']) ++
        (u.hex.take 8 ++ '-' :: (u.hex.take 12).drop 8 ++ '-' :: (u.hex.take 16).drop 12 ++
          '-' :: (u.hex.take 20).drop 16).reverse := by
      simp [Uuid.str]
    rw [hsplit, List.take_append, List.take_of_length_le hlen]
    simp
  rw [← htake] at hmem
  obtain ⟨d, hd⟩ := mem_digest (List.mem_reverse.mp (List.mem_of_mem_take hmem))
  exact hne d hd.symm

end CacheKeys

end DocSearch
