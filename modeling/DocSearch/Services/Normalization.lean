import DocSearch.Clients.Isolation
import DocSearch.Services.SearchService
import Mathlib.Data.List.TakeWhile

/-!
# Services — Normalization

What `normalize_query` keeps of a text, and what a search key keeps of a query.  A text and its
normal form have the same tokens, and the engine reads nothing else of it.

* `Unicode.Lowers`: what the search relies on of `str.lower`.
* `tokenize_eq`: the tokens of a text are those of its normal form.
* `canonical_inj`, `keyOf_inj`: what the key of a search determines.
* `execute_congr`: queries of one canonical form have one answer, but for the text they echo.
* `normalization_preserves`: texts of one normal form have one list of tokens, and searches that
  share a key one answer of the engine.
-/

namespace DocSearch

open CacheKeys InMemoryEngine SearchService

/-- White space around a text is no part of a word, so `str.lower` leaves it, and what stands
between it, as they are. -/
structure Unicode.Lowers (u : Unicode) : Prop where
  around : ∀ {a b : Str} (s : Str), (∀ c ∈ a, u.space c = true) → (∀ c ∈ b, u.space c = true) →
    u.lower (a ++ s ++ b) = a ++ u.lower s ++ b

/-! ### Tokens -/

theorem isTokenChar_of_space {u : Unicode} {c : Char} (h : u.space c = true) :
    isTokenChar c = false := by
  have hnat : ∀ a b : Char, a ≤ b ↔ a.toNat ≤ b.toNat := fun a b => Char.le_def
  rw [isTokenChar, Bool.or_eq_false_iff, Bool.and_eq_false_iff, Bool.and_eq_false_iff]
  simp only [decide_eq_false_iff_not, hnat]
  unfold Unicode.space at h
  split at h
  · simp only [Bool.or_eq_true, Bool.and_eq_true, decide_eq_true_eq] at h
    rcases h with (rfl | h) | h
    · decide
    · have : 'a'.toNat = 97 ∧ '0'.toNat = 48 := by decide
      omega
    · have : 'a'.toNat = 97 ∧ '0'.toNat = 48 := by decide
      omega
  · have : 'z'.toNat = 122 ∧ '9'.toNat = 57 := by decide
    omega

theorem findTokens_of_not {c : Char} (h : isTokenChar c = false) (run s : Str) :
    findTokens run (c :: s) = findTokens run [] ++ findTokens [] s := by
  by_cases hr : run = [] <;> simp [findTokens, h, hr]

/-- Separators before a text are no part of a token. -/
theorem findTokens_separators_append {a : Str} (h : ∀ c ∈ a, isTokenChar c = false) (s : Str) :
    findTokens [] (a ++ s) = findTokens [] s := by
  induction a with
  | nil => rfl
  | cons c a ih =>
      rw [List.cons_append, findTokens_of_not (h c List.mem_cons_self),
        ih fun d hd => h d (List.mem_cons_of_mem c hd)]
      rfl

/-- Nor are separators after it. -/
theorem findTokens_append_separators {b : Str} (h : ∀ c ∈ b, isTokenChar c = false) (run s : Str) :
    findTokens run (s ++ b) = findTokens run s := by
  induction s generalizing run with
  | nil =>
      cases b with
      | nil => rfl
      | cons c b =>
          have hb := findTokens_separators_append (fun d hd => h d (List.mem_cons_of_mem c hd)) []
          rw [List.append_nil] at hb
          rw [List.nil_append, findTokens_of_not (h c List.mem_cons_self), hb]
          exact List.append_nil _
  | cons c s ih =>
      by_cases hc : isTokenChar c = true
      · simp [findTokens, hc, ih]
      · have hc := Bool.eq_false_iff.mpr hc
        rw [List.cons_append, findTokens_of_not hc, findTokens_of_not hc, ih]

/-- A run of white space separates as one space does. -/
theorem findTokens_collapse (u : Unicode) (s run : Str) :
    findTokens run (collapse u false s) = findTokens run s ∧
      findTokens [] (collapse u true s) = findTokens [] s := by
  induction s generalizing run with
  | nil => exact ⟨rfl, rfl⟩
  | cons c s ih =>
      by_cases hc : u.space c = true
      · have hsep : isTokenChar ' ' = false := by decide
        simp only [collapse, hc, if_true, Bool.false_eq_true, if_false]
        rw [findTokens_of_not hsep, findTokens_of_not (isTokenChar_of_space hc),
          findTokens_of_not (isTokenChar_of_space hc), (ih []).2]
        exact ⟨rfl, rfl⟩
      · simp only [collapse, hc, if_false, Bool.false_eq_true]
        by_cases ht : isTokenChar c = true
        · simp only [findTokens, ht, if_true, (ih _).1, and_self]
        · have ht := Bool.eq_false_iff.mpr ht
          rw [findTokens_of_not ht, findTokens_of_not ht, findTokens_of_not ht, findTokens_of_not ht,
            (ih []).1]
          exact ⟨rfl, rfl⟩

/-- What `strip` takes away is white space. -/
theorem exists_pyStrip (p : Char → Bool) (s : Str) :
    ∃ a b, s = a ++ pyStrip p s ++ b ∧ (∀ c ∈ a, p c = true) ∧ ∀ c ∈ b, p c = true := by
  have hall : ∀ l : Str, ∀ c ∈ l.takeWhile p, p c = true := fun l c hc => List.mem_takeWhile_imp hc
  refine ⟨s.takeWhile p, ((s.dropWhile p).reverse.takeWhile p).reverse, ?_, hall s, fun c hc =>
    hall _ c (List.mem_reverse.mp hc)⟩
  rw [pyStrip, List.append_assoc, ← List.reverse_append, List.takeWhile_append_dropWhile,
    List.reverse_reverse, List.takeWhile_append_dropWhile]

/-- **A text and its normal form have the same tokens.** -/
theorem tokenize_eq {u : Unicode} (hu : u.Lowers) (text : Str) :
    tokenize u text = (findTokens [] (normalizeQuery u text)).filter fun t => decide (t ∉ stopwords) := by
  obtain ⟨a, b, hs, ha, hb⟩ := exists_pyStrip u.space text
  have hlower : u.lower text = a ++ u.lower (pyStrip u.space text) ++ b := by
    rw [← hu.around _ ha hb, ← hs]
  have htokens : findTokens [] (u.lower text) = findTokens [] (u.lower (pyStrip u.space text)) := by
    rw [hlower, findTokens_append_separators fun c hc => isTokenChar_of_space (hb c hc),
      findTokens_separators_append fun c hc => isTokenChar_of_space (ha c hc)]
  rw [tokenize, htokens, normalizeQuery, (findTokens_collapse u _ []).1]

/-! ### What a search key determines -/

theorem notMem_strNat {c : Char} (hc : c.isDigit = false) (n : ℕ) : c ∉ strNat n := fun h => by
  rw [isDigit_of_mem_strNat h] at hc
  cases hc

theorem notMem_strInt {c : Char} (hc : c.isDigit = false) (hm : c ≠ '-') (n : ℤ) : c ∉ strInt n := by
  cases n with
  | ofNat n => exact notMem_strNat hc n
  | negSucc n =>
      intro h
      rcases List.mem_cons.mp h with h | h
      · exact hm h
      · exact notMem_strNat hc _ h

theorem strInt_injective : Function.Injective strInt := by
  have hne : ∀ m n : ℕ, strNat m ≠ '-' :: strNat n := fun m n h => by
    have hd := isDigit_of_mem_strNat (n := m) (h ▸ List.mem_cons_self)
    revert hd
    decide
  intro m n h
  cases m with
  | ofNat m =>
      cases n with
      | ofNat n => exact congrArg Int.ofNat (strNat_injective h)
      | negSucc n => exact absurd h (hne _ _)
  | negSucc m =>
      cases n with
      | ofNat n => exact absurd h.symm (hne _ _)
      | negSucc n =>
          exact congrArg Int.negSucc (Nat.succ_injective (strNat_injective (List.cons.inj h).2))

/-- A field of the canonical form, read from its right end. -/
theorem field_inj {x y a b : Str} (name : Str) (hn : '|' ∉ name) (ha : '|' ∉ a) (hb : '|' ∉ b)
    (h : x ++ '|' :: name ++ a = y ++ '|' :: name ++ b) : x = y ∧ a = b := by
  rw [List.append_assoc, List.append_assoc, List.cons_append, List.cons_append] at h
  obtain ⟨hxy, hab⟩ := append_cons_inj (by simp [hn, ha]) (by simp [hn, hb]) h
  exact ⟨hxy, List.append_cancel_left hab⟩

/-- The canonical form determines the normal form of the text and the other parameters. -/
theorem canonical_inj {u : Unicode} {t t' : Str} {p p' s s' : ℤ} {f f' hl hl' fc fc' : Bool}
    (h : canonical u t p s f hl fc = canonical u t' p' s' f' hl' fc') :
    normalizeQuery u t = normalizeQuery u t' ∧ p = p' ∧ s = s' ∧ f = f' ∧ hl = hl' ∧ fc = fc' := by
  have hbool : ∀ b b' : Bool, strNat b.toNat = strNat b'.toNat → b = b' := by decide
  have hnat : ∀ n, '|' ∉ strNat n := notMem_strNat (by decide)
  have hint : ∀ n, '|' ∉ strInt n := notMem_strInt (by decide) (by decide)
  unfold canonical at h
  obtain ⟨h, ha⟩ := field_inj "a=".toList (by decide) (hnat _) (hnat _) h
  obtain ⟨h, hh⟩ := field_inj "h=".toList (by decide) (hnat _) (hnat _) h
  obtain ⟨h, hf⟩ := field_inj "f=".toList (by decide) (hnat _) (hnat _) h
  obtain ⟨h, hs⟩ := field_inj "s=".toList (by decide) (hint _) (hint _) h
  obtain ⟨h, hp⟩ := field_inj "p=".toList (by decide) (hint _) (hint _) h
  exact ⟨h, strInt_injective hp, strInt_injective hs, hbool _ _ hf, hbool _ _ hh, hbool _ _ ha⟩

section Query

variable {K : Type} {rt : Runtime K} {q q' : SearchQuery}

/-- `canonical`, for the parameters of a query. -/
def canonicalOf (rt : Runtime K) (q : SearchQuery) : Str :=
  canonical rt.toUnicode q.text q.page q.size q.fuzzy q.highlight q.facets

/-- The digits a search key keeps of it. -/
def digestOf (rt : Runtime K) (q : SearchQuery) : Str := (rt.hexdigest (canonicalOf rt q)).take 24

theorem keyOf_inj {g g' : ℕ} (h : keyOf rt g q = keyOf rt g' q') :
    q.tenantId = q'.tenantId ∧ digestOf rt q = digestOf rt q' :=
  ⟨(searchKey_inj h).1, (List.append_inj' h (by rw [length_digest, length_digest])).2⟩

/-- Queries that share these digits share the canonical form. -/
def CollisionFree (rt : Runtime K) (Q : SearchQuery → Prop) : Prop :=
  ∀ q q', Q q → Q q' → digestOf rt q = digestOf rt q' → canonicalOf rt q = canonicalOf rt q'

/-- The queries of one tenant with one canonical form are one but for their texts, and those have
the same tokens. -/
structure Alike (rt : Runtime K) (q q' : SearchQuery) : Prop where
  rest : q' = { q with text := q'.text }
  tokens : tokenize rt.toUnicode q'.text = tokenize rt.toUnicode q.text

theorem alike_of_canonical (hu : rt.toUnicode.Lowers) (ht : q.tenantId = q'.tenantId)
    (hc : canonicalOf rt q = canonicalOf rt q') : Alike rt q q' := by
  obtain ⟨hn, hp, hs, hf, hh, hfc⟩ := canonical_inj hc
  refine ⟨?_, ?_⟩
  · rw [ht, hp, hs, hf, hh, hfc]
  · rw [tokenize_eq hu, tokenize_eq hu, hn]

end Query

section Execute

variable {K : Type} [Field K] [LinearOrder K] {rt : Runtime K} {q q' : SearchQuery}

/-- The engine reads nothing of a text but its tokens. -/
theorem search_congr (h : Alike rt q q') (st : State) :
    InMemoryEngine.search rt st q' = InMemoryEngine.search rt st q := by
  have hmatch : ∀ c, matching rt q' c = matching rt q c := by
    intro c
    unfold matching effective
    rw [h.tokens, h.rest]
  unfold InMemoryEngine.search scored
  rw [hmatch, h.tokens, h.rest]
  rfl

/-- The answer, with another text echoed. -/
def echoing (text : Str) (a : Answer K) : Answer K :=
  { a with response := { a.response with query := text } }

/-- **Queries of one canonical form** have one answer, but for the text it echoes. -/
theorem execute_congr (h : Alike rt q q') (w : World (inMemory rt)) :
    execute w q' = (execute w q).map (echoing q'.text) := by
  have hs : (inMemory rt).search w.engine q' = (inMemory rt).search w.engine q :=
    search_congr h w.engine
  unfold execute
  rw [hs]
  split
  · rw [h.rest]
    rfl
  · rfl
  · rfl

/-- **Normalisation preserves** the tokens the engine searches for, and so what it finds for the
queries of one key. -/
theorem normalization_preserves (hu : rt.toUnicode.Lowers) :
    (∀ text text' : Str, normalizeQuery rt.toUnicode text = normalizeQuery rt.toUnicode text' →
      tokenize rt.toUnicode text = tokenize rt.toUnicode text') ∧
    ∀ (q q' : SearchQuery) (g g' : ℕ),
      (digestOf rt q = digestOf rt q' → canonicalOf rt q = canonicalOf rt q') →
      keyOf rt g q = keyOf rt g' q' →
      ∀ st : State, InMemoryEngine.search rt st q = InMemoryEngine.search rt st q' := by
  constructor
  · intro text text' h
    rw [tokenize_eq hu, tokenize_eq hu, h]
  · intro q q' g g' hfree hkey st
    obtain ⟨ht, hdigest⟩ := keyOf_inj hkey
    exact (search_congr (alike_of_canonical hu ht (hfree hdigest)) st).symm

end Execute

namespace Sample

/-- White space is no letter, so `lower` leaves it alone. -/
theorem toLower_of_space {c : Char} (h : unicode.space c = true) : c.toLower = c := by
  have hA : 'A'.val ≤ c.val ↔ 65 ≤ c.toNat := UInt32.le_iff_toNat_le
  unfold Unicode.space at h
  split at h
  · simp only [Bool.or_eq_true, Bool.and_eq_true, decide_eq_true_eq] at h
    refine dif_neg fun hc => ?_
    have hle := hA.mp hc.1
    rcases h with (rfl | h) | h
    · exact absurd hle (by decide)
    · omega
    · omega
  · cases h

theorem unicode_lowers : unicode.Lowers where
  around {a b} s ha hb := by
    have hmap : ∀ l : Str, (∀ c ∈ l, unicode.space c = true) → l.map Char.toLower = l := fun l hl =>
      (List.map_congr_left fun c hc => toLower_of_space (hl c hc)).trans (List.map_id l)
    change (a ++ s ++ b).map Char.toLower = a ++ s.map Char.toLower ++ b
    rw [List.map_append, List.map_append, hmap a ha, hmap b hb]

/-- A text and its normal form, over an index that holds a document of the tenant. -/
theorem normalization_preserves_sample :
    tokenize runtime.toUnicode " Revenue  ".toList = tokenize runtime.toUnicode "revenue".toList ∧
      InMemoryEngine.search runtime (bulk .initial [indexOperation acme documentA]).2 (query acme) =
        InMemoryEngine.search runtime (bulk .initial [indexOperation acme documentA]).2
          { query acme with text := " Revenue  ".toList } :=
  have h := @normalization_preserves ℚ _ _ runtime unicode_lowers
  ⟨h.1 _ _ (by decide), h.2 _ _ 3 3 (fun _ => by decide +kernel) (by decide +kernel) _⟩

end Sample

end DocSearch
