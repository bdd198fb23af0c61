import DocSearch.Clients.Ranking

/-!
# Clients — Facets

The facets of a search count the values of all that is found, and not of the page that is asked for.

* `get?_counter`: a counter holds how often each value occurs.
* `topCounts_mostCommon`: the most common values, with how often they occur.
* `facets_cover_pages`: the facets on any page are the top ten over the hits of all pages.
-/

namespace DocSearch

/-! ### Counters -/

theorem counter_snoc (xs : List Str) (x : Str) :
    counter (xs ++ [x]) = (counter xs).set x (((counter xs).get? x).getD 0 + 1) := by
  rw [counter, List.foldl_append]
  rfl

/-- **A counter holds how often each value occurs.** -/
theorem get?_counter (xs : List Str) (a : Str) :
    (counter xs).get? a = if a ∈ xs then some (xs.count a) else none := by
  induction xs using List.reverseRecOn with
  | nil => rfl
  | append_singleton xs x ih =>
      rw [counter_snoc, Dict.get?_set]
      by_cases ha : a = x
      · subst ha
        have hbefore : ((counter xs).get? a).getD 0 = xs.count a := by
          rw [ih]
          split
          · rfl
          · rename_i hnot
            exact (List.count_eq_zero.mpr hnot).symm
        rw [if_pos rfl, if_pos (List.mem_append_right _ List.mem_cons_self), hbefore,
          List.count_append, List.count_singleton_self]
      · have hmem : a ∈ xs ++ [x] ↔ a ∈ xs := by
          rw [List.mem_append, List.mem_singleton, or_iff_left ha]
        have hcount : (xs ++ [x]).count a = xs.count a := by
          rw [List.count_append, List.count_eq_zero.mpr (mt List.mem_singleton.mp ha), Nat.add_zero]
        rw [if_neg ha, ih, hcount]
        simp only [hmem]

/-- The entries are the values that occur, each with its count. -/
theorem mem_entries_counter {xs : List Str} {a : Str} {c : ℕ} :
    (a, c) ∈ (counter xs).entries ↔ a ∈ xs ∧ c = xs.count a := by
  rw [Dict.mem_entries_iff, get?_counter]
  split
  · rename_i ha
    rw [Option.some_inj, eq_comm]
    exact (and_iff_right ha).symm
  · rename_i ha
    exact iff_of_false (fun h => by cases h) fun h => ha h.1

/-- **The `n` most common values** of a list, the most common first, each with how often it
occurs. -/
structure TopCounts (n : ℕ) (xs : List Str) (top : List (Str × ℕ)) : Prop where
  length_le : top.length ≤ n
  nodup : (top.map Prod.fst).Nodup
  sorted : top.Pairwise fun a b => b.2 ≤ a.2
  counts : ∀ p ∈ top, p.1 ∈ xs ∧ p.2 = xs.count p.1
  /-- A value is left out for `n` others that are as common. -/
  best : ∀ x ∈ xs, x ∉ top.map Prod.fst → top.length = n ∧ ∀ p ∈ top, xs.count x ≤ p.2

theorem topCounts_mostCommon (n : ℕ) (xs : List Str) : TopCounts n xs (mostCommon n xs) := by
  set sorted := (counter xs).entries.insertionSort fun a b => b.2 ≤ a.2 with hsorted
  have hperm : sorted.Perm (counter xs).entries := List.perm_insertionSort _ _
  have hpair : sorted.Pairwise fun a b => b.2 ≤ a.2 :=
    List.pairwise_insertionSort (fun a b : Str × ℕ => b.2 ≤ a.2) _
  have htop : mostCommon n xs = sorted.take n := rfl
  rw [htop]
  refine ⟨List.length_take_le _ _, ?_, hpair.sublist (List.take_sublist _ _), fun p hp => ?_,
    fun x hx hnot => ?_⟩
  · have hkeys : (sorted.map Prod.fst).Nodup := (hperm.map _).nodup_iff.mpr (counter xs).nodup
    exact hkeys.sublist ((List.take_sublist _ _).map _)
  · exact mem_entries_counter.mp (hperm.mem_iff.mp (List.mem_of_mem_take hp))
  · -- the value comes after the first `n`
    have hmem : (x, xs.count x) ∈ sorted := hperm.mem_iff.mpr (mem_entries_counter.mpr ⟨hx, rfl⟩)
    rw [← List.take_append_drop n sorted, List.mem_append] at hmem
    have hdrop : (x, xs.count x) ∈ sorted.drop n :=
      hmem.resolve_left fun htake => hnot (List.mem_map_of_mem htake)
    constructor
    · have hlt : n < sorted.length := by
        by_contra hle
        rw [List.drop_eq_nil_of_le (not_lt.mp hle)] at hdrop
        exact List.not_mem_nil hdrop
      rw [List.length_take, min_eq_left hlt.le]
    · rw [← List.take_append_drop n sorted] at hpair
      exact fun p hp => (List.pairwise_append.mp hpair).2.2 p hp _ hdrop

/-! ### The facets of a search -/

namespace InMemoryEngine

variable {K : Type}

/-- The content types that hits have, but for empty ones. -/
def contentTypesOf (hits : List (EngineHit K)) : List Str :=
  (hits.filterMap EngineHit.contentType).filter fun c => decide (c ≠ [])

/-- Their tags, a tag as often as a hit has it. -/
def tagsOf (hits : List (EngineHit K)) : List Str := hits.flatMap EngineHit.tags

/-- The facets are counted from what a hit shows. -/
theorem facetsOf_eq [Field K] [LinearOrder K] (rt : Runtime K) (terms : List Str) (highlight : Bool)
    (scored : List (K × StoredDoc)) :
    facetsOf scored =
      [("content_type".toList,
          mostCommon 10 (contentTypesOf (scored.map (toHit rt terms highlight)))),
        ("tags".toList, mostCommon 10 (tagsOf (scored.map (toHit rt terms highlight))))] := by
  have htypes : (scored.map (toHit rt terms highlight)).filterMap EngineHit.contentType =
      scored.map fun p => p.2.source.contentType := by
    rw [List.filterMap_map, ← List.filterMap_eq_map]
    rfl
  have htags : tagsOf (scored.map (toHit rt terms highlight)) =
      scored.flatMap fun p => p.2.source.tags := by
    rw [tagsOf, List.flatMap_map]
    rfl
  rw [contentTypesOf, htypes, htags, facetsOf]

/-- **The facets do not depend on the page**: on each page of a query they are the ten most common
content types and tags, and how often they occur, among the hits of all its pages. -/
theorem facets_cover_pages [Field K] [LinearOrder K] {rt : Runtime K} {st : State}
    (hst : st.available = true) {q : SearchQuery} (hsize : 1 ≤ q.size) (hfacets : q.facets = true)
    (page : ℤ) : ∃ r contentTypes tags, search rt st { q with page := page } = .ok r ∧
      r.facets = [("content_type".toList, contentTypes), ("tags".toList, tags)] ∧
      ∀ n : ℕ, r.total ≤ n * q.size →
        TopCounts 10 (contentTypesOf (firstPages rt st q n)) contentTypes ∧
          TopCounts 10 (tagsOf (firstPages rt st q n)) tags := by
  refine ⟨_, _, _, if_pos hst, (if_pos hfacets).trans (facetsOf_eq rt
    (tokenize rt.toUnicode q.text) q.highlight (scored rt q (corpus st.docs q))), fun n hn => ?_⟩
  -- the first pages hold all hits
  have hcovered : (scored rt q (corpus st.docs q)).length ≤ n * q.size.toNat := by
    have hs : (q.size.toNat : ℤ) = q.size := Int.toNat_of_nonneg (zero_le_one.trans hsize)
    rw [← hs] at hn
    exact_mod_cast hn
  have hpages : firstPages rt st q n = _ := firstPages_eq hst hsize n
  rw [List.take_of_length_le hcovered] at hpages
  rw [hpages]
  exact ⟨topCounts_mostCommon 10 _, topCounts_mostCommon 10 _⟩

end InMemoryEngine

namespace Sample

open InMemoryEngine

/-- The indexing of a document of the tenant with some tags. -/
def taggedOperation (d : Uuid) (tags : List String) : Operation :=
  .index d.str acme 1
    { documentId := d.str
      tenantId := acme
      title := payload.title
      content := payload.content
      contentType := payload.contentType
      tags := tags.map String.toList
      metadata := payload.metadata
      version := 1
      createdAt := 0
      updatedAt := 0 }

/-- One document has a tag twice. -/
def taggedState : State :=
  (bulk .initial [taggedOperation documentA ["tax", "tax"], taggedOperation documentB ["tax"]]).2

/-- A page of one hit, with facets. -/
def facetQuery : SearchQuery := { query acme with size := 1, facets := true }

example : mostCommon 2 (["b", "a", "c", "a", "c"].map String.toList) =
    [("a".toList, 2), ("c".toList, 2)] := by decide +kernel

theorem facets_cover_pages_sample :
    ∃ r contentTypes tags, search runtime taggedState { facetQuery with page := 2 } = .ok r ∧
      r.facets = [("content_type".toList, contentTypes), ("tags".toList, tags)] ∧
      ∀ n : ℕ, r.total ≤ n * facetQuery.size →
        TopCounts 10 (contentTypesOf (firstPages runtime taggedState facetQuery n)) contentTypes ∧
          TopCounts 10 (tagsOf (firstPages runtime taggedState facetQuery n)) tags :=
  facets_cover_pages rfl (by decide) rfl 2

end Sample

end DocSearch
