import DocSearch.Clients.InMemoryEngine
import DocSearch.Core.Sample

/-!
# Clients — tenants do not interfere in a search

A search sees the index through the documents of the tenant it is made for.  Two states that
hold the same documents of a tenant, in whatever order and among whatever documents of others,
answer it alike.

* `vocabulary_perm`, `documentFrequency_perm`, `scoreOf_perm`: what is computed from the corpus
  does not depend on its order.
* `scored_perm`: the sort key separates the documents of an index, so the ranking does not either.
* `search_isolated`: the answer of `search`.
-/

namespace DocSearch

namespace InMemoryEngine

/-- The states that bulk calls lead to. -/
inductive Reached : State → Prop where
  | initial : Reached .initial
  | bulk {st : State} (ops : List Operation) : Reached st → Reached (InMemoryEngine.bulk st ops).2

/-- Bulk calls do not make the engine unavailable. -/
theorem Reached.available {st : State} (h : Reached st) : st.available = true := by
  induction h with
  | initial => rfl
  | bulk ops _ ih =>
      rw [InMemoryEngine.bulk, if_pos ih]
      exact ih

/-- The documents of a tenant, in the order of the index. -/
def documentsOf (docs : Docs) (tenantId : Str) : List StoredDoc :=
  docs.dict.values.filter fun d => decide (d.tenantId = tenantId)

section Perm

variable {K : Type} {rt : Runtime K} {c c' : List StoredDoc}

/-! ### Statistics of the corpus -/

theorem vocabulary_perm (u : Unicode) (h : c.Perm c') : vocabulary u c = vocabulary u c' :=
  List.toFinset_eq_of_perm _ _ (h.flatMap_right _)

theorem documentFrequency_perm (u : Unicode) (h : c.Perm c') :
    documentFrequency u c = documentFrequency u c' := by
  funext term
  exact (h.filter _).length_eq

theorem effective_perm (q : SearchQuery) (h : c.Perm c') :
    effective rt q c = effective rt q c' := by
  funext terms
  simp only [effective, vocabulary_perm _ h]

variable [Field K]

theorem scoreOf_perm (h : c.Perm c') : scoreOf rt c = scoreOf rt c' := by
  funext terms d
  simp only [scoreOf, documentFrequency_perm _ h, h.length_eq]

variable [LinearOrder K]

theorem matching_perm (q : SearchQuery) (h : c.Perm c') :
    (matching rt q c).Perm (matching rt q c') := by
  simp only [matching, effective_perm q h, scoreOf_perm h]
  split
  · exact .refl _
  · exact h.filterMap _

/-! ### The ranking -/

instance : Std.Total (ranksBefore (K := K)) where
  total a b := by
    rcases lt_trichotomy a.1 b.1 with hlt | heq | hgt
    · exact .inr (.inl hlt)
    · rcases le_total a.2.documentId b.2.documentId with h | h
      · exact .inl (.inr ⟨heq, h⟩)
      · exact .inr (.inr ⟨heq.symm, h⟩)
    · exact .inl (.inl hgt)

instance : IsTrans (K × StoredDoc) ranksBefore where
  trans a b c hab hbc := by
    rcases hab with hab | ⟨hab, hid⟩
    · rcases hbc with hbc | ⟨hbc, -⟩
      · exact .inl (hbc.trans hab)
      · exact .inl (hbc ▸ hab)
    · rcases hbc with hbc | ⟨hbc, hid'⟩
      · exact .inl (hab ▸ hbc)
      · exact .inr ⟨hab.trans hbc, hid.trans hid'⟩

omit [Field K] in
/-- Two documents rank before each other only with one id. -/
theorem documentId_of_ranksBefore {a b : K × StoredDoc} (hab : ranksBefore a b)
    (hba : ranksBefore b a) : a.1 = b.1 ∧ a.2.documentId = b.2.documentId := by
  rcases hab with hab | ⟨hab, hid⟩
  · rcases hba with hba | ⟨hba, -⟩
    · exact absurd hab hba.asymm
    · exact absurd hba.symm hab.ne'
  · rcases hba with hba | ⟨-, hid'⟩
    · exact absurd hab hba.ne
    · exact ⟨hab, le_antisymm hid hid'⟩

theorem pairwise_scored (rt : Runtime K) (q : SearchQuery) (c : List StoredDoc) :
    (scored rt q c).Pairwise ranksBefore :=
  List.pairwise_insertionSort ranksBefore _

/-- **The ranking of a corpus without repeated ids does not depend on its order.** -/
theorem scored_perm (q : SearchQuery) (h : c.Perm c') (hn : (c.map StoredDoc.documentId).Nodup) :
    scored rt q c = scored rt q c' := by
  have hperm : (scored rt q c).Perm (scored rt q c') :=
    (List.perm_insertionSort _ _).trans
      ((matching_perm q h).trans (List.perm_insertionSort _ _).symm)
  refine hperm.eq_of_pairwise (fun a b ha hb hab hba => ?_) (pairwise_scored rt q c)
    (pairwise_scored rt q c')
  obtain ⟨hscore, hid⟩ := documentId_of_ranksBefore hab hba
  have hdoc : a.2 = b.2 :=
    List.inj_on_of_nodup_map hn (mem_scored ha) (h.mem_iff.mpr (mem_scored hb)) hid
  exact Prod.ext hscore hdoc

/-! ### Non-interference -/

/-- **What a search answers is a function of the documents of its tenant.** -/
theorem search_isolated {st st' : State} (hst : Reached st) (hst' : Reached st') {tenantId : Str}
    (h : (documentsOf st.docs tenantId).Perm (documentsOf st'.docs tenantId)) {q : SearchQuery}
    (hq : q.tenantId = tenantId) : search rt st q = search rt st' q := by
  subst hq
  have hscored : scored rt q (corpus st.docs q) = scored rt q (corpus st'.docs q) :=
    scored_perm q h (nodup_corpus st.docs q)
  rw [search, search, hst.available, hst'.available, hscored]

end Perm

end InMemoryEngine

namespace Sample

open InMemoryEngine

/-- The indexing of a document with the sample payload. -/
def indexOperation (tenantId : Str) (d : Uuid) : Operation :=
  .index d.str tenantId 1
    { documentId := d.str
      tenantId := tenantId
      title := payload.title
      content := payload.content
      contentType := payload.contentType
      tags := payload.tags
      metadata := payload.metadata
      version := 1
      createdAt := 0
      updatedAt := 0 }

/-- A document of another tenant with the same text, written first. -/
theorem search_isolated_sample :
    search runtime (bulk .initial [indexOperation acme documentA]).2 (query acme) =
      search runtime (bulk (bulk .initial [indexOperation globex documentB]).2
        [indexOperation acme documentA]).2 (query acme) :=
  search_isolated (.bulk _ .initial) (.bulk _ (.bulk _ .initial)) (.of_eq rfl) rfl

end Sample

end DocSearch
