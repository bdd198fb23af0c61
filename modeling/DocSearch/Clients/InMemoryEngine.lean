import DocSearch.Clients.SearchEngine
import Mathlib.Data.Char
import Mathlib.Data.List.Lex

/-!
# Clients — InMemoryEngine

`InMemorySearchEngine`: external versioning, tokenisation, fuzzy correction, scoring, pagination,
highlighting and facets.

* `get?_apply`, `get?_applyAll`: what one operation, and a batch whose operations name different
  documents, leaves under each document id.
* `mem_hits`: a hit is a stored document of the tenant of the query.
* `nodup_scored`: no document is found twice.
-/

namespace DocSearch

namespace InMemoryEngine

/-- `_StoredDoc`. -/
structure StoredDoc where
  documentId : Str
  tenantId : Str
  version : ℤ
  source : SearchSource

/-- `_docs`: every document is stored under its own id. -/
structure Docs where
  dict : Dict Str StoredDoc
  keyed : ∀ {k d}, dict.get? k = some d → d.documentId = k

namespace Docs

def empty : Docs := ⟨.empty, fun h => by cases h⟩

def get? (docs : Docs) (k : Str) : Option StoredDoc := docs.dict.get? k

def set (docs : Docs) (d : StoredDoc) : Docs where
  dict := docs.dict.set d.documentId d
  keyed := fun {k e} h => by
    rw [Dict.get?_set] at h
    split at h
    · rename_i hk; cases h; exact hk.symm
    · exact docs.keyed h

def pop (docs : Docs) (k : Str) : Docs where
  dict := docs.dict.pop k
  keyed := fun {a e} h => by
    rw [Dict.get?_pop] at h
    split at h
    · cases h
    · exact docs.keyed h

@[simp] theorem get?_empty (k : Str) : empty.get? k = none := rfl

theorem get?_set (docs : Docs) (d : StoredDoc) (k : Str) :
    (docs.set d).get? k = if k = d.documentId then some d else docs.get? k :=
  docs.dict.get?_set d.documentId d k

theorem get?_pop (docs : Docs) (k a : Str) :
    (docs.pop k).get? a = if a = k then none else docs.get? a :=
  docs.dict.get?_pop k a

end Docs

structure State where
  docs : Docs
  available : Bool

/-- A new engine. -/
def State.initial : State := ⟨.empty, true⟩

/-! ### bulk -/

/-- One operation of a bulk call. -/
def apply (docs : Docs) (op : Operation) : Docs :=
  match docs.get? op.documentId with
  -- external versioning: an older or duplicate event is a successful no-op
  | some existing => if op.version ≤ existing.version then docs else write docs op
  | none => write docs op
where
  write (docs : Docs) : Operation → Docs
    | .index documentId tenantId version source => docs.set ⟨documentId, tenantId, version, source⟩
    | .delete documentId _ _ => docs.pop documentId

def applyAll (docs : Docs) (ops : List Operation) : Docs := ops.foldl apply docs

/-- `_guard`. -/
def unavailable : EngineError := .other "search engine unavailable".toList

def bulk (st : State) (ops : List Operation) : Except EngineError BulkResult × State :=
  if st.available then
    (.ok ⟨ops.map Operation.documentId, []⟩, { st with docs := applyAll st.docs ops })
  else (.error unavailable, st)

/-! ### Tokens -/

def isTokenChar (c : Char) : Bool := ('a' ≤ c && c ≤ 'z') || ('0' ≤ c && c ≤ '9')

/-- `re.findall(r"[a-z0-9]+", s)`, with the run being read. -/
def findTokens (run : Str) : Str → List Str
  | [] => if run = [] then [] else [run]
  | c :: s =>
      if isTokenChar c then findTokens (run ++ [c]) s
      else if run = [] then findTokens [] s
      else run :: findTokens [] s

def stopwords : List Str :=
  ["the", "a", "an", "of", "and", "or", "to", "in", "is", "it", "for", "on"].map String.toList

def tokenize (u : Unicode) (text : Str) : List Str :=
  (findTokens [] (u.lower text)).filter fun t => decide (t ∉ stopwords)

def StoredDoc.titleTokens (u : Unicode) (d : StoredDoc) : List Str := tokenize u d.source.title

def StoredDoc.contentTokens (u : Unicode) (d : StoredDoc) : List Str := tokenize u d.source.content

/-! ### Fuzzy correction -/

/-- The loop of `_edit_distance_at_most_one`, over what is left of the shorter and of the longer
string. -/
def editLoop : Bool → Str → Str → Bool
  | _, [], _ => true
  | _, _ :: _, [] => true
  | skipped, x :: shorter, y :: longer =>
      if x ≠ y then if skipped then false else editLoop true (x :: shorter) longer
      else editLoop skipped shorter longer

def editDistanceAtMostOne (a b : Str) : Bool :=
  if a = b then true
  else if a.length = b.length then
    ((a.zip b).filter fun p => decide (p.1 ≠ p.2)).length == 1
  else if a.length < b.length then editLoop false a b
  else editLoop false b a

/-- `_closest`, over the candidates in the order they come. -/
def closest (term : Str) (vocabulary : List Str) : Option Str :=
  vocabulary.foldl
    (fun best candidate =>
      if 1 < ((candidate.length : ℤ) - term.length).natAbs then best
      else if editDistanceAtMostOne term candidate &&
          best.all (fun b => decide (candidate.length < b.length)) then some candidate
      else best)
    none

/-! ### search -/

section Search

variable {K : Type} [Field K] [LinearOrder K]

def corpus (docs : Docs) (q : SearchQuery) : List StoredDoc :=
  docs.dict.values.filter fun d => decide (d.tenantId = q.tenantId)

def vocabulary (u : Unicode) (corpus : List StoredDoc) : Finset Str :=
  (corpus.flatMap fun d => d.titleTokens u ++ d.contentTokens u).toFinset

def effective (rt : Runtime K) (q : SearchQuery) (corpus : List StoredDoc) (terms : List Str) :
    List Str :=
  terms.map fun term =>
    if term ∈ vocabulary rt.toUnicode corpus || !q.fuzzy then term
    else
      match closest term (rt.iterateSet (vocabulary rt.toUnicode corpus)) with
      | some candidate => if candidate = [] then term else candidate
      | none => term

/-- `df[term]`. -/
def documentFrequency (u : Unicode) (corpus : List StoredDoc) (term : Str) : ℕ :=
  (corpus.filter fun d => decide (term ∈ d.titleTokens u) || decide (term ∈ d.contentTokens u)).length

def termFrequency (u : Unicode) (d : StoredDoc) (term : Str) : ℕ :=
  (d.titleTokens u).count term * 3 + (d.contentTokens u).count term

/-- The number of effective terms the document contains, and its score. -/
def scoreOf (rt : Runtime K) (corpus : List StoredDoc) (effective : List Str) (d : StoredDoc) :
    ℕ × K :=
  let nDocs : K := (max corpus.length 1 : ℕ)
  let lengthNorm : K := 1 + rt.log (1 + ((d.contentTokens rt.toUnicode).length : K)) / 10
  effective.foldl
    (fun acc term =>
      let tf : K := (termFrequency rt.toUnicode d term : ℕ)
      let df : K := (documentFrequency rt.toUnicode corpus term : ℕ)
      if termFrequency rt.toUnicode d term = 0 then acc
      else
        let idf := rt.log (1 + (nDocs - df + 1 / 2) / (df + 1 / 2))
        (acc.1 + 1, acc.2 + idf * (tf / (tf + 6 / 5)) / lengthNorm))
    (0, 0)

/-- What a term contributes to it. -/
def termScore (rt : Runtime K) (c : List StoredDoc) (d : StoredDoc) (term : Str) : K :=
  let nDocs : K := (max c.length 1 : ℕ)
  let lengthNorm : K := 1 + rt.log (1 + ((d.contentTokens rt.toUnicode).length : K)) / 10
  let tf : K := (termFrequency rt.toUnicode d term : ℕ)
  let df : K := (documentFrequency rt.toUnicode c term : ℕ)
  rt.log (1 + (nDocs - df + 1 / 2) / (df + 1 / 2)) * (tf / (tf + 6 / 5)) / lengthNorm

/-- The matching documents with their scores, in the order of the index. -/
def matching (rt : Runtime K) (q : SearchQuery) (corpus : List StoredDoc) : List (K × StoredDoc) :=
  let terms := tokenize rt.toUnicode q.text
  if terms = [] then []
  else
    let effective := effective rt q corpus terms
    -- `operator: and` unless fuzzy widens it to `or`
    let required := if q.fuzzy then 1 else effective.length
    corpus.filterMap fun d =>
      let (matched, score) := scoreOf rt corpus effective d
      if required ≤ matched ∧ 0 < score then some (score, d) else none

/-- The sort key `(-score, document_id)`. -/
def ranksBefore (a b : K × StoredDoc) : Prop :=
  b.1 < a.1 ∨ a.1 = b.1 ∧ a.2.documentId ≤ b.2.documentId

instance (a b : K × StoredDoc) : Decidable (ranksBefore a b) :=
  inferInstanceAs (Decidable (_ ∨ _ ∧ _))

def scored (rt : Runtime K) (q : SearchQuery) (corpus : List StoredDoc) : List (K × StoredDoc) :=
  (matching rt q corpus).insertionSort ranksBefore

/-- Whether two characters match under `re.IGNORECASE`, the first being a token character. -/
def sameIgnoringCase (u : Unicode) (t c : Char) : Bool :=
  if c.toNat < 128 then decide (c.toLower = t) else u.sameIgnoringCase t c

def matchesAt (u : Unicode) : Str → Str → Bool
  | [], _ => true
  | _ :: _, [] => false
  | t :: ts, c :: cs => sameIgnoringCase u t c && matchesAt u ts cs

/-- `re.sub(f"({re.escape(term)})", r"<em>\1</em>", s, flags=re.IGNORECASE)`; the number counts
the characters of a match still to pass. -/
def emphasize (u : Unicode) (term : Str) : ℕ → Str → Str
  | _, [] => []
  | k + 1, _ :: s => emphasize u term k s
  | 0, c :: s =>
      if matchesAt u term (c :: s) then
        "<em>".toList ++ (c :: s).take term.length ++ "</em>".toList ++
          emphasize u term (term.length - 1) s
      else c :: emphasize u term 0 s

def snippet (u : Unicode) (terms : List Str) (highlight : Bool) (content : Str) : Str :=
  let lowered := u.lower content
  match if highlight then terms.find? fun t => (pyFind t lowered).isSome else none with
  | none => pySlice content 0 160
  | some term =>
      let start : ℤ := max 0 (((pyFind term lowered).getD 0 : ℕ) - 60)
      emphasize u term 0 (pySlice content start (start + 160))

/-- `_to_hit`. -/
def toHit (rt : Runtime K) (terms : List Str) (highlight : Bool) (p : K × StoredDoc) :
    EngineHit K where
  documentId := p.2.documentId
  score := rt.round6 p.1
  title := p.2.source.title
  snippet := some (snippet rt.toUnicode terms highlight p.2.source.content)
  contentType := some p.2.source.contentType
  tags := p.2.source.tags
  metadata := p.2.source.metadata
  createdAt := some p.2.source.createdAt
  updatedAt := some p.2.source.updatedAt

def facetsOf (scored : List (K × StoredDoc)) : List (Str × List (Str × ℕ)) :=
  [("content_type".toList,
      mostCommon 10 ((scored.map fun p => p.2.source.contentType).filter fun c => decide (c ≠ []))),
    ("tags".toList, mostCommon 10 (scored.flatMap fun p => p.2.source.tags))]

def search (rt : Runtime K) (st : State) (q : SearchQuery) : Except EngineError (EngineResult K) :=
  if st.available then
    let terms := tokenize rt.toUnicode q.text
    let scored := scored rt q (corpus st.docs q)
    let window := pySlice scored q.offset (q.offset + q.size)
    .ok
      { hits := window.map (toHit rt terms q.highlight)
        total := scored.length
        totalIsLowerBound := false
        facets := if q.facets then facetsOf scored else [] }
  else .error unavailable

end Search

end InMemoryEngine

/-- `InMemorySearchEngine`: what is written is visible at once. -/
def inMemory {K : Type} [Field K] [LinearOrder K] (rt : Runtime K) : SearchEngine K where
  State := InMemoryEngine.State
  bulk := InMemoryEngine.bulk
  search := InMemoryEngine.search rt
  setAvailable st available := { st with available := available }
  refresh st := st

namespace InMemoryEngine

/-! ### What a batch leaves -/

/-- What an operation makes of the entry under its document id. -/
def entryAfter (op : Operation) (existing : Option StoredDoc) : Option StoredDoc :=
  if existing.any fun e => decide (op.version ≤ e.version) then existing
  else
    match op with
    | .index documentId tenantId version source => some ⟨documentId, tenantId, version, source⟩
    | .delete _ _ _ => none

theorem get?_apply (docs : Docs) (op : Operation) (k : Str) :
    (apply docs op).get? k =
      if k = op.documentId then entryAfter op (docs.get? k) else docs.get? k := by
  have hwrite : (apply.write docs op).get? k =
      if k = op.documentId then entryAfter op none else docs.get? k := by
    cases op with
    | index d t v s => exact docs.get?_set _ k
    | delete d t v => exact docs.get?_pop _ k
  unfold apply
  split
  · rename_i e he
    split
    · rename_i hle
      split
      · rename_i hk; subst hk; simp [he, entryAfter, hle]
      · rfl
    · rename_i hlt
      rw [hwrite]
      split
      · rename_i hk; subst hk; simp [he, entryAfter, hlt]
      · rfl
  · rename_i he
    rw [hwrite]
    split
    · rename_i hk; subst hk; rw [he]
    · rfl

/-- **A batch**, when its operations name different documents: each entry is what the operation
on it, if any, makes of it. -/
theorem get?_applyAll {ops : List Operation} (h : (ops.map Operation.documentId).Nodup)
    (docs : Docs) (k : Str) :
    (applyAll docs ops).get? k =
      match ops.find? fun op => decide (op.documentId = k) with
      | some op => entryAfter op (docs.get? k)
      | none => docs.get? k := by
  induction ops generalizing docs with
  | nil => rfl
  | cons op ops ih =>
      rw [List.map_cons, List.nodup_cons] at h
      rw [applyAll, List.foldl_cons, ← applyAll, ih h.2, get?_apply]
      by_cases hk : op.documentId = k
      · -- no later operation names the document of this one
        have hnone : ops.find? (fun op => decide (op.documentId = k)) = none := by
          refine List.find?_eq_none.mpr fun x hx hxk => h.1 ?_
          rw [hk, ← of_decide_eq_true hxk]
          exact List.mem_map_of_mem hx
        simp [hk, hnone]
      · simp [hk, Ne.symm hk]

/-! ### Where a hit comes from -/

section Hits

variable {K : Type} [Field K] [LinearOrder K]

theorem mem_of_mem_pySlice {α : Type*} {xs : List α} {i j : ℤ} {x : α} (h : x ∈ pySlice xs i j) :
    x ∈ xs :=
  List.mem_of_mem_take (List.mem_of_mem_drop h)

theorem mem_scored {rt : Runtime K} {q : SearchQuery} {c : List StoredDoc} {p : K × StoredDoc}
    (h : p ∈ scored rt q c) : p.2 ∈ c := by
  rw [scored, List.mem_insertionSort, matching] at h
  split at h
  · cases h
  · simp only [List.mem_filterMap, Option.ite_none_right_eq_some, Option.some.injEq] at h
    obtain ⟨d, hd, -, rfl⟩ := h
    exact hd

theorem mem_corpus {docs : Docs} {q : SearchQuery} {d : StoredDoc} :
    d ∈ corpus docs q ↔ docs.get? d.documentId = some d ∧ d.tenantId = q.tenantId := by
  simp only [corpus, List.mem_filter, Dict.mem_values, decide_eq_true_eq]
  refine and_congr_left fun _ => ⟨?_, fun h => ⟨_, h⟩⟩
  rintro ⟨k, hk⟩
  rw [docs.keyed hk]
  exact hk

theorem nodup_corpus (docs : Docs) (q : SearchQuery) :
    ((corpus docs q).map StoredDoc.documentId).Nodup := by
  have hkeys : docs.dict.values.map StoredDoc.documentId = docs.dict.keys := by
    rw [Dict.values, Dict.keys, List.map_map]
    exact List.map_congr_left fun p hp => docs.keyed (Dict.mem_entries_iff.mp hp)
  exact (hkeys ▸ docs.dict.keys_nodup).sublist (List.filter_sublist.map _)

/-- No document is scored twice. -/
theorem nodup_scored (rt : Runtime K) (docs : Docs) (q : SearchQuery) :
    ((scored rt q (corpus docs q)).map fun p => p.2.documentId).Nodup := by
  rw [scored, ((List.perm_insertionSort _ _).map _).nodup_iff, matching]
  dsimp only
  split
  · exact List.nodup_nil
  · rw [List.map_filterMap]
    refine (nodup_corpus docs q).sublist ?_
    have hsub : ∀ (f : StoredDoc → Option Str) (l : List StoredDoc),
        (∀ d x, f d = some x → x = d.documentId) →
        (l.filterMap f).Sublist (l.map StoredDoc.documentId) := by
      intro f l hf
      induction l with
      | nil => exact .slnil
      | cons d l ih =>
          rw [List.map_cons]
          cases hd : f d with
          | none => exact (List.filterMap_cons_none hd ▸ ih).cons _
          | some x =>
              obtain rfl := hf d x hd
              rw [List.filterMap_cons_some hd]
              exact ih.cons_cons _
    refine hsub _ _ fun d x hx => ?_
    obtain ⟨p, hp, rfl⟩ := Option.map_eq_some_iff.mp hx
    obtain ⟨-, hp⟩ := Option.ite_none_right_eq_some.mp hp
    cases hp
    rfl

/-- **A hit is a stored document of the tenant of the query.** -/
theorem mem_hits {rt : Runtime K} {st : State} {q : SearchQuery} {r : EngineResult K}
    (h : search rt st q = .ok r) {hit : EngineHit K} (hh : hit ∈ r.hits) :
    ∃ p : K × StoredDoc, hit = toHit rt (tokenize rt.toUnicode q.text) q.highlight p ∧
      st.docs.get? p.2.documentId = some p.2 ∧ p.2.tenantId = q.tenantId := by
  unfold search at h
  split at h
  · cases h
    obtain ⟨p, hp, rfl⟩ := List.mem_map.mp hh
    exact ⟨p, rfl, mem_corpus.mp (mem_scored (mem_of_mem_pySlice hp))⟩
  · cases h

end Hits

end InMemoryEngine

end DocSearch
