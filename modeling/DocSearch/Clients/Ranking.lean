import DocSearch.Clients.Isolation
import Mathlib.Analysis.SpecialFunctions.Log.Basic

/-!
# Clients — Ranking

What a search of the engine in memory is to return, and that it returns it.

* `scoreOf_eq`: the loop over the terms counts those the document contains, and adds up what each
  of them contributes.
* `selected_iff`: whether a document is found, by the terms it contains.
* `Ranking`: the specification of a search; `Ranking.unique`, it has one answer.
* `search_ranked`: the pages tile that answer, and each gives its length.
-/

namespace DocSearch

namespace InMemoryEngine

variable {K : Type}

/-- The title or the content has the term. -/
def StoredDoc.contains (u : Unicode) (d : StoredDoc) (term : Str) : Bool :=
  decide (term ∈ d.titleTokens u) || decide (term ∈ d.contentTokens u)

/-- A document to be found for the effective terms: it contains all of them, or one of them in a
fuzzy search. -/
def Matches (u : Unicode) (fuzzy : Bool) (effective : List Str) (d : StoredDoc) : Prop :=
  if fuzzy then ∃ term ∈ effective, d.contains u term = true
  else ∀ term ∈ effective, d.contains u term = true

/-- The terms a query is searched by. -/
def effectiveOf (rt : Runtime K) (docs : Docs) (q : SearchQuery) : List Str :=
  effective rt q (corpus docs q) (tokenize rt.toUnicode q.text)

theorem termFrequency_pos {u : Unicode} {d : StoredDoc} {term : Str} :
    0 < termFrequency u d term ↔ d.contains u term = true := by
  have hpos : 0 < termFrequency u d term ↔
      0 < (d.titleTokens u).count term ∨ 0 < (d.contentTokens u).count term := by
    unfold termFrequency
    omega
  rw [hpos, List.count_pos_iff, List.count_pos_iff, StoredDoc.contains, Bool.or_eq_true,
    decide_eq_true_eq, decide_eq_true_eq]

/-- A term is in no more documents than there are. -/
theorem documentFrequency_le (u : Unicode) (c : List StoredDoc) (term : Str) :
    documentFrequency u c term ≤ max c.length 1 :=
  (List.length_filter_le _ _).trans (le_max_left _ _)

section Score

variable [Field K] {rt : Runtime K} {c : List StoredDoc} {d : StoredDoc}

/-- **The loop** counts the terms the document contains, and adds up what they contribute. -/
theorem scoreOf_eq (rt : Runtime K) (c : List StoredDoc) (terms : List Str) (d : StoredDoc) :
    scoreOf rt c terms d =
      ((terms.filter (d.contains rt.toUnicode)).length,
        ((terms.filter (d.contains rt.toUnicode)).map (termScore rt c d)).sum) := by
  have hloop : ∀ (terms : List Str) (acc : ℕ × K),
      terms.foldl (fun acc term =>
        if termFrequency rt.toUnicode d term = 0 then acc
        else (acc.1 + 1, acc.2 + termScore rt c d term)) acc =
      (acc.1 + (terms.filter (d.contains rt.toUnicode)).length,
        acc.2 + ((terms.filter (d.contains rt.toUnicode)).map (termScore rt c d)).sum) := by
    intro terms
    induction terms with
    | nil => exact fun acc => Prod.ext rfl (add_zero acc.2).symm
    | cons term terms ih =>
        intro acc
        rw [List.foldl_cons]
        cases hd : d.contains rt.toUnicode term with
        | false =>
            have hzero : termFrequency rt.toUnicode d term = 0 := by
              rw [← Nat.le_zero, ← Nat.not_lt, termFrequency_pos, hd]
              exact Bool.false_ne_true
            rw [if_pos hzero, ih, List.filter_cons_of_neg (by rw [hd]; exact Bool.false_ne_true)]
        | true =>
            have hpos := termFrequency_pos.mpr hd
            rw [if_neg hpos.ne', ih, List.filter_cons_of_pos hd, List.length_cons, List.map_cons,
              List.sum_cons, add_assoc, add_assoc, Nat.add_comm 1]
  exact (hloop terms (0, 0)).trans (Prod.ext (Nat.zero_add _) (zero_add _))

theorem matched_pos {terms : List Str} :
    1 ≤ (scoreOf rt c terms d).1 ↔ ∃ term ∈ terms, d.contains rt.toUnicode term = true := by
  rw [scoreOf_eq, Nat.one_le_iff_ne_zero, Ne, List.length_eq_zero_iff, List.filter_eq_nil_iff]
  push Not
  rfl

theorem length_le_matched {terms : List Str} : terms.length ≤ (scoreOf rt c terms d).1 ↔
    ∀ term ∈ terms, d.contains rt.toUnicode term = true := by
  rw [scoreOf_eq, (List.length_filter_le _ _).ge_iff_eq, List.length_filter_eq_length_iff]

/-! ### What is found -/

variable [LinearOrder K]

/-- What the scores rest on of `math.log`. -/
structure LogPos (log : K → K) : Prop where
  one : log 1 = 0
  pos : ∀ {x : K}, 1 < x → 0 < log x

theorem LogPos.nonneg {log : K → K} (h : LogPos log) {x : K} (hx : 1 ≤ x) : 0 ≤ log x := by
  rcases hx.eq_or_lt with rfl | hlt
  · exact h.one.ge
  · exact (h.pos hlt).le

variable [IsStrictOrderedRing K]

/-- **Every term the document contains** contributes something: the `idf` is positive even for a
term that is in all the documents. -/
theorem termScore_pos (hlog : LogPos rt.log) {term : Str}
    (h : d.contains rt.toUnicode term = true) : 0 < termScore rt c d term := by
  have htf : (0 : K) < (termFrequency rt.toUnicode d term : ℕ) :=
    Nat.cast_pos.mpr (termFrequency_pos.mpr h)
  have hdf : (0 : K) ≤ (documentFrequency rt.toUnicode c term : ℕ) := Nat.cast_nonneg _
  have hle : ((documentFrequency rt.toUnicode c term : ℕ) : K) ≤ (max c.length 1 : ℕ) :=
    Nat.cast_le.mpr (documentFrequency_le rt.toUnicode c term)
  have hlength : (0 : K) ≤ ((d.contentTokens rt.toUnicode).length : ℕ) := Nat.cast_nonneg _
  have hnorm : 0 < 1 + rt.log (1 + ((d.contentTokens rt.toUnicode).length : K)) / 10 :=
    add_pos_of_pos_of_nonneg one_pos
      (div_nonneg (hlog.nonneg (le_add_of_nonneg_right hlength)) (by norm_num))
  have hidf : 0 < rt.log (1 + (((max c.length 1 : ℕ) : K) -
      (documentFrequency rt.toUnicode c term : ℕ) + 1 / 2) /
        ((documentFrequency rt.toUnicode c term : ℕ) + 1 / 2)) :=
    hlog.pos (lt_add_of_pos_right _ (div_pos (by linarith) (by linarith)))
  exact div_pos (mul_pos hidf (div_pos htf (by linarith))) hnorm

/-- A document that contains a term has a score. -/
theorem score_pos (hlog : LogPos rt.log) {terms : List Str} (h : 1 ≤ (scoreOf rt c terms d).1) :
    0 < (scoreOf rt c terms d).2 := by
  rw [scoreOf_eq] at h ⊢
  refine List.sum_pos _ (fun x hx => ?_) fun hnil => ?_
  · obtain ⟨term, hterm, rfl⟩ := List.mem_map.mp hx
    exact termScore_pos hlog (List.mem_filter.mp hterm).2
  · rw [List.map_eq_nil_iff.mp hnil] at h
    cases h

/-- **The filter** on the number of terms and on the score finds the documents that match. -/
theorem selected_iff (hlog : LogPos rt.log) {fuzzy : Bool} {terms : List Str} (hne : terms ≠ []) :
    ((if fuzzy then 1 else terms.length) ≤ (scoreOf rt c terms d).1 ∧
        0 < (scoreOf rt c terms d).2) ↔ Matches rt.toUnicode fuzzy terms d := by
  cases fuzzy with
  | true => exact (and_iff_left_of_imp (score_pos hlog)).trans matched_pos
  | false =>
      have hlen : 1 ≤ terms.length := List.length_pos_of_ne_nil hne
      exact (and_iff_left_of_imp fun h => score_pos hlog (hlen.trans h)).trans length_le_matched

/-- The documents found, with their scores. -/
theorem mem_scored_iff (hlog : LogPos rt.log) {q : SearchQuery} {docs : Docs}
    (hterms : tokenize rt.toUnicode q.text ≠ []) {p : K × StoredDoc} :
    p ∈ scored rt q (corpus docs q) ↔
      (p.2 ∈ corpus docs q ∧ Matches rt.toUnicode q.fuzzy (effectiveOf rt docs q) p.2) ∧
        p.1 = (scoreOf rt (corpus docs q) (effectiveOf rt docs q) p.2).2 := by
  have hne : effectiveOf rt docs q ≠ [] := fun h => hterms (List.map_eq_nil_iff.mp h)
  rw [scored, List.mem_insertionSort, matching]
  dsimp only
  rw [if_neg hterms, List.mem_filterMap]
  constructor
  · rintro ⟨d, hd, hp⟩
    obtain ⟨hsel, hp⟩ := Option.ite_none_right_eq_some.mp hp
    cases hp
    exact ⟨⟨hd, (selected_iff hlog hne).mp hsel⟩, rfl⟩
  · rintro ⟨⟨hd, hm⟩, hs⟩
    exact ⟨p.2, hd, (if_pos ((selected_iff hlog hne).mpr hm)).trans
      (congrArg some (Prod.ext hs.symm rfl))⟩

end Score

/-! ### The specification -/

section Specification

variable [Field K] [LinearOrder K] {rt : Runtime K}

/-- **The answer to a query**: the documents of the tenant that match, with their scores, best
first, and by their ids where the scores are equal. -/
structure Ranking (rt : Runtime K) (docs : Docs) (q : SearchQuery) (ranked : List (K × StoredDoc)) :
    Prop where
  nodup : (ranked.map fun p => p.2.documentId).Nodup
  mem : ∀ d, d ∈ ranked.map Prod.snd ↔
    (docs.get? d.documentId = some d ∧ d.tenantId = q.tenantId) ∧
      Matches rt.toUnicode q.fuzzy (effectiveOf rt docs q) d
  score : ∀ p ∈ ranked, p.1 = (scoreOf rt (corpus docs q) (effectiveOf rt docs q) p.2).2
  sorted : ranked.Pairwise ranksBefore

theorem Ranking.mem_iff {docs : Docs} {q : SearchQuery} {ranked : List (K × StoredDoc)}
    (h : Ranking rt docs q ranked) {p : K × StoredDoc} :
    p ∈ ranked ↔ ((docs.get? p.2.documentId = some p.2 ∧ p.2.tenantId = q.tenantId) ∧
        Matches rt.toUnicode q.fuzzy (effectiveOf rt docs q) p.2) ∧
      p.1 = (scoreOf rt (corpus docs q) (effectiveOf rt docs q) p.2).2 := by
  rw [← h.mem]
  constructor
  · exact fun hp => ⟨List.mem_map_of_mem hp, h.score p hp⟩
  · rintro ⟨hd, hs⟩
    obtain ⟨p', hp', he⟩ := List.mem_map.mp hd
    have hsame : p' = p := Prod.ext (by rw [h.score p' hp', he, hs]) he
    exact hsame ▸ hp'

/-- **One answer.** -/
theorem Ranking.unique {docs : Docs} {q : SearchQuery} {ranked ranked' : List (K × StoredDoc)}
    (h : Ranking rt docs q ranked) (h' : Ranking rt docs q ranked') : ranked = ranked' := by
  have hperm : ranked.Perm ranked' :=
    (List.perm_ext_iff_of_nodup h.nodup.of_map h'.nodup.of_map).mpr fun _ =>
      h.mem_iff.trans h'.mem_iff.symm
  refine hperm.eq_of_pairwise (fun a b ha hb hab hba => ?_) h.sorted h'.sorted
  have hid := (documentId_of_ranksBefore hab hba).2
  exact List.inj_on_of_nodup_map h.nodup ha (hperm.mem_iff.mpr hb) hid

/-- What the engine ranks is the answer. -/
theorem ranking_scored [IsStrictOrderedRing K] (hlog : LogPos rt.log) (docs : Docs) {q : SearchQuery}
    (hterms : tokenize rt.toUnicode q.text ≠ []) :
    Ranking rt docs q (scored rt q (corpus docs q)) where
  nodup := nodup_scored rt docs q
  mem d := by
    rw [List.mem_map, ← mem_corpus]
    constructor
    · rintro ⟨p, hp, rfl⟩
      exact ((mem_scored_iff hlog hterms).mp hp).1
    · exact fun hd => ⟨((scoreOf rt (corpus docs q) (effectiveOf rt docs q) d).2, d),
        (mem_scored_iff hlog hterms).mpr ⟨hd, rfl⟩, rfl⟩
  score p hp := ((mem_scored_iff hlog hterms).mp hp).2
  sorted := pairwise_scored rt q _

end Specification

/-! ### Pages -/

/-- Windows of one size tile a list. -/
theorem flatMap_windows {α : Type} (xs : List α) (s n : ℕ) :
    ((List.range n).flatMap fun i => (xs.drop (i * s)).take s) = xs.take (n * s) := by
  induction n with
  | zero => rw [Nat.zero_mul, List.take_zero]; rfl
  | succ n ih => rw [List.range_succ, List.flatMap_append, ih, List.flatMap_singleton, Nat.succ_mul,
      List.take_add]

section Pages

variable [Field K] [LinearOrder K] {rt : Runtime K} {st : State}

/-- The hits of a page. -/
def hitsOn (rt : Runtime K) (st : State) (q : SearchQuery) (page : ℤ) : List (EngineHit K) :=
  (search rt st { q with page := page }).toOption.elim [] EngineResult.hits

/-- The hits of the first pages, one after the other. -/
def firstPages (rt : Runtime K) (st : State) (q : SearchQuery) (n : ℕ) : List (EngineHit K) :=
  (List.range n).flatMap fun (i : ℕ) => hitsOn rt st q (i + 1)

/-- A page holds a window of what is ranked, of which it gives the length. -/
theorem search_page (rt : Runtime K) (hst : st.available = true) (q : SearchQuery) (page : ℤ) :
    ∃ r, search rt st { q with page := page } = .ok r ∧
      r.total = (scored rt q (corpus st.docs q)).length ∧
      r.hits = (pySlice (scored rt q (corpus st.docs q)) ((page - 1) * q.size)
        ((page - 1) * q.size + q.size)).map (toHit rt (tokenize rt.toUnicode q.text) q.highlight) :=
  ⟨_, by rw [search, if_pos hst], rfl, rfl⟩

theorem firstPages_eq (hst : st.available = true) {q : SearchQuery} (hsize : 1 ≤ q.size) (n : ℕ) :
    firstPages rt st q n = ((scored rt q (corpus st.docs q)).take (n * q.size.toNat)).map
      (toHit rt (tokenize rt.toUnicode q.text) q.highlight) := by
  obtain ⟨s, hs⟩ := Int.eq_ofNat_of_zero_le (zero_le_one.trans hsize)
  have hpage : ∀ i : ℕ, hitsOn rt st q (i + 1) =
      (((scored rt q (corpus st.docs q)).drop (i * s)).take s).map
        (toHit rt (tokenize rt.toUnicode q.text) q.highlight) := by
    intro i
    obtain ⟨r, hr, -, hhits⟩ := search_page rt hst q (i + 1)
    have hwindow : ((i : ℤ) + 1 - 1) * q.size = (i * s : ℕ) := by
      rw [hs, add_sub_cancel_right]
      exact (Nat.cast_mul i s).symm
    rw [hitsOn, hr, ← pySlice_window, ← hwindow, ← hs]
    exact hhits
  rw [firstPages, hs, Int.toNat_natCast, ← flatMap_windows, List.map_flatMap]
  exact List.flatMap_congr fun i _ => hpage i

end Pages

/-- **The search meets its specification**, with the scores in the real numbers: the pages tile the
answer to the query, and each gives its length. -/
theorem search_ranked {rt : Runtime ℝ} (hlog : rt.log = Real.log) {st : State} (hst : Reached st)
    {q : SearchQuery} (hterms : tokenize rt.toUnicode q.text ≠ []) (hsize : 1 ≤ q.size) :
    ∃ ranked, Ranking rt st.docs q ranked ∧
      (∀ page : ℤ, ∃ r, search rt st { q with page := page } = .ok r ∧ r.total = ranked.length) ∧
      (∀ n : ℕ, firstPages rt st q n = (ranked.take (n * q.size.toNat)).map
        (toHit rt (tokenize rt.toUnicode q.text) q.highlight)) ∧
      (∀ n : ℕ, ranked.length ≤ n → firstPages rt st q n = ranked.map
        (toHit rt (tokenize rt.toUnicode q.text) q.highlight)) ∧
      ∀ n : ℕ, ranked.length ≤ n → (firstPages rt st q n).map EngineHit.documentId =
        ranked.map fun p => p.2.documentId := by
  have hreal : LogPos rt.log := by
    rw [hlog]
    exact ⟨Real.log_one, fun hx => Real.log_pos hx⟩
  have hall : ∀ n : ℕ, (scored rt q (corpus st.docs q)).length ≤ n → firstPages rt st q n =
      (scored rt q (corpus st.docs q)).map (toHit rt (tokenize rt.toUnicode q.text) q.highlight) := by
    intro n hn
    have hs : 1 ≤ q.size.toNat := by omega
    rw [firstPages_eq hst.available hsize, List.take_of_length_le
      (hn.trans (Nat.le_mul_of_pos_right n hs))]
  refine ⟨_, ranking_scored hreal st.docs hterms, fun page => ?_, firstPages_eq hst.available hsize,
    hall, fun n hn => ?_⟩
  · obtain ⟨r, hr, htotal, -⟩ := search_page rt hst.available q page
    exact ⟨r, hr, htotal⟩
  · rw [hall n hn, List.map_map]
    rfl

end InMemoryEngine

namespace Sample

open InMemoryEngine

/-- The runtime with real numbers for scores. -/
noncomputable def realRuntime : Runtime ℝ where
  toUnicode := unicode
  iterateSet := sorted
  mem_iterateSet := runtime.mem_iterateSet
  nodup_iterateSet := runtime.nodup_iterateSet
  sha256 := sha256
  log := Real.log
  round6 x := (round (x * 1000000) : ℤ) / 1000000

/-- A document of the tenant, and one of another. -/
def twoTenants : State :=
  (bulk .initial [indexOperation acme documentA, indexOperation globex documentB]).2

theorem search_ranked_sample :
    ∃ ranked, Ranking realRuntime twoTenants.docs (query acme) ranked ∧
      (∀ page : ℤ, ∃ r, search realRuntime twoTenants { query acme with page := page } = .ok r ∧
        r.total = ranked.length) ∧
      (∀ n : ℕ, firstPages realRuntime twoTenants (query acme) n = (ranked.take (n * 10)).map
        (toHit realRuntime (tokenize realRuntime.toUnicode "revenue".toList) true)) ∧
      (∀ n : ℕ, ranked.length ≤ n → firstPages realRuntime twoTenants (query acme) n = ranked.map
        (toHit realRuntime (tokenize realRuntime.toUnicode "revenue".toList) true)) ∧
      ∀ n : ℕ, ranked.length ≤ n →
        (firstPages realRuntime twoTenants (query acme) n).map EngineHit.documentId =
          ranked.map fun p => p.2.documentId :=
  search_ranked rfl (.bulk _ .initial) (by decide) (by decide)

end Sample

end DocSearch
