import DocSearch.Clients.Isolation
import DocSearch.Support.EditDistance
import Mathlib.Data.Finset.Card

/-!
# Clients — fuzzy correction

A term that no document of the tenant has is corrected to one within one edit.

* `editDistanceAtMostOne_iff`: the scan of two strings decides whether their distance is at most
  one.
* `closest_spec`: the candidate chosen is a shortest one; of several, the first to come.
* `determined_iff`: the terms whose correction does not depend on the order of the set.
* `corrections_determined`: with them, the searches that two processes answer alike.
-/

namespace DocSearch

namespace InMemoryEngine

open EditDistance

/-! ### One edit -/

/-- After the one skip, what is left must be equal. -/
theorem editLoop_true_iff : ∀ {s l : Str}, s.length = l.length →
    (editLoop true s l = true ↔ s = l)
  | [], [], _ => iff_of_true rfl rfl
  | x :: s, y :: l, h => by
      by_cases hxy : x = y
      · rw [editLoop, if_neg (not_not.mpr hxy), editLoop_true_iff (Nat.succ.inj h), hxy,
          List.cons_inj_right]
      · rw [editLoop, if_pos hxy, if_pos rfl]
        exact iff_of_false Bool.false_ne_true fun e => hxy (List.cons.inj e).1

/-- The scan, when one string is longer by one. -/
theorem editLoop_false_iff : ∀ {s l : Str}, l.length = s.length + 1 →
    (editLoop false s l = true ↔ levenshtein s l ≤ 1)
  | [], l, h => iff_of_true (by rw [editLoop]) h.le
  | x :: s, y :: l, h => by
      have hlen : l.length = s.length + 1 := Nat.succ.inj h
      by_cases hxy : x = y
      · subst hxy
        rw [editLoop, if_neg (not_not.mpr rfl), levenshtein_cons_self, editLoop_false_iff hlen]
      · have hrest : (x :: s).length = l.length := hlen.symm
        rw [editLoop, if_pos hxy, if_neg Bool.false_ne_true, editLoop_true_iff hrest,
          levenshtein_cons_of_length_succ hxy hlen]

/-- The positions at which two strings of one length differ. -/
def mismatches (a b : Str) : ℕ := ((a.zip b).filter fun p => decide (p.1 ≠ p.2)).length

theorem mismatches_cons (x y : Char) (a b : Str) :
    mismatches (x :: a) (y :: b) = (if x = y then 0 else 1) + mismatches a b := by
  unfold mismatches
  rw [List.zip_cons_cons, List.filter_cons]
  by_cases hxy : x = y
  · simp [hxy]
  · simp [hxy, Nat.add_comm]

theorem mismatches_eq_zero : ∀ {a b : Str}, a.length = b.length → (mismatches a b = 0 ↔ a = b)
  | [], [], _ => iff_of_true rfl rfl
  | x :: a, y :: b, h => by
      rw [mismatches_cons, Nat.add_eq_zero_iff, mismatches_eq_zero (Nat.succ.inj h), List.cons.injEq]
      exact and_congr_left fun _ => ⟨fun e => by_contra fun hne => by simp [hne] at e, fun e => if_pos e⟩

theorem mismatches_le_one : ∀ {a b : Str}, a.length = b.length →
    (mismatches a b ≤ 1 ↔ levenshtein a b ≤ 1)
  | [], [], _ => iff_of_true (Nat.zero_le 1) (Nat.zero_le 1)
  | x :: a, y :: b, h => by
      have hlen : a.length = b.length := Nat.succ.inj h
      by_cases hxy : x = y
      · subst hxy
        rw [mismatches_cons, if_pos rfl, Nat.zero_add, levenshtein_cons_self, mismatches_le_one hlen]
      · have hzero : 1 + mismatches a b ≤ 1 ↔ mismatches a b = 0 := by omega
        rw [mismatches_cons, if_neg hxy, hzero, mismatches_eq_zero hlen,
          levenshtein_cons_of_length_eq hxy hlen]

/-- **The scan decides** whether the distance of two strings is at most one. -/
theorem editDistanceAtMostOne_iff {a b : Str} (h : a.length ≤ b.length + 1)
    (h' : b.length ≤ a.length + 1) : editDistanceAtMostOne a b = true ↔ levenshtein a b ≤ 1 := by
  unfold editDistanceAtMostOne
  split
  · rename_i heq
    subst heq
    exact iff_of_true rfl (by rw [levenshtein_self]; exact Nat.zero_le 1)
  · rename_i hne
    split
    · rename_i hlen
      have hpos : mismatches a b ≠ 0 := fun h0 => hne ((mismatches_eq_zero hlen).mp h0)
      rw [← mismatches_le_one hlen, beq_iff_eq, ← mismatches]
      omega
    · rename_i hlen
      split
      · exact editLoop_false_iff (by omega)
      · rw [levenshtein_comm]
        exact editLoop_false_iff (by omega)

/-! ### The closest candidate -/

/-- A candidate that `_closest` considers. -/
def near (term candidate : Str) : Bool :=
  !decide (1 < ((candidate.length : ℤ) - term.length).natAbs) && editDistanceAtMostOne term candidate

/-- The candidates there are none shorter than. -/
def shortest (term : Str) (vocabulary : Finset Str) : Finset Str :=
  vocabulary.filter fun c =>
    near term c = true ∧ ∀ d ∈ vocabulary, near term d = true → c.length ≤ d.length

/-- One round of the loop of `_closest`. -/
def closer (term : Str) (best : Option Str) (candidate : Str) : Option Str :=
  if near term candidate && best.all fun b => decide (candidate.length < b.length) then
    some candidate
  else best

theorem closest_eq (term : Str) (vocabulary : List Str) :
    closest term vocabulary = vocabulary.foldl (closer term) none := by
  unfold closest
  congr 1
  funext best candidate
  unfold closer near
  by_cases hfar : 1 < ((candidate.length : ℤ) - term.length).natAbs
  · simp [hfar]
  · simp [hfar]

/-- The best of the candidates seen: a shortest one of those that are near. -/
def BestOf (term : Str) (seen : List Str) : Option Str → Prop
  | some c => c ∈ seen ∧ near term c = true ∧ ∀ d ∈ seen, near term d = true → c.length ≤ d.length
  | none => ∀ d ∈ seen, near term d = false

theorem BestOf.closer {term : Str} {seen : List Str} {best : Option Str}
    (h : BestOf term seen best) (candidate : Str) :
    BestOf term (seen ++ [candidate]) (closer term best candidate) := by
  have hsnoc : ∀ {P : Str → Prop}, (∀ d ∈ seen, P d) → P candidate →
      ∀ d ∈ seen ++ [candidate], P d := fun hseen hlast d hd =>
    (List.mem_append.mp hd).elim (hseen d) fun hd => List.mem_singleton.mp hd ▸ hlast
  have hmem : candidate ∈ seen ++ [candidate] := by simp
  unfold InMemoryEngine.closer
  cases hnear : near term candidate with
  | false =>
      rw [Bool.false_and, if_neg Bool.false_ne_true]
      cases best with
      | none => exact hsnoc h hnear
      | some c =>
          refine ⟨List.mem_append_left _ h.1, h.2.1, hsnoc h.2.2 fun hn => ?_⟩
          rw [hnear] at hn
          cases hn
  | true =>
      rw [Bool.true_and]
      cases best with
      | none =>
          refine ⟨hmem, hnear, hsnoc (fun d hd hn => ?_) fun _ => le_rfl⟩
          rw [h d hd] at hn
          cases hn
      | some c =>
          rw [Option.all_some]
          by_cases hlt : candidate.length < c.length
          · rw [decide_eq_true hlt, if_pos rfl]
            exact ⟨hmem, hnear, hsnoc (fun d hd hn => hlt.le.trans (h.2.2 d hd hn)) fun _ => le_rfl⟩
          · rw [decide_eq_false hlt, if_neg Bool.false_ne_true]
            exact ⟨List.mem_append_left _ h.1, h.2.1, hsnoc h.2.2 fun _ => not_lt.mp hlt⟩

theorem BestOf.foldl {term : Str} : ∀ {rest seen : List Str} {best : Option Str},
    BestOf term seen best → BestOf term (seen ++ rest) (rest.foldl (InMemoryEngine.closer term) best)
  | [], seen, _, h => (List.append_nil seen).symm ▸ h
  | candidate :: rest, seen, _, h => by
      rw [List.foldl_cons, List.append_cons]
      exact (h.closer candidate).foldl

/-- **The candidate chosen** is a shortest of those that are near; there is none when none is. -/
theorem closest_spec (term : Str) (vocabulary : List Str) :
    BestOf term vocabulary (closest term vocabulary) := by
  have hnone : BestOf term [] none := fun _ hd => by cases hd
  rw [closest_eq]
  exact hnone.foldl

theorem closest_eq_none {term : Str} {vocabulary : List Str} :
    closest term vocabulary = none ↔ ∀ d ∈ vocabulary, near term d = false := by
  have hbest := closest_spec term vocabulary
  cases hc : closest term vocabulary with
  | none =>
      rw [hc] at hbest
      exact iff_of_true rfl hbest
  | some c =>
      rw [hc] at hbest
      refine iff_of_false (Option.some_ne_none c) fun hfar => ?_
      exact Bool.false_ne_true ((hfar c hbest.1).symm.trans hbest.2.1)

theorem mem_shortest {term c : Str} {vocabulary : List Str}
    (h : closest term vocabulary = some c) : c ∈ shortest term vocabulary.toFinset := by
  have hbest := closest_spec term vocabulary
  rw [h] at hbest
  refine Finset.mem_filter.mpr ⟨List.mem_toFinset.mpr hbest.1, hbest.2.1, fun d hd hn => ?_⟩
  exact hbest.2.2 d (List.mem_toFinset.mp hd) hn

/-- The first of the shortest candidates is kept to the end. -/
theorem closest_of_head {term c : Str} {rest : List Str}
    (h : c ∈ shortest term (c :: rest).toFinset) : closest term (c :: rest) = some c := by
  obtain ⟨-, hnear, hle⟩ := Finset.mem_filter.mp h
  have hkeep : ∀ {l : List Str}, (∀ d ∈ l, near term d = true → c.length ≤ d.length) →
      l.foldl (closer term) (some c) = some c := by
    intro l hl
    induction l with
    | nil => rfl
    | cons d l ih =>
        have hd : closer term (some c) d = some c := by
          refine if_neg fun hcond => ?_
          rw [Bool.and_eq_true, Option.all_some, decide_eq_true_eq] at hcond
          exact absurd (hl d List.mem_cons_self hcond.1) (not_le.mpr hcond.2)
        rw [List.foldl_cons, hd]
        exact ih fun e he => hl e (List.mem_cons_of_mem _ he)
  have hfirst : closer term none c = some c := by
    rw [closer, hnear]
    rfl
  rw [closest_eq, List.foldl_cons, hfirst]
  exact hkeep fun d hd => hle d (List.mem_toFinset.mpr (List.mem_cons_of_mem _ hd))

/-! ### The order of the set -/

/-- The correction of a term is the same in whatever order the vocabulary is iterated. -/
def Determined (term : Str) (vocabulary : Finset Str) : Prop :=
  ∀ first second : List Str, first.Nodup → second.Nodup → first.toFinset = vocabulary →
    second.toFinset = vocabulary → closest term first = closest term second

/-- **Exactly when there are not two shortest candidates**, the correction is determined. -/
theorem determined_iff (term : Str) (vocabulary : Finset Str) :
    Determined term vocabulary ↔ (shortest term vocabulary).card ≤ 1 := by
  rw [Finset.card_le_one]
  constructor
  · intro h c hc d hd
    -- either of the two may come first
    have hfirst : ∀ c ∈ shortest term vocabulary, ∃ l : List Str, l.Nodup ∧
        l.toFinset = vocabulary ∧ closest term l = some c := fun c hc => by
      have hmem : c ∈ vocabulary := (Finset.mem_filter.mp hc).1
      have heq : (c :: (vocabulary.erase c).toList).toFinset = vocabulary := by
        rw [List.toFinset_cons, Finset.toList_toFinset, Finset.insert_erase hmem]
      refine ⟨_, ?_, heq, closest_of_head (heq.symm ▸ hc)⟩
      refine List.nodup_cons.mpr ⟨fun hm => ?_, (vocabulary.erase c).nodup_toList⟩
      exact Finset.notMem_erase c vocabulary (Finset.mem_toList.mp hm)
    obtain ⟨l, hl, hlv, hlc⟩ := hfirst c hc
    obtain ⟨m, hm, hmv, hmd⟩ := hfirst d hd
    have he := h l m hl hm hlv hmv
    rw [hlc, hmd] at he
    exact Option.some.inj he
  · intro h first second _ _ hf hs
    have hmem : ∀ x, x ∈ first ↔ x ∈ second := fun x => by
      rw [← List.mem_toFinset, ← List.mem_toFinset, hf, hs]
    cases hc : closest term first with
    | none =>
        have hfar := closest_eq_none.mp hc
        exact (closest_eq_none.mpr fun d hd => hfar d ((hmem d).mpr hd)).symm
    | some c =>
        cases hd : closest term second with
        | none =>
            have hfar := closest_eq_none.mp hd
            have hnone := closest_eq_none.mpr fun d hd => hfar d ((hmem d).mp hd)
            exact hc.symm.trans hnone
        | some d => exact congrArg some (h c (hf ▸ mem_shortest hc) d (hs ▸ mem_shortest hd))

/-! ### A search in two processes -/

section Search

variable {K : Type} {rt rt' : Runtime K}

/-- Two processes, which may iterate their sets in different orders. -/
structure SameButOrder (rt rt' : Runtime K) : Prop where
  unicode : rt.toUnicode = rt'.toUnicode
  log : rt.log = rt'.log
  round6 : rt.round6 = rt'.round6

/-- Each term of a fuzzy search that the vocabulary lacks has one correction. -/
def Corrected (u : Unicode) (q : SearchQuery) (corpus : List StoredDoc) : Prop :=
  q.fuzzy = true → ∀ term ∈ tokenize u q.text, term ∉ vocabulary u corpus →
    (shortest term (vocabulary u corpus)).card ≤ 1

instance (u : Unicode) (q : SearchQuery) (corpus : List StoredDoc) :
    Decidable (Corrected u q corpus) :=
  inferInstanceAs (Decidable (_ → _))

theorem effective_eq (h : SameButOrder rt rt') {q : SearchQuery} {c : List StoredDoc}
    (hc : Corrected rt.toUnicode q c) :
    effective rt q c (tokenize rt.toUnicode q.text) =
      effective rt' q c (tokenize rt.toUnicode q.text) := by
  refine List.map_congr_left fun term hterm => ?_
  rw [← h.unicode]
  by_cases hin : (decide (term ∈ vocabulary rt.toUnicode c) || !q.fuzzy) = true
  · rw [if_pos hin, if_pos hin]
  · rw [if_neg hin, if_neg hin]
    rw [Bool.or_eq_true, not_or, decide_eq_true_eq, Bool.not_eq_true', Bool.not_eq_false] at hin
    have hset : ∀ rt : Runtime K, (rt.iterateSet (vocabulary rt'.toUnicode c)).toFinset =
        vocabulary rt'.toUnicode c := fun rt => by
      ext x
      rw [List.mem_toFinset, rt.mem_iterateSet]
    have hdetermined := (determined_iff term _).mpr (hc hin.2 term hterm hin.1)
    rw [h.unicode] at hdetermined ⊢
    rw [hdetermined _ _ (rt.nodup_iterateSet _) (rt'.nodup_iterateSet _) (hset rt) (hset rt')]

variable [Field K] [LinearOrder K]

/-- **The two answer alike** where each correction is determined. -/
theorem search_eq_of_corrected (h : SameButOrder rt rt') {st : State} {q : SearchQuery}
    (hc : Corrected rt.toUnicode q (corpus st.docs q)) : search rt st q = search rt' st q := by
  have heffective := effective_eq h hc
  have hscore : scoreOf rt = scoreOf rt' := by
    funext c terms d
    simp only [scoreOf, h.unicode, h.log]
  have hscored : scored rt q (corpus st.docs q) = scored rt' q (corpus st.docs q) := by
    simp only [scored, matching, heffective, hscore, ← h.unicode]
  have hhit : toHit rt = toHit rt' := by
    funext terms highlight p
    simp only [toHit, h.unicode, h.round6]
  rw [search, search, hscored, hhit, h.unicode]

/-- **Fuzzy correction** is independent of the order of a set exactly when there are not two
shortest candidates, and so is a search that corrects no other term. -/
theorem corrections_determined (h : SameButOrder rt rt') (term : Str) (vocabulary : Finset Str)
    (st : State) (q : SearchQuery) :
    (Determined term vocabulary ↔ (shortest term vocabulary).card ≤ 1) ∧
      (Corrected rt.toUnicode q (corpus st.docs q) → search rt st q = search rt' st q) :=
  ⟨determined_iff term vocabulary, search_eq_of_corrected h⟩

end Search

end InMemoryEngine

namespace Sample

open InMemoryEngine EditDistance

theorem edit_distance_sample :
    editDistanceAtMostOne "colour".toList "color".toList = true ↔
      levenshtein "colour".toList "color".toList ≤ 1 :=
  editDistanceAtMostOne_iff (by decide) (by decide)

/-- A runtime that iterates its sets the other way round. -/
def reversed : Runtime ℚ where
  __ := runtime
  iterateSet s := (sorted s).reverse
  mem_iterateSet := List.mem_reverse.trans runtime.mem_iterateSet
  nodup_iterateSet s := List.nodup_reverse.mpr (runtime.nodup_iterateSet s)

/-- The indexing of a document with a title and no other text. -/
def titled (d : Uuid) (title : String) : Operation :=
  .index d.str acme 1
    { documentId := d.str
      tenantId := acme
      title := title.toList
      content := []
      contentType := payload.contentType
      tags := []
      metadata := []
      version := 1
      createdAt := 0
      updatedAt := 0 }

/-- A fuzzy search for a text. -/
def fuzzyQuery (text : String) : SearchQuery := { query acme with text := text.toList, fuzzy := true }

theorem sameButOrder_reversed : SameButOrder runtime reversed := ⟨rfl, rfl, rfl⟩

/-- The words of two titles, two of which are near `cat`. -/
def words : Finset Str := ["bat", "cart", "dog"].map String.toList |>.toFinset

def manyWords : State := (bulk .initial [titled documentA "bat dog", titled documentB "cart"]).2

/-- One shortest candidate for `cat`: both processes search for it. -/
theorem corrected_once :
    (Determined "cat".toList words ↔ (shortest "cat".toList words).card ≤ 1) ∧
      search runtime manyWords (fuzzyQuery "cat") = search reversed manyWords (fuzzyQuery "cat") :=
  have h := corrections_determined sameButOrder_reversed "cat".toList words manyWords
    (fuzzyQuery "cat")
  ⟨h.1, h.2 (by decide +kernel)⟩

/-- An index with the two titles `bat` and `rat`. -/
def batAndRat : State := (bulk .initial [titled documentA "bat", titled documentB "rat"]).2

/-- The documents a search finds. -/
def documentsFound (answer : Except EngineError (EngineResult ℚ)) : List Str :=
  answer.toOption.elim [] fun r => r.hits.map fun hit => hit.documentId

/-- **Two corrections of `cat`.**  Of the two documents, one process finds the one, and the other
the other. -/
theorem corrected_either_way :
    (¬ ∀ term vocabulary, Determined term vocabulary) ∧
      ¬ ∀ rt rt' : Runtime ℚ, SameButOrder rt rt' →
        search rt batAndRat (fuzzyQuery "cat") = search rt' batAndRat (fuzzyQuery "cat") := by
  constructor
  · intro h
    have he := h "cat".toList {"bat".toList, "rat".toList} ["bat".toList, "rat".toList]
      ["rat".toList, "bat".toList] (by decide) (by decide) (by decide) (by decide)
    exact absurd he (by decide)
  · intro h
    have he := congrArg documentsFound (h runtime reversed sameButOrder_reversed)
    exact absurd he (by decide +kernel)

end Sample

end DocSearch
