import DocSearch.Clients.SearchEngine
import Mathlib.Data.Char
import Mathlib.Data.List.Lex

/-!
# Core — Sample

A runtime to run the model with, exact on ASCII text but for its logarithm, which only scores
depend on, and documents to run it on.
-/

namespace DocSearch

namespace Sample

/-- The Unicode tables for text that is ASCII throughout. -/
def unicode : Unicode where
  isSpace _ := false
  decimal _ := none
  lower s := s.map Char.toLower
  sameIgnoringCase _ _ := false

/-- A set in the order of its strings. -/
def sorted (s : Finset Str) : List Str :=
  Quot.liftOn s.val (fun l => l.insertionSort fun a b => a ≤ b) fun l m h =>
    List.Perm.eq_of_pairwise (fun (a b : Str) _ _ (hab : a ≤ b) hba => le_antisymm hab hba)
      (List.pairwise_insertionSort _ l) (List.pairwise_insertionSort _ m)
      ((List.perm_insertionSort _ l).trans (h.trans (List.perm_insertionSort _ m).symm))

theorem coe_sorted (s : Finset Str) : (sorted s : Multiset Str) = s.val := by
  rcases s with ⟨⟨l⟩, h⟩
  exact Multiset.coe_eq_coe.mpr (List.perm_insertionSort _ l)

/-- The digits of a hexadecimal string. -/
def digits (s : Str) (i : Fin 64) : Fin 16 :=
  ⟨(s[i.val]?.bind hexValue).getD 0 % 16, Nat.mod_lt _ (by decide)⟩

/-- The SHA-256 of the canonical forms of the searches the samples make. -/
def sha256 (s : Str) : Fin 64 → Fin 16 :=
  if s = "revenue|p=1|s=10|f=0|h=1|a=0".toList then
    digits "c4aed9624ccd2b4e391f130b7c590942b3da33fb4bce621fd9a948cf7a565ae7".toList
  else if s = "revenue|p=2|s=1|f=0|h=1|a=0".toList then
    digits "be6768fb3d4da185aec1ac4ea53c8df7d6d51884e5b58201d53963cf0cd4c4f4".toList
  else if s = "revenue|p=1|s=1|f=0|h=1|a=0".toList then
    digits "45fcf2b7de97b809e251a2b8c03267fddbf852f2c88924343a87f1815aaaa6bc".toList
  else digits []

/-- The runtime: `sha256` gives the digests of the strings the samples are run on. -/
def runtime : Runtime ℚ where
  toUnicode := unicode
  iterateSet := sorted
  mem_iterateSet {s x} := by rw [← Multiset.mem_coe, coe_sorted]; rfl
  nodup_iterateSet s := by rw [← Multiset.coe_nodup, coe_sorted]; exact s.nodup
  sha256 := sha256
  log x := x - 1
  round6 x := x

def documentA : Uuid := ⟨0x3f2c9d8e5b6a4c7d8e9f0a1b2c3d4e5f, by decide⟩

def documentB : Uuid := ⟨0x9a8b7c6d5e4f4a3b8c2d1e0f9a8b7c6d, by decide⟩

def acme : Str := "acme".toList

def globex : Str := "globex".toList

def payload : DocumentCreate where
  title := "Quarterly report".toList
  content := "Revenue grew across all regions.".toList
  contentType := "text/plain".toList
  tags := []
  metadata := []

/-- The search the samples make: `q=revenue` with the defaults of the route. -/
def query (tenantId : Str) : SearchQuery where
  tenantId := tenantId
  text := "revenue".toList
  page := 1
  size := 10
  fuzzy := false
  highlight := true
  facets := false

end Sample

end DocSearch
