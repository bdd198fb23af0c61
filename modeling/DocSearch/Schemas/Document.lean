import DocSearch.Models.Document
import Mathlib.Data.List.DropRight

/-!
# Schemas — Document

The body of `POST /documents`, its fields being of their types and those it left out at their
defaults: the bounds on each field, and the validators of the tags and of the metadata.

* `WellFormed`: what a stored document looks like.
* `validate_eq_ok`: an accepted body is the one sent with its tags cleaned, and well formed;
  `accepted_iff`: every well formed body is accepted.
* `mem_errorsOf`: an error names the field that is out of its bounds.
-/

namespace DocSearch

/-- Stripping twice. -/
theorem pyStrip_pyStrip (p : Char → Bool) (s : Str) : pyStrip p (pyStrip p s) = pyStrip p s := by
  have hback : ((pyStrip p s).reverse).dropWhile p = (pyStrip p s).reverse := by
    rw [pyStrip, List.reverse_reverse, List.dropWhile_idempotent]
  have hfront : (pyStrip p s).dropWhile p = pyStrip p s := by
    have hprefix : pyStrip p s <+: s.dropWhile p := List.rdropWhile_prefix p (s.dropWhile p)
    have hdropped : (s.dropWhile p).dropWhile p = s.dropWhile p := List.dropWhile_idempotent p s
    cases hs : pyStrip p s with
    | nil => rfl
    | cons c r =>
        obtain ⟨t, ht⟩ := hs ▸ hprefix
        rw [← ht, List.cons_append, List.dropWhile_cons] at hdropped
        rw [List.dropWhile_cons]
        split
        · rename_i hc
          rw [if_pos hc] at hdropped
          have hle := (List.dropWhile_suffix (l := r ++ t) p).length_le
          rw [hdropped, List.length_cons] at hle
          omega
        · rfl
  have hagain : pyStrip p (pyStrip p s) =
      (((pyStrip p s).dropWhile p).reverse.dropWhile p).reverse := rfl
  rw [hagain, hfront, hback, List.reverse_reverse]

namespace DocumentCreate

def maxContentChars : ℕ := 1000000

def maxTags : ℕ := 32

def maxMetadataKeys : ℕ := 50

/-- What is wrong with a field. -/
inductive Problem where
  | tooShort (least : ℕ)
  | tooLong (most : ℕ)
  | valueError (message : Str)
  deriving DecidableEq

structure FieldError where
  field : Str
  problem : Problem
  deriving DecidableEq

/-! ### The validators -/

/-- `_validate_tags`. -/
def validateTags (u : Unicode) (tags : List Str) : Except Str (List Str) :=
  let cleaned := (tags.filter fun t => decide (t ≠ []) && decide (pyStrip u.space t ≠ [])).map
    (pyStrip u.space)
  if cleaned.any fun t => decide (64 < t.length) then
    .error "each tag must be at most 64 characters".toList
  else .ok cleaned

/-- What the loop of `_validate_metadata` raises on an item. -/
def itemError : Str × Json → Option Str
  | (key, value) =>
      if 64 < key.length then some "metadata keys must be strings of at most 64 characters".toList
      else
        match value with
        | .array _ | .object _ =>
            some "metadata values must be scalar (string, number, boolean or null)".toList
        | .str s =>
            if 1024 < s.length then
              some "metadata string values must be at most 1024 characters".toList
            else none
        | .null | .bool _ | .int _ | .float _ => none

/-- `_validate_metadata`. -/
def validateMetadata (metadata : List (Str × Json)) : Except Str (List (Str × Json)) :=
  if maxMetadataKeys < metadata.length then
    .error ("metadata supports at most ".toList ++ strNat maxMetadataKeys ++ " keys".toList)
  else
    match metadata.findSome? itemError with
    | some message => .error message
    | none => .ok metadata

/-! ### The fields -/

/-- The bounds on a length. -/
def lengthErrors (field : String) (least most length : ℕ) : List FieldError :=
  if length < least then [⟨field.toList, .tooShort least⟩]
  else if most < length then [⟨field.toList, .tooLong most⟩]
  else []

/-- What a validator raises. -/
def valueErrors {α : Type} (field : String) : Except Str α → List FieldError
  | .error message => [⟨field.toList, .valueError message⟩]
  | .ok _ => []

/-- The errors of the tags: the bound on their number comes before the validator. -/
def tagErrors (u : Unicode) (tags : List Str) : List FieldError :=
  match lengthErrors "tags" 0 maxTags tags.length with
  | [] => valueErrors "tags" (validateTags u tags)
  | errors => errors

/-- The errors of all fields, in their order. -/
def errorsOf (u : Unicode) (raw : DocumentCreate) : List FieldError :=
  lengthErrors "title" 1 512 raw.title.length ++
    lengthErrors "content" 1 maxContentChars raw.content.length ++
    lengthErrors "content_type" 0 64 raw.contentType.length ++
    tagErrors u raw.tags ++ valueErrors "metadata" (validateMetadata raw.metadata)

/-- The validation of a body: `DocumentCreate` as the routes get it, or the errors. -/
def validate (u : Unicode) (raw : DocumentCreate) : Except (List FieldError) DocumentCreate :=
  match errorsOf u raw, validateTags u raw.tags with
  | [], .ok tags => .ok { raw with tags := tags }
  | errors, _ => .error errors

/-- A body that leaves out what it may. -/
def withDefaults (title content : Str) : DocumentCreate where
  title := title
  content := content
  contentType := "text/plain".toList
  tags := []
  metadata := []

/-! ### What is accepted -/

structure TagOk (u : Unicode) (tag : Str) : Prop where
  nonempty : tag ≠ []
  length : tag.length ≤ 64
  stripped : pyStrip u.space tag = tag

/-- A key of bounded length, and a scalar. -/
structure ItemOk (item : Str × Json) : Prop where
  key : item.1.length ≤ 64
  notArray : ∀ xs, item.2 ≠ .array xs
  notObject : ∀ fields, item.2 ≠ .object fields
  string : ∀ s, item.2 = .str s → s.length ≤ 1024

/-- A document as it is stored. -/
structure WellFormed (u : Unicode) (p : DocumentCreate) : Prop where
  title : 1 ≤ p.title.length ∧ p.title.length ≤ 512
  content : 1 ≤ p.content.length ∧ p.content.length ≤ maxContentChars
  contentType : p.contentType.length ≤ 64
  tagCount : p.tags.length ≤ maxTags
  tags : ∀ t ∈ p.tags, TagOk u t
  itemCount : p.metadata.length ≤ maxMetadataKeys
  items : ∀ x ∈ p.metadata, ItemOk x

variable {u : Unicode} {raw p : DocumentCreate}

theorem lengthErrors_eq_nil {field : String} {least most length : ℕ} :
    lengthErrors field least most length = [] ↔ least ≤ length ∧ length ≤ most := by
  unfold lengthErrors
  split
  · exact iff_of_false (fun h => by cases h) fun h => by omega
  · split
    · exact iff_of_false (fun h => by cases h) fun h => by omega
    · exact iff_of_true rfl (by omega)

theorem valueErrors_eq_nil {α : Type} {field : String} {r : Except Str α} :
    valueErrors field r = [] ↔ ∃ a, r = .ok a := by
  cases r with
  | error message => exact iff_of_false (fun h => by cases h) fun ⟨_, h⟩ => by cases h
  | ok a => exact iff_of_true rfl ⟨a, rfl⟩

/-- The tags that are left. -/
theorem validateTags_eq_ok {tags cleaned : List Str} (h : validateTags u tags = .ok cleaned) :
    cleaned.length ≤ tags.length ∧ ∀ t ∈ cleaned, TagOk u t := by
  unfold validateTags at h
  dsimp only at h
  split at h
  · cases h
  · rename_i hlong
    cases h
    refine ⟨(List.length_map _).trans_le (List.length_filter_le _ _), fun t ht => ?_⟩
    have hshort : t.length ≤ 64 := by
      by_contra hlt
      exact hlong (List.any_eq_true.mpr ⟨t, ht, decide_eq_true (not_le.mp hlt)⟩)
    obtain ⟨s, hs, rfl⟩ := List.mem_map.mp ht
    have hkeep := (List.mem_filter.mp hs).2
    rw [Bool.and_eq_true, decide_eq_true_eq, decide_eq_true_eq] at hkeep
    exact ⟨hkeep.2, hshort, pyStrip_pyStrip _ _⟩

/-- Tags that are clean are all kept, as they are. -/
theorem clean_tags {tags : List Str} (h : ∀ t ∈ tags, t ≠ [] ∧ pyStrip u.space t = t) :
    (tags.filter fun t => decide (t ≠ []) && decide (pyStrip u.space t ≠ [])).map
      (pyStrip u.space) = tags := by
  have hkeep :
      (tags.filter fun t => decide (t ≠ []) && decide (pyStrip u.space t ≠ [])) = tags := by
    refine List.filter_eq_self.mpr fun t ht => ?_
    rw [(h t ht).2, Bool.and_self, decide_eq_true_eq]
    exact (h t ht).1
  rw [hkeep]
  exact (List.map_congr_left fun t ht => (h t ht).2).trans (List.map_id _)

theorem validateTags_of_clean {tags cleaned : List Str}
    (h : ∀ t ∈ tags, t ≠ [] ∧ pyStrip u.space t = t) (hv : validateTags u tags = .ok cleaned) :
    cleaned = tags := by
  unfold validateTags at hv
  dsimp only at hv
  rw [clean_tags h] at hv
  split at hv
  · cases hv
  · cases hv
    rfl

theorem validateTags_of_ok {tags : List Str} (h : ∀ t ∈ tags, TagOk u t) :
    validateTags u tags = .ok tags := by
  unfold validateTags
  dsimp only
  rw [clean_tags fun t ht => ⟨(h t ht).nonempty, (h t ht).stripped⟩, if_neg]
  intro hlong
  obtain ⟨t, ht, hlt⟩ := List.any_eq_true.mp hlong
  exact absurd (h t ht).length (not_le.mpr (of_decide_eq_true hlt))

theorem itemError_eq_none {x : Str × Json} : itemError x = none ↔ ItemOk x := by
  obtain ⟨key, value⟩ := x
  unfold itemError
  dsimp only
  split
  · rename_i hlong
    exact iff_of_false (fun h => by cases h) fun h => absurd h.key (not_le.mpr hlong)
  · rename_i hshort
    have hkey : key.length ≤ 64 := not_lt.mp hshort
    cases value with
    | array xs => exact iff_of_false (fun h => by cases h) fun h => h.notArray xs rfl
    | object fields => exact iff_of_false (fun h => by cases h) fun h => h.notObject fields rfl
    | str s =>
        dsimp only
        split
        · rename_i hlong
          exact iff_of_false (fun h => by cases h) fun h =>
            absurd (h.string s rfl) (not_le.mpr hlong)
        · rename_i hs
          refine iff_of_true rfl ⟨hkey, fun _ h => (by cases h), fun _ h => (by cases h), ?_⟩
          intro s' h
          cases h
          exact not_lt.mp hs
    | null | bool _ | int _ | float _ =>
        exact iff_of_true rfl ⟨hkey, fun _ h => (by cases h), fun _ h => (by cases h),
          fun _ h => (by cases h)⟩

theorem validateMetadata_ok_iff {metadata : List (Str × Json)} :
    (∃ m, validateMetadata metadata = .ok m) ↔
      metadata.length ≤ maxMetadataKeys ∧ ∀ x ∈ metadata, ItemOk x := by
  have hitems : metadata.findSome? itemError = none ↔ ∀ x ∈ metadata, ItemOk x := by
    rw [List.findSome?_eq_none_iff]
    exact forall₂_congr fun _ _ => itemError_eq_none
  unfold validateMetadata
  split
  · rename_i hlong
    exact iff_of_false (fun ⟨_, h⟩ => by cases h) fun h => absurd h.1 (not_le.mpr hlong)
  · rename_i hshort
    rw [← hitems]
    split
    · rename_i message h
      exact iff_of_false (fun ⟨_, h⟩ => by cases h) fun h' => by cases h.symm.trans h'.2
    · rename_i h
      exact iff_of_true ⟨_, rfl⟩ ⟨not_lt.mp hshort, h⟩

theorem tagErrors_eq_nil {tags : List Str} :
    tagErrors u tags = [] ↔
      tags.length ≤ maxTags ∧ ∃ cleaned, validateTags u tags = .ok cleaned := by
  unfold tagErrors
  split
  · rename_i h
    rw [valueErrors_eq_nil]
    exact (and_iff_right (lengthErrors_eq_nil.mp h).2).symm
  · rename_i hne
    exact iff_of_false hne fun h => hne (lengthErrors_eq_nil.mpr ⟨Nat.zero_le _, h.1⟩)

theorem errorsOf_eq_nil : errorsOf u raw = [] ↔
    (1 ≤ raw.title.length ∧ raw.title.length ≤ 512) ∧
      (1 ≤ raw.content.length ∧ raw.content.length ≤ maxContentChars) ∧
      raw.contentType.length ≤ 64 ∧
      (raw.tags.length ≤ maxTags ∧ ∃ cleaned, validateTags u raw.tags = .ok cleaned) ∧
      raw.metadata.length ≤ maxMetadataKeys ∧ ∀ x ∈ raw.metadata, ItemOk x := by
  rw [errorsOf, List.append_eq_nil_iff, List.append_eq_nil_iff, List.append_eq_nil_iff,
    List.append_eq_nil_iff, lengthErrors_eq_nil, lengthErrors_eq_nil, lengthErrors_eq_nil,
    tagErrors_eq_nil, valueErrors_eq_nil, validateMetadata_ok_iff, and_iff_right (Nat.zero_le _)]
  tauto

theorem mem_lengthErrors {field : String} {least most length : ℕ} {e : FieldError}
    (h : e ∈ lengthErrors field least most length) :
    e.field = field.toList ∧ ¬(least ≤ length ∧ length ≤ most) := by
  refine ⟨?_, fun hbounds => ?_⟩
  · unfold lengthErrors at h
    split at h
    · rw [List.mem_singleton.mp h]
    · split at h
      · rw [List.mem_singleton.mp h]
      · cases h
  · rw [lengthErrors_eq_nil.mpr hbounds] at h
    cases h

theorem mem_valueErrors {α : Type} {field : String} {r : Except Str α} {e : FieldError}
    (h : e ∈ valueErrors field r) : e.field = field.toList ∧ ¬∃ a, r = .ok a := by
  cases r with
  | error message => exact ⟨by rw [List.mem_singleton.mp h], fun ⟨_, h'⟩ => by cases h'⟩
  | ok a => cases h

theorem mem_tagErrors {tags : List Str} {e : FieldError} (h : e ∈ tagErrors u tags) :
    e.field = "tags".toList ∧
      ¬(tags.length ≤ maxTags ∧ ∃ cleaned, validateTags u tags = .ok cleaned) := by
  refine ⟨?_, fun hok => ?_⟩
  · unfold tagErrors at h
    split at h
    · exact (mem_valueErrors h).1
    · exact (mem_lengthErrors h).1
  · rw [tagErrors_eq_nil.mpr hok] at h
    cases h

/-- **An error names its field**, which is out of its bounds. -/
theorem mem_errorsOf {e : FieldError} (h : e ∈ errorsOf u raw) :
    (e.field = "title".toList ∧ ¬(1 ≤ raw.title.length ∧ raw.title.length ≤ 512)) ∨
      (e.field = "content".toList ∧
        ¬(1 ≤ raw.content.length ∧ raw.content.length ≤ maxContentChars)) ∨
      (e.field = "content_type".toList ∧ 64 < raw.contentType.length) ∨
      (e.field = "tags".toList ∧
        ¬(raw.tags.length ≤ maxTags ∧ ∃ cleaned, validateTags u raw.tags = .ok cleaned)) ∨
      (e.field = "metadata".toList ∧
        ¬(raw.metadata.length ≤ maxMetadataKeys ∧ ∀ x ∈ raw.metadata, ItemOk x)) := by
  unfold errorsOf at h
  rw [List.mem_append, List.mem_append, List.mem_append, List.mem_append] at h
  rcases h with (((h | h) | h) | h) | h
  · exact .inl (mem_lengthErrors h)
  · exact .inr (.inl (mem_lengthErrors h))
  · obtain ⟨hfield, hlong⟩ := mem_lengthErrors h
    exact .inr (.inr (.inl ⟨hfield, not_le.mp fun hle => hlong ⟨Nat.zero_le _, hle⟩⟩))
  · exact .inr (.inr (.inr (.inl (mem_tagErrors h))))
  · obtain ⟨hfield, hbad⟩ := mem_valueErrors h
    exact .inr (.inr (.inr (.inr ⟨hfield, fun hok => hbad (validateMetadata_ok_iff.mpr hok)⟩)))

/-- **What is accepted**: the body with its tags cleaned, which is well formed. -/
theorem validate_eq_ok (h : validate u raw = .ok p) :
    WellFormed u p ∧ validateTags u raw.tags = .ok p.tags ∧ p = { raw with tags := p.tags } := by
  unfold validate at h
  split at h
  · rename_i tags herrors htags
    cases h
    obtain ⟨htitle, hcontent, htype, ⟨hcount, -⟩, hitems⟩ := errorsOf_eq_nil.mp herrors
    obtain ⟨hle, hok⟩ := validateTags_eq_ok htags
    exact ⟨⟨htitle, hcontent, htype, hle.trans hcount, hok, hitems.1, hitems.2⟩, htags, rfl⟩
  · cases h

/-- **It is accepted again as it is.** -/
theorem validate_wellFormed (h : WellFormed u p) : validate u p = .ok p := by
  have htags := validateTags_of_ok h.tags
  have herrors : errorsOf u p = [] := errorsOf_eq_nil.mpr
    ⟨h.title, h.content, h.contentType, ⟨h.tagCount, _, htags⟩, h.itemCount, h.items⟩
  unfold validate
  rw [herrors, htags]

theorem accepted_iff : (∃ raw, validate u raw = .ok p) ↔ WellFormed u p :=
  ⟨fun ⟨_, h⟩ => (validate_eq_ok h).1, fun h => ⟨p, validate_wellFormed h⟩⟩

/-- The defaults are within the bounds. -/
theorem wellFormed_withDefaults {title content : Str}
    (htitle : 1 ≤ title.length ∧ title.length ≤ 512)
    (hcontent : 1 ≤ content.length ∧ content.length ≤ maxContentChars) :
    WellFormed u (withDefaults title content) where
  title := htitle
  content := hcontent
  contentType := show "text/plain".toList.length ≤ 64 by decide
  tagCount := Nat.zero_le _
  tags _ h := by cases h
  itemCount := Nat.zero_le _
  items _ h := by cases h

instance : Decidable (WellFormed u p) :=
  decidable_of_iff (errorsOf u p = [] ∧ ∀ t ∈ p.tags, t ≠ [] ∧ pyStrip u.space t = t) <| by
    constructor
    · rintro ⟨herrors, hclean⟩
      obtain ⟨htitle, hcontent, htype, ⟨hcount, cleaned, htags⟩, hitems⟩ :=
        errorsOf_eq_nil.mp herrors
      have hkept : cleaned = p.tags := validateTags_of_clean hclean htags
      refine ⟨htitle, hcontent, htype, hcount, ?_, hitems.1, hitems.2⟩
      rw [← hkept]
      exact (validateTags_eq_ok htags).2
    · intro h
      exact ⟨errorsOf_eq_nil.mpr ⟨h.title, h.content, h.contentType,
        ⟨h.tagCount, _, validateTags_of_ok h.tags⟩, h.itemCount, h.items⟩,
        fun t ht => ⟨(h.tags t ht).nonempty, (h.tags t ht).stripped⟩⟩

end DocumentCreate

end DocSearch
