import DocSearch.Pipeline.DocumentCache

/-!
# Pipeline — Generations

The generation counters of the search cache, in the runs that keep them: they only grow, a worker's
increment takes them past every value a search has read before, and a search that starts later reads
at least that value.

* `generations_established`: the outline, for every engine.
-/

namespace DocSearch

open CacheKeys SearchService IndexingProcessor Interleaving

namespace Pipeline

variable {K : Type} {E : SearchEngine K}

/-- The event was accepted by the broker. -/
def Published (w : World E) (event : Event) : Prop := ∃ at', (at', Entry.published event) ∈ w.log

/-- Whether the environment leaves the cache working and the generation counters in it. -/
def keepsGenerations : Disturbance → Prop
  | .cache available => available = true
  | .expire key => ∀ t, key ≠ searchGenerationKey t
  | _ => True

/-- The cache works and keeps its generation counters, and workers process events that were
published. -/
def keptGenerations : Restriction (World E) (Task K) Request Disturbance where
  start w
    | .process events => ∀ e ∈ events, Published w e
    | _ => True
  environment _ e := keepsGenerations e

/-! ### Deciding it -/

instance (w : World E) (event : Event) : Decidable (Published w event) :=
  decidable_of_iff ((w.log.any fun x =>
      match x.2 with
      | .published e => decide (e = event)
      | _ => false) = true) <| by
    rw [List.any_eq_true]
    constructor
    · rintro ⟨⟨a, e⟩, hm, h⟩
      cases e with
      | published e => cases of_decide_eq_true h; exact ⟨a, hm⟩
      | _ => cases h
    · rintro ⟨a, hm⟩
      exact ⟨_, hm, decide_eq_true rfl⟩

/-- A key is a generation key when it is the one of what stands where the tenant does. -/
instance (key : Str) : Decidable (∀ t, key ≠ searchGenerationKey t) :=
  decidable_of_iff (key ≠ searchGenerationKey ((key.drop 2).take (key.length - 13))) <| by
    refine ⟨fun h t hk => h ?_, fun h => h _⟩
    subst hk
    simp [searchGenerationKey]

instance : (e : Disturbance) → Decidable (keepsGenerations e)
  | .cache _ => inferInstanceAs (Decidable (_ = true))
  | .expire key => inferInstanceAs (Decidable (∀ t, key ≠ searchGenerationKey t))
  | .elapse _ | .lose _ | .refresh | .engine _ | .publisher _ => .isTrue trivial

instance (w : World E) :
    (r : Request) → Decidable ((keptGenerations : Restriction _ (Task K) _ Disturbance).start w r)
  | .process events => inferInstanceAs (Decidable (∀ e ∈ events, Published w e))
  | .create _ _ _ | .get _ _ | .delete _ _ | .search _ _ | .sweep => .isTrue trivial

instance (w : World E) (t : Task K) :
    Decidable ((keptGenerations : Restriction _ (Task K) Request Disturbance).resume w t) :=
  .isTrue trivial

instance (w : World E) (e : Disturbance) :
    Decidable ((keptGenerations : Restriction _ (Task K) Request _).environment w e) :=
  inferInstanceAs (Decidable (keepsGenerations e))

/-! ### What a step does to the counters -/

/-- The counters are left alone. -/
structure GenerationFrame (w w' : World E) : Prop where
  store : ∀ t, w'.cache.store (searchGenerationKey t) = w.cache.store (searchGenerationKey t)
  log : ∀ a t g b, (a, Entry.bumped t g b) ∈ w'.log → (a, Entry.bumped t g b) ∈ w.log

/-- The counter of a tenant is incremented; `b` is the bulk call an increment is recorded for. -/
structure Incremented (w w' : World E) (tenantId : Str) (b : ℕ → Prop) : Prop where
  cache : w'.cache = (w.cache.incr (searchGenerationKey tenantId)).2
  log : ∀ a t g b', (a, Entry.bumped t g b') ∈ w'.log → (a, Entry.bumped t g b') ∈ w.log ∨
    (a = w.clock ∧ t = tenantId ∧ (w.cache.incr (searchGenerationKey tenantId)).1 = some g ∧ b b')

theorem GenerationFrame.quiet {w w' : World E} (hc : w'.cache = w.cache) (hl : w'.log = w.log) :
    GenerationFrame w w' :=
  ⟨fun _ => by rw [hc], fun _ _ _ _ h => hl ▸ h⟩

/-- Whether an entry is an increment by a worker. -/
def isBumped : Entry K → Bool
  | .bumped _ _ _ => true
  | _ => false

theorem GenerationFrame.record {w w₁ : World E} {e : Entry K} (h : GenerationFrame w w₁)
    (he : isBumped e = false) : GenerationFrame w (w₁.record e) :=
  ⟨h.store, fun a t g b hm => by
    rcases List.mem_cons.mp hm with hm | hm
    · cases hm; cases he
    · exact h.log a t g b hm⟩

theorem Incremented.record {w w₁ : World E} {t : Str} {b : ℕ → Prop} {e : Entry K}
    (h : Incremented w w₁ t b) (he : isBumped e = false) : Incremented w (w₁.record e) t b :=
  ⟨h.cache, fun a t g b' hm => by
    rcases List.mem_cons.mp hm with hm | hm
    · cases hm; cases he
    · exact h.log a t g b' hm⟩

theorem incremented_invalidateTenant (w : World E) (t : Str) (b : ℕ → Prop) :
    Incremented w (w.invalidateTenant t) t b :=
  ⟨rfl, fun _ _ _ _ h => .inl h⟩

theorem incremented_bump (w : World E) (b : ℕ) (t : Str) : Incremented w (bump w b t) t (· = b) := by
  rcases bump_cases w b t with ⟨h, -⟩ | ⟨g, h, hg⟩ <;> rw [h]
  · exact incremented_invalidateTenant w t _
  · refine ⟨rfl, fun a t' g' b' hm => ?_⟩
    rcases List.mem_cons.mp hm with hm | hm
    · cases hm; exact .inr ⟨rfl, rfl, hg, rfl⟩
    · exact .inl hm

theorem generationFrame_publish (w : World E) (e : Event) :
    GenerationFrame w (DocumentService.publish w e) := by
  rcases publish_cases w e with h | h <;> rw [h]
  · exact .quiet rfl rfl
  · exact .record (.quiet rfl rfl) rfl

/-- The bulk call that an increment of the task is recorded for. -/
def bulkAtOf : Task K → ℕ → Prop
  | .process (.invalidate _ _ bulkAt _) => (· = bulkAt)
  | _ => fun _ => False

/-- **A move and the counters.** -/
theorem generations_move {cfg : Settings} {rt : Runtime K} {w w' : World E} {t : Task K}
    {u : Option (Task K)} (h : Move cfg rt w t w' u) :
    GenerationFrame w w' ∨ ∃ tenantId, Incremented w w' tenantId (bulkAtOf t) := by
  cases h with
  | created => exact .inr ⟨_, .record (incremented_invalidateTenant w _ _) rfl⟩
  | deleteInvalidated => exact .inr ⟨_, incremented_invalidateTenant w _ _⟩
  | @bumped p r b ts t w' next _ h =>
      refine .inr ⟨t, ?_⟩
      rcases proceed_cases h with ⟨-, rfl, -⟩ | ⟨rfl, -⟩
      · exact (incremented_bump w b t).record rfl
      · exact incremented_bump w b t
  | indexPublished => exact .inl (generationFrame_publish w _)
  | deleted => exact .inl (.record (generationFrame_publish w _) rfl)
  | republished h =>
      obtain ⟨-, rfl⟩ := World.publish_eq_some h
      exact .inl (.record (.quiet rfl rfl) rfl)
  | committed h =>
      rcases proceed_cases h with ⟨-, rfl, -⟩ | ⟨rfl, -⟩
      · exact .inl (.record (.quiet rfl rfl) rfl)
      · exact .inl (.quiet rfl rfl)
  | @documentCached s t d r =>
      have hne (t' : Str) : searchGenerationKey t' ≠ documentKey t d.str :=
        documentKey_ne_searchGenerationKey.symm
      exact .inl (.record ⟨fun t' => Cache.store_setJson_of_ne (hne t'), fun _ _ _ _ h => h⟩ rfl)
  | @uncached t d row =>
      have hne (t' : Str) : searchGenerationKey t' ≠ documentKey t d.str :=
        documentKey_ne_searchGenerationKey.symm
      exact .inl (.record ⟨fun t' => Cache.store_delete_of_ne (hne t'), fun _ _ _ _ h => h⟩ rfl)
  | @filled r s q g f a =>
      have hne (t' : Str) : searchGenerationKey t' ≠ keyOf rt g q :=
        searchKey_ne_searchGenerationKey.symm
      exact .inl ⟨fun t' => Cache.store_setJson_of_ne (hne t'), fun _ _ _ _ h => h⟩
  | documentHit | rowMissing | searchHit | followed | finished | bulkReturned =>
      exact .inl (.record (.quiet rfl rfl) rfl)
  | _ => exact .inl (.quiet rfl rfl)

theorem generations_disturb (w : World E) {e : Disturbance} (he : keepsGenerations e) :
    GenerationFrame w (disturb w e) := by
  cases e with
  | expire key => exact ⟨fun t => Cache.store_expire_of_ne (he t).symm, fun _ _ _ _ h => h⟩
  | refresh => exact .record (.quiet rfl rfl) rfl
  | cache available => exact ⟨fun _ => rfl, fun _ _ _ _ h => h⟩
  | _ => exact .quiet rfl rfl

/-! ### The outline -/

/-- The increments that workers had recorded before a search started are not past the generation
it has read. -/
def Covers (w : World E) (tenantId : Str) (startedAt generation : ℕ) : Prop :=
  ∀ a g b, (a, Entry.bumped tenantId g b) ∈ w.log → a < startedAt → g ≤ generation

structure GenerationsOk (w : World E) : Prop where
  available : w.cache.available = true
  numbers : ∀ t v, w.cache.store (searchGenerationKey t) = some v → ∃ n, v = .generation n
  bumped : ∀ a t g b, (a, Entry.bumped t g b) ∈ w.log → g ≤ w.generation t ∧ b ≤ a
  searched : ∀ a t s g r, (a, Entry.searched t s g r) ∈ w.log → s < w.clock ∧ Covers w t s g

/-- Counters grow, and what a worker records is past every value a counter had before. -/
structure GenerationsGrow (w w' : World E) : Prop where
  grow : ∀ t, w.generation t ≤ w'.generation t
  new : ∀ a t g b, (a, Entry.bumped t g b) ∈ w'.log →
    (a, Entry.bumped t g b) ∈ w.log ∨ w.generation t < g

def generationAssertion (w : World E) : Task K → Prop
  | .search _ startedAt q step =>
      ∀ g, step.generation? = some g → Covers w q.tenantId startedAt g
  | _ => True

def generationOutline : Outline (World E) (Task K) where
  inv := GenerationsOk
  assertion := generationAssertion
  guarantee := GenerationsGrow

/-- A step leaves the counters alone or increments one. -/
def GenerationStep (w w' : World E) : Prop :=
  GenerationFrame w w' ∨ ∃ tenantId, Incremented w w' tenantId (· ≤ w.clock)

namespace GenerationStep

variable {w w' : World E}

theorem numbers (h : GenerationStep w w') (hi : GenerationsOk w) :
    ∀ t v, w'.cache.store (searchGenerationKey t) = some v → ∃ n, v = .generation n := by
  intro t v hv
  rcases h with hf | ⟨t', hf⟩
  · exact hi.numbers t v ((hf.store t).symm.trans hv)
  · rw [hf.cache] at hv
    rcases Cache.store_incr hv with ⟨-, hn⟩ | hv
    · exact hn
    · exact hi.numbers t v hv

/-- An increment adds one to the counter of its tenant, and returns it. -/
theorem incremented {t : Str} {b : ℕ → Prop} (hf : Incremented w w' t b) (hi : GenerationsOk w) :
    (∀ s, w'.generation s = if s = t then w.generation t + 1 else w.generation s) ∧
      ∀ g, (w.cache.incr (searchGenerationKey t)).1 = some g → g = w.generation t + 1 := by
  obtain ⟨hret, hcount⟩ := Cache.incr_eq hi.available (hi.numbers t)
  refine ⟨fun s => ?_, fun g hg => ?_⟩
  · unfold World.generation
    rw [hf.cache]
    split
    · rename_i hs; rw [hs]; exact hcount
    · rename_i hs
      exact Cache.counter_congr (Cache.store_incr_of_ne fun hk => hs (searchGenerationKey_inj hk))
  · rw [hret] at hg
    exact (Option.some.inj hg).symm

theorem grows (h : GenerationStep w w') (hi : GenerationsOk w) : GenerationsGrow w w' := by
  rcases h with hf | ⟨t, hf⟩
  · exact ⟨fun s => (Cache.counter_congr (hf.store s)).ge, fun a s g b hm => .inl (hf.log a s g b hm)⟩
  · obtain ⟨hgen, hret⟩ := incremented hf hi
    refine ⟨fun s => ?_, fun a s g b hm => ?_⟩
    · rw [hgen]; split
      · rename_i hs; subst hs; omega
      · exact le_refl _
    · rcases hf.log a s g b hm with hm | ⟨-, rfl, hg, -⟩
      · exact .inl hm
      · exact .inr (by rw [hret g hg]; omega)

theorem bumped (h : GenerationStep w w') (hi : GenerationsOk w) :
    ∀ a t g b, (a, Entry.bumped t g b) ∈ w'.log → g ≤ w'.generation t ∧ b ≤ a := by
  intro a s g b hm
  have hgrow := (h.grows hi).grow s
  rcases h with hf | ⟨t, hf⟩
  · obtain ⟨hg, hb⟩ := hi.bumped a s g b (hf.log a s g b hm)
    exact ⟨hg.trans hgrow, hb⟩
  · rcases hf.log a s g b hm with hm | ⟨rfl, rfl, hg, hb⟩
    · obtain ⟨hg, hb⟩ := hi.bumped a s g b hm
      exact ⟨hg.trans hgrow, hb⟩
    · obtain ⟨hgen, hret⟩ := incremented hf hi
      refine ⟨?_, hb⟩
      rw [hgen, if_pos rfl, hret g hg]

end GenerationStep

/-- What is recorded later does not matter to a search that has started. -/
theorem Covers.mono {w w' : World E} (hc : Continues w w') {t : Str} {s g : ℕ} (hs : s ≤ w.clock)
    (h : Covers w t s g) : Covers w' t s g := by
  intro a g' b hm hlt
  rcases hc.new hm with hm | rfl
  · exact h a g' b hm hlt
  · omega

/-- What a search reads is at least what any worker has recorded. -/
theorem covers_currentGeneration {w : World E} (hi : GenerationsOk w) (t : Str) (s : ℕ) :
    Covers w t s (currentGeneration w t) := by
  intro a g b hm _
  have hread : currentGeneration w t = w.generation t := by
    rw [currentGeneration, Cache.getJson, if_pos hi.available]; rfl
  rw [hread]
  exact (hi.bumped a t g b hm).1

theorem GenerationsOk.step {w w' : World E} (hi : GenerationsOk w) (h : GenerationStep w w')
    (hav : w'.cache.available = true) (hx : Extends w w')
    (hs : ∀ a t s g r, (a, Entry.searched t s g r) ∈ w'.log →
      (a, Entry.searched t s g r) ∈ w.log ∨ (s < w.clock ∧ Covers w t s g)) :
    GenerationsOk w'.tick where
  available := hav
  numbers := h.numbers hi
  bumped := h.bumped hi
  searched a t s g r hm := by
    obtain ⟨hlt, hc⟩ := (hs a t s g r hm).elim (hi.searched a t s g r) id
    have hco := Continues.of_extends hx
    exact ⟨Nat.lt_of_lt_of_le hlt hco.clock, hc.mono hco (le_of_lt hlt)⟩

theorem generationAssertion_mono {w w' : World E} (hc : Continues w w') {t : Task K}
    (hh : historyAssertion w.clock t) (h : generationAssertion w t) : generationAssertion w' t := by
  cases t with
  | search r s q step =>
      have hlt : s < w.clock := hh
      exact fun g hg => (h g hg).mono hc (le_of_lt hlt)
  | _ => trivial

theorem generations_preserves {cfg : Settings} {rt : Runtime K} {engine : E.State} :
    Preserves cfg rt keptGenerations (World.IsInitial engine) historyOutline
      (generationOutline : Outline (World E) (Task K)) where
  init := by
    rintro w rfl
    exact ⟨rfl, fun _ _ h => (by cases h), fun _ _ _ _ h => (by cases h),
      fun _ _ _ _ _ h => (by cases h)⟩
  start := by
    intro w r _ _ hi
    have hstep : GenerationStep w w := .inl (.quiet rfl rfl)
    have hg := hstep.grows hi
    refine ⟨hi.step hstep hi.available (.refl w) fun _ _ _ _ _ => .inl, ?_, ⟨hg.grow, hg.new⟩⟩
    cases r with
    | search _ _ => exact fun g hg => by cases hg
    | _ => trivial
  move := by
    intro w t w' u hK hKt _ hm hi ht
    have hav := (available_move hm).trans hi.available
    have hext := move_extends hm
    have hco := Continues.of_extends hext
    have hstep : GenerationStep w w' := by
      refine (generations_move hm).imp_right fun ⟨tenantId, hf⟩ => ⟨tenantId, hf.cache, ?_⟩
      intro a t' g b hb
      refine (hf.log a t' g b hb).imp_right fun ⟨ha, ht', hg, hb⟩ => ⟨ha, ht', hg, ?_⟩
      -- a worker's increment comes after its bulk call
      cases t with
      | process step =>
          cases step with
          | invalidate p r b' ts => cases hb; exact le_of_lt hKt
          | _ => cases hb
      | _ => cases hb
    have hg := hstep.grows hi
    by_cases hs : searching t = false
    · obtain ⟨hf, hu⟩ := searchFrame_move hm hs
      refine ⟨hi.step hstep hav hext fun a t s g r hm => .inl (hf.log a t s g r hm), fun t' ht' => ?_,
        ⟨hg.grow, hg.new⟩⟩
      have := hu t' ht'
      cases t' with
      | search _ _ _ _ => cases this
      | _ => trivial
    -- a search goes on under the generation it has read, or returns
    have after : (∀ t', u = some t' → historyAssertion w.clock t' ∧ generationAssertion w t') →
        (∀ a t s g r, (a, Entry.searched t s g r) ∈ w'.log →
          (a, Entry.searched t s g r) ∈ w.log ∨ (s < w.clock ∧ Covers w t s g)) →
        generationOutline.inv w'.tick ∧
          (∀ t', u = some t' → generationOutline.assertion w'.tick t') ∧
          generationOutline.guarantee w w'.tick := fun hu hl =>
      ⟨hi.step hstep hav hext hl, fun t' ht' =>
        generationAssertion_mono hco (hu t' ht').1 (hu t' ht').2, ⟨hg.grow, hg.new⟩⟩
    cases hm with
    | generationRead =>
        refine after (fun _ h => ?_) fun _ _ _ _ _ => .inl
        cases h
        refine ⟨hKt, fun g hg => ?_⟩
        cases hg
        exact covers_currentGeneration hi _ _
    | searchMiss | joined | led | executed | engineFailed | filled =>
        exact after (fun _ h => by cases h; exact ⟨hKt, ht⟩) fun _ _ _ _ _ => .inl
    | @searchHit _ _ _ g _ _ | @followed _ _ _ g _ _ _ _ | @finished _ _ _ g _ _ =>
        refine after (fun _ h => (by cases h)) fun a t s g' r hm => ?_
        rcases List.mem_cons.mp hm with hm | hm
        · cases hm; exact .inr ⟨hKt, ht g rfl⟩
        · exact .inl hm
    | _ => exact absurd rfl hs
  cancel := by
    intro w t _ _ hi _
    rcases cancel_cases rt w t with hc | ⟨r, q, g, hc⟩ <;> rw [hc]
    · exact ⟨hi, fun _ => le_refl _, fun _ _ _ _ => .inl⟩
    · exact ⟨⟨hi.available, hi.numbers, hi.bumped, hi.searched⟩, fun _ => le_refl _,
        fun _ _ _ _ => .inl⟩
  disturb := by
    intro w e _ hP hi
    have hstep : GenerationStep w (disturb w e) := .inl (generations_disturb w hP)
    have hg := hstep.grows hi
    refine ⟨hi.step hstep ?_ (disturb_extends w e) fun a t s g r hm =>
      .inl ((searchFrame_disturb rt w e).log a t s g r hm), ⟨hg.grow, hg.new⟩⟩
    cases e with
    | cache available => exact hP
    | _ => exact hi.available
  stable := by
    intro w w' t hK _ hKt ht
    exact generationAssertion_mono hK.guarantee hKt ht

theorem generations_established (cfg : Settings) (rt : Runtime K) (engine : E.State) :
    (machine cfg rt E).Established keptGenerations (World.IsInitial engine) generationOutline :=
  generations_preserves.valid.established (history_established cfg rt engine).restrict

end Pipeline

end DocSearch
