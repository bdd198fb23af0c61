import DocSearch.Pipeline.Machine

/-!
# Pipeline — History

The clock and the log of a run: the log only grows, by entries of the present step, so that what
a task has seen in it stays there and what it has not seen comes later.

* `move_extends`: what a move adds to the log.
* `history_established`: the outline, for every engine.
-/

namespace DocSearch

open SearchService IndexingProcessor Interleaving

namespace Pipeline

variable {K : Type} {E : SearchEngine K}

/-- The log of `w'` is that of `w` with entries of the step `w.clock` added. -/
def Extends (w w' : World E) : Prop :=
  w'.clock = w.clock ∧ ∃ es : List (Entry K), w'.log = es.map (Prod.mk w.clock) ++ w.log

theorem Extends.refl (w : World E) : Extends w w := ⟨rfl, [], rfl⟩

theorem Extends.quiet {w w' : World E} (hc : w'.clock = w.clock) (hl : w'.log = w.log) :
    Extends w w' := ⟨hc, [], hl⟩

theorem Extends.record {w w₁ : World E} (h : Extends w w₁) (e : Entry K) :
    Extends w (w₁.record e) := by
  obtain ⟨hc, es, hl⟩ := h
  exact ⟨hc, e :: es, by rw [World.record_log, hc, hl]; rfl⟩

theorem Extends.kept {w w' : World E} (h : Extends w w') {a : ℕ} {e : Entry K}
    (hm : (a, e) ∈ w.log) : (a, e) ∈ w'.log := by
  obtain ⟨-, es, hl⟩ := h
  rw [hl]
  exact List.mem_append_right _ hm

theorem Extends.past {w w' : World E} (h : Extends w w') (hp : ∀ a e, (a, e) ∈ w.log → a < w.clock)
    {a : ℕ} {e : Entry K} (hm : (a, e) ∈ w'.log) : a ≤ w'.clock := by
  obtain ⟨hc, es, hl⟩ := h
  rw [hc]
  rw [hl, List.mem_append] at hm
  rcases hm with hm | hm
  · obtain ⟨_, -, he⟩ := List.mem_map.mp hm
    exact (Prod.mk.inj he).1.ge
  · exact le_of_lt (hp a e hm)

theorem extends_publish (w : World E) (e : Event) : Extends w (DocumentService.publish w e) := by
  rcases publish_cases w e with h | h <;> rw [h]
  · exact .refl w
  · exact .record (.quiet rfl rfl) _

theorem extends_bump (w : World E) (b : ℕ) (t : Str) : Extends w (bump w b t) := by
  rcases bump_cases w b t with ⟨h, -⟩ | ⟨g, h, -⟩ <;> rw [h]
  · exact .quiet rfl rfl
  · exact .record (.quiet rfl rfl) _

theorem Extends.proceed {w w₁ w' : World E} {p : Plan Str} {r : BulkResult} {b : ℕ} {ts : List Str}
    {next : Option ProcessStep} (h : IndexingProcessor.proceed w₁ p r b ts = (w', next))
    (hw : Extends w w₁) : Extends w w' := by
  rcases proceed_cases h with ⟨-, rfl, -⟩ | ⟨rfl, -⟩
  · exact hw.record _
  · exact hw

theorem move_extends {cfg : Settings} {rt : Runtime K} {w w' : World E} {t : Task K}
    {u : Option (Task K)} (h : Move cfg rt w t w' u) : Extends w w' := by
  cases h with
  | indexPublished => exact extends_publish w _
  | deleted => exact (extends_publish w _).record _
  | republished h => obtain ⟨-, rfl⟩ := World.publish_eq_some h; exact .record (.quiet rfl rfl) _
  | committed h => exact .proceed h (.quiet rfl rfl)
  | bumped _ h => exact .proceed h (extends_bump w _ _)
  | created | documentHit | rowMissing | documentCached | uncached | searchHit | followed | finished
  | bulkReturned => exact .record (.quiet rfl rfl) _
  | _ => exact .quiet rfl rfl

theorem disturb_extends (w : World E) (e : Disturbance) : Extends w (disturb w e) := by
  cases e with
  | refresh => exact .record (.quiet rfl rfl) _
  | _ => exact .quiet rfl rfl

/-! ### The outline -/

/-- Time goes on, nothing is forgotten, and what is new is of the present step. -/
structure Continues (w w' : World E) : Prop where
  clock : w.clock ≤ w'.clock
  kept : ∀ {a e}, (a, e) ∈ w.log → (a, e) ∈ w'.log
  new : ∀ {a e}, (a, e) ∈ w'.log → (a, e) ∈ w.log ∨ a = w.clock

/-- What a task remembers of the clock is past. -/
def historyAssertion (clock : ℕ) : Task K → Prop
  | .get startedAt _ _ _ | .search _ startedAt _ _ => startedAt < clock
  | .process (.commit _ _ bulkAt) | .process (.invalidate _ _ bulkAt _) => bulkAt < clock
  | _ => True

def historyOutline : Outline (World E) (Task K) where
  inv w := ∀ a e, (a, e) ∈ w.log → a < w.clock
  assertion w t := historyAssertion w.clock t
  guarantee := Continues

theorem Continues.of_extends {w w' : World E} (h : Extends w w') : Continues w w'.tick := by
  refine ⟨by rw [World.tick_clock, h.1]; omega, h.kept, fun hm => ?_⟩
  obtain ⟨-, es, hl⟩ := h
  rw [World.tick_log, hl, List.mem_append] at hm
  rcases hm with hm | hm
  · obtain ⟨_, -, he⟩ := List.mem_map.mp hm
    exact .inr (Prod.mk.inj he).1.symm
  · exact .inl hm

theorem inv_of_extends {w w' : World E} (h : Extends w w')
    (hi : ∀ a e, (a, e) ∈ w.log → a < w.clock) : ∀ a e, (a, e) ∈ w'.tick.log → a < w'.tick.clock := by
  intro a e hm
  have hc : w'.tick.clock = w.clock + 1 := congrArg (· + 1) h.1
  rcases (Continues.of_extends h).new hm with hm | rfl
  · have := hi a e hm; omega
  · omega

theorem historyAssertion_mono {n m : ℕ} (h : n ≤ m) {t : Task K} (ht : historyAssertion n t) :
    historyAssertion m t := by
  cases t with
  | get _ _ _ _ | search _ _ _ _ => exact Nat.lt_of_lt_of_le ht h
  | process step =>
      cases step with
      | commit _ _ _ | invalidate _ _ _ _ => exact Nat.lt_of_lt_of_le ht h
      | _ => trivial
  | _ => trivial

theorem history_preserves {cfg : Settings} {rt : Runtime K} {engine : E.State} :
    Preserves cfg rt .free (World.IsInitial engine) .trivial
      (historyOutline : Outline (World E) (Task K)) where
  init := by
    rintro w rfl a e h
    cases h
  start := by
    intro w r _ _ hi
    refine ⟨inv_of_extends (.refl w) hi, ?_, .of_extends (.refl w)⟩
    cases r with
    | get _ _ | search _ _ => exact Nat.lt_succ_self _
    | _ => trivial
  move := by
    intro w t w' u _ _ _ hm hi ht
    have hext := move_extends hm
    refine ⟨inv_of_extends hext hi, ?_, .of_extends hext⟩
    have hlt : w.clock ≤ w'.tick.clock := (Continues.of_extends hext).clock
    have hb : w.clock < w'.tick.clock := by rw [World.tick_clock, hext.1]; omega
    have proceed : ∀ {p r b ts} {w₁ : World E} {next}, b < w.clock →
        IndexingProcessor.proceed w₁ p r b ts = (w', next) → u = next.map Task.process →
        ∀ t'', u = some t'' → historyAssertion w'.tick.clock t'' := fun hb h hu t'' hu' => by
      rcases proceed_cases h with ⟨-, -, rfl⟩ | ⟨-, rfl⟩
      · rw [hu] at hu'; cases hu'
      · rw [hu] at hu'; cases hu'; exact Nat.lt_of_lt_of_le hb hlt
    cases hm with
    | documentMiss | rowFound | generationRead | searchMiss | joined | led | executed | engineFailed
    | filled => exact fun _ h => by cases h; exact Nat.lt_of_lt_of_le ht hlt
    | bulkReturned => exact fun _ h => by cases h; exact hb
    | committed h => exact proceed ht h rfl
    | bumped _ h => exact proceed ht h rfl
    | selected | republished =>
        intro t' ht'
        obtain ⟨step, -, rfl⟩ := Option.map_eq_some_iff.mp ht'
        trivial
    | inserted | indexPublished | deleteFound | softDeleted | uncached | deleteInvalidated
    | planned => exact fun _ h => by cases h; trivial
    | _ => exact fun _ h => by cases h
  cancel := by
    intro w t _ _ hi _
    rcases cancel_cases rt w t with hc | ⟨r, q, g, hc⟩ <;> rw [hc]
    · exact ⟨hi, le_refl _, id, .inl⟩
    · exact ⟨hi, le_refl _, id, .inl⟩
  disturb := by
    intro w e _ _ hi
    exact ⟨inv_of_extends (disturb_extends w e) hi, .of_extends (disturb_extends w e)⟩
  stable := by
    intro w w' t _ ho _ ht
    exact historyAssertion_mono ho.guarantee.clock ht

/-- **The log of every run.** -/
theorem history_established (cfg : Settings) (rt : Runtime K) (engine : E.State) :
    (machine cfg rt E).Established .free (World.IsInitial engine) historyOutline :=
  history_preserves.valid.established Machine.established_trivial

end Pipeline

end DocSearch
