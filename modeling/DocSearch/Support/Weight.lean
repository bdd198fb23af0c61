import DocSearch.Support.Interleaving
import Mathlib.Algebra.BigOperators.Finprod

/-!
# Support — Weight

What a run adds up: the weight of the live tasks of a configuration, and what a step changes of it.

* `Config.weight_update`: the weight after an update of one task.
* `Machine.Reach.few`: finitely many tasks are alive in a reachable configuration.
* `Machine.ConformsBy.rule`: what each step of a run keeps, the run keeps.
-/

namespace DocSearch.Interleaving

variable {W T R C E : Type*}

/-- Finitely many tasks are alive. -/
def Config.Few (s : Config W T) : Prop := {i | s.tasks i ≠ none}.Finite

/-- The sum of `f` over the live tasks. -/
noncomputable def Config.weight (f : T → ℕ) (s : Config W T) : ℕ := ∑ᶠ i, (s.tasks i).elim 0 f

theorem Config.few_idle (w : W) : (Config.idle w : Config W T).Few := by
  simp [Config.Few, Config.idle]

theorem Config.few_update {s : Config W T} (h : s.Few) (w : W) (i : ℕ) (u : Option T) :
    (Config.mk w (Function.update s.tasks i u)).Few := by
  refine (h.insert i).subset fun j hj => ?_
  by_cases hij : j = i
  · exact .inl hij
  · have hj' : Function.update s.tasks i u j ≠ none := hj
    rw [Function.update_of_ne hij] at hj'
    exact .inr hj'

@[simp] theorem Config.weight_idle (f : T → ℕ) (w : W) : (Config.idle w).weight f = 0 :=
  finsum_zero

/-- The weight, over any finite set that has the live tasks. -/
theorem Config.weight_eq_sum (f : T → ℕ) {s : Config W T} {ids : Finset ℕ}
    (h : ∀ i, s.tasks i ≠ none → i ∈ ids) : s.weight f = ∑ i ∈ ids, (s.tasks i).elim 0 f := by
  refine finsum_eq_finsetSum_of_support_subset _ fun i hi => h i fun hn => hi ?_
  dsimp only
  rw [hn]
  rfl

/-- **One task changes.** -/
theorem Config.weight_update (f : T → ℕ) {s : Config W T} (h : s.Few) (w : W) (i : ℕ)
    (u : Option T) :
    (Config.mk w (Function.update s.tasks i u)).weight f + (s.tasks i).elim 0 f =
      s.weight f + u.elim 0 f := by
  have hall : ∀ j, s.tasks j ≠ none → j ∈ insert i h.toFinset := fun j hj =>
    Finset.mem_insert_of_mem (h.mem_toFinset.mpr hj)
  have hall' : ∀ j, Function.update s.tasks i u j ≠ none → j ∈ insert i h.toFinset := fun j hj => by
    by_cases hij : j = i
    · exact hij ▸ Finset.mem_insert_self _ _
    · rw [Function.update_of_ne hij] at hj
      exact hall j hj
  have hi : i ∈ insert i h.toFinset := Finset.mem_insert_self _ _
  rw [Config.weight_eq_sum f hall, Config.weight_eq_sum f (s := ⟨w, Function.update s.tasks i u⟩) hall',
    ← Finset.add_sum_erase _ _ hi, ← Finset.add_sum_erase _ (fun j => (s.tasks j).elim 0 f) hi]
  have hrest : ∑ j ∈ (insert i h.toFinset).erase i, (Function.update s.tasks i u j).elim 0 f =
      ∑ j ∈ (insert i h.toFinset).erase i, (s.tasks j).elim 0 f :=
    Finset.sum_congr rfl fun j hj => by rw [Function.update_of_ne (Finset.ne_of_mem_erase hj)]
  dsimp only
  rw [hrest, Function.update_self]
  omega

/-- A weight that is nowhere more than another adds up to no more. -/
theorem Config.weight_le {f g : T → ℕ} {s : Config W T} (h : s.Few)
    (hfg : ∀ i t, s.tasks i = some t → f t ≤ g t) : s.weight f ≤ s.weight g := by
  have hall : ∀ j, s.tasks j ≠ none → j ∈ h.toFinset := fun j hj => h.mem_toFinset.mpr hj
  rw [Config.weight_eq_sum f hall, Config.weight_eq_sum g hall]
  refine Finset.sum_le_sum fun i _ => ?_
  cases ht : s.tasks i with
  | none => exact le_rfl
  | some t => exact hfg i t ht

theorem Config.le_weight (f : T → ℕ) {s : Config W T} (h : s.Few) {i : ℕ} {t : T}
    (ht : s.tasks i = some t) : f t ≤ s.weight f := by
  have hw := Config.weight_update f h s.world i none
  rw [ht] at hw
  exact hw.le.trans' (Nat.le_add_left _ _)

namespace Machine

variable {M : Machine W T R C E} {Q : Config W T → Action R C E → Prop}

theorem step_few {s s' : Config W T} {a : Action R C E} (h : s.Few) (hs : M.step s a = some s') :
    s'.Few := by
  rcases step_cases hs with ⟨i, r, w, t, -, -, -, rfl⟩ | ⟨i, c, t, w, u, -, -, -, rfl⟩ |
    ⟨i, t, -, -, rfl⟩ | ⟨e, w, -, -, rfl⟩
  · exact Config.few_update h _ _ _
  · exact Config.few_update h _ _ _
  · exact Config.few_update h _ _ _
  · exact h

theorem Reach.few {P : Restriction W T R E} {init : W → Prop} {s : Config W T}
    (h : M.Reach P init s) : s.Few := by
  induction h with
  | idle _ => exact Config.few_idle _
  | step _ _ hs ih => exact step_few ih hs

theorem conformsBy_true : ∀ (as : List (Action R C E)) (s : Config W T),
    M.ConformsBy (fun _ _ => True) s as
  | [], _ => trivial
  | _ :: as, _ => ⟨trivial, fun s' _ => conformsBy_true as s'⟩

/-- **What each step of a run keeps**, the run keeps. -/
theorem ConformsBy.rule {I : Config W T → Prop}
    (hstep : ∀ s s' a, Q s a → M.step s a = some s' → I s → I s') :
    ∀ {as : List (Action R C E)} {s s' : Config W T}, M.ConformsBy Q s as → M.run s as = some s' →
      I s → I s'
  | [], _, _, _, hr, hI => by cases hr; exact hI
  | a :: as, s, s', hc, hr, hI => by
      simp only [Machine.run, Option.bind_eq_some_iff] at hr
      obtain ⟨s₁, hs, hr⟩ := hr
      exact ConformsBy.rule hstep (hc.2 s₁ hs) hr (hstep s s₁ a hc.1 hs hI)

end Machine

end DocSearch.Interleaving
