import Mathlib.Data.Nat.Notation
import Mathlib.Logic.Function.Basic

/-!
# Support — Interleaving

Cooperative tasks over a shared world.  A task runs alone from one suspension point to the next
(`Machine.resume`); between two of its resumptions any other task may run, the environment may
change the world, and the task may be cancelled.

* `Machine.Reach P init`: the configurations reached from a world of `init`, with no task alive,
  by steps the restriction `P` allows.
* `Machine.ReachBy Q init`: those reached by steps that meet a condition on the whole configuration.
* `Outline`: an invariant of the world, an assertion for every live task, and a guarantee that
  every step gives to the tasks that did not take it.
* `Machine.Valid K O`: the obligations of `O`, each proved where an outline `K` already
  established may be used.
* `Machine.Valid.established`: an outline whose obligations hold, holds on every run.
* `Machine.Established.guarantee_run`: the guarantee of a whole run.
* `Machine.Keeps.holds`: an invariant of the world and its one task, over the runs of one task at a
  time.
-/

namespace DocSearch.Interleaving

/-- A program of cooperative tasks: `W` is the shared world, `T` a suspended task, `R` a request
that starts one, `C` what a resumption leaves open, `E` an event of the environment. -/
structure Machine (W T R C E : Type*) where
  start : W → R → Option (W × T)
  resume : W → T → C → Option (W × Option T)
  cancel : W → T → W
  environment : W → E → Option W

/-- A world and the live tasks. -/
structure Config (W T : Type*) where
  world : W
  tasks : ℕ → Option T

inductive Action (R C E : Type*) where
  | start (i : ℕ) (r : R)
  | resume (i : ℕ) (c : C)
  | cancel (i : ℕ)
  | environment (e : E)

/-- No task is alive. -/
def Config.idle {W T : Type*} (w : W) : Config W T := ⟨w, fun _ => none⟩

variable {W T R C E : Type*}

namespace Machine

def step (M : Machine W T R C E) (s : Config W T) : Action R C E → Option (Config W T)
  | .start i r =>
      match s.tasks i with
      | some _ => none
      | none => (M.start s.world r).map fun p => ⟨p.1, Function.update s.tasks i (some p.2)⟩
  | .resume i c =>
      match s.tasks i with
      | none => none
      | some t => (M.resume s.world t c).map fun p => ⟨p.1, Function.update s.tasks i p.2⟩
  | .cancel i =>
      match s.tasks i with
      | none => none
      | some t => some ⟨M.cancel s.world t, Function.update s.tasks i none⟩
  | .environment e => (M.environment s.world e).map fun w => ⟨w, s.tasks⟩

/-- The actions of a list, one after the other. -/
def run (M : Machine W T R C E) (s : Config W T) : List (Action R C E) → Option (Config W T)
  | [] => some s
  | a :: as => (M.step s a).bind fun s' => M.run s' as

/-- **What a step can be.** -/
theorem step_cases {M : Machine W T R C E} {s s' : Config W T} {a : Action R C E}
    (h : M.step s a = some s') :
    (∃ i r w t, a = .start i r ∧ s.tasks i = none ∧ M.start s.world r = some (w, t) ∧
      s' = ⟨w, Function.update s.tasks i (some t)⟩) ∨
    (∃ i c t w u, a = .resume i c ∧ s.tasks i = some t ∧ M.resume s.world t c = some (w, u) ∧
      s' = ⟨w, Function.update s.tasks i u⟩) ∨
    (∃ i t, a = .cancel i ∧ s.tasks i = some t ∧
      s' = ⟨M.cancel s.world t, Function.update s.tasks i none⟩) ∨
    (∃ e w, a = .environment e ∧ M.environment s.world e = some w ∧ s' = ⟨w, s.tasks⟩) := by
  cases a with
  | start i r =>
      cases ht : s.tasks i with
      | some t => simp [step, ht] at h
      | none =>
          simp only [step, ht, Option.map_eq_some_iff] at h
          obtain ⟨⟨w, t⟩, hw, rfl⟩ := h
          exact .inl ⟨i, r, w, t, rfl, ht, hw, rfl⟩
  | resume i c =>
      cases ht : s.tasks i with
      | none => simp [step, ht] at h
      | some t =>
          simp only [step, ht, Option.map_eq_some_iff] at h
          obtain ⟨⟨w, u⟩, hw, rfl⟩ := h
          exact .inr (.inl ⟨i, c, t, w, u, rfl, ht, hw, rfl⟩)
  | cancel i =>
      cases ht : s.tasks i with
      | none => simp [step, ht] at h
      | some t =>
          simp only [step, ht, Option.some.injEq] at h
          exact .inr (.inr (.inl ⟨i, t, rfl, ht, h.symm⟩))
  | environment e =>
      simp only [step, Option.map_eq_some_iff] at h
      obtain ⟨w, hw, rfl⟩ := h
      exact .inr (.inr (.inr ⟨e, w, rfl, hw, rfl⟩))

end Machine

/-! ### Runs -/

/-- A condition on the steps of a run, read in the configuration before the step. -/
structure Restriction (W T R E : Type*) where
  start : W → R → Prop := fun _ _ => True
  resume : W → T → Prop := fun _ _ => True
  environment : W → E → Prop := fun _ _ => True

namespace Restriction

def Allows (P : Restriction W T R E) (s : Config W T) : Action R C E → Prop
  | .start _ r => P.start s.world r
  | .resume i _ => ∀ t, s.tasks i = some t → P.resume s.world t
  | .cancel _ => True
  | .environment e => P.environment s.world e

/-- Every step is allowed. -/
def free : Restriction W T R E := {}

@[simp] theorem free_allows (s : Config W T) (a : Action R C E) :
    (free : Restriction W T R E).Allows s a := by
  cases a with
  | start _ _ => trivial
  | resume _ _ => intro _ _; trivial
  | cancel _ => trivial
  | environment _ => trivial

/-- Whether a step is allowed can be computed, when the conditions can. -/
instance (P : Restriction W T R E) [∀ w r, Decidable (P.start w r)]
    [∀ w t, Decidable (P.resume w t)] [∀ w e, Decidable (P.environment w e)]
    (s : Config W T) : (a : Action R C E) → Decidable (P.Allows s a)
  | .start _ r => inferInstanceAs (Decidable (P.start s.world r))
  | .resume i _ => inferInstanceAs (Decidable (∀ t ∈ s.tasks i, P.resume s.world t))
  | .cancel _ => .isTrue trivial
  | .environment e => inferInstanceAs (Decidable (P.environment s.world e))

end Restriction

namespace Machine

/-- The configurations reached by allowed steps from a world of `init`. -/
inductive Reach (M : Machine W T R C E) (P : Restriction W T R E) (init : W → Prop) :
    Config W T → Prop where
  | idle {w : W} (h : init w) : Reach M P init (Config.idle w)
  | step {s s' : Config W T} {a : Action R C E} (h : Reach M P init s) (hP : P.Allows s a)
      (hs : M.step s a = some s') : Reach M P init s'

/-- Every action of the list is allowed where it is taken. -/
def Conforms (M : Machine W T R C E) (P : Restriction W T R E) (s : Config W T) :
    List (Action R C E) → Prop
  | [] => True
  | a :: as => P.Allows s a ∧ ∀ s', M.step s a = some s' → M.Conforms P s' as

instance decidableConforms (M : Machine W T R C E) (P : Restriction W T R E)
    [∀ s (a : Action R C E), Decidable (P.Allows s a)] :
    (as : List (Action R C E)) → (s : Config W T) → Decidable (M.Conforms P s as)
  | [], _ => .isTrue trivial
  | a :: as, s =>
      have (s' : Config W T) : Decidable (M.Conforms P s' as) := decidableConforms M P as s'
      inferInstanceAs (Decidable (P.Allows s a ∧ ∀ s' ∈ M.step s a, M.Conforms P s' as))

theorem Reach.run {M : Machine W T R C E} {P : Restriction W T R E} {init : W → Prop} :
    ∀ {as : List (Action R C E)} {s s' : Config W T}, M.Reach P init s → M.Conforms P s as →
      M.run s as = some s' → M.Reach P init s'
  | [], _, _, h, _, hr => by cases hr; exact h
  | a :: as, s, s', h, hc, hr => by
      simp only [Machine.run, Option.bind_eq_some_iff] at hr
      obtain ⟨s₁, hs, hr⟩ := hr
      exact Reach.run (.step h hc.1 hs) (hc.2 s₁ hs) hr

theorem conforms_free {M : Machine W T R C E} :
    ∀ (as : List (Action R C E)) (s : Config W T), M.Conforms .free s as
  | [], _ => trivial
  | _ :: as, _ => ⟨Restriction.free_allows _ _, fun s' _ => conforms_free as s'⟩

/-- The configuration a list of actions leads to. -/
def after (M : Machine W T R C E) (w : W) (as : List (Action R C E))
    (h : (M.run (Config.idle w) as).isSome) : Config W T :=
  (M.run (Config.idle w) as).get h

theorem reach_after {M : Machine W T R C E} {P : Restriction W T R E} {init : W → Prop} {w : W}
    (hw : init w) {as : List (Action R C E)} (h : (M.run (Config.idle w) as).isSome)
    (hc : M.Conforms P (Config.idle w) as) : M.Reach P init (M.after w as h) :=
  Reach.run (.idle hw) hc (Option.some_get h).symm

/-- The configurations reached by steps that meet a condition on the whole configuration. -/
inductive ReachBy (M : Machine W T R C E) (Q : Config W T → Action R C E → Prop) (init : W → Prop) :
    Config W T → Prop where
  | idle {w : W} (h : init w) : ReachBy M Q init (Config.idle w)
  | step {s s' : Config W T} {a : Action R C E} (h : ReachBy M Q init s) (hQ : Q s a)
      (hs : M.step s a = some s') : ReachBy M Q init s'

theorem ReachBy.reach {M : Machine W T R C E} {Q : Config W T → Action R C E → Prop}
    {P : Restriction W T R E} {init : W → Prop} (hP : ∀ s a, Q s a → P.Allows s a) {s : Config W T}
    (h : M.ReachBy Q init s) : M.Reach P init s := by
  induction h with
  | idle h => exact .idle h
  | step _ hQ hs ih => exact .step ih (hP _ _ hQ) hs

theorem ReachBy.mono {M : Machine W T R C E} {Q Q' : Config W T → Action R C E → Prop}
    {init : W → Prop} (hQ : ∀ s a, Q s a → Q' s a) {s : Config W T} (h : M.ReachBy Q init s) :
    M.ReachBy Q' init s := by
  induction h with
  | idle h => exact .idle h
  | step _ h hs ih => exact .step ih (hQ _ _ h) hs

/-- **An invariant of the runs.** -/
theorem ReachBy.rule {M : Machine W T R C E} {Q : Config W T → Action R C E → Prop}
    {init : W → Prop} {I : Config W T → Prop} (h₀ : ∀ w, init w → I (Config.idle w))
    (hstep : ∀ s s' a, M.ReachBy Q init s → Q s a → M.step s a = some s' → I s → I s')
    {s : Config W T} (h : M.ReachBy Q init s) : I s := by
  induction h with
  | idle h => exact h₀ _ h
  | step h hQ hs ih => exact hstep _ _ _ h hQ hs ih

/-- Every action of the list meets the condition where it is taken. -/
def ConformsBy (M : Machine W T R C E) (Q : Config W T → Action R C E → Prop) (s : Config W T) :
    List (Action R C E) → Prop
  | [] => True
  | a :: as => Q s a ∧ ∀ s', M.step s a = some s' → M.ConformsBy Q s' as

instance decidableConformsBy (M : Machine W T R C E) (Q : Config W T → Action R C E → Prop)
    [∀ s a, Decidable (Q s a)] :
    (as : List (Action R C E)) → (s : Config W T) → Decidable (M.ConformsBy Q s as)
  | [], _ => .isTrue trivial
  | a :: as, s =>
      have (s' : Config W T) : Decidable (M.ConformsBy Q s' as) := decidableConformsBy M Q as s'
      inferInstanceAs (Decidable (Q s a ∧ ∀ s' ∈ M.step s a, M.ConformsBy Q s' as))

theorem ReachBy.run {M : Machine W T R C E} {Q : Config W T → Action R C E → Prop}
    {init : W → Prop} :
    ∀ {as : List (Action R C E)} {s s' : Config W T}, M.ReachBy Q init s → M.ConformsBy Q s as →
      M.run s as = some s' → M.ReachBy Q init s'
  | [], _, _, h, _, hr => by cases hr; exact h
  | a :: as, s, s', h, hc, hr => by
      simp only [Machine.run, Option.bind_eq_some_iff] at hr
      obtain ⟨s₁, hs, hr⟩ := hr
      exact ReachBy.run (.step h hc.1 hs) (hc.2 s₁ hs) hr

theorem reachBy_after {M : Machine W T R C E} {Q : Config W T → Action R C E → Prop}
    {init : W → Prop} {w : W} (hw : init w) {as : List (Action R C E)}
    (h : (M.run (Config.idle w) as).isSome) (hc : M.ConformsBy Q (Config.idle w) as) :
    M.ReachBy Q init (M.after w as h) :=
  ReachBy.run (.idle hw) hc (Option.some_get h).symm

end Machine

/-! ### Rely and guarantee -/

/-- An invariant of the world, an assertion for every live task, a guarantee of every step. -/
structure Outline (W T : Type*) where
  inv : W → Prop := fun _ => True
  assertion : W → T → Prop := fun _ _ => True
  guarantee : W → W → Prop := fun _ _ => True

namespace Outline

/-- The outline holds of a configuration. -/
def Holds (O : Outline W T) (s : Config W T) : Prop :=
  O.inv s.world ∧ ∀ i t, s.tasks i = some t → O.assertion s.world t

/-- The invariant on both sides of a step, and its guarantee. -/
structure Across (O : Outline W T) (w w' : W) : Prop where
  before : O.inv w
  after : O.inv w'
  guarantee : O.guarantee w w'

/-- Nothing is claimed. -/
def trivial : Outline W T := {}

def and (O₁ O₂ : Outline W T) : Outline W T where
  inv w := O₁.inv w ∧ O₂.inv w
  assertion w t := O₁.assertion w t ∧ O₂.assertion w t
  guarantee w w' := O₁.guarantee w w' ∧ O₂.guarantee w w'

end Outline

namespace Machine

/-- The outline holds of every reachable configuration, and every step gives its guarantee. -/
structure Established (M : Machine W T R C E) (P : Restriction W T R E) (init : W → Prop)
    (O : Outline W T) : Prop where
  holds : ∀ {s}, M.Reach P init s → O.Holds s
  guarantee : ∀ {s a s'}, M.Reach P init s → P.Allows s a → M.step s a = some s' →
    O.guarantee s.world s'.world

/-- The obligations of an outline `O`, over an outline `K` already established. -/
structure Valid (M : Machine W T R C E) (P : Restriction W T R E) (init : W → Prop)
    (K O : Outline W T) : Prop where
  init : ∀ {w}, init w → O.inv w
  start : ∀ {w r w' t}, K.Across w w' → P.start w r → M.start w r = some (w', t) → O.inv w →
    O.inv w' ∧ O.assertion w' t ∧ O.guarantee w w'
  resume : ∀ {w t c w' u}, K.Across w w' → K.assertion w t → P.resume w t →
    M.resume w t c = some (w', u) → O.inv w → O.assertion w t →
    O.inv w' ∧ (∀ t', u = some t' → O.assertion w' t') ∧ O.guarantee w w'
  cancel : ∀ {w t}, K.Across w (M.cancel w t) → K.assertion w t → O.inv w → O.assertion w t →
    O.inv (M.cancel w t) ∧ O.guarantee w (M.cancel w t)
  environment : ∀ {w e w'}, K.Across w w' → P.environment w e → M.environment w e = some w' →
    O.inv w → O.inv w' ∧ O.guarantee w w'
  stable : ∀ {w w' t}, K.Across w w' → O.Across w w' → K.assertion w t → O.assertion w t →
    O.assertion w' t

variable {M : Machine W T R C E} {P : Restriction W T R E} {init : W → Prop}
  {K O : Outline W T}

theorem Established.across (h : M.Established P init O) {s s' : Config W T} {a : Action R C E}
    (hr : M.Reach P init s) (hP : P.Allows s a) (hs : M.step s a = some s') :
    O.Across s.world s'.world :=
  ⟨(h.holds hr).1, (h.holds (.step hr hP hs)).1, h.guarantee hr hP hs⟩

/-- A task alive after an update of the table is the new one, or was alive before. -/
theorem update_eq_some {f : ℕ → Option T} {i j : ℕ} {o : Option T} {u : T}
    (h : Function.update f i o j = some u) : (j = i ∧ o = some u) ∨ f j = some u := by
  by_cases e : j = i
  · subst e; rw [Function.update_self] at h; exact .inl ⟨rfl, h⟩
  · rw [Function.update_of_ne e] at h; exact .inr h

/-- One step keeps a valid outline, and gives its guarantee. -/
theorem Valid.step (hv : M.Valid P init K O) (hk : M.Established P init K)
    {s s' : Config W T} {a : Action R C E} (hr : M.Reach P init s) (ho : O.Holds s)
    (hP : P.Allows s a) (hs : M.step s a = some s') :
    O.Holds s' ∧ O.guarantee s.world s'.world := by
  have hK := hk.across hr hP hs
  have hKs := (hk.holds hr).2
  obtain ⟨hi, ha⟩ := ho
  -- a task that did not take the step keeps its assertion by stability
  have others : O.inv s'.world → O.guarantee s.world s'.world →
      ∀ j u, s.tasks j = some u → O.assertion s'.world u :=
    fun hi' hg j u hj => hv.stable hK ⟨hi, hi', hg⟩ (hKs j u hj) (ha j u hj)
  rcases step_cases hs with ⟨i, r, w, t, rfl, -, hw, rfl⟩ | ⟨i, c, t, w, u, rfl, ht, hw, rfl⟩ |
      ⟨i, t, rfl, ht, rfl⟩ | ⟨e, w, rfl, hw, rfl⟩
  · obtain ⟨hi', hat, hg⟩ := hv.start hK hP hw hi
    refine ⟨⟨hi', fun j u hj => ?_⟩, hg⟩
    rcases update_eq_some hj with ⟨-, hu⟩ | hj
    · cases hu; exact hat
    · exact others hi' hg j u hj
  · obtain ⟨hi', hat, hg⟩ := hv.resume hK (hKs i t ht) (hP t ht) hw hi (ha i t ht)
    refine ⟨⟨hi', fun j v hj => ?_⟩, hg⟩
    rcases update_eq_some hj with ⟨-, hu⟩ | hj
    · exact hat v hu
    · exact others hi' hg j v hj
  · obtain ⟨hi', hg⟩ := hv.cancel hK (hKs i t ht) hi (ha i t ht)
    refine ⟨⟨hi', fun j v hj => ?_⟩, hg⟩
    rcases update_eq_some hj with ⟨-, hu⟩ | hj
    · cases hu
    · exact others hi' hg j v hj
  · obtain ⟨hi', hg⟩ := hv.environment hK hP hw hi
    exact ⟨⟨hi', others hi' hg⟩, hg⟩

/-- **The rule.**  An outline whose obligations hold, holds on every run. -/
theorem Valid.established (hv : M.Valid P init K O) (hk : M.Established P init K) :
    M.Established P init O := by
  have holds : ∀ {s}, M.Reach P init s → O.Holds s := by
    intro s hr
    induction hr with
    | idle h => exact ⟨hv.init h, fun _ _ hi => by cases hi⟩
    | step hr hP hs ih => exact (hv.step hk hr ih hP hs).1
  exact ⟨holds, fun hr hP hs => (hv.step hk hr (holds hr) hP hs).2⟩

/-- The guarantee of a whole run, when it composes. -/
theorem Established.guarantee_run (h : M.Established P init O) (hrefl : ∀ w, O.guarantee w w)
    (htrans : ∀ {w w₁ w₂}, O.guarantee w w₁ → O.guarantee w₁ w₂ → O.guarantee w w₂) :
    ∀ {as : List (Action R C E)} {s s' : Config W T}, M.Reach P init s → M.Conforms P s as →
      M.run s as = some s' → O.guarantee s.world s'.world
  | [], _, _, _, _, hs => by cases hs; exact hrefl _
  | a :: as, s, s', hr, hc, hs => by
      simp only [Machine.run, Option.bind_eq_some_iff] at hs
      obtain ⟨s₁, h₁, hs⟩ := hs
      exact htrans (h.guarantee hr hc.1 h₁)
        (h.guarantee_run hrefl htrans (.step hr hc.1 h₁) (hc.2 s₁ h₁) hs)

theorem established_trivial : M.Established P init .trivial :=
  ⟨fun _ => ⟨True.intro, fun _ _ _ => True.intro⟩, fun _ _ _ => True.intro⟩

theorem Established.and {O₁ O₂ : Outline W T} (h₁ : M.Established P init O₁)
    (h₂ : M.Established P init O₂) : M.Established P init (O₁.and O₂) :=
  ⟨fun hr => ⟨⟨(h₁.holds hr).1, (h₂.holds hr).1⟩,
    fun i t ht => ⟨(h₁.holds hr).2 i t ht, (h₂.holds hr).2 i t ht⟩⟩,
   fun hr hP hs => ⟨h₁.guarantee hr hP hs, h₂.guarantee hr hP hs⟩⟩

/-- Runs that a stronger restriction allows are runs of the weaker one. -/
theorem Reach.mono {P' : Restriction W T R E} (hP : ∀ s (a : Action R C E), P.Allows s a →
    P'.Allows s a) {s : Config W T} (h : M.Reach P init s) : M.Reach P' init s := by
  induction h with
  | idle h => exact .idle h
  | step _ ha hs ih => exact .step ih (hP _ _ ha) hs

theorem Reach.free {s : Config W T} (h : M.Reach P init s) : M.Reach .free init s :=
  h.mono fun _ _ _ => Restriction.free_allows _ _

/-- What holds of the runs of a restriction holds of those of a stronger one. -/
theorem Established.mono {P' : Restriction W T R E} (h : M.Established P' init O)
    (hP : ∀ s (a : Action R C E), P.Allows s a → P'.Allows s a) : M.Established P init O :=
  ⟨fun hr => h.holds (hr.mono hP), fun hr ha hs => h.guarantee (hr.mono hP) (hP _ _ ha) hs⟩

theorem Established.restrict (h : M.Established .free init O) : M.Established P init O :=
  h.mono fun _ _ _ => Restriction.free_allows _ _

end Machine

/-! ### One task at a time -/

/-- A condition on the steps of a run of one task at a time, none of which is cancelled. -/
structure Serial (W T R C E : Type*) where
  start : W → R → Prop := fun _ _ => True
  resume : W → T → C → Prop := fun _ _ _ => True
  environment : W → E → Prop := fun _ _ => True

/-- Every task is the number 0, so that it starts when the one before it has returned. -/
def Serial.Allows (P : Serial W T R C E) (s : Config W T) : Action R C E → Prop
  | .start i r => i = 0 ∧ P.start s.world r
  | .resume i c => ∀ t, s.tasks i = some t → P.resume s.world t c
  | .cancel _ => False
  | .environment e => P.environment s.world e

instance (P : Serial W T R C E) [∀ w r, Decidable (P.start w r)]
    [∀ w t c, Decidable (P.resume w t c)] [∀ w e, Decidable (P.environment w e)]
    (s : Config W T) : (a : Action R C E) → Decidable (P.Allows s a)
  | .start i r => inferInstanceAs (Decidable (i = 0 ∧ P.start s.world r))
  | .resume i c => inferInstanceAs (Decidable (∀ t ∈ s.tasks i, P.resume s.world t c))
  | .cancel _ => .isFalse id
  | .environment e => inferInstanceAs (Decidable (P.environment s.world e))

theorem Serial.Allows.mono {P P' : Serial W T R C E} (hstart : ∀ w r, P.start w r → P'.start w r)
    (hresume : ∀ w t c, P.resume w t c → P'.resume w t c)
    (henv : ∀ w e, P.environment w e → P'.environment w e) {s : Config W T} {a : Action R C E}
    (h : P.Allows s a) : P'.Allows s a := by
  cases a with
  | start i r => exact ⟨h.1, hstart _ _ h.2⟩
  | resume i c => exact fun t ht => hresume _ _ _ (h t ht)
  | cancel i => exact h
  | environment e => exact henv _ _ h

namespace Machine

variable {M : Machine W T R C E} {P : Serial W T R C E} {init : W → Prop} {K : Outline W T}
  {I : W → Option T → Prop}

/-- The obligations of an invariant of the world and the task, over an established outline. -/
structure Keeps (M : Machine W T R C E) (P : Serial W T R C E) (init : W → Prop) (K : Outline W T)
    (I : W → Option T → Prop) : Prop where
  init : ∀ {w}, init w → I w none
  start : ∀ {w r w' t}, K.Across w w' → P.start w r → M.start w r = some (w', t) → I w none →
    I w' (some t)
  resume : ∀ {w t c w' u}, K.Across w w' → K.assertion w t → P.resume w t c →
    M.resume w t c = some (w', u) → I w (some t) → I w' u
  environment : ∀ {w e w' o}, K.Across w w' → P.environment w e → M.environment w e = some w' →
    I w o → I w' o

/-- **The rule of the runs of one task at a time.**  There is no other task to be stable under. -/
theorem Keeps.holds (h : M.Keeps P init K I) (hK : M.Established .free init K) {s : Config W T}
    (hr : M.ReachBy P.Allows init s) : I s.world (s.tasks 0) := by
  refine (ReachBy.rule (I := fun s => I s.world (s.tasks 0) ∧ ∀ i, i ≠ 0 → s.tasks i = none)
    (fun w hw => ⟨h.init hw, fun _ _ => rfl⟩) ?_ hr).1
  intro s s' a hr hP hs hI
  obtain ⟨hI, hothers⟩ := hI
  have hreach : M.Reach .free init s := hr.reach fun _ _ _ => Restriction.free_allows _ _
  have hacross := hK.across hreach (Restriction.free_allows _ _) hs
  rcases step_cases hs with ⟨i, r, w, t, rfl, hnone, hw, rfl⟩ | ⟨i, c, t, w, u, rfl, ht, hw, rfl⟩ |
    ⟨i, t, rfl, -, -⟩ | ⟨e, w, rfl, hw, rfl⟩
  · obtain ⟨rfl, hstart⟩ := hP
    refine ⟨?_, fun j hj => (Function.update_of_ne hj _ _).trans (hothers j hj)⟩
    rw [hnone] at hI
    dsimp only
    rw [Function.update_self]
    exact h.start hacross hstart hw hI
  · by_cases hi : i = 0
    · subst hi
      refine ⟨?_, fun j hj => (Function.update_of_ne hj _ _).trans (hothers j hj)⟩
      rw [ht] at hI
      dsimp only
      rw [Function.update_self]
      exact h.resume hacross ((hK.holds hreach).2 0 t ht) (hP t ht) hw hI
    · rw [hothers i hi] at ht
      cases ht
  · exact hP.elim
  · exact ⟨h.environment hacross hP hw hI, hothers⟩

end Machine

end DocSearch.Interleaving
