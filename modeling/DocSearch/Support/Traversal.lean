import Mathlib.Data.List.Forall2

/-!
# Support — Traversal

Lists traversed by a function that may raise.

* `forM_eq_ok`, `mapM_eq_ok`, `exists_mapM`: a traversal goes through when every element does.
* `filter_flatten`: what a traversal has written for one element, among the writes for all.
-/

namespace DocSearch

universe u

variable {α β : Type u} {δ ε : Type*}

theorem bind_eq_ok {x : Except ε α} {f : α → Except ε β} {b : β} :
    (x >>= f) = .ok b ↔ ∃ a, x = .ok a ∧ f a = .ok b := by
  cases x with
  | error e => exact ⟨nofun, fun ⟨_, h, _⟩ => by cases h⟩
  | ok a => exact ⟨fun h => ⟨a, rfl, h⟩, fun ⟨_, h, hb⟩ => by cases h; exact hb⟩

theorem pure_eq_ok {a b : α} : (pure a : Except ε α) = .ok b ↔ a = b :=
  ⟨Except.ok.inj, congrArg _⟩

theorem forM_eq_ok {f : α → Except ε Unit} {l : List α} :
    l.forM f = .ok () ↔ ∀ a ∈ l, f a = .ok () := by
  induction l with
  | nil => simp [pure, Except.pure]
  | cons a l ih =>
      change (f a >>= fun _ => l.forM f) = .ok () ↔ _
      rw [bind_eq_ok, List.forall_mem_cons, ← ih]
      exact ⟨fun ⟨_, ha, hl⟩ => ⟨ha, hl⟩, fun ⟨ha, hl⟩ => ⟨(), ha, hl⟩⟩

theorem mapM_eq_ok {f : α → Except ε β} {l : List α} {r : List β} :
    l.mapM f = .ok r ↔ List.Forall₂ (fun a b => f a = .ok b) l r := by
  induction l generalizing r with
  | nil => rw [List.mapM_nil, pure_eq_ok, List.forall₂_nil_left_iff, eq_comm]
  | cons a l ih =>
      simp only [List.mapM_cons, bind_eq_ok, ih, pure_eq_ok, List.forall₂_cons_left_iff]
      constructor
      · rintro ⟨b, hb, r', hr, rfl⟩; exact ⟨b, r', hb, hr, rfl⟩
      · rintro ⟨b, r', hb, hr, rfl⟩; exact ⟨b, hb, r', hr, rfl⟩

/-- A traversal by a partial inverse of `g`. -/
theorem mapM_eq_ok_of_inverse {f : α → Except ε β} {g : β → α} (h : ∀ {a b}, f a = .ok b ↔ a = g b)
    {l : List α} {r : List β} : l.mapM f = .ok r ↔ l = r.map g := by
  have heq := List.forall₂_map_right_iff (R := Eq) (f := g) (l := l) (u := r)
  rw [List.forall₂_eq_eq_eq] at heq
  simp only [mapM_eq_ok, h, heq]

theorem exists_mapM {f : α → Except ε β} {l : List α} :
    (∃ r, l.mapM f = .ok r) ↔ ∀ a ∈ l, ∃ b, f a = .ok b := by
  simp only [mapM_eq_ok]
  constructor
  · rintro ⟨r, hr⟩ a ha
    obtain ⟨i, hi, rfl⟩ := List.getElem_of_mem ha
    exact ⟨_, hr.get hi (hr.length_eq ▸ hi)⟩
  · intro h
    induction l with
    | nil => exact ⟨[], .nil⟩
    | cons a l ih =>
        obtain ⟨b, hb⟩ := h a List.mem_cons_self
        obtain ⟨r, hr⟩ := ih fun x hx => h x (List.mem_cons_of_mem a hx)
        exact ⟨b :: r, .cons hb hr⟩

/-- **What is written for one element.**  Each element has its own tag, and what is written for it
bears that tag. -/
theorem filter_flatten {tag : α → ℕ} {key : δ → ℕ} {R : α → List δ → Prop}
    (hR : ∀ a ds, R a ds → ∀ d ∈ ds, key d = tag a) {l : List α} {r : List (List δ)}
    (h : List.Forall₂ R l r) (hn : (l.map tag).Nodup) {a : α} (ha : a ∈ l) :
    R a (r.flatten.filter fun d => decide (key d = tag a)) := by
  induction h with
  | nil => cases ha
  | @cons x ds l r hx hl ih =>
      obtain ⟨hnot, hn⟩ := List.nodup_cons.mp hn
      rw [List.flatten_cons, List.filter_append]
      rcases List.mem_cons.mp ha with rfl | ha
      · -- nothing of the rest bears the tag
        have hrest : r.flatten.filter (fun d => decide (key d = tag a)) = [] := by
          refine List.filter_eq_nil_iff.mpr fun d hd hk => hnot ?_
          obtain ⟨ds', hds', hd'⟩ := List.mem_flatten.mp hd
          obtain ⟨i, hi, rfl⟩ := List.getElem_of_mem hds'
          have hi' : i < l.length := hl.length_eq ▸ hi
          rw [← of_decide_eq_true hk, hR _ _ (hl.get hi' hi) d hd']
          exact List.mem_map_of_mem (List.getElem_mem hi')
        rw [hrest, List.append_nil, List.filter_eq_self.mpr fun d hd => decide_eq_true (hR a ds hx d hd)]
        exact hx
      · have hfirst : ds.filter (fun d => decide (key d = tag a)) = [] := by
          refine List.filter_eq_nil_iff.mpr fun d hd hk => hnot ?_
          rw [← hR x ds hx d hd, of_decide_eq_true hk]
          exact List.mem_map_of_mem ha
        rw [hfirst, List.nil_append]
        exact ih hn ha

end DocSearch
