import DocSearch.Pipeline.Index

/-!
# Pipeline — Resurrection

Whether a deleted document can come back.  The index keeps no trace of a document it has
removed, so a worker that read the row before its deletion can put the document back by a bulk
call made after the removal was confirmed.

* `no_resurrection`: nothing comes back in the runs without such a bulk call, and each such bulk
  call brings a document back.
* `resurrection`: a run in which that happens.
-/

namespace DocSearch

open InMemoryEngine IndexingProcessor Interleaving

namespace Pipeline

variable {K : Type} [Field K] [LinearOrder K] {rt : Runtime K}

/-- A bulk call has confirmed the delete operation of the document, at the version. -/
def DeleteConfirmed {E : SearchEngine K} (w : World E) (documentId : Str) (version : ℤ) : Prop :=
  ∃ at' ops succeeded, (at', Entry.applied ops succeeded) ∈ w.log ∧ documentId ∈ succeeded ∧
    ∃ op ∈ ops, op.isIndex = false ∧ op.documentId = documentId ∧ op.version = version

/-- No document of the index is below the version of a confirmed delete. -/
def NoResurrection (w : World (inMemory rt)) : Prop :=
  ∀ documentId version, DeleteConfirmed w documentId version →
    ∀ e, w.engine.docs.get? documentId = some e → version ≤ e.version

/-- No bulk call that goes through indexes a document whose removal was confirmed before. -/
def noLateIndex : Restriction (World (inMemory rt)) (Task K) Request Disturbance where
  resume w
    | .process (.bulk p) => w.engine.available = true →
        ∀ op ∈ p.operations, op.isIndex = true → ¬ ∃ v, DeleteConfirmed w op.documentId v
    | _ => True

/-! ### Deciding them -/

section Decide

variable {E : SearchEngine K} (w : World E)

omit [Field K] [LinearOrder K]

/-- The bulk calls of the log can be searched. -/
theorem exists_applied_iff (Q : List Operation → List Str → Prop) [∀ o s, Decidable (Q o s)] :
    (w.log.any fun x =>
      match x.2 with
      | .applied ops succeeded => decide (Q ops succeeded)
      | _ => false) = true ↔
    ∃ at' ops succeeded, (at', Entry.applied ops succeeded) ∈ w.log ∧ Q ops succeeded := by
  rw [List.any_eq_true]
  constructor
  · rintro ⟨⟨at', e⟩, hm, h⟩
    cases e with
    | applied ops succeeded => exact ⟨at', ops, succeeded, hm, of_decide_eq_true h⟩
    | _ => cases h
  · rintro ⟨at', ops, succeeded, hm, h⟩
    exact ⟨_, hm, decide_eq_true h⟩

instance (d : Str) (v : ℤ) : Decidable (DeleteConfirmed w d v) :=
  decidable_of_iff _ (exists_applied_iff w fun ops succeeded => d ∈ succeeded ∧
    ∃ op ∈ ops, op.isIndex = false ∧ op.documentId = d ∧ op.version = v)

instance (d : Str) : Decidable (∃ v, DeleteConfirmed w d v) :=
  decidable_of_iff _ ((exists_applied_iff w fun ops succeeded => d ∈ succeeded ∧
    ∃ op ∈ ops, op.isIndex = false ∧ op.documentId = d).trans
    ⟨fun ⟨a, ops, s, hm, hs, op, hop, hi, hd⟩ => ⟨op.version, a, ops, s, hm, hs, op, hop, hi, hd, rfl⟩,
      fun ⟨_, a, ops, s, hm, hs, op, hop, hi, hd, _⟩ => ⟨a, ops, s, hm, hs, op, hop, hi, hd⟩⟩)

end Decide

instance (w : World (inMemory rt)) : (t : Task K) → Decidable (noLateIndex.resume w t)
  | .process (.bulk p) => inferInstanceAs (Decidable (w.engine.available = true →
      ∀ op ∈ p.operations, op.isIndex = true → ¬ ∃ v, DeleteConfirmed w op.documentId v))
  | .process (.read _) | .process (.commit _ _ _) | .process (.invalidate _ _ _ _)
  | .create _ _ | .get _ _ _ _ | .delete _ _ _ | .search _ _ _ _ | .sweep _ => .isTrue trivial

instance (w : World (inMemory rt)) (r : Request) :
    Decidable ((noLateIndex : Restriction _ (Task K) _ Disturbance).start w r) := .isTrue trivial

instance (w : World (inMemory rt)) (e : Disturbance) :
    Decidable ((noLateIndex : Restriction _ (Task K) Request _).environment w e) := .isTrue trivial

/-! ### The steps that matter -/

/-- Whether an entry is the return of a bulk call. -/
def isApplied : Entry K → Bool
  | .applied _ _ => true
  | _ => false

omit [Field K] [LinearOrder K] in
/-- Only a bulk call confirms. -/
theorem deleteConfirmed_record {E : SearchEngine K} {w : World E} {e : Entry K}
    (he : isApplied e = false) (d : Str) (v : ℤ)
    (h : DeleteConfirmed (w.record e) d v) : DeleteConfirmed w d v := by
  obtain ⟨at', ops, succeeded, hm, h⟩ := h
  rcases List.mem_cons.mp hm with hm | hm
  · cases hm; cases he
  · exact ⟨at', ops, succeeded, hm, h⟩

/-- A move is a bulk call that goes through, or leaves the index and the confirmations alone. -/
theorem bulk_or_quiet {cfg : Settings} {w w' : World (inMemory rt)} {t : Task K}
    {u : Option (Task K)} (h : Move cfg rt w t w' u) :
    (∃ p, t = .process (.bulk p) ∧ w.engine.available = true ∧
      w'.engine.docs = applyAll w.engine.docs p.operations ∧
      w'.log = (w.clock, .applied p.operations (p.operations.map Operation.documentId)) :: w.log) ∨
    ((∀ p, t = .process (.bulk p) → w.engine.available = false) ∧
      w'.engine.docs = w.engine.docs ∧
      ∀ d v, DeleteConfirmed w' d v → DeleteConfirmed w d v) := by
  have proceed : ∀ {w₁ w' : World (inMemory rt)} {p r b ts next},
      IndexingProcessor.proceed w₁ p r b ts = (w', next) →
      w₁.engine.docs = w.engine.docs → (∀ d v, DeleteConfirmed w₁ d v → DeleteConfirmed w d v) →
      w'.engine.docs = w.engine.docs ∧ ∀ d v, DeleteConfirmed w' d v → DeleteConfirmed w d v := by
    intro w₁ w' p r b ts next hp hd hc
    rcases proceed_cases hp with ⟨-, rfl, -⟩ | ⟨rfl, -⟩
    · exact ⟨hd, fun d v h => hc d v (deleteConfirmed_record rfl d v h)⟩
    · exact ⟨hd, hc⟩
  cases h with
  | @bulkReturned p r engine h =>
      rcases bulk_inMemory h with ⟨-, ⟨_, he⟩, -⟩ | ⟨ha, hr, rfl⟩
      · cases he
      · cases hr; exact .inl ⟨p, rfl, ha, rfl, rfl⟩
  | @bulkRaised p e engine h =>
      rcases bulk_inMemory h with ⟨ha, -, rfl⟩ | ⟨-, he, -⟩
      · exact .inr ⟨fun _ _ => ha, rfl, fun _ _ h => h⟩
      · cases he
  | committed h =>
      exact .inr ⟨nofun, proceed h rfl fun _ _ h => h⟩
  | @bumped p r b ts t w' next _ h =>
      refine .inr ⟨nofun, ?_⟩
      rcases bump_cases w b t with ⟨hb, -⟩ | ⟨g, hb, -⟩ <;> rw [hb] at h
      · exact proceed h rfl fun _ _ h => h
      · exact proceed h rfl (deleteConfirmed_record rfl)
  | indexPublished =>
      refine .inr ⟨nofun, ?_⟩
      rcases publish_cases w _ with hp | hp <;> rw [hp]
      · exact ⟨rfl, fun _ _ h => h⟩
      · exact ⟨rfl, deleteConfirmed_record rfl⟩
  | @deleted t d row =>
      refine .inr ⟨nofun, ?_⟩
      rcases publish_cases w (DocumentService.deleteEvent t row) with hp | hp <;> rw [hp]
      · exact ⟨rfl, deleteConfirmed_record rfl⟩
      · exact ⟨rfl, fun d v h =>
          deleteConfirmed_record rfl d v (deleteConfirmed_record rfl d v h)⟩
  | @republished d ds w' h =>
      obtain ⟨-, rfl⟩ := World.publish_eq_some h
      exact .inr ⟨nofun, rfl, deleteConfirmed_record rfl⟩
  | created | documentHit | rowMissing | documentCached | uncached | searchHit | followed
  | finished => exact .inr ⟨nofun, rfl, deleteConfirmed_record rfl⟩
  | insertRefused | inserted | documentMiss | rowFound | deleteMissing | deleteFound | softDeleted
  | deleteInvalidated | generationRead | searchMiss | joined | led | executed | engineFailed | filled
  | nothingToDo | planned | selected | republishFailed =>
      exact .inr ⟨nofun, rfl, fun _ _ h => h⟩

/-! ### The outline -/

/-- Nothing has come back, and the confirmed deletes are at version 2. -/
def resurrectionOutline : Outline (World (inMemory rt)) (Task K) where
  inv w := NoResurrection w ∧ ∀ d v, DeleteConfirmed w d v → v = 2

theorem noResurrection_of_quiet {w w' : World (inMemory rt)}
    (h : resurrectionOutline.inv w) (hd : w'.engine.docs = w.engine.docs)
    (hc : ∀ d v, DeleteConfirmed w' d v → DeleteConfirmed w d v) :
    resurrectionOutline.inv w' :=
  ⟨fun d v hdv e he => h.1 d v (hc d v hdv) e (hd ▸ he), fun d v hdv => h.2 d v (hc d v hdv)⟩

section Bulk

variable {w w' : World (inMemory rt)} {p : Plan Str}
  (hn : (p.operations.map Operation.documentId).Nodup)
  (hf : ∀ op ∈ p.operations, FromRow w.documents op)
  (hd : w'.engine.docs = applyAll w.engine.docs p.operations)
  (hl : w'.log = (w.clock, .applied p.operations (p.operations.map Operation.documentId)) :: w.log)
include hf hl

/-- The confirmations after a bulk call are those before and its own. -/
theorem deleteConfirmed_bulk {d : Str} {v : ℤ} (h : DeleteConfirmed w' d v) :
    DeleteConfirmed w d v ∨
      (v = 2 ∧ ∃ op ∈ p.operations, op.isIndex = false ∧ op.documentId = d ∧ op.version = v) := by
  obtain ⟨at', ops, succeeded, hm, hs, op, hop, hi, hk, hv⟩ := h
  rw [hl] at hm
  rcases List.mem_cons.mp hm with hm | hm
  · cases hm
    obtain ⟨_, -, -, -, ⟨hi', -⟩ | ⟨-, hv', -⟩⟩ := hf op hop
    · rw [hi] at hi'; cases hi'
    · exact .inr ⟨hv.symm.trans hv', op, hop, hi, hk, hv⟩
  · exact .inl ⟨at', ops, succeeded, hm, hs, op, hop, hi, hk, hv⟩

include hn hd

/-- A bulk call without a late index operation brings nothing back. -/
theorem resurrectionOutline_bulk (h : resurrectionOutline.inv w)
    (hlate : ∀ op ∈ p.operations, op.isIndex = true → ¬ ∃ v, DeleteConfirmed w op.documentId v) :
    resurrectionOutline.inv w' := by
  refine ⟨fun d v hdv e he => ?_, fun d v hdv => ?_⟩
  · rw [hd, get?_applyAll hn] at he
    cases hop : p.operations.find? fun op => decide (op.documentId = d) with
    | none =>
        rw [hop] at he
        rcases deleteConfirmed_bulk hf hl hdv with hold | ⟨-, op, hm, -, hk, -⟩
        · exact h.1 d v hold e he
        · exact absurd (decide_eq_true hk) (List.find?_eq_none.mp hop op hm)
    | some op =>
        rw [hop] at he
        obtain ⟨hm, hk⟩ := (find?_key_eq_some hn).mp hop
        rcases deleteConfirmed_bulk hf hl hdv with hold | ⟨-, op', hm', hi', hk', hv'⟩
        · rcases entryAfter_cases he with he | ⟨hi, -⟩
          · exact h.1 d v hold e he
          · exact absurd ⟨v, hk ▸ hold⟩ (hlate op hm hi)
        · -- the operation on the document is the delete operation itself
          have heq := (find?_operation hn hm' hk').symm.trans hop
          cases heq
          replace he : entryAfter op (w.engine.docs.get? d) = some e := he
          unfold entryAfter at he
          split at he
          · rename_i hx
            rw [he] at hx
            exact hv' ▸ of_decide_eq_true hx
          · cases op with
            | index _ _ _ _ => cases hi'
            | delete _ _ _ => cases he
  · rcases deleteConfirmed_bulk hf hl hdv with hold | ⟨hv, -⟩
    · exact h.2 d v hold
    · exact hv

/-- A bulk call with a late index operation brings the document back. -/
theorem resurrection_of_late (hindex : IndexOk w.documents w.engine.docs)
    (h : resurrectionOutline.inv w) {op : Operation} (hop : op ∈ p.operations)
    (hi : op.isIndex = true) {v : ℤ} (hc : DeleteConfirmed w op.documentId v) :
    ¬ NoResurrection w' := by
  intro hno
  -- the document is not in the index: its entry would have version 1, below the delete's 2
  have hnone : w.engine.docs.get? op.documentId = none := by
    cases he : w.engine.docs.get? op.documentId with
    | none => rfl
    | some e =>
        obtain ⟨_, -, -, -, hv, -⟩ := hindex.entry _ e he
        have hle := h.1 _ v hc e he
        rw [hv, h.2 _ v hc] at hle
        omega
  obtain ⟨e, he⟩ := entryAfter_index hi (w.engine.docs.get? op.documentId)
  have hstored : w'.engine.docs.get? op.documentId = some e := by
    rw [hd, get?_applyAll hn, find?_operation hn hop rfl]; exact he
  have hversion : e.version = 1 := by
    rcases entryAfter_cases he with he | ⟨-, -, hv, -⟩
    · rw [hnone] at he; cases he
    · obtain ⟨_, -, -, -, ⟨-, hv', -⟩ | ⟨hi', -⟩⟩ := hf op hop
      · exact hv.trans hv'
      · rw [hi] at hi'; cases hi'
  have hc' : DeleteConfirmed w' op.documentId v := by
    obtain ⟨at', ops, succeeded, hm, hrest⟩ := hc
    exact ⟨at', ops, succeeded, hl ▸ List.mem_cons_of_mem _ hm, hrest⟩
  have hle := hno _ v hc' e hstored
  rw [hversion, h.2 _ v hc] at hle
  omega

end Bulk

theorem resurrection_preserves {cfg : Settings} :
    Preserves cfg rt noLateIndex (World.IsInitial State.initial)
      (rowsOutline.and indexOutline) (resurrectionOutline : Outline (World (inMemory rt)) (Task K))
    where
  init := by
    rintro w rfl
    refine ⟨?_, ?_⟩ <;> rintro _ _ ⟨_, _, _, hm, -⟩ <;> cases hm
  start _ _ hi := ⟨hi, trivial, trivial⟩
  move := by
    intro w t w' u _ hKt hP hm hi _
    refine ⟨?_, fun _ _ => trivial, trivial⟩
    rcases bulk_or_quiet hm with ⟨p, rfl, ha, hd, hl⟩ | ⟨-, hd, hc⟩
    · exact resurrectionOutline_bulk hKt.1.1 hKt.1.2 hd hl hi (hP ha)
    · exact noResurrection_of_quiet hi hd hc
  cancel := by
    intro w t _ _ hi _
    rcases cancel_cases rt w t with hc | ⟨r, q, g, hc⟩ <;> rw [hc] <;> exact ⟨hi, trivial⟩
  disturb := by
    intro w e _ _ hi
    refine ⟨?_, trivial⟩
    cases e with
    | refresh =>
        exact noResurrection_of_quiet hi rfl (deleteConfirmed_record rfl)
    | _ => exact hi
  stable _ _ _ _ := trivial

theorem resurrection_established (cfg : Settings) (rt : Runtime K) :
    (machine cfg rt (inMemory rt)).Established noLateIndex
      (World.IsInitial State.initial) resurrectionOutline :=
  resurrection_preserves.valid.established (index_established cfg rt).restrict

/-- **Nothing comes back** in a run without a late index operation, and whatever step such a run
takes next, nothing comes back by it exactly when it is not one. -/
theorem no_resurrection (cfg : Settings) (rt : Runtime K)
    {s : Config (World (inMemory rt)) (Task K)}
    (hr : (machine cfg rt (inMemory rt)).Reach noLateIndex (World.IsInitial State.initial) s) :
    NoResurrection s.world ∧
      ∀ a s', (machine cfg rt (inMemory rt)).step s a = some s' →
        (NoResurrection s'.world ↔ noLateIndex.Allows s a) := by
  have hest := resurrection_established cfg rt
  have hindex := (index_established cfg rt).holds hr.free
  refine ⟨(hest.holds hr).1.1, fun a s' hs => ⟨fun hno => ?_, fun hP => ?_⟩⟩
  · rcases Machine.step_cases hs with ⟨i, r, w, t, rfl, -, -, -⟩ | ⟨i, c, t, w, u, rfl, ht, hw, rfl⟩ |
      ⟨i, t, rfl, -, -⟩ | ⟨e, w, rfl, -, -⟩
    · trivial
    · intro t' ht'
      rw [ht] at ht'
      cases ht'
      obtain ⟨⟨w₁, u'⟩, hw₁, he⟩ := Option.map_eq_some_iff.mp hw
      cases he
      rcases bulk_or_quiet (resume_move hw₁) with ⟨p, rfl, -, hd, hl⟩ | ⟨hno', -, -⟩
      · -- a late index operation would bring its document back
        obtain ⟨hn, hf⟩ := (hindex.2 i _ ht).1
        intro _ op hop hi hc
        obtain ⟨v, hc⟩ := hc
        exact resurrection_of_late hn hf hd hl hindex.1.2 (hest.holds hr).1 hop hi hc
          hno
      · cases t with
        | process step =>
            cases step with
            | bulk p => exact fun ha => absurd (ha.symm.trans (hno' p rfl)) (by simp)
            | _ => trivial
        | _ => trivial
    · trivial
    · trivial
  · exact (hest.holds (.step hr hP hs)).1.1

end Pipeline

namespace Sample

open Pipeline

/-- A document is created, indexed and deleted, and removed from the index. -/
def removal : Actions :=
  indexing ++ [.start 0 (.delete acme documentA), .resume 0 [], .resume 0 [], .resume 0 [],
    .resume 0 [], .resume 0 [], .start 1 (.process [⟨documentA.str, acme, 2, eventDelete⟩]),
    .resume 1 [], .resume 1 [], .resume 1 [], .resume 1 acme]

theorem removal_runs : (service.run (Config.idle start) removal).isSome := by decide +kernel

theorem no_resurrection_sample :
    NoResurrection (service.after start removal removal_runs).world ∧
      ∀ a s', service.step (service.after start removal removal_runs) a = some s' →
        (NoResurrection s'.world ↔
          noLateIndex.Allows (service.after start removal removal_runs) a) :=
  no_resurrection settings runtime
    (Machine.reach_after start_isInitial removal_runs (by decide +kernel))

/-- A worker reads the row, the document is deleted and removed from the index by a second
worker, and only then the first one makes its bulk call. -/
def overtaken : Actions :=
  [.start 0 (.create acme documentA payload), .resume 0 [], .resume 0 [], .resume 0 [],
    .start 1 (.process [⟨documentA.str, acme, 1, eventIndex⟩]), .resume 1 [],
    .start 0 (.delete acme documentA), .resume 0 [], .resume 0 [], .resume 0 [], .resume 0 [],
    .resume 0 [],
    .start 2 (.process [⟨documentA.str, acme, 2, eventDelete⟩]), .resume 2 [], .resume 2 [],
    .resume 2 [], .resume 2 acme,
    .resume 1 []]

theorem overtaken_runs : (service.run (Config.idle start) overtaken).isSome := by decide +kernel

/-- **A deleted document comes back.** -/
theorem resurrection : ¬ ∀ s, service.Reach .free (World.IsInitial State.initial) s →
    NoResurrection s.world := by
  intro h
  have hreach := Machine.reach_after start_isInitial overtaken_runs (Machine.conforms_free _ _)
  have hback : ((service.after start overtaken overtaken_runs).world.engine.docs.get?
      documentA.str).map StoredDoc.version = some 1 := by decide +kernel
  obtain ⟨e, he, hv⟩ := Option.map_eq_some_iff.mp hback
  have hle := h _ hreach documentA.str 2 (by decide +kernel) e he
  rw [hv] at hle
  exact absurd hle (by decide)

end Sample

end DocSearch
