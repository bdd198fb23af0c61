import DocSearch.Pipeline.Coherence
import DocSearch.Pipeline.Convergence

/-!
# Pipeline — Replay

Batches as sets.  What `process` calls leave of the index and of the statuses depends on which
documents their events name, and not on the order, the number, the versions, the types or the
batches of the events.

* `set_semantics`: two sequences of calls that name the same documents leave the same.
-/

namespace DocSearch

open DocumentRepository InMemoryEngine IndexingProcessor

namespace Pipeline

variable {K : Type} [Field K] [LinearOrder K] {rt : Runtime K}

/-- The calls, one after the other. -/
def performAll (rt : Runtime K) (w : World (inMemory rt)) (cs : List Call) : World (inMemory rt) :=
  cs.foldl (fun w c => (perform rt w c).tick) w

/-- The call is no write of the API, and leaves the engine up. -/
def leavesRows : Call → Bool
  | .create _ _ _ | .delete _ _ => false
  | .environment (.engine available) => available
  | .get _ _ | .process _ | .environment _ => true

/-- The document id is mentioned by an event of one of the calls. -/
def Mentioned (cs : List Call) (documentId : Str) : Prop :=
  ∃ events, Call.process events ∈ cs ∧ ∃ e ∈ events, e.documentId = documentId

/-! ### A row and its entry -/

/-- What becomes of a row: `named` says whether it was processed. -/
structure RowAfter (named : Prop) (r r' : Document) : Prop where
  version : r'.version = r.version
  indexed : named → r.status = .pending → r'.status = .indexed
  kept : (named → r.status ≠ .pending) → r'.status = r.status
  unnamed : ¬ named → r' = r

theorem RowAfter.refl (r : Document) : RowAfter False r r :=
  ⟨rfl, False.elim, fun _ => rfl, fun _ => rfl⟩

theorem RowAfter.status_eq {named : Prop} {r r₁ r₂ : Document} (h₁ : RowAfter named r r₁)
    (h₂ : RowAfter named r r₂) : r₁.status = r₂.status := by
  by_cases hp : named ∧ r.status = .pending
  · rw [h₁.indexed hp.1 hp.2, h₂.indexed hp.1 hp.2]
  · have hkept : named → r.status ≠ .pending := fun hn hs => hp ⟨hn, hs⟩
    rw [h₁.kept hkept, h₂.kept hkept]

theorem RowAfter.deleted_iff {named : Prop} {r r' : Document} (h : RowAfter named r r') :
    r'.status = .deleted ↔ r.status = .deleted := by
  by_cases hp : named ∧ r.status = .pending
  · rw [h.indexed hp.1 hp.2, hp.2]
    exact iff_of_false (by decide) (by decide)
  · rw [h.kept fun hn hs => hp ⟨hn, hs⟩]

theorem RowAfter.congr {p q : Prop} {r r' : Document} (h : RowAfter p r r') (hpq : p ↔ q) :
    RowAfter q r r' :=
  ⟨h.version, fun hq => h.indexed (hpq.mpr hq), fun hk => h.kept fun hp => hk (hpq.mp hp),
    fun hq => h.unnamed fun hp => hq (hpq.mp hp)⟩

/-- Two batches in a row. -/
theorem RowAfter.trans {p q : Prop} {r r₁ r₂ : Document} (h₁ : RowAfter p r r₁)
    (h₂ : RowAfter q r₁ r₂) : RowAfter (p ∨ q) r r₂ where
  version := h₂.version.trans h₁.version
  indexed hn hs := by
    by_cases hp : p
    · have hi := h₁.indexed hp hs
      rw [h₂.kept fun _ => by rw [hi]; decide, hi]
    · obtain rfl := h₁.unnamed hp
      exact h₂.indexed (hn.resolve_left hp) hs
  kept hk := by
    have hs₁ := h₁.kept fun hp => hk (.inl hp)
    rw [h₂.kept fun hq => hs₁ ▸ hk (.inr hq), hs₁]
  unnamed hn := by
    rw [h₂.unnamed fun hq => hn (.inr hq), h₁.unnamed fun hp => hn (.inl hp)]

theorem version_operationFor (s : Str) (d : Document) : (operationFor s d).version = d.version := by
  unfold operationFor; split <;> rfl

/-- A second operation of the same kind and version does nothing. -/
theorem entryAfter_entryAfter {op op' : Operation} (hv : op'.version = op.version)
    (hi : op'.isIndex = op.isIndex) (x : Option StoredDoc) :
    entryAfter op' (entryAfter op x) = entryAfter op x := by
  by_cases h : x.any fun e => decide (op.version ≤ e.version)
  · have hx : entryAfter op x = x := if_pos h
    rw [hx]
    exact if_pos (hv ▸ h)
  · have hx : entryAfter op x = _ := if_neg h
    rw [hx]
    cases op with
    | index d t v s => exact if_pos (decide_eq_true (le_of_eq hv))
    | delete d t v =>
        cases op' with
        | index _ _ _ _ => cases hi
        | delete _ _ _ => rfl

theorem RowAfter.entryAfter_eq {named : Prop} {r r' : Document} (h : RowAfter named r r') (s : Str)
    (x : Option StoredDoc) : entryAfter (operationFor s r') (entryAfter (operationFor s r) x) =
      entryAfter (operationFor s r) x := by
  refine entryAfter_entryAfter ?_ ?_ x
  · rw [version_operationFor, version_operationFor, h.version]
  · rw [Bool.eq_iff_iff, isIndex_operationFor, isIndex_operationFor, not_iff_not, h.deleted_iff]

/-! ### What the calls leave -/

/-- `w'` is what is left of `w` when the documents of `S` were processed. -/
structure Replayed (w : World (inMemory rt)) (S : Str → Prop) (w' : World (inMemory rt)) : Prop where
  available : w'.engine.available = true
  rows : ∀ id r, w.documents.find? id = some r →
    ∃ r', w'.documents.find? id = some r' ∧ RowAfter (S id.str) r r'
  noRows : ∀ id, w.documents.find? id = none → w'.documents.find? id = none
  applied : ∀ id r, w.documents.find? id = some r → S id.str →
    w'.engine.docs.get? id.str = entryAfter (operationFor id.str r) (w.engine.docs.get? id.str)
  others : ∀ k, (∀ id r, w.documents.find? id = some r → S k → id.str ≠ k) →
    w'.engine.docs.get? k = w.engine.docs.get? k

theorem Replayed.refl {w : World (inMemory rt)} (h : w.engine.available = true) :
    Replayed w (fun _ => False) w :=
  ⟨h, fun _ r hr => ⟨r, hr, .refl r⟩, fun _ hr => hr, fun _ _ _ hs => hs.elim, fun _ _ => rfl⟩

theorem Replayed.congr {w w' : World (inMemory rt)} {S S' : Str → Prop} (h : Replayed w S w')
    (hS : ∀ k, S k ↔ S' k) : Replayed w S' w' where
  available := h.available
  rows id r hr := by
    obtain ⟨r', hr', ha⟩ := h.rows id r hr
    exact ⟨r', hr', ha.congr (hS _)⟩
  noRows := h.noRows
  applied id r hr hs := h.applied id r hr ((hS _).mpr hs)
  others k hk := h.others k fun id r hr hs => hk id r hr ((hS k).mp hs)

/-- A step that leaves the rows and the engine alone. -/
theorem Replayed.quiet {w w₁ w' : World (inMemory rt)} {S : Str → Prop} (h : Replayed w S w₁)
    (hd : w'.documents = w₁.documents) (he : w'.engine.docs = w₁.engine.docs)
    (ha : w'.engine.available = true) : Replayed w S w' where
  available := ha
  rows id r hr := hd.symm ▸ h.rows id r hr
  noRows id hr := hd.symm ▸ h.noRows id hr
  applied id r hr hs := he.symm ▸ h.applied id r hr hs
  others k hk := he.symm ▸ h.others k hk

/-- **One batch**, after others. -/
theorem Replayed.process {w w₁ : World (inMemory rt)} {S : Str → Prop} (h : Replayed w S w₁)
    (events : List Event) :
    Replayed w (fun k => S k ∨ ∃ e ∈ events, e.documentId = k) (process rt w₁ events).2 := by
  have hp := process_available h.available events
  obtain ⟨ids, hdocs, hids⟩ := hp.documents
  have hrow : ∀ id r₁, w₁.documents.find? id = some r₁ →
      ∃ r', (IndexingProcessor.process rt w₁ events).2.documents.find? id = some r' ∧
        RowAfter (Named events id) r₁ r' := by
    intro id r₁ hr₁
    rw [hdocs, find?_markIndexed, hr₁]
    refine ⟨_, rfl, ?_⟩
    have hid := Table.key_of_find? hr₁
    subst hid
    dsimp only
    split
    · rename_i hm
      have hn := (hids r₁ hr₁ hm.2).mp hm.1
      exact ⟨rfl, fun _ _ => rfl, fun hk => absurd hm.2 (hk hn), fun hk => absurd hn hk⟩
    · rename_i hm
      refine ⟨rfl, fun hn hs => absurd ⟨(hids r₁ hr₁ hs).mpr hn, hs⟩ hm, fun _ => rfl, fun _ => rfl⟩
  refine ⟨hp.available.trans h.available, fun id r hr => ?_, fun id hr => ?_, fun id r hr hs => ?_,
    fun k hk => ?_⟩
  · obtain ⟨r₁, hr₁, ha₁⟩ := h.rows id r hr
    obtain ⟨r', hr', ha'⟩ := hrow id r₁ hr₁
    exact ⟨r', hr', ha₁.trans ha'⟩
  · rw [hdocs, find?_markIndexed, h.noRows id hr]
    rfl
  · obtain ⟨r₁, hr₁, ha₁⟩ := h.rows id r hr
    have hid := Table.key_of_find? hr₁
    subst hid
    rw [hp.docs]
    by_cases hn : Named events r₁.id
    · rw [get?_applyAll nodup_operations, find?_named hr₁ hn]
      by_cases hS : S r₁.id.str
      · rw [h.applied _ r hr hS]
        exact ha₁.entryAfter_eq _ _
      · -- nothing has touched the row or its entry before
        obtain rfl := ha₁.unnamed hS
        rw [h.others _ fun id _ _ hs => absurd hs hS]
    · rw [get?_unnamed hn]
      exact h.applied _ r hr (hs.resolve_right hn)
  · have hnone : (plan rt.toUnicode w₁.documents events).operations.find?
        (fun op => decide (op.documentId = k)) = none := by
      refine List.find?_eq_none.mpr fun op hop hopk => ?_
      obtain ⟨r₁, hr₁, he, rfl⟩ := mem_operations.mp hop
      have hidk := of_decide_eq_true hopk
      rw [documentId_operationFor] at hidk
      cases hr : w.documents.find? r₁.id with
      | none => rw [h.noRows _ hr] at hr₁; cases hr₁
      | some r => exact hk r₁.id r hr (.inr (hidk ▸ he)) hidk
    rw [hp.docs, get?_applyAll nodup_operations, hnone]
    exact h.others k fun id r hr hs => hk id r hr (.inl hs)

/-- **One call.** -/
theorem Replayed.perform {w w₁ : World (inMemory rt)} {S : Str → Prop} (h : Replayed w S w₁)
    {c : Call} (hc : leavesRows c = true) :
    Replayed w (fun k => S k ∨ Mentioned [c] k) (perform rt w₁ c).tick := by
  have quiet : (∀ events, c ≠ .process events) → (Pipeline.perform rt w₁ c).documents = w₁.documents →
      (Pipeline.perform rt w₁ c).engine.docs = w₁.engine.docs →
      (Pipeline.perform rt w₁ c).engine.available = true →
      Replayed w (fun k => S k ∨ Mentioned [c] k) (Pipeline.perform rt w₁ c).tick := by
    intro hne hd he ha
    have hq : Replayed w S (Pipeline.perform rt w₁ c).tick := h.quiet hd he ha
    refine hq.congr fun k => ?_
    refine ⟨.inl, fun hs => hs.resolve_right ?_⟩
    rintro ⟨events, hm, -⟩
    exact hne events (List.mem_singleton.mp hm).symm
  cases c with
  | create _ _ _ | delete _ _ => cases hc
  | get t d =>
      have hget : ∀ s : ℕ, (DocumentService.get w₁ s t d).2.documents = w₁.documents ∧
          (DocumentService.get w₁ s t d).2.engine = w₁.engine := by
        intro s
        unfold DocumentService.get
        dsimp only
        split
        · exact ⟨rfl, rfl⟩
        · split <;> exact ⟨rfl, rfl⟩
      obtain ⟨hd, he⟩ := hget w₁.clock
      refine quiet nofun hd (congrArg State.docs he) ?_
      exact (congrArg State.available he).trans h.available
  | process events =>
      have hq : Replayed w (fun k => S k ∨ ∃ ev ∈ events, ev.documentId = k)
          (Pipeline.perform rt w₁ (.process events)).tick :=
        (h.process events).quiet rfl rfl (h.process events).available
      refine hq.congr fun k => or_congr_right ?_
      simp [Mentioned]
  | environment e =>
      cases e with
      | engine available => exact quiet nofun rfl rfl hc
      | _ => exact quiet nofun rfl rfl h.available

/-- **Any number of calls.** -/
theorem replayed_performAll {w : World (inMemory rt)} :
    ∀ {cs : List Call} {S : Str → Prop} {w₁ : World (inMemory rt)}, Replayed w S w₁ →
      (∀ c ∈ cs, leavesRows c = true) →
      Replayed w (fun k => S k ∨ Mentioned cs k) (performAll rt w₁ cs)
  | [], _, _, h, _ => h.congr fun k => by simp [Mentioned]
  | c :: cs, S, w₁, h, hc => by
      have h₁ := h.perform (hc c List.mem_cons_self)
      refine (replayed_performAll h₁ fun c' hm => hc c' (List.mem_cons_of_mem c hm)).congr fun k => ?_
      rw [or_assoc]
      refine or_congr_right ?_
      simp only [Mentioned, List.mem_cons, List.not_mem_nil, or_false, or_and_right, exists_or]

/-- **Set semantics.**  From any rows and any index, two sequences of calls whose events mention
the same document ids leave the same entries in the index and the same statuses. -/
theorem set_semantics (rt : Runtime K) {w : World (inMemory rt)} (hw : w.engine.available = true)
    {cs ds : List Call} (hc : ∀ c ∈ cs, leavesRows c = true) (hd : ∀ c ∈ ds, leavesRows c = true)
    (h : ∀ k, Mentioned cs k ↔ Mentioned ds k) :
    (∀ k, (performAll rt w cs).engine.docs.get? k = (performAll rt w ds).engine.docs.get? k) ∧
      ∀ id, ((performAll rt w cs).documents.find? id).map Document.status =
        ((performAll rt w ds).documents.find? id).map Document.status := by
  have h₁ : Replayed w (Mentioned ds) (performAll rt w cs) :=
    (replayed_performAll (.refl hw) hc).congr fun k => (iff_of_eq (false_or _)).trans (h k)
  have h₂ : Replayed w (Mentioned ds) (performAll rt w ds) :=
    (replayed_performAll (.refl hw) hd).congr fun k => iff_of_eq (false_or _)
  refine ⟨fun k => ?_, fun id => ?_⟩
  · by_cases hk : ∃ id r, w.documents.find? id = some r ∧ Mentioned ds k ∧ id.str = k
    · obtain ⟨id, r, hr, hm, rfl⟩ := hk
      rw [h₁.applied id r hr hm, h₂.applied id r hr hm]
    · have hne : ∀ id r, w.documents.find? id = some r → Mentioned ds k → id.str ≠ k :=
        fun id r hr hm he => hk ⟨id, r, hr, hm, he⟩
      rw [h₁.others k hne, h₂.others k hne]
  · cases hr : w.documents.find? id with
    | none => rw [h₁.noRows id hr, h₂.noRows id hr]
    | some r =>
        obtain ⟨r₁, hr₁, ha₁⟩ := h₁.rows id r hr
        obtain ⟨r₂, hr₂, ha₂⟩ := h₂.rows id r hr
        rw [hr₁, hr₂, Option.map_some, Option.map_some, ha₁.status_eq ha₂]

end Pipeline

namespace Sample

open Pipeline

/-- Two documents are created. -/
def twoRows : World (inMemory runtime) :=
  performAll runtime start [.create acme documentA payload, .create globex documentB payload]

def eventA : Event := ⟨documentA.str, acme, 1, eventIndex⟩

/-- An event of another version and type. -/
def eventA' : Event := ⟨documentA.str, acme, 7, eventDelete⟩

def eventB : Event := ⟨documentB.str, globex, 1, eventIndex⟩

/-- One batch, and two with a pause between them. -/
def oneBatch : List Call := [.process [eventA, eventB]]

def twoBatches : List Call :=
  [.process [eventB, eventA', eventB], .environment (.elapse 5), .process [eventA]]

theorem mentioned_batches (k : Str) : Mentioned oneBatch k ↔ Mentioned twoBatches k := by
  simp only [Mentioned, oneBatch, twoBatches, List.mem_cons, List.not_mem_nil, or_false,
    Call.process.injEq, exists_eq_left, exists_eq_or_imp, reduceCtorEq, false_or]
  simp only [eventA, eventA', eventB]
  tauto

theorem set_semantics_sample :
    (∀ k, (performAll runtime twoRows oneBatch).engine.docs.get? k =
        (performAll runtime twoRows twoBatches).engine.docs.get? k) ∧
      ∀ id, ((performAll runtime twoRows oneBatch).documents.find? id).map Document.status =
        ((performAll runtime twoRows twoBatches).documents.find? id).map Document.status :=
  set_semantics runtime (w := twoRows) (by decide +kernel) (by decide) (by decide) mentioned_batches

end Sample

end DocSearch
