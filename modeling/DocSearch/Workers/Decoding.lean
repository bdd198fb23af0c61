import DocSearch.Support.Traversal
import DocSearch.Workers.Batch

/-!
# Workers — Decoding

`IndexingProcessor.process` on events as a consumer decodes them, whose fields may be any JSON
values: which of them raise, and that nothing does on the events of the producers.

* `newest_iff`: which event of a document a batch keeps.
* `processDecoded_decoded`: on events of the producers it is `process`.
-/

namespace DocSearch

open CacheKeys

/-- The class of an exception that is not caught. -/
inductive PyError where
  | typeError
  | attributeError
  /-- What the AMQP client raises for a routing key it does not take. -/
  | routingKey
  deriving DecidableEq

namespace IndexingProcessor

/-- `hash(v)`. -/
def hash (v : Json) : Except PyError Unit := if v.hashable then .ok () else .error .typeError

/-- The argument of `uuid.UUID`: it has no default, and it is asked for its `replace`. -/
def uuidArgument : Json → Except PyError Str
  | .str s => .ok s
  | .null => .error .typeError
  | _ => .error .attributeError

/-- The loop that collapses duplicates hashes every document id, and the one after it makes a
`UUID` of every id that is left; of these it discards the strings that are none. -/
def checkIds (events : List DecodedEvent) : Except PyError (List (DocumentEvent Str Json)) := do
  events.forM fun e => hash e.documentId
  events.mapM fun e => do
    let documentId ← uuidArgument e.documentId
    return ⟨documentId, e.tenantId, e.version, e.type⟩

variable {K : Type} {E : SearchEngine K}

/-- `process` from there on: the set of tenants hashes them. -/
def processChecked (it : Interpreter K) (w : World E) (events : List (DocumentEvent Str Json)) :
    Except PyError (ProcessOutcome × World E) :=
  let plan := plan it.toUnicode w.documents events
  if plan.operations.isEmpty then .ok (plan.idle, w)
  else
    match bulk w plan.operations with
    | (.error _, w) => .ok (plan.raised, w)
    | (.ok result, w) => do
        let outcome := plan.outcome result
        let changed := plan.changedTenants outcome
        changed.forM hash
        let w' := (it.iterateValues changed).foldl (fun w' t => bump w' w.clock (it.format t))
          (commit it.toUnicode w outcome.indexed)
        return (outcome, w'.record (.processed plan.operations result.succeeded w.clock))

def processDecoded (it : Interpreter K) (w : World E) (events : List DecodedEvent) :
    Except PyError (ProcessOutcome × World E) := do
  processChecked it w (← checkIds events)

/-! ### The events a batch keeps -/

section Newest

variable {ι κ τ σ : Type} {events : List (DocumentEvent ι τ)} {e : DocumentEvent ι τ}

/-- No event of its document is newer, and those that are as new come before it. -/
def Newest (events : List (DocumentEvent ι τ)) (e : DocumentEvent ι τ) : Prop :=
  ∃ before after, events = before ++ e :: after ∧
    (∀ x ∈ before, x.documentId = e.documentId → x.version ≤ e.version) ∧
    ∀ x ∈ after, x.documentId = e.documentId → x.version < e.version

theorem Newest.mem (h : Newest events e) : e ∈ events := by
  obtain ⟨before, after, rfl, -⟩ := h
  simp

theorem Newest.le (h : Newest events e) {x : DocumentEvent ι τ} (hx : x ∈ events)
    (hd : x.documentId = e.documentId) : x.version ≤ e.version := by
  obtain ⟨before, after, rfl, hb, ha⟩ := h
  rcases List.mem_append.mp hx with hx | hx
  · exact hb x hx hd
  · rcases List.mem_cons.mp hx with rfl | hx
    · exact le_rfl
    · exact (ha x hx hd).le

/-- Which event is the newest does not depend on how documents are named. -/
theorem newest_map {f : DocumentEvent ι τ → DocumentEvent κ σ}
    (hid : ∀ x y, (f x).documentId = (f y).documentId ↔ x.documentId = y.documentId)
    (hv : ∀ x, (f x).version = x.version) {y : DocumentEvent κ σ} :
    Newest (events.map f) y ↔ ∃ x, Newest events x ∧ f x = y := by
  constructor
  · rintro ⟨before, after, he, hb, ha⟩
    obtain ⟨before, rest, rfl, rfl, hrest⟩ := List.map_eq_append_iff.mp he
    obtain ⟨x, after, rfl, rfl, rfl⟩ := List.map_eq_cons_iff.mp hrest
    refine ⟨x, ⟨before, after, rfl, fun z hz hd => ?_, fun z hz hd => ?_⟩, rfl⟩
    · rw [← hv z, ← hv x]
      exact hb _ (List.mem_map_of_mem hz) ((hid z x).mpr hd)
    · rw [← hv z, ← hv x]
      exact ha _ (List.mem_map_of_mem hz) ((hid z x).mpr hd)
  · rintro ⟨x, ⟨before, after, rfl, hb, ha⟩, rfl⟩
    refine ⟨before.map f, after.map f, by simp, fun y hy hd => ?_, fun y hy hd => ?_⟩
    · obtain ⟨z, hz, rfl⟩ := List.mem_map.mp hy
      rw [hv, hv]
      exact hb z hz ((hid z x).mp hd)
    · obtain ⟨z, hz, rfl⟩ := List.mem_map.mp hy
      rw [hv, hv]
      exact ha z hz ((hid z x).mp hd)

/-- One more event. -/
theorem newest_append {a : DocumentEvent ι τ} : Newest (events ++ [a]) e ↔
    (e = a ∧ ∀ x ∈ events, x.documentId = a.documentId → x.version ≤ a.version) ∨
      (Newest events e ∧ (a.documentId = e.documentId → a.version < e.version)) := by
  constructor
  · rintro ⟨before, after, he, hb, ha⟩
    rcases List.eq_nil_or_concat after with rfl | ⟨after, y, rfl⟩
    · obtain ⟨rfl, hl⟩ := List.append_inj' he rfl
      cases hl
      exact .inl ⟨rfl, hb⟩
    · rw [List.concat_eq_append, ← List.cons_append, ← List.append_assoc] at he
      rw [List.concat_eq_append] at ha
      obtain ⟨rfl, hl⟩ := List.append_inj' he rfl
      cases hl
      exact .inr ⟨⟨before, after, rfl, hb, fun x hx => ha x (List.mem_append_left _ hx)⟩,
        ha a (by simp)⟩
  · rintro (⟨rfl, h⟩ | ⟨⟨before, after, rfl, hb, ha⟩, h⟩)
    · exact ⟨events, [], rfl, h, by simp⟩
    · refine ⟨before, after ++ [a], by simp, hb, fun x hx hd => ?_⟩
      rcases List.mem_append.mp hx with hx | hx
      · exact ha x hx hd
      · rw [List.mem_singleton] at hx
        exact hx ▸ h (hx ▸ hd)

/-- **What a batch keeps** of the events of a document is the newest of them. -/
theorem newest_iff {events : List (DocumentEvent Str τ)} {e : DocumentEvent Str τ} {k : Str} :
    (latest events).get? k = some e ↔ e.documentId = k ∧ Newest events e := by
  induction events using List.reverseRecOn generalizing e k with
  | nil => simp [latest, Newest]
  | append_singleton l a ih =>
      have hl : latest (l ++ [a]) = keepNewest (latest l) a := by simp [latest]
      rw [hl, newest_append]
      by_cases hc : ∀ x ∈ l, x.documentId = a.documentId → x.version ≤ a.version
      · -- the new event is kept
        have hk : keepNewest (latest l) a = (latest l).set a.documentId a := by
          unfold keepNewest
          split
          · rfl
          · rename_i current hcurrent
            obtain ⟨hid, hnew⟩ := ih.mp hcurrent
            exact if_pos (hc current hnew.mem hid)
        rw [hk, Dict.get?_set]
        split
        · rename_i hka
          constructor
          · rintro ⟨⟩; exact ⟨hka.symm, .inl ⟨rfl, hc⟩⟩
          · rintro ⟨rfl, ⟨rfl, -⟩ | ⟨hnew, hlt⟩⟩
            · rfl
            · exact absurd (hc e hnew.mem hka) (not_le.mpr (hlt hka.symm))
        · rename_i hka
          rw [ih]
          refine and_congr_right fun hid => ⟨fun hnew => .inr ⟨hnew, fun h => ?_⟩, ?_⟩
          · exact absurd (hid.symm.trans h.symm) hka
          · rintro (⟨rfl, -⟩ | ⟨hnew, -⟩)
            · exact absurd hid.symm hka
            · exact hnew
      · -- a newer one is there
        have hk : keepNewest (latest l) a = latest l := by
          unfold keepNewest
          push Not at hc
          obtain ⟨x, hx, hid, hlt⟩ := hc
          split
          · rename_i hnone
            obtain ⟨y, hy⟩ := Dict.mem_keys.mp (mem_keys_latest.mpr ⟨x, hx, hid⟩)
            rw [hnone] at hy
            cases hy
          · rename_i current hcurrent
            obtain ⟨hid', hnew⟩ := ih.mp hcurrent
            exact if_neg (not_le.mpr (hlt.trans_le (hnew.le hx (hid.trans hid'.symm))))
        rw [hk, ih]
        refine and_congr_right fun _ => ⟨fun hnew => .inr ⟨hnew, fun h => ?_⟩, ?_⟩
        · push Not at hc
          obtain ⟨x, hx, hid, hlt⟩ := hc
          exact hlt.trans_le (hnew.le hx (hid.trans h))
        · rintro (⟨-, h⟩ | ⟨hnew, -⟩)
          · exact absurd h hc
          · exact hnew

end Newest

/-! ### The ids -/

/-- An event whose id is a string, as it was decoded. -/
def untyped (e : DocumentEvent Str Json) : DecodedEvent :=
  ⟨.str e.documentId, e.tenantId, e.version, e.type⟩

theorem newest_untyped {events : List (DocumentEvent Str Json)} {y : DecodedEvent} :
    Newest (events.map untyped) y ↔ ∃ x, Newest events x ∧ untyped x = y :=
  newest_map (f := untyped) (fun _ _ => Json.str.injEq _ _ ▸ .rfl) fun _ => rfl

theorem uuidArgument_eq_ok {v : Json} {s : Str} : uuidArgument v = .ok s ↔ v = .str s := by
  cases v <;> simp [uuidArgument]

/-- The loops go through exactly on ids that are strings. -/
theorem checkIds_eq_ok {events : List DecodedEvent} {typed : List (DocumentEvent Str Json)} :
    checkIds events = .ok typed ↔ events = typed.map untyped := by
  have hread : ∀ (d : DecodedEvent) (t : DocumentEvent Str Json),
      (do let documentId ← uuidArgument d.documentId
          return (⟨documentId, d.tenantId, d.version, d.type⟩ : DocumentEvent Str Json)) =
        (.ok t : Except PyError _) ↔ d = untyped t := by
    intro d t
    simp only [bind_eq_ok, pure_eq_ok, uuidArgument_eq_ok]
    constructor
    · rintro ⟨s, hs, rfl⟩
      rw [untyped, ← hs]
    · rintro rfl
      exact ⟨t.documentId, rfl, rfl⟩
  simp only [checkIds, bind_eq_ok, mapM_eq_ok_of_inverse (hread _ _)]
  constructor
  · rintro ⟨_, -, h⟩; exact h
  · rintro rfl
    refine ⟨(), forM_eq_ok.mpr fun d hd => ?_, rfl⟩
    obtain ⟨t, -, rfl⟩ := List.mem_map.mp hd
    rfl

theorem exists_checkIds {events : List DecodedEvent} :
    (∃ typed, checkIds events = .ok typed) ↔ ∀ e ∈ events, ∃ s, e.documentId = .str s := by
  simp only [checkIds_eq_ok]
  constructor
  · rintro ⟨typed, rfl⟩ e he
    obtain ⟨t, -, rfl⟩ := List.mem_map.mp he
    exact ⟨t.documentId, rfl⟩
  · intro h
    induction events with
    | nil => exact ⟨[], rfl⟩
    | cons e events ih =>
        obtain ⟨s, hs⟩ := h e List.mem_cons_self
        obtain ⟨typed, rfl⟩ := ih fun x hx => h x (List.mem_cons_of_mem e hx)
        refine ⟨⟨s, e.tenantId, e.version, e.type⟩ :: typed, ?_⟩
        rw [List.map_cons, untyped, ← hs]

/-! ### A healthy engine -/

end IndexingProcessor

/-- An engine that is up, stays up and answers every bulk call, and which operations it accepts
in a state. -/
structure HealthyEngine {K : Type} (E : SearchEngine K) where
  Up : E.State → Prop
  accepts : E.State → Operation → Bool
  bulk_up : ∀ {st ops}, Up st → (ops.map Operation.documentId).Nodup →
    ∃ r st', E.bulk st ops = (.ok r, st') ∧ Up st' ∧
      ∀ op ∈ ops, (op.documentId ∈ r.succeeded ↔ accepts st op = true)

namespace IndexingProcessor

section Healthy

variable {K : Type} {E : SearchEngine K} {it : Interpreter K} {w : World E}
  {events : List (DocumentEvent Str Json)}

/-- The newest event of a document that the engine accepts has a tenant that is not hashable. -/
def UnhashableTenant (H : HealthyEngine E) (w : World E) (events : List DecodedEvent) : Prop :=
  ∃ row, w.documents.find? row.id = some row ∧
    H.accepts w.engine (operationFor row.id.str row) = true ∧
    ∃ e, Newest events e ∧ e.documentId = .str row.id.str ∧ e.tenantId.hashable = false

/-- The document has a row that the engine does not accept. -/
def Rejected (H : HealthyEngine E) (w : World E) (documentId : Json) : Prop :=
  ∃ row, w.documents.find? row.id = some row ∧ documentId = .str row.id.str ∧
    H.accepts w.engine (operationFor row.id.str row) = false

/-- Every operation that was not confirmed fails. -/
theorem Plan.mem_failed {τ : Type} {p : Plan τ} {r : BulkResult} {s : Str} :
    s ∈ (p.outcome r).failed ↔ ∃ op ∈ p.operations, op.documentId = s ∧ s ∉ r.succeeded := by
  simp only [Plan.outcome, List.mem_filter, List.mem_append, Plan.mem_indexIds, Plan.mem_deleteIds,
    decide_eq_true_eq]
  constructor
  · rintro ⟨⟨op, hop, -, rfl⟩ | ⟨op, hop, -, rfl⟩, hs⟩
    · exact ⟨op, hop, rfl, hs⟩
    · exact ⟨op, hop, rfl, hs⟩
  · rintro ⟨op, hop, rfl, hs⟩
    cases hi : op.isIndex with
    | true => exact ⟨.inl ⟨op, hop, hi, rfl⟩, hs⟩
    | false => exact ⟨.inr ⟨op, hop, hi, rfl⟩, hs⟩

variable {H : HealthyEngine E}

/-- What a bulk call of a healthy engine leaves. -/
theorem bulk_healthy (ops : List Operation) (hw : H.Up w.engine)
    (hn : (ops.map Operation.documentId).Nodup) :
    ∃ r w', bulk w ops = (.ok r, w') ∧ H.Up w'.engine ∧ w'.documents = w.documents ∧
      ∀ op ∈ ops, (op.documentId ∈ r.succeeded ↔ H.accepts w.engine op = true) := by
  obtain ⟨r, st', hb, hup, hr⟩ := H.bulk_up hw hn
  exact ⟨r, { w with engine := st' }.record (.applied ops r.succeeded), by rw [bulk, hb], hup, rfl, hr⟩

section Outcome

variable {r : BulkResult} (hr : ∀ op ∈ (plan it.toUnicode w.documents events).operations,
    (op.documentId ∈ r.succeeded ↔ H.accepts w.engine op = true))
include hr

/-- The set of tenants of a batch is built unless one of them is not hashable. -/
theorem hash_changedTenants :
    ((plan it.toUnicode w.documents events).changedTenants
        ((plan it.toUnicode w.documents events).outcome r)).forM hash = .ok () ↔
      ¬ UnhashableTenant H w (events.map untyped) := by
  have hhash : ∀ v, hash v = .ok () ↔ v.hashable = true := fun v => by
    unfold hash; split <;> simp_all
  simp only [forM_eq_ok, hhash, Plan.changedTenants, List.mem_map, List.mem_filterMap]
  constructor
  · rintro h ⟨row, hrow, hacc, _, hnewest, hid, ht⟩
    obtain ⟨e, hnew, rfl⟩ := newest_untyped.mp hnewest
    replace hid : e.documentId = row.id.str := Json.str.inj hid
    have hop : operationFor row.id.str row ∈ (plan it.toUnicode w.documents events).operations :=
      mem_operations.mpr ⟨row, hrow, ⟨e, hnew.mem, hid⟩, rfl⟩
    have hdoc := documentId_operationFor row.id.str row
    have hsucc := (hr _ hop).mpr hacc
    rw [hdoc] at hsucc
    have := h _ ⟨e, ⟨row.id.str, Plan.mem_changed.mpr ⟨_, hop, hdoc, hsucc⟩,
      newest_iff.mpr ⟨hid, hnew⟩⟩, rfl⟩
    cases this.symm.trans ht
  · rintro h _ ⟨e, ⟨s, hs, hlatest⟩, rfl⟩
    obtain ⟨hid, hnew⟩ := newest_iff.mp hlatest
    obtain ⟨op, hop, hdoc, hsucc⟩ := Plan.mem_changed.mp hs
    obtain ⟨row, hrow, -, rfl⟩ := mem_operations.mp hop
    have hacc := (hr _ hop).mp (hdoc.symm ▸ hsucc)
    rw [documentId_operationFor] at hdoc
    by_contra ht
    exact h ⟨row, hrow, hacc, untyped e, newest_untyped.mpr ⟨e, hnew, rfl⟩,
      congrArg Json.str (hid.trans hdoc.symm), Bool.eq_false_iff.mpr ht⟩

/-- The documents of a batch that fail are those whose operation is rejected. -/
theorem mem_failed_iff {e : DocumentEvent Str Json} (he : e ∈ events) :
    e.documentId ∈ ((plan it.toUnicode w.documents events).outcome r).failed ↔
      Rejected H w (.str e.documentId) := by
  rw [Plan.mem_failed]
  constructor
  · rintro ⟨op, hop, hdoc, hsucc⟩
    obtain ⟨row, hrow, -, rfl⟩ := mem_operations.mp hop
    rw [← hdoc, hr _ hop] at hsucc
    rw [documentId_operationFor] at hdoc
    exact ⟨row, hrow, congrArg Json.str hdoc.symm, Bool.eq_false_iff.mpr hsucc⟩
  · rintro ⟨row, hrow, hdoc, hacc⟩
    replace hdoc := (Json.str.inj hdoc).symm
    have hop : operationFor row.id.str row ∈ (plan it.toUnicode w.documents events).operations :=
      mem_operations.mpr ⟨row, hrow, ⟨e, he, hdoc.symm⟩, rfl⟩
    have hid := documentId_operationFor row.id.str row
    refine ⟨_, hop, hid.trans hdoc, fun hsucc => ?_⟩
    rw [← hdoc, ← hid, hr _ hop, hacc] at hsucc
    cases hsucc

end Outcome

/-- **`process` with a healthy engine** raises exactly for a tenant that is not hashable, and fails
what the engine rejects. -/
theorem processChecked_healthy (it : Interpreter K) (events : List (DocumentEvent Str Json))
    (hw : H.Up w.engine) :
    (UnhashableTenant H w (events.map untyped) → ∃ x, processChecked it w events = .error x) ∧
    (¬ UnhashableTenant H w (events.map untyped) → ∃ o w', processChecked it w events = .ok (o, w') ∧
      H.Up w'.engine ∧
        ∀ e ∈ events, (e.documentId ∈ o.failed ↔ Rejected H w (.str e.documentId))) := by
  unfold processChecked
  dsimp only
  split
  · -- no row is named
    rename_i hempty
    have hnone : ∀ row, w.documents.find? row.id = some row →
        ¬ ∃ e ∈ events, e.documentId = row.id.str := fun row hrow he => by
      have hop := mem_operations (c := it.toUnicode).mpr ⟨row, hrow, he, rfl⟩
      rw [List.isEmpty_iff.mp hempty] at hop
      cases hop
    refine ⟨fun ⟨row, hrow, _, _, hnewest, hid, _⟩ => ?_, fun _ =>
      ⟨_, w, rfl, hw, fun e he => iff_of_false (by simp [Plan.idle]) ?_⟩⟩
    · obtain ⟨e, hnew, rfl⟩ := newest_untyped.mp hnewest
      exact absurd ⟨e, hnew.mem, Json.str.inj hid⟩ (hnone row hrow)
    rintro ⟨row, hrow, hid, -⟩
    exact hnone row hrow ⟨e, he, Json.str.inj hid⟩
  · obtain ⟨r, w₁, hb, hup, -, hr⟩ := bulk_healthy (w := w) (H := H)
      (plan it.toUnicode w.documents events).operations hw nodup_operations
    rw [hb]
    dsimp only
    have hhash := hash_changedTenants hr
    cases hc : ((plan it.toUnicode w.documents events).changedTenants
        ((plan it.toUnicode w.documents events).outcome r)).forM hash with
    | error x =>
        rw [hc] at hhash
        have hun : UnhashableTenant H w (events.map untyped) := by
          by_contra hno
          cases hhash.mpr hno
        exact ⟨fun _ => ⟨x, rfl⟩, fun hno => absurd hun hno⟩
    | ok u =>
        have hno := hhash.mp hc
        refine ⟨fun hun => absurd hun hno, fun _ => ⟨_, _, rfl, ?_, fun e he => mem_failed_iff hr he⟩⟩
        -- neither the commit nor the increments touch the engine
        rw [World.record_engine, ← List.foldl_map (f := it.format), (bumpFrame_bumps _ _ _).engine]
        exact hup

/-- **`process` on a batch**, with a healthy engine. -/
theorem processDecoded_healthy (it : Interpreter K) (events : List DecodedEvent)
    (hw : H.Up w.engine) :
    ((∃ r, processDecoded it w events = .ok r) ↔
      (∀ e ∈ events, ∃ s, e.documentId = .str s) ∧ ¬ UnhashableTenant H w events) ∧
    ∀ o w', processDecoded it w events = .ok (o, w') → H.Up w'.engine ∧
      ∀ e ∈ events, ∀ s, e.documentId = .str s → (s ∈ o.failed ↔ Rejected H w e.documentId) := by
  by_cases hids : ∀ e ∈ events, ∃ s, e.documentId = .str s
  · obtain ⟨typed, htyped⟩ := exists_checkIds.mpr hids
    obtain rfl := checkIds_eq_ok.mp htyped
    have hp : processDecoded it w (typed.map untyped) = processChecked it w typed := by
      rw [processDecoded, htyped]
      rfl
    obtain ⟨hbad, hgood⟩ := processChecked_healthy it typed hw
    rw [hp]
    by_cases hun : UnhashableTenant H w (typed.map untyped)
    · obtain ⟨x, hx⟩ := hbad hun
      rw [hx]
      exact ⟨iff_of_false nofun fun h => h.2 hun, nofun⟩
    · obtain ⟨o, w', hok, hup, hfailed⟩ := hgood hun
      rw [hok]
      refine ⟨iff_of_true ⟨_, rfl⟩ ⟨hids, hun⟩, ?_⟩
      rintro _ _ ⟨⟩
      refine ⟨hup, fun d hd s hs => ?_⟩
      obtain ⟨e, he, rfl⟩ := List.mem_map.mp hd
      obtain rfl := Json.str.inj hs
      exact hfailed e he
  · have hx : ∃ x, processDecoded it w events = .error x := by
      cases hc : checkIds events with
      | error x => exact ⟨x, by rw [processDecoded, hc]; rfl⟩
      | ok typed => exact absurd (exists_checkIds.mp ⟨typed, hc⟩) hids
    obtain ⟨x, hx⟩ := hx
    rw [hx]
    exact ⟨iff_of_false nofun fun h => hids h.1, nofun⟩

end Healthy

/-! ### The events of the producers -/

section Producers

variable {τ σ : Type} {f : DocumentEvent Str τ → DocumentEvent Str σ}
  (hid : ∀ e, (f e).documentId = e.documentId) (hv : ∀ e, (f e).version = e.version)
include hid hv

theorem latest_map (events : List (DocumentEvent Str τ)) :
    latest (events.map f) = (latest events).mapValues f := by
  induction events using List.reverseRecOn with
  | nil => rfl
  | append_singleton l a ih =>
      have hl : latest (l ++ [a]) = keepNewest (latest l) a := by simp [latest]
      have hm : latest ((l ++ [a]).map f) = keepNewest (latest (l.map f)) (f a) := by simp [latest]
      rw [hl, hm, ih, keepNewest, keepNewest, Dict.get?_mapValues, hid]
      cases hc : (latest l).get? a.documentId with
      | none => exact (Dict.mapValues_set f _ _ _).symm
      | some current =>
          simp only [Option.map_some, hv]
          split
          · exact (Dict.mapValues_set f _ _ _).symm
          · rfl

/-- What a plan does with the other fields of its events is to keep them. -/
theorem plan_map (c : Unicode) (documents : Documents) (events : List (DocumentEvent Str τ)) :
    plan c documents (events.map f) =
      { latest := (plan c documents events).latest.mapValues f
        operations := (plan c documents events).operations
        skipped := (plan c documents events).skipped } := by
  simp only [plan, latest_map hid hv, Dict.keys_mapValues]

end Producers

/-- **On the events of the producers** nothing raises, and the call is `process`. -/
theorem processDecoded_decoded {K : Type} {E : SearchEngine K} (it : Interpreter K) (w : World E)
    (events : List Event) :
    processDecoded it w (events.map DocumentEvent.decoded) =
      .ok (process it.toRuntime w events) := by
  let typed : Event → DocumentEvent Str Json := fun e =>
    ⟨e.documentId, .str e.tenantId, e.version, .str e.type⟩
  have hids : checkIds (events.map DocumentEvent.decoded) = .ok (events.map typed) := by
    rw [checkIds_eq_ok, List.map_map]
    rfl
  have hplan := plan_map (f := typed) (fun _ => rfl) (fun _ => rfl) it.toUnicode w.documents events
  have htenants : ∀ r : BulkResult,
      (plan it.toUnicode w.documents (events.map typed)).changedTenants
          ((plan it.toUnicode w.documents (events.map typed)).outcome r) =
        ((plan it.toUnicode w.documents events).changedTenants
          ((plan it.toUnicode w.documents events).outcome r)).map .str := by
    intro r
    rw [hplan]
    simp only [Plan.changedTenants, Dict.get?_mapValues, List.map_filterMap, Option.map_map]
    rfl
  rw [processDecoded, hids]
  change processChecked it w (events.map typed) = _
  unfold processChecked process
  dsimp only
  rw [show (plan it.toUnicode w.documents (events.map typed)).operations =
    (plan it.toUnicode w.documents events).operations by rw [hplan]]
  split
  · rw [hplan]
    rfl
  · cases bulk w (plan it.toUnicode w.documents events).operations with
    | mk r w₁ =>
        cases r with
        | error x =>
            rw [hplan]
            simp only [Plan.raised, Dict.keys_mapValues]
        | ok r =>
            have hhash : (((plan it.toUnicode w.documents events).changedTenants
                ((plan it.toUnicode w.documents events).outcome r)).map Json.str).forM hash =
                  .ok () := by
              refine forM_eq_ok.mpr fun v hv => ?_
              obtain ⟨t, -, rfl⟩ := List.mem_map.mp hv
              rfl
            dsimp only
            rw [htenants, it.iterateValues_str, List.foldl_map, hhash, hplan]
            rfl

end IndexingProcessor

end DocSearch
