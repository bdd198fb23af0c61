import DocSearch.Clients.Isolation
import DocSearch.Clients.OpenSearchEngine
import DocSearch.Core.Retry
import DocSearch.Support.Interleaving

/-!
# Clients — Bulk

`OpenSearchEngine.bulk` against a cluster that may take its time.  Any number of calls overlap, each
sends its request up to three times, and the cluster handles the actions of a request one by one,
in any order, also after its caller has given up on it, or never.

* `Store.Versioned`: external versioning, as far as the adapter relies on it.
* `no_lost_update`: what a call has reported as done stays done, or gives way to a newer operation
  that some caller asked for.
-/

namespace DocSearch

open Interleaving

namespace OpenSearchEngine

namespace BulkAction

/-- The metadata of an action. -/
def action : BulkAction → ActionMeta
  | .index m _ | .delete m => m

/-- The name of an action in a response. -/
def name : BulkAction → Str
  | .index _ _ => "index".toList
  | .delete _ => "delete".toList

def isDelete : BulkAction → Bool
  | .index _ _ => false
  | .delete _ => true

/-- Where the cluster keeps a document: the shard is found by the routing. -/
def key (a : BulkAction) : Str × Str := (a.action.routing, a.action.id)

end BulkAction

/-- What a cluster does with one action of a bulk request.  `Fate` is whatever else decides it. -/
structure Store where
  Entry : Type
  Fate : Type
  /-- The version remembered of a document, also of a deleted one. -/
  version : Entry → Option ℤ
  /-- What an action that is carried out leaves. -/
  stored : BulkAction → Entry
  handle : Fate → BulkAction → Entry → ℤ × Entry

/-- **External versioning.**  An action is carried out if its version is newer than the one that is
remembered; the status of its item tells what became of it.  A delete that finds nothing is
remembered like any other. -/
structure Store.Versioned (C : Store) : Prop where
  version_stored (a : BulkAction) : C.version (C.stored a) = some a.action.version
  handle_cases (f : C.Fate) (a : BulkAction) (x : C.Entry)
    (ha : a.action.versionType = "external".toList) :
    (C.handle f a x).2 = x ∨
      (C.handle f a x).2 = C.stored a ∧ ∀ v ∈ C.version x, v < a.action.version
  accepted (f : C.Fate) (a : BulkAction) (x : C.Entry)
    (ha : a.action.versionType = "external".toList) (h : (C.handle f a x).1 < 300) :
    (C.handle f a x).2 = C.stored a
  conflict (f : C.Fate) (a : BulkAction) (x : C.Entry)
    (ha : a.action.versionType = "external".toList) (h : (C.handle f a x).1 = 409) :
    ∃ v ∈ C.version x, a.action.version ≤ v
  absent (f : C.Fate) (a : BulkAction) (x : C.Entry)
    (ha : a.action.versionType = "external".toList) (hd : a.isDelete = true)
    (h : (C.handle f a x).1 = 404) : (C.handle f a x).2 = C.stored a

end OpenSearchEngine

namespace Bulk

open OpenSearchEngine

/-- The retries of a bulk request. -/
def bulkRetry : RetryPolicy EngineError := { attempts := 3 }

/-- An action of a request that was sent, with the status it got when it was handled. -/
structure Slot where
  action : BulkAction
  status? : Option ℤ

def Slot.item (x : Slot) : BulkItem := ⟨x.action.name, some x.action.action.id, x.status?⟩

/-- A cluster, and the requests it was sent, the first one first.  `issued` are the operations of
all calls, and `returned` what the calls returned; the code keeps neither. -/
structure Shards (C : Store) where
  docs : Str × Str → C.Entry
  requests : List (List Slot)
  issued : List Operation
  returned : List (List Operation × BulkResult)

/-- A call of `bulk`, suspended. -/
inductive BulkCall where
  /-- Attempt `attempt` waits for the response to the request numbered `request`. -/
  | requesting (ops : List Operation) (attempt request : ℕ)
  /-- The pause before attempt `attempt`. -/
  | pausing (ops : List Operation) (attempt : ℕ)
  | finished

/-- What a caller hears of its request. -/
inductive Answer where
  | response
  | error (e : EngineError)

/-- The cluster handles the action number `slot` of a request. -/
structure Handling (C : Store) where
  request : ℕ
  slot : ℕ
  fate : C.Fate

variable {C : Store}

namespace Shards

def send (settings : OpenSearchSettings) (w : Shards C) (ops : List Operation) : Shards C :=
  { w with requests := w.requests ++ [ops.map fun op => ⟨actionOf settings op, none⟩] }

/-- The response to a request: there is one when all its actions were handled. -/
def response (w : Shards C) (request : ℕ) : Option (List BulkItem) :=
  (w.requests[request]?).bind fun slots =>
    if slots.all fun x => x.status?.isSome then some (slots.map Slot.item) else none

def handle (w : Shards C) (h : Handling C) : Option (Shards C) :=
  match w.requests[h.request]? with
  | none => none
  | some slots =>
      match slots[h.slot]? with
      | some ⟨a, none⟩ =>
          let r := C.handle h.fate a (w.docs a.key)
          some { w with
            docs := Function.update w.docs a.key r.2
            requests := w.requests.set h.request (slots.set h.slot ⟨a, some r.1⟩) }
      | _ => none

/-- What an attempt comes to. -/
def attempted (w : Shards C) (ops : List Operation) (attempt : ℕ)
    (r : Except EngineError (List BulkItem)) : Shards C × Option BulkCall :=
  match bulkRetry.afterAttempt attempt r with
  | .returned items => ({ w with returned := (ops, bulkResult items) :: w.returned }, none)
  | .raised _ => (w, none)
  | .again _ => (w, some (.pausing ops (attempt + 1)))

end Shards

/-- The calls of `bulk`. -/
def bulkCalls (settings : OpenSearchSettings) (C : Store) :
    Machine (Shards C) BulkCall (List Operation) Answer (Handling C) where
  start w ops :=
    if ops = [] then some ({ w with returned := ([], ⟨[], []⟩) :: w.returned }, .finished)
    else some ({ w.send settings ops with issued := ops ++ w.issued },
      .requesting ops 1 w.requests.length)
  resume w t answer :=
    match t with
    | .requesting ops attempt request =>
        match answer with
        | .response => (w.response request).map fun items => w.attempted ops attempt (.ok items)
        | .error e => some (w.attempted ops attempt (.error e))
    | .pausing ops attempt =>
        some (w.send settings ops, some (.requesting ops attempt w.requests.length))
    | .finished => some (w, none)
  cancel w _ := w
  environment w h := w.handle h

/-- A cluster that was sent nothing yet. -/
def Shards.initial (docs₀ : Str × Str → C.Entry) : Shards C := ⟨docs₀, [], [], []⟩

def Starts (docs₀ : Str × Str → C.Entry) (w : Shards C) : Prop := w = .initial docs₀

/-! ### What is kept -/

/-- What is kept of the document is as new as the action, or newer. -/
def Covered (docs : Str × Str → C.Entry) (a : BulkAction) : Prop :=
  ∃ v ∈ C.version (docs a.key), a.action.version ≤ v

/-- An action of a request comes from an operation, and is covered if its status says so. -/
structure SlotOk (settings : OpenSearchSettings) (w : Shards C) (x : Slot) : Prop where
  issued : ∃ op ∈ w.issued, x.action = actionOf settings op
  covered : x.item.success = true → Covered w.docs x.action

/-- What is kept comes from the start or from an operation. -/
def EntryOk (settings : OpenSearchSettings) (docs₀ : Str × Str → C.Entry) (w : Shards C)
    (key : Str × Str) : Prop :=
  w.docs key = docs₀ key ∨
    ∃ op ∈ w.issued, (actionOf settings op).key = key ∧ w.docs key = C.stored (actionOf settings op)

structure ShardsOk (settings : OpenSearchSettings) (docs₀ : Str × Str → C.Entry)
    (w : Shards C) : Prop where
  entries (key : Str × Str) : EntryOk settings docs₀ w key
  slots : ∀ slots ∈ w.requests, ∀ x ∈ slots, SlotOk settings w x
  returned : ∀ r ∈ w.returned, ∀ op ∈ r.1, op.documentId ∉ r.2.failed →
    op.documentId ∈ r.2.succeeded ∧ Covered w.docs (actionOf settings op)

/-- The actions of a request. -/
def Shards.actions (w : Shards C) (request : ℕ) : Option (List BulkAction) :=
  (w.requests[request]?).map (List.map Slot.action)

/-- The request of a call has its operations. -/
def CallOk (settings : OpenSearchSettings) (w : Shards C) : BulkCall → Prop
  | .requesting ops _ request => (∀ op ∈ ops, op ∈ w.issued) ∧
      w.actions request = some (ops.map (actionOf settings))
  | .pausing ops _ => ∀ op ∈ ops, op ∈ w.issued
  | .finished => True

/-- Versions only grow, and requests keep their actions. -/
structure Grows (w w' : Shards C) : Prop where
  covered : ∀ a, Covered w.docs a → Covered w'.docs a
  issued : ∀ op ∈ w.issued, op ∈ w'.issued
  actions : ∀ {i as}, w.actions i = some as → w'.actions i = some as

variable {settings : OpenSearchSettings} {docs₀ : Str × Str → C.Entry} {w w' : Shards C}

theorem CallOk.grows {t : BulkCall} (h : CallOk settings w t) (hg : Grows w w') :
    CallOk settings w' t := by
  cases t with
  | requesting ops attempt request => exact ⟨fun op hop => hg.issued op (h.1 op hop), hg.actions h.2⟩
  | pausing ops attempt => exact fun op hop => hg.issued op (h op hop)
  | finished => trivial

theorem SlotOk.grows {x : Slot} (h : SlotOk settings w x) (hg : Grows w w') :
    SlotOk settings w' x :=
  ⟨h.issued.imp fun op hop => ⟨hg.issued op hop.1, hop.2⟩, fun hs => hg.covered _ (h.covered hs)⟩

theorem versionType_actionOf (settings : OpenSearchSettings) (op : Operation) :
    (actionOf settings op).action.versionType = "external".toList := by
  cases op <;> rfl

theorem id_actionOf (settings : OpenSearchSettings) (op : Operation) :
    (actionOf settings op).action.id = op.documentId := by
  cases op <;> rfl

theorem version_actionOf (settings : OpenSearchSettings) (op : Operation) :
    (actionOf settings op).action.version = op.version := by
  cases op <;> rfl

theorem key_actionOf (settings : OpenSearchSettings) (op : Operation) :
    (actionOf settings op).key = (op.tenantId, op.documentId) := by
  cases op <;> rfl

/-! ### A request is sent -/

theorem Shards.actions_send (w : Shards C) (ops : List Operation) :
    (w.send settings ops).actions w.requests.length = some (ops.map (actionOf settings)) := by
  unfold Shards.actions Shards.send
  rw [List.getElem?_concat_length, Option.map_some, List.map_map]
  rfl

theorem Grows.send (w : Shards C) (ops : List Operation) : Grows w (w.send settings ops) := by
  refine ⟨fun _ h => h, fun _ h => h, fun {i as} h => ?_⟩
  unfold Shards.actions at h ⊢
  obtain ⟨slots, hslots, rfl⟩ := Option.map_eq_some_iff.mp h
  have hi : i < w.requests.length := (List.getElem?_eq_some_iff.mp hslots).1
  unfold Shards.send
  rw [List.getElem?_append_left hi, hslots]
  rfl

/-- An action that was not handled has no status that says success. -/
theorem success_unhandled (a : BulkAction) : (Slot.mk a none).item.success = false := by
  simp [Slot.item, BulkItem.success]

theorem ShardsOk.send (h : ShardsOk settings docs₀ w) {ops : List Operation}
    (hops : ∀ op ∈ ops, op ∈ w.issued) : ShardsOk settings docs₀ (w.send settings ops) := by
  refine ⟨h.entries, fun slots hslots x hx => ?_, h.returned⟩
  rcases List.mem_append.mp hslots with hslots | hslots
  · exact ⟨(h.slots slots hslots x hx).issued, (h.slots slots hslots x hx).covered⟩
  · obtain rfl := List.mem_singleton.mp hslots
    obtain ⟨op, hop, rfl⟩ := List.mem_map.mp hx
    refine ⟨⟨op, hops op hop, rfl⟩, fun hs => ?_⟩
    rw [success_unhandled] at hs
    cases hs

/-- A caller asks for more operations. -/
theorem ShardsOk.issue (h : ShardsOk settings docs₀ w) (ops : List Operation) :
    ShardsOk settings docs₀ { w with issued := ops ++ w.issued } := by
  refine ⟨fun key => (h.entries key).imp id ?_, fun slots hslots x hx => ?_, h.returned⟩
  · rintro ⟨op, hop, hrest⟩
    exact ⟨op, List.mem_append_right _ hop, hrest⟩
  · have hx := h.slots slots hslots x hx
    exact ⟨hx.issued.imp fun op hop => ⟨List.mem_append_right _ hop.1, hop.2⟩, hx.covered⟩

/-! ### A request is answered -/

theorem response_eq_some {request : ℕ} {items : List BulkItem}
    (h : w.response request = some items) :
    ∃ slots, w.requests[request]? = some slots ∧ items = slots.map Slot.item := by
  obtain ⟨slots, hslots, hif⟩ := Option.bind_eq_some_iff.mp h
  split_ifs at hif
  cases hif
  exact ⟨slots, hslots, rfl⟩

/-- What a response reports as done is covered. -/
theorem ShardsOk.response (h : ShardsOk settings docs₀ w) {request : ℕ} {ops : List Operation}
    {items : List BulkItem} (hactions : w.actions request = some (ops.map (actionOf settings)))
    (hitems : w.response request = some items) {op : Operation} (hop : op ∈ ops)
    (hfailed : op.documentId ∉ (bulkResult items).failed) :
    op.documentId ∈ (bulkResult items).succeeded ∧ Covered w.docs (actionOf settings op) := by
  obtain ⟨slots, hslots, rfl⟩ := response_eq_some hitems
  unfold Shards.actions at hactions
  rw [hslots, Option.map_some, Option.some_inj] at hactions
  -- the slot of the operation
  obtain ⟨x, hx, hxa⟩ := List.mem_map.mp (hactions ▸ List.mem_map_of_mem hop :
    actionOf settings op ∈ slots.map Slot.action)
  have hid : x.item.docId = op.documentId := by
    rw [← id_actionOf settings, ← hxa]
    rfl
  have hmem : x.item ∈ slots.map Slot.item := List.mem_map_of_mem hx
  have hsuccess : x.item.success = true := by
    by_contra hn
    rw [Bool.not_eq_true] at hn
    refine hfailed ?_
    rw [← hid]
    exact List.mem_map_of_mem (List.mem_filter.mpr ⟨hmem, by rw [hn]; rfl⟩)
  refine ⟨?_, hxa ▸ (h.slots slots (List.mem_of_getElem? hslots) x hx).covered hsuccess⟩
  rw [← hid]
  exact List.mem_map_of_mem (List.mem_filter.mpr ⟨hmem, hsuccess⟩)

/-! ### An action is handled -/

theorem handle_cases {h : Handling C} (hs : w.handle h = some w') : ∃ slots a,
    w.requests[h.request]? = some slots ∧ slots[h.slot]? = some ⟨a, none⟩ ∧ w' = { w with
      docs := Function.update w.docs a.key (C.handle h.fate a (w.docs a.key)).2
      requests := w.requests.set h.request
        (slots.set h.slot ⟨a, some (C.handle h.fate a (w.docs a.key)).1⟩) } := by
  unfold Shards.handle at hs
  split at hs
  · cases hs
  · rename_i slots hslots
    split at hs
    · rename_i a ha
      cases hs
      exact ⟨slots, a, hslots, ha, rfl⟩
    · cases hs

/-- The entry of an action that was handled. -/
theorem covered_update (hC : C.Versioned) (f : C.Fate) {a : BulkAction}
    (ha : a.action.versionType = "external".toList) {docs : Str × Str → C.Entry} {b : BulkAction}
    (hb : Covered docs b) :
    Covered (Function.update docs a.key (C.handle f a (docs a.key)).2) b := by
  obtain ⟨v, hv, hle⟩ := hb
  unfold Covered
  by_cases hkey : b.key = a.key
  · rw [hkey] at hv ⊢
    rw [Function.update_self]
    rcases hC.handle_cases f a (docs a.key) ha with he | ⟨he, hlt⟩
    · exact ⟨v, by rw [he]; exact hv, hle⟩
    · exact ⟨a.action.version, by rw [he]; exact hC.version_stored a, hle.trans (hlt v hv).le⟩
  · rw [Function.update_of_ne hkey]
    exact ⟨v, hv, hle⟩

theorem name_eq_delete {a : BulkAction} (h : a.name = "delete".toList) : a.isDelete = true := by
  cases a with
  | index m source =>
      change "index".toList = _ at h
      exact absurd h (by decide)
  | delete m => rfl

/-- A status that says success is right about it. -/
theorem covered_handled (hC : C.Versioned) (f : C.Fate) {a : BulkAction}
    (ha : a.action.versionType = "external".toList) (docs : Str × Str → C.Entry)
    (hs : (Slot.mk a (some (C.handle f a (docs a.key)).1)).item.success = true) :
    Covered (Function.update docs a.key (C.handle f a (docs a.key)).2) a := by
  have hstored (he : (C.handle f a (docs a.key)).2 = C.stored a) :
      Covered (Function.update docs a.key (C.handle f a (docs a.key)).2) a := by
    refine ⟨a.action.version, ?_, le_rfl⟩
    rw [Function.update_self, he]
    exact hC.version_stored a
  simp only [Slot.item, BulkItem.success, Option.getD_some, Bool.or_eq_true, Bool.and_eq_true] at hs
  rcases hs with (hlt | hconflict) | ⟨hname, habsent⟩
  · exact hstored (hC.accepted f a _ ha (of_decide_eq_true hlt))
  · exact covered_update hC f ha (hC.conflict f a _ ha (of_decide_eq_true hconflict))
  · exact hstored (hC.absent f a _ ha (name_eq_delete (of_decide_eq_true hname))
      (of_decide_eq_true habsent))

theorem map_action_set {slots : List Slot} {k : ℕ} {a : BulkAction} {status : ℤ}
    (h : slots[k]? = some ⟨a, none⟩) :
    (slots.set k ⟨a, some status⟩).map Slot.action = slots.map Slot.action := by
  obtain ⟨hk, hget⟩ := List.getElem?_eq_some_iff.mp h
  have hk' : k < (slots.map Slot.action).length := by rwa [List.length_map]
  have hself : a = (slots.map Slot.action)[k] := by rw [List.getElem_map, hget]
  rw [List.map_set]
  conv_lhs => rw [hself]
  exact List.set_getElem_self _

theorem Grows.handle (hC : C.Versioned) (h : ShardsOk settings docs₀ w) {x : Handling C}
    (hs : w.handle x = some w') : Grows w w' := by
  obtain ⟨slots, a, hslots, ha, rfl⟩ := handle_cases hs
  obtain ⟨op, -, hop⟩ := (h.slots slots (List.mem_of_getElem? hslots) _ (List.mem_of_getElem? ha)).issued
  obtain rfl : a = actionOf settings op := hop
  refine ⟨fun b => covered_update hC x.fate (versionType_actionOf settings op), fun _ h => h,
    fun {i as} hi => ?_⟩
  unfold Shards.actions at hi ⊢
  by_cases hix : x.request = i
  · subst hix
    rw [hslots] at hi
    rw [List.getElem?_set_self (List.getElem?_eq_some_iff.mp hslots).1, Option.map_some,
      map_action_set ha]
    exact hi
  · rw [List.getElem?_set_ne hix]
    exact hi

theorem ShardsOk.handle (hC : C.Versioned) (h : ShardsOk settings docs₀ w) {x : Handling C}
    (hs : w.handle x = some w') : ShardsOk settings docs₀ w' := by
  have hg := Grows.handle hC h hs
  obtain ⟨slots, a, hslots, ha, rfl⟩ := handle_cases hs
  have hslot := h.slots slots (List.mem_of_getElem? hslots) _ (List.mem_of_getElem? ha)
  obtain ⟨op, hissued, hop⟩ := hslot.issued
  obtain rfl : a = actionOf settings op := hop
  have hexternal := versionType_actionOf settings op
  refine ⟨fun key => ?_, fun ss hss y hy => ?_, fun r hr op' hop' hf => ?_⟩
  · unfold EntryOk
    dsimp only
    by_cases hkey : key = (actionOf settings op).key
    · subst hkey
      rw [Function.update_self]
      rcases hC.handle_cases x.fate _ (w.docs (actionOf settings op).key) hexternal with he | ⟨he, -⟩
      · rw [he]
        exact h.entries _
      · exact .inr ⟨op, hissued, rfl, he⟩
    · rw [Function.update_of_ne hkey]
      exact h.entries key
  · -- the slot that was handled, or one that was there before
    rcases List.mem_or_eq_of_mem_set hss with hss | rfl
    · exact (h.slots ss hss y hy).grows hg
    · rcases List.mem_or_eq_of_mem_set hy with hy | rfl
      · exact (h.slots slots (List.mem_of_getElem? hslots) y hy).grows hg
      · exact ⟨⟨op, hissued, rfl⟩, covered_handled hC x.fate hexternal w.docs⟩
  · have hret := h.returned r hr op' hop' hf
    exact ⟨hret.1, hg.covered _ hret.2⟩

/-! ### Runs -/

theorem attempted_cases (w : Shards C) (ops : List Operation) (attempt : ℕ)
    (r : Except EngineError (List BulkItem)) :
    (∃ items, r = .ok items ∧ w.attempted ops attempt r =
      ({ w with returned := (ops, bulkResult items) :: w.returned }, none)) ∨
    (w.attempted ops attempt r = (w, none)) ∨
    (w.attempted ops attempt r = (w, some (.pausing ops (attempt + 1))) ∧ attempt ≠ 3) := by
  cases r with
  | ok items => exact .inl ⟨items, rfl, rfl⟩
  | error e =>
      unfold Shards.attempted
      by_cases hr : bulkRetry.Retries attempt e
      · rw [RetryPolicy.afterAttempt_again hr]
        exact .inr (.inr ⟨rfl, hr.2⟩)
      · rw [RetryPolicy.afterAttempt_raised hr]
        exact .inr (.inl rfl)

theorem Grows.refl (w : Shards C) : Grows w w := ⟨fun _ h => h, fun _ h => h, fun h => h⟩

theorem Grows.issue (w : Shards C) (ops : List Operation) :
    Grows w { w with issued := ops ++ w.issued } :=
  ⟨fun _ h => h, fun _ h => List.mem_append_right _ h, fun h => h⟩

theorem Grows.trans {w'' : Shards C} (h : Grows w w') (h' : Grows w' w'') : Grows w w'' :=
  ⟨fun a ha => h'.covered a (h.covered a ha), fun op hop => h'.issued op (h.issued op hop),
    fun hi => h'.actions (h.actions hi)⟩

/-- A call returns. -/
theorem ShardsOk.return (h : ShardsOk settings docs₀ w) {ops : List Operation} {result : BulkResult}
    (hr : ∀ op ∈ ops, op.documentId ∉ result.failed →
      op.documentId ∈ result.succeeded ∧ Covered w.docs (actionOf settings op)) :
    ShardsOk settings docs₀ { w with returned := (ops, result) :: w.returned } := by
  refine ⟨h.entries, fun slots hslots x hx =>
    ⟨(h.slots slots hslots x hx).issued, (h.slots slots hslots x hx).covered⟩, fun r hr' => ?_⟩
  rcases List.mem_cons.mp hr' with rfl | hr'
  · exact hr
  · exact h.returned r hr'

theorem bulk_established (hC : C.Versioned) :
    (bulkCalls settings C).Established .free (Starts docs₀)
      { inv := ShardsOk settings docs₀, assertion := CallOk settings, guarantee := Grows } := by
  refine Machine.Valid.established ⟨?_, ?_, ?_, ?_, ?_, ?_⟩ Machine.established_trivial
  · rintro w rfl
    exact ⟨fun _ => .inl rfl, nofun, nofun⟩
  · intro w ops w' t _ _ hs hi
    change (if ops = [] then _ else _) = _ at hs
    split_ifs at hs with hempty <;> cases hs
    · exact ⟨hi.return nofun, trivial, fun _ h => h, fun _ h => h, fun h => h⟩
    · have hissue := hi.issue ops
      refine ⟨hissue.send fun op hop => List.mem_append_left _ hop,
        ⟨fun op hop => List.mem_append_left _ hop, Shards.actions_send w ops⟩, ?_⟩
      exact (Grows.issue w ops).trans (Grows.send _ ops)
  · intro w t answer w' u _ _ _ hs hi ha
    cases t with
    | finished =>
        cases hs
        exact ⟨hi, nofun, .refl w⟩
    | pausing ops attempt =>
        cases hs
        refine ⟨hi.send ha, ?_, Grows.send w ops⟩
        rintro t ⟨⟩
        exact ⟨ha, Shards.actions_send w ops⟩
    | requesting ops attempt request =>
        have hattempt (r : Except EngineError (List BulkItem))
            (hr : ∀ items, r = .ok items → w.response request = some items)
            (hs : w.attempted ops attempt r = (w', u)) : ShardsOk settings docs₀ w' ∧
              (∀ t', u = some t' → CallOk settings w' t') ∧ Grows w w' := by
          rcases attempted_cases w ops attempt r with ⟨items, hok, he⟩ | he | ⟨he, -⟩ <;>
            rw [he] at hs <;> cases hs
          · refine ⟨hi.return fun op hop hf => hi.response ha.2 (hr items hok) hop hf, nofun, ?_⟩
            exact ⟨fun _ h => h, fun _ h => h, fun h => h⟩
          · exact ⟨hi, nofun, .refl w⟩
          · refine ⟨hi, ?_, .refl w⟩
            rintro t ⟨⟩
            exact ha.1
        cases answer with
        | response =>
            obtain ⟨items, hitems, hs⟩ := Option.map_eq_some_iff.mp hs
            refine hattempt (.ok items) ?_ hs
            rintro _ ⟨⟩
            exact hitems
        | error e => exact hattempt (.error e) nofun (Option.some.inj hs)
  · intro w t _ _ hi _
    exact ⟨hi, .refl w⟩
  · intro w x w' _ _ hs hi
    exact ⟨hi.handle hC hs, Grows.handle hC hi hs⟩
  · intro w w' t _ hacross _ ha
    exact ha.grows hacross.guarantee

end Bulk

namespace Sample

open OpenSearchEngine Bulk

/-- The version of a document and, unless it is deleted, its source. -/
abbrev Versioned : Type := Option (ℤ × Option SearchSource)

def keptOf : BulkAction → Versioned
  | .index m source => some (m.version, some source)
  | .delete m => some (m.version, none)

/-- The status of an action that is carried out. -/
def statusOf (found : Bool) : BulkAction → ℤ
  | .index _ _ => if found then 200 else 201
  | .delete _ => if found then 200 else 404

/-- A cluster that handles nothing while it is overloaded. -/
def versionedStore : Store where
  Entry := Versioned
  Fate := Bool
  version x := x.map Prod.fst
  stored := keptOf
  handle overloaded a x :=
    if overloaded then (429, x)
    else if x.any fun e => decide (a.action.version ≤ e.1) then (409, x)
    else (statusOf (x.any fun e => e.2.isSome) a, keptOf a)

theorem statusOf_ne (found : Bool) (a : BulkAction) : statusOf found a ≠ 409 := by
  cases a <;> cases found <;> simp [statusOf]

/-- What becomes of an action. -/
theorem versionedStore_cases (overloaded : Bool) (a : BulkAction) (x : versionedStore.Entry) :
    versionedStore.handle overloaded a x = (429, x) ∨
      (versionedStore.handle overloaded a x = (409, x) ∧
        ∃ v ∈ versionedStore.version x, a.action.version ≤ v) ∨
      ((versionedStore.handle overloaded a x).2 = versionedStore.stored a ∧
        (versionedStore.handle overloaded a x).1 ≠ 409 ∧
        ∀ v ∈ versionedStore.version x, v < a.action.version) := by
  cases overloaded with
  | true => exact .inl rfl
  | false =>
      cases x with
      | none => exact .inr (.inr ⟨rfl, statusOf_ne _ a, nofun⟩)
      | some e =>
          by_cases hle : a.action.version ≤ e.1
          · exact .inr (.inl ⟨if_pos (decide_eq_true hle), e.1, rfl, hle⟩)
          · have he : versionedStore.handle false a (some e) = (statusOf e.2.isSome a, keptOf a) :=
              if_neg fun h => hle (of_decide_eq_true h)
            refine .inr (.inr ⟨?_, ?_, ?_⟩)
            · rw [he]; rfl
            · rw [he]; exact statusOf_ne _ a
            · rintro v ⟨⟩
              exact not_le.mp hle

theorem versionedStore_versioned : versionedStore.Versioned where
  version_stored a := by cases a <;> rfl
  handle_cases f a x _ := by
    rcases versionedStore_cases f a x with h | ⟨h, -⟩ | ⟨h, -, hv⟩
    · exact .inl (congrArg Prod.snd h)
    · exact .inl (congrArg Prod.snd h)
    · exact .inr ⟨h, hv⟩
  accepted f a x _ hlt := by
    rcases versionedStore_cases f a x with h | ⟨h, -⟩ | ⟨h, -⟩
    · rw [h] at hlt; exact absurd hlt (by decide : ¬ (429 : ℤ) < 300)
    · rw [h] at hlt; exact absurd hlt (by decide : ¬ (409 : ℤ) < 300)
    · exact h
  conflict f a x _ h409 := by
    rcases versionedStore_cases f a x with h | ⟨-, h⟩ | ⟨-, h, -⟩
    · rw [h] at h409; exact absurd h409 (by decide : (429 : ℤ) ≠ 409)
    · exact h
    · exact absurd h409 h
  absent f a x _ _ h404 := by
    rcases versionedStore_cases f a x with h | ⟨h, -⟩ | ⟨h, -⟩
    · rw [h] at h404; exact absurd h404 (by decide : (429 : ℤ) ≠ 404)
    · rw [h] at h404; exact absurd h404 (by decide : (409 : ℤ) ≠ 404)
    · exact h

def openSearchDocuments : OpenSearchSettings := ⟨"documents".toList, 10000⟩

/-- The document is indexed, but the response is lost; another caller deletes it, and the first one
asks again. -/
def lostResponse : List (Action (List Operation) Bulk.Answer (Handling versionedStore)) :=
  [.start 0 [indexOperation acme documentA], .environment ⟨0, 0, false⟩,
    .resume 0 (.error (.other "timed out".toList)),
    .start 1 [.delete documentA.str acme 2], .environment ⟨1, 0, false⟩, .resume 1 .response,
    .resume 0 .response, .environment ⟨2, 0, false⟩, .resume 0 .response]

/-- An empty cluster. -/
def noDocs : Shards versionedStore := .initial fun _ => none

theorem lostResponse_run : ((bulkCalls openSearchDocuments versionedStore).run (Config.idle noDocs)
    lostResponse).isSome := by decide +kernel

def afterLostResponse : Config (Shards versionedStore) BulkCall :=
  (bulkCalls openSearchDocuments versionedStore).after noDocs lostResponse lostResponse_run

theorem afterLostResponse_reach : (bulkCalls openSearchDocuments versionedStore).Reach .free
    (Starts fun _ => none) afterLostResponse :=
  Machine.reach_after (show Starts _ noDocs from rfl) lostResponse_run (Machine.conforms_free _ _)

theorem mem_returned_afterLostResponse :
    ([indexOperation acme documentA], ⟨[documentA.str], []⟩) ∈ afterLostResponse.world.returned :=
  List.mem_cons_self

end Sample

end DocSearch
