import DocSearch.Clients.Isolation
import DocSearch.Pipeline.Invalidation
import DocSearch.Pipeline.Replay
import DocSearch.Support.Noninterference

/-!
# Pipeline — Separation

What a tenant can learn of the others.  Its view of the world is the rows it owns, their entries in
the index, and what is cached under its keys; the clocks and the outages it shares.

* `Projects A w w'`: `w'` is what is left of `w` when everything that is not in the view of `A` is
  taken away.
* `foreign_*`, `own_*`: the calls of others leave the view alone, and those of `A` do and answer the
  same on both sides.
* `tenants_separated`: hence every answer that `A` is given is the one it would be given alone.
-/

namespace DocSearch

open CacheKeys InMemoryEngine IndexingProcessor SearchService Noninterference

/-- A call of any kind, made while nothing else runs. -/
inductive AnyCall where
  | call (c : Call)
  | search (q : SearchQuery)
  | sweep

/-- What a request returns. -/
inductive Reply (K : Type) where
  | created (document : Option Document)
  | got (result : Except ServiceError DocumentResponse)
  | deleted (result : Except ServiceError Unit)
  | searched (result : Except ServiceError (SearchResponse K))
  | none

namespace Pipeline

variable {K : Type} [Field K] [LinearOrder K] {rt : Runtime K} {A t : Str}

/-- The service, one call after the other, and what each returns. -/
def calls (cfg : Settings) (rt : Runtime K) : System (World (inMemory rt)) AnyCall (Reply K) where
  step w
    | .call c => perform rt w c
    | .search q => (SearchService.search rt w w.clock q).2
    | .sweep => (Reconciler.sweepOnce cfg w).2
  reply w
    | .call (.create t id payload) => .created (DocumentService.create w t id payload).1
    | .call (.get t d) => .got (DocumentService.get w w.clock t d).1
    | .call (.delete t d) => .deleted (DocumentService.delete w t d).1
    | .search q => .searched ((SearchService.search rt w w.clock q).1.map Answer.response)
    | .call (.process _) | .call (.environment _) | .sweep => .none

/-- The tenant a request is made for. -/
def caller : AnyCall → Option Str
  | .call (.create t _ _) | .call (.get t _) | .call (.delete t _) => some t
  | .search q => some q.tenantId
  | .call (.process _) | .call (.environment _) | .sweep => none

/-- Of a batch, the events of the tenant concern it. -/
def concerns (A : Str) : AnyCall → Option AnyCall
  | .call (.process events) =>
      some (.call (.process (events.filter fun e => decide (e.tenantId = A))))
  | .call (.environment e) => some (.call (.environment e))
  | a => if caller a = some A then some a else none

/-- The tenant `A`, who hears the answers to its own requests. -/
def tenant (A : Str) : Observer AnyCall := ⟨concerns A, fun a => decide (caller a = some A)⟩

/-- A new document has an id that no row has, and the events of a batch were published. -/
def Regular (w : World (inMemory rt)) : AnyCall → Prop
  | .call (.create _ id _) => w.documents.find? id = none
  | .call (.process events) => ∀ e ∈ events, Published w e
  | _ => True

instance (w : World (inMemory rt)) : (a : AnyCall) → Decidable (Regular w a)
  | .call (.create _ id _) => inferInstanceAs (Decidable (w.documents.find? id = none))
  | .call (.process events) => inferInstanceAs (Decidable (∀ e ∈ events, Published w e))
  | .call (.get _ _) | .call (.delete _ _) | .call (.environment _) | .search _ | .sweep =>
      .isTrue trivial

/-! ### The view of a tenant -/

/-- A key of the cache under which something of the tenant is stored. -/
inductive KeyOf (rt : Runtime K) (A : Str) : Str → Prop where
  | document (d : Uuid) : KeyOf rt A (documentKey A d.str)
  | generation : KeyOf rt A (searchGenerationKey A)
  | search (g : ℕ) (q : SearchQuery) (h : q.tenantId = A) : KeyOf rt A (keyOf rt g q)

omit [Field K] [LinearOrder K] in
theorem KeyOf.unique {k : Str} (h : KeyOf rt A k) (h' : KeyOf rt t k) : A = t := by
  generalize hk : k = k' at h'
  cases h with
  | document d =>
      cases h' with
      | document _ => exact (documentKey_inj hk).1
      | generation => exact absurd hk documentKey_ne_searchGenerationKey
      | search _ _ _ => exact absurd hk.symm searchKey_ne_documentKey
  | generation =>
      cases h' with
      | document _ => exact absurd hk.symm documentKey_ne_searchGenerationKey
      | generation => exact searchGenerationKey_inj hk
      | search _ _ _ => exact absurd hk.symm searchKey_ne_searchGenerationKey
  | search g q hq =>
      cases h' with
      | document _ => exact absurd hk searchKey_ne_documentKey
      | generation => exact absurd hk searchKey_ne_searchGenerationKey
      | search _ _ hq' => exact hq.symm.trans ((searchKey_inj hk).1.trans hq')

/-- The caches agree under the keys of the tenant. -/
structure SameCache (rt : Runtime K) (A : Str) (c c' : Cache K) : Prop where
  available : c'.available = c.available
  store : ∀ k, KeyOf rt A k → c'.store k = c.store k

namespace SameCache

variable {c c' c₁ : Cache K} {k : Str}

omit [Field K] [LinearOrder K]

theorem refl : SameCache rt A c c := ⟨rfl, fun _ _ => rfl⟩

theorem trans (h : SameCache rt A c c₁) (h' : SameCache rt A c₁ c') : SameCache rt A c c' :=
  ⟨h'.available.trans h.available, fun k hk => (h'.store k hk).trans (h.store k hk)⟩

theorem symm (h : SameCache rt A c c') : SameCache rt A c' c :=
  ⟨h.available.symm, fun k hk => (h.store k hk).symm⟩

theorem getJson (h : SameCache rt A c c') (hk : KeyOf rt A k) : c'.getJson k = c.getJson k := by
  rw [Cache.getJson, Cache.getJson, h.available, h.store k hk]

theorem setJson (h : SameCache rt A c c') (k : Str) (v : CacheValue K) :
    SameCache rt A (c.setJson k v) (c'.setJson k v) where
  available := by rw [Cache.available_setJson, Cache.available_setJson, h.available]
  store k' hk' := by rw [Cache.get_setJson, Cache.get_setJson, h.available, h.store k' hk']

theorem delete (h : SameCache rt A c c') (k : Str) : SameCache rt A (c.delete k) (c'.delete k) where
  available := by rw [Cache.available_delete, Cache.available_delete, h.available]
  store k' hk' := by rw [Cache.get_delete, Cache.get_delete, h.available, h.store k' hk']

theorem expire (h : SameCache rt A c c') (k : Str) : SameCache rt A (c.expire k) (c'.expire k) where
  available := h.available
  store k' hk' := by rw [Cache.get_expire, Cache.get_expire, h.store k' hk']

theorem incr (h : SameCache rt A c c') (hk : KeyOf rt A k) :
    SameCache rt A (c.incr k).2 (c'.incr k).2 := by
  unfold Cache.incr
  rw [h.available, h.store k hk]
  split
  · split
    · exact h.setJson _ _
    · exact h.setJson _ _
    · exact h
  · exact h

/-- What is done under a key of another tenant is not seen. -/
theorem foreign (hk : KeyOf rt t k) (hne : t ≠ A) (ha : c'.available = c.available)
    (hs : ∀ k', k' ≠ k → c'.store k' = c.store k') : SameCache rt A c c' where
  available := ha
  store k' hk' := hs k' fun he => hne (hk.unique (he ▸ hk'))

theorem foreign_setJson (hk : KeyOf rt t k) (hne : t ≠ A) (v : CacheValue K) :
    SameCache rt A c (c.setJson k v) :=
  foreign hk hne (Cache.available_setJson _ _ _) fun _ h => Cache.store_setJson_of_ne h

theorem foreign_delete (hk : KeyOf rt t k) (hne : t ≠ A) : SameCache rt A c (c.delete k) :=
  foreign hk hne (Cache.available_delete _ _) fun _ h => Cache.store_delete_of_ne h

theorem foreign_incr (hk : KeyOf rt t k) (hne : t ≠ A) : SameCache rt A c (c.incr k).2 :=
  foreign hk hne (Cache.available_incr _ _) fun _ h => Cache.store_incr_of_ne h

end SameCache

/-- Every entry of the index is of a row with its id and its tenant. -/
def Owned (w : World (inMemory rt)) : Prop :=
  ∀ k s, w.engine.docs.get? k = some s →
    ∃ row, w.documents.find? row.id = some row ∧ row.id.str = k ∧ row.tenantId = s.tenantId

/-- `w'` is what `A` sees of `w`. -/
structure Projects (A : Str) (w w' : World (inMemory rt)) : Prop where
  owned : Owned w
  published : ∀ a e, (a, Entry.published e) ∈ w.log → NamesRow w.documents e
  rows : ∀ id, w'.documents.find? id =
    (w.documents.find? id).filter fun d => decide (d.tenantId = A)
  entries : ∀ k, w'.engine.docs.get? k =
    (w.engine.docs.get? k).filter fun s => decide (s.tenantId = A)
  engine : w'.engine.available = w.engine.available
  cache : SameCache rt A w.cache w'.cache
  now : w'.now = w.now
  clock : w'.clock = w.clock

/-! ### Rows -/

/-- Rows stay, and keep their tenants. -/
def RowsStay (D D₁ : Documents) : Prop :=
  ∀ id d, D.find? id = some d → ∃ d', D₁.find? id = some d' ∧ d'.tenantId = d.tenantId

theorem RowsStay.refl (D : Documents) : RowsStay D D := fun _ d h => ⟨d, h, rfl⟩

theorem RowsStay.namesRow {D D₁ : Documents} (h : RowsStay D D₁) {e : Event} (he : NamesRow D e) :
    NamesRow D₁ e := by
  obtain ⟨id, hid, d, hd, ht⟩ := he
  obtain ⟨d', hd', ht'⟩ := h id d hd
  exact ⟨id, hid, d', hd', ht'.trans ht⟩

theorem rowsStay_map {D D₁ : Documents} {f : Document → Document}
    (hf : ∀ r, (f r).tenantId = r.tenantId) (h : ∀ id, D₁.find? id = (D.find? id).map f) :
    RowsStay D D₁ := fun id d hd => ⟨f d, by rw [h, hd]; rfl, hf d⟩

/-- The rows a deletion leaves. -/
theorem softDeleted_tenantId (row r : Document) (now : Timestamp) :
    (if r.id = row.id then
      { r with
        status := .deleted
        deletedAt := some now
        updatedAt := now
        version := row.version + 1 }
      else r).tenantId = r.tenantId := by
  split <;> rfl

theorem rowsStay_softDelete (D : Documents) (row : Document) (now : Timestamp) :
    RowsStay D (DocumentRepository.softDelete D row now) :=
  rowsStay_map (fun r => softDeleted_tenantId row r now) (DocumentRepository.find?_softDelete D row now)

theorem rowsStay_insert {D D₁ : Documents} {id : Uuid} {row : Document} (hfree : D.find? id = none)
    (h : ∀ k, D₁.find? k = if k = id then some row else D.find? k) : RowsStay D D₁ := by
  intro k d hd
  have hk : k ≠ id := by
    rintro rfl
    rw [hfree] at hd
    cases hd
  exact ⟨d, by rw [h, if_neg hk, hd], rfl⟩

/-! ### What a request leaves -/

/-- A table and a cache in the place of those of `w`; what is published names rows. -/
structure Leaves (D : Documents) (C : Cache K) (w w₁ : World (inMemory rt)) : Prop where
  documents : w₁.documents = D
  cache : w₁.cache = C
  engine : w₁.engine = w.engine
  now : w₁.now = w.now
  clock : w₁.clock = w.clock
  published : ∀ a e, (a, Entry.published e) ∈ w₁.log →
    (a, Entry.published e) ∈ w.log ∨ NamesRow D e

namespace Leaves

variable {D : Documents} {C C' : Cache K} {w w₁ : World (inMemory rt)}

theorem refl (w : World (inMemory rt)) : Leaves w.documents w.cache w w :=
  ⟨rfl, rfl, rfl, rfl, rfl, fun _ _ => .inl⟩

theorem record (h : Leaves D C w w₁) (e : Entry K)
    (hp : ∀ ev, e = .published ev → NamesRow D ev) : Leaves D C w (w₁.record e) where
  documents := h.documents
  cache := h.cache
  engine := h.engine
  now := h.now
  clock := h.clock
  published a ev hm := by
    rcases List.mem_cons.mp hm with hm | hm
    · exact .inr (hp ev (Prod.mk.inj hm).2.symm)
    · exact h.published a ev hm

theorem push (h : Leaves D C w w₁) {e : Event} (he : NamesRow D e) :
    Leaves D C w ({ w₁ with
      publisher := { w₁.publisher with events := w₁.publisher.events ++ [e] } }.record (.published e)) :=
  have hq : Leaves D C w { w₁ with
      publisher := { w₁.publisher with events := w₁.publisher.events ++ [e] } } :=
    ⟨h.documents, h.cache, h.engine, h.now, h.clock, h.published⟩
  hq.record _ fun _ hev => by cases hev; exact he

theorem publish (h : Leaves D C w w₁) {e : Event} (he : NamesRow D e) :
    Leaves D C w (DocumentService.publish w₁ e) := by
  rcases publish_cases w₁ e with hp | hp <;> rw [hp]
  · exact h
  · exact h.push he

theorem setCache (h : Leaves D C w w₁) : Leaves D C' w { w₁ with cache := C' } :=
  ⟨h.documents, rfl, h.engine, h.now, h.clock, h.published⟩

end Leaves

theorem insert_of_free {t : Documents} {d : Document} (h : t.find? d.id = none) :
    ∃ t', t.insert d = some t' := by
  unfold Table.insert
  split
  · rename_i hm
    obtain ⟨r, hr, hk⟩ := List.mem_map.mp hm
    rw [Table.find?_eq_some.mpr ⟨hr, hk⟩] at h
    cases h
  · exact ⟨_, rfl⟩

/-- A `create` under a free id. -/
theorem create_leaves (w : World (inMemory rt)) (t : Str) {id : Uuid} (payload : DocumentCreate)
    (h : w.documents.find? id = none) :
    (DocumentService.create w t id payload).1 = some (Document.new id t payload w.now) ∧
      ∃ D : Documents, (∀ k, D.find? k =
          if k = id then some (Document.new id t payload w.now) else w.documents.find? k) ∧
        Leaves D (w.cache.incr (searchGenerationKey t)).2 w
          (DocumentService.create w t id payload).2 := by
  obtain ⟨D, hD⟩ := insert_of_free (d := Document.new id t payload w.now) h
  have hi : DocumentService.insert w t id payload =
      some (Document.new id t payload w.now, { w with documents := D }) := by
    rw [DocumentService.insert, DocumentRepository.create, hD]
    rfl
  have hfind := (Table.find?_insert hD).2
  have hinserted : Leaves D w.cache w { w with documents := D } :=
    ⟨rfl, rfl, rfl, rfl, rfl, fun _ _ => .inl⟩
  have hnames : NamesRow D (DocumentService.indexEvent t (Document.new id t payload w.now)) :=
    ⟨id, rfl, Document.new id t payload w.now, (hfind id).trans (if_pos rfl), rfl⟩
  have hl := hinserted.publish hnames
  unfold DocumentService.create
  rw [hi]
  refine ⟨rfl, D, hfind, .record ?_ _ fun _ h => (by cases h)⟩
  exact ⟨hl.documents, congrArg (fun c : Cache K => (c.incr _).2) hl.cache, hl.engine, hl.now,
    hl.clock, hl.published⟩

theorem get_leaves (w : World (inMemory rt)) (t : Str) (d : Uuid) :
    Leaves w.documents
      (match w.cache.getJson (documentKey t d.str), DocumentRepository.get w.documents t d false with
        | none, some row => w.cache.setJson (documentKey t d.str) (.document (.fromModel row))
        | _, _ => w.cache) w (DocumentService.get w w.clock t d).2 := by
  unfold DocumentService.get
  dsimp only
  cases w.cache.getJson (documentKey t d.str) with
  | some v => exact (Leaves.refl w).record _ nofun
  | none =>
      cases DocumentRepository.get w.documents t d false with
      | none => exact (Leaves.refl w).record _ nofun
      | some row => exact (Leaves.refl w).setCache.record _ nofun

theorem delete_leaves (w : World (inMemory rt)) {t : Str} {d : Uuid} {row : Document}
    (h : DocumentRepository.get w.documents t d false = some row) :
    Leaves (DocumentRepository.softDelete w.documents row w.now)
      ((w.cache.delete (documentKey t d.str)).incr (searchGenerationKey t)).2 w
      (DocumentService.delete w t d).2 := by
  obtain ⟨hfind, ht, -⟩ := DocumentRepository.get_eq_some.mp h
  have hsoft : Leaves (DocumentRepository.softDelete w.documents row w.now)
      (w.cache.delete (documentKey t d.str)) w
      { (DocumentService.softDelete w row).2 with cache := w.cache.delete (documentKey t d.str) } :=
    ⟨rfl, rfl, rfl, rfl, rfl, fun _ _ => .inl⟩
  have hl : Leaves (DocumentRepository.softDelete w.documents row w.now)
      ((w.cache.delete (documentKey t d.str)).incr (searchGenerationKey t)).2 w
      ((DocumentService.uncache (DocumentService.softDelete w row).2 t d).invalidateTenant t) :=
    (hsoft.record (.uncached t d) nofun).setCache
  have hnames : NamesRow (DocumentRepository.softDelete w.documents row w.now)
      (DocumentService.deleteEvent t (DocumentRepository.softDeleted row w.now)) := by
    obtain ⟨row', hrow', ht'⟩ := rowsStay_softDelete w.documents row w.now d row hfind
    have hid : row.id = d := Table.key_of_find? hfind
    exact ⟨d, congrArg Uuid.str hid, row', hrow', ht'.trans ht⟩
  unfold DocumentService.delete
  rw [h]
  exact (hl.publish hnames).record _ nofun

theorem search_leaves (w : World (inMemory rt)) (q : SearchQuery) :
    Leaves w.documents
      (match w.cache.getJson (keyOf rt (currentGeneration w q.tenantId) q), execute w q with
        | none, .ok a =>
            w.cache.setJson (keyOf rt (currentGeneration w q.tenantId) q) (.search (cacheable a))
        | _, _ => w.cache) w (SearchService.search rt w w.clock q).2 := by
  unfold SearchService.search
  dsimp only
  cases w.cache.getJson (keyOf rt (currentGeneration w q.tenantId) q) with
  | some v => exact (Leaves.refl w).record _ nofun
  | none =>
      cases execute w q with
      | error e => exact (Leaves.refl w).record _ nofun
      | ok a => exact (Leaves.refl w).setCache.record _ nofun

theorem Leaves.republish {D : Documents} {C : Cache K} {w w₁ : World (inMemory rt)}
    (h : Leaves D C w w₁) (ds : List Document) (hds : ∀ d ∈ ds, D.find? d.id = some d) :
    Leaves D C w (Reconciler.republish w₁ ds) := by
  induction ds generalizing w₁ with
  | nil => exact h
  | cons d ds ih =>
      rw [Reconciler.republish]
      split
      · rename_i w₂ hp
        obtain ⟨-, rfl⟩ := World.publish_eq_some hp
        have hd := hds d List.mem_cons_self
        exact ih (h.push ⟨d.id, rfl, d, hd, rfl⟩) fun x hx => hds x (List.mem_cons_of_mem d hx)
      · exact h

/-! ### The view after a request -/

/-- The tables agree on the rows of the tenant. -/
def OwnRows (A : Str) (D D' : Documents) : Prop :=
  ∀ id, D'.find? id = (D.find? id).filter fun d => decide (d.tenantId = A)

section Project

variable {w w' w₁ w₁' : World (inMemory rt)} {D D' : Documents} {C C' : Cache K}

theorem Projects.leaves (h : Projects A w w') (hl : Leaves D C w w₁) (hl' : Leaves D' C' w' w₁')
    (hstay : RowsStay w.documents D) (hrows : OwnRows A D D') (hc : SameCache rt A C C') :
    Projects A w₁ w₁' where
  published a e hm := by
    rw [hl.documents]
    exact (hl.published a e hm).elim (fun h' => hstay.namesRow (h.published a e h')) id
  owned k s hs := by
    rw [hl.engine] at hs
    obtain ⟨row, hrow, hk, ht⟩ := h.owned k s hs
    obtain ⟨row', hrow', ht'⟩ := hstay _ _ hrow
    have hid := Table.key_of_find? hrow'
    rw [hl.documents]
    exact ⟨row', hid.symm ▸ hrow', (congrArg Uuid.str hid).trans hk, ht'.trans ht⟩
  rows := by
    rw [hl.documents, hl'.documents]
    exact hrows
  entries := by
    rw [hl.engine, hl'.engine]
    exact h.entries
  engine := by rw [hl.engine, hl'.engine, h.engine]
  cache := by
    rw [hl.cache, hl'.cache]
    exact hc
  now := by rw [hl.now, hl'.now, h.now]
  clock := by rw [hl.clock, hl'.clock, h.clock]

/-- A request of another tenant. -/
theorem Projects.foreign (h : Projects A w w') (hl : Leaves D C w w₁) (hstay : RowsStay w.documents D)
    (hrows : ∀ id, (D.find? id).filter (fun d => decide (d.tenantId = A)) =
      (w.documents.find? id).filter fun d => decide (d.tenantId = A))
    (hc : SameCache rt A w.cache C) : Projects A w₁ w' :=
  h.leaves hl (.refl w') hstay (fun id => (h.rows id).trans (hrows id).symm) (hc.symm.trans h.cache)

/-- What `get` and `delete` find of the tenant's documents. -/
theorem Projects.get (h : Projects A w w') (d : Uuid) :
    DocumentRepository.get w'.documents A d false = DocumentRepository.get w.documents A d false := by
  rw [DocumentRepository.get, DocumentRepository.get, h.rows, Option.filter_filter]
  congr 1
  funext r
  cases decide (r.tenantId = A) <;> rfl

end Project

/-! ### Requests -/

/-- An update that keeps the tenants. -/
theorem own_map {f : Document → Document} (hf : ∀ r, (f r).tenantId = r.tenantId)
    (o : Option Document) : (o.map f).filter (fun d => decide (d.tenantId = A)) =
      (o.filter fun d => decide (d.tenantId = A)).map f := by
  cases o with
  | none => rfl
  | some r =>
      rw [Option.map_some, Option.filter_some, Option.filter_some, hf]
      cases decide (r.tenantId = A) <;> rfl

section Requests

variable {w w' : World (inMemory rt)}

theorem foreign_create (h : Projects A w w') (ht : t ≠ A) {id : Uuid} (payload : DocumentCreate)
    (hfree : w.documents.find? id = none) :
    Projects A (DocumentService.create w t id payload).2 w' := by
  obtain ⟨-, D, hD, hl⟩ := create_leaves w t payload hfree
  refine h.foreign hl (rowsStay_insert hfree hD) (fun k => ?_) (.foreign_incr .generation ht)
  rw [hD]
  split
  · rename_i hk
    rw [hk, hfree, Option.filter_some, if_neg]
    · rfl
    · rw [decide_eq_true_eq]
      exact ht
  · rfl

theorem own_create (h : Projects A w w') {id : Uuid} (payload : DocumentCreate)
    (hfree : w.documents.find? id = none) :
    (DocumentService.create w' A id payload).1 = (DocumentService.create w A id payload).1 ∧
      Projects A (DocumentService.create w A id payload).2
        (DocumentService.create w' A id payload).2 := by
  have hfree' : w'.documents.find? id = none := by rw [h.rows, hfree]; rfl
  obtain ⟨hr, D, hD, hl⟩ := create_leaves w A payload hfree
  obtain ⟨hr', D', hD', hl'⟩ := create_leaves w' A payload hfree'
  refine ⟨by rw [hr, hr', h.now], h.leaves hl hl' (rowsStay_insert hfree hD) (fun k => ?_)
    (h.cache.incr .generation)⟩
  rw [hD, hD']
  split
  · rw [h.now, Option.filter_some, if_pos]
    exact decide_eq_true rfl
  · exact h.rows k

theorem foreign_get (h : Projects A w w') (ht : t ≠ A) (d : Uuid) :
    Projects A (DocumentService.get w w.clock t d).2 w' := by
  refine h.foreign (get_leaves w t d) (.refl _) (fun _ => rfl) ?_
  split
  · exact .foreign_setJson (.document d) ht _
  · exact .refl

theorem own_get (h : Projects A w w') (d : Uuid) :
    (DocumentService.get w' w'.clock A d).1 = (DocumentService.get w w.clock A d).1 ∧
      Projects A (DocumentService.get w w.clock A d).2 (DocumentService.get w' w'.clock A d).2 := by
  have hcached := h.cache.getJson (.document d)
  have hrow := h.get d
  refine ⟨?_, h.leaves (get_leaves w A d) (get_leaves w' A d) (.refl _) h.rows ?_⟩
  · simp only [DocumentService.get, hcached, hrow]
    split
    · rfl
    · split <;> rfl
  · rw [hcached, hrow]
    split
    · exact h.cache.setJson _ _
    · exact h.cache

theorem foreign_delete (h : Projects A w w') (ht : t ≠ A) (d : Uuid) :
    Projects A (DocumentService.delete w t d).2 w' := by
  cases hrow : DocumentRepository.get w.documents t d false with
  | none =>
      rw [DocumentService.delete, hrow]
      exact h
  | some row =>
      obtain ⟨hfind, hrt, -⟩ := DocumentRepository.get_eq_some.mp hrow
      refine h.foreign (delete_leaves w hrow) (rowsStay_softDelete _ _ _) (fun k => ?_)
        (SameCache.trans (.foreign_delete (.document d) ht) (.foreign_incr .generation ht))
      rw [DocumentRepository.find?_softDelete]
      cases hr : w.documents.find? k with
      | none => rfl
      | some r =>
          rw [Option.map_some]
          split
          · -- the deleted row is of the other tenant
            rename_i hid
            have hk : k = d :=
              (Table.key_of_find? hr).symm.trans (hid.trans (Table.key_of_find? hfind))
            rw [hk, hfind] at hr
            cases hr
            have hno : ¬ decide (row.tenantId = A) = true := by
              rw [decide_eq_true_eq, hrt]
              exact ht
            rw [Option.filter_some, Option.filter_some, if_neg hno]
            exact (if_neg hno).symm
          · rfl

theorem own_delete (h : Projects A w w') (d : Uuid) :
    (DocumentService.delete w' A d).1 = (DocumentService.delete w A d).1 ∧
      Projects A (DocumentService.delete w A d).2 (DocumentService.delete w' A d).2 := by
  have hsame := h.get d
  cases hrow : DocumentRepository.get w.documents A d false with
  | none =>
      rw [hrow] at hsame
      simp only [DocumentService.delete, hrow, hsame]
      exact ⟨trivial, h⟩
  | some row =>
      rw [hrow] at hsame
      refine ⟨by simp only [DocumentService.delete, hrow, hsame], h.leaves (delete_leaves w hrow)
        (delete_leaves w' hsame) (rowsStay_softDelete _ _ _) (fun k => ?_)
        ((h.cache.delete _).incr .generation)⟩
      rw [DocumentRepository.find?_softDelete, DocumentRepository.find?_softDelete, h.rows, h.now,
        own_map fun r => softDeleted_tenantId row r w.now]

/-- The engine answers the tenant from its entries. -/
theorem own_execute (h : Projects A w w') {q : SearchQuery} (hq : q.tenantId = A) :
    execute w' q = execute w q := by
  have hmem : ∀ d, d ∈ corpus w'.engine.docs q ↔ d ∈ corpus w.engine.docs q := fun d => by
    rw [mem_corpus, mem_corpus, h.entries, Option.filter_eq_some_iff, decide_eq_true_eq, hq, and_assoc,
      and_self]
  have hperm : (corpus w.engine.docs q).Perm (corpus w'.engine.docs q) :=
    (List.perm_ext_iff_of_nodup (nodup_corpus _ q).of_map (nodup_corpus _ q).of_map).mpr
      fun d => (hmem d).symm
  have hsearch : InMemoryEngine.search rt w'.engine q = InMemoryEngine.search rt w.engine q := by
    simp only [InMemoryEngine.search, h.engine, scored_perm q hperm (nodup_corpus _ q)]
  simp only [execute, inMemory, hsearch, h.clock]

theorem own_generation (h : Projects A w w') : currentGeneration w' A = currentGeneration w A := by
  rw [currentGeneration, currentGeneration, h.cache.getJson .generation]

theorem foreign_search (h : Projects A w w') {q : SearchQuery} (hq : q.tenantId ≠ A) :
    Projects A (SearchService.search rt w w.clock q).2 w' := by
  refine h.foreign (search_leaves w q) (.refl _) (fun _ => rfl) ?_
  split
  · exact .foreign_setJson (.search _ q rfl) hq _
  · exact .refl

theorem own_search (h : Projects A w w') {q : SearchQuery} (hq : q.tenantId = A) :
    (SearchService.search rt w' w'.clock q).1 = (SearchService.search rt w w.clock q).1 ∧
      Projects A (SearchService.search rt w w.clock q).2
        (SearchService.search rt w' w'.clock q).2 := by
  have hgen : currentGeneration w' q.tenantId = currentGeneration w q.tenantId := by
    rw [hq]; exact own_generation h
  have hcached := h.cache.getJson (.search (currentGeneration w q.tenantId) q hq)
  have hexec := own_execute h hq
  refine ⟨?_, h.leaves (search_leaves w q) (search_leaves w' q) (.refl _) h.rows ?_⟩
  · simp only [SearchService.search, hgen, hcached, hexec]
    split
    · rfl
    · split <;> rfl
  · rw [hgen, hcached, hexec]
    split
    · exact h.cache.setJson _ _
    · exact h.cache

end Requests

/-! ### A batch -/

section Batch

variable {w w' w₁ : World (inMemory rt)} {events : List Event}

/-- The counters of several tenants, incremented. -/
def incrAll (ts : List Str) (c : Cache K) : Cache K :=
  ts.foldl (fun c t => (c.incr (searchGenerationKey t)).2) c

omit [Field K] [LinearOrder K] in
/-- The tenant sees at most one of them. -/
theorem sameCache_incrAll : ∀ (ts : List Str) (c : Cache K), ts.Nodup →
    SameCache rt A (if A ∈ ts then (c.incr (searchGenerationKey A)).2 else c) (incrAll ts c)
  | [], c, _ => .refl
  | t :: ts, c, hn => by
      obtain ⟨ht, hn⟩ := List.nodup_cons.mp hn
      have ih := sameCache_incrAll ts (c.incr (searchGenerationKey t)).2 hn
      by_cases hA : t = A
      · subst hA
        rw [if_neg ht] at ih
        rw [if_pos List.mem_cons_self]
        exact ih
      · have hmem : A ∈ t :: ts ↔ A ∈ ts :=
          List.mem_cons.trans (or_iff_right fun h => hA h.symm)
        have hfirst : SameCache rt A c (c.incr (searchGenerationKey t)).2 :=
          .foreign_incr .generation hA
        refine .trans ?_ ih
        rw [if_congr hmem rfl rfl]
        split
        · exact hfirst.incr .generation
        · exact hfirst

omit [Field K] [LinearOrder K] in
theorem cache_bumps {E : SearchEngine K} (b : ℕ) : ∀ (ts : List Str) (w : World E),
    (ts.foldl (fun w t => bump w b t) w).cache = incrAll ts w.cache
  | [], _ => rfl
  | t :: ts, w => by
      rw [List.foldl_cons, cache_bumps b ts, bump_cache]
      rfl

omit [Field K] [LinearOrder K] in
theorem published_bumps {E : SearchEngine K} (b : ℕ) {a : ℕ} {e : Event} :
    ∀ (ts : List Str) (w : World E), (a, Entry.published e) ∈ (ts.foldl (fun w t => bump w b t) w).log →
      (a, Entry.published e) ∈ w.log
  | [], _, h => h
  | t :: ts, w, h => by
      have h := published_bumps b ts (bump w b t) h
      rcases bump_cases w b t with ⟨hb, -⟩ | ⟨g, hb, -⟩ <;> rw [hb] at h
      · exact h
      · exact (List.mem_cons.mp h).resolve_left nofun

/-- Nothing is published by a batch. -/
theorem published_process {a : ℕ} {e : Event}
    (h : (a, Entry.published e) ∈ (process rt w events).2.log) : (a, Entry.published e) ∈ w.log := by
  cases hav : w.engine.available with
  | false => exact process_unavailable hav events ▸ h
  | true =>
      unfold process at h
      simp only at h
      split at h
      · exact h
      · rw [bulk_available hav] at h
        have h := published_bumps _ _ _ ((List.mem_cons.mp h).resolve_left nofun)
        exact (List.mem_cons.mp h).resolve_left nofun

/-- The tenants of the rows that a batch names. -/
def NamedTenant (w : World (inMemory rt)) (events : List Event) (t : Str) : Prop :=
  ∃ d, w.documents.find? d.id = some d ∧ Named events d.id ∧ d.tenantId = t

theorem cache_process (hav : w.engine.available = true) (hn : ∀ e ∈ events, NamesRow w.documents e) :
    ∃ ts : List Str, ts.Nodup ∧ (∀ t, t ∈ ts ↔ NamedTenant w events t) ∧
      (process rt w events).2.cache = incrAll ts w.cache := by
  unfold process
  simp only
  split
  · -- no operation, so no row is named
    rename_i hempty
    refine ⟨[], List.nodup_nil, fun t => iff_of_false List.not_mem_nil ?_, rfl⟩
    rintro ⟨d, hd, hnd, -⟩
    have hop : operationFor d.id.str d ∈ (plan rt.toUnicode w.documents events).operations :=
      mem_operations.mpr ⟨d, hd, hnd, rfl⟩
    rw [List.isEmpty_iff.mp hempty] at hop
    cases hop
  · rw [bulk_available hav]
    refine ⟨_, rt.nodup_iterateSet _, fun t => ?_, cache_bumps _ _ _⟩
    rw [rt.mem_iterateSet, List.mem_toFinset]
    have howns := ownTenants_plan (c := rt.toUnicode) hn
    constructor
    · intro hm
      obtain ⟨e, he, rfl⟩ := List.mem_map.mp hm
      obtain ⟨k, hk, hget⟩ := List.mem_filterMap.mp he
      obtain ⟨op, hop, rfl, -⟩ := Plan.mem_changed.mp hk
      obtain ⟨e', he', ht⟩ := howns op hop
      obtain ⟨d, hd, hnd, rfl⟩ := mem_operations.mp hop
      rw [hget] at he'
      cases he'
      exact ⟨d, hd, hnd, ht ▸ (tenantId_operationFor _ _).symm⟩
    · rintro ⟨d, hd, hnd, rfl⟩
      have hop : operationFor d.id.str d ∈ (plan rt.toUnicode w.documents events).operations :=
        mem_operations.mpr ⟨d, hd, hnd, rfl⟩
      rw [← tenantId_operationFor d.id.str d]
      exact howns.mem_changedTenants hop (List.mem_map_of_mem hop)

/-! ### The view after a batch -/

/-- An entry after a batch: the operation on the row that it names, if there is one. -/
theorem get?_touched (hp : Processed rt w events w₁) {d : Document}
    (hd : w.documents.find? d.id = some d) (hn : Named events d.id) :
    w₁.engine.docs.get? d.id.str =
      entryAfter (operationFor d.id.str d) (w.engine.docs.get? d.id.str) := by
  rw [hp.docs, get?_applyAll nodup_operations, find?_named hd hn]

omit [Field K] [LinearOrder K] in
theorem filter_self {o : Option StoredDoc} (h : ∀ s, o = some s → s.tenantId = A) :
    o.filter (fun s => decide (s.tenantId = A)) = o := by
  cases o with
  | none => rfl
  | some s => exact if_pos (decide_eq_true (h s rfl))

theorem get?_untouched (hp : Processed rt w events w₁) {k : Str}
    (h : ∀ d, w.documents.find? d.id = some d → Named events d.id → d.id.str ≠ k) :
    w₁.engine.docs.get? k = w.engine.docs.get? k := by
  have hnone : (plan rt.toUnicode w.documents events).operations.find?
      (fun op => decide (op.documentId = k)) = none := by
    refine List.find?_eq_none.mpr fun op hop hk => ?_
    obtain ⟨d, hd, he, rfl⟩ := mem_operations.mp hop
    exact h d hd he ((documentId_operationFor _ _).symm.trans (of_decide_eq_true hk))
  rw [hp.docs, get?_applyAll nodup_operations, hnone]

theorem rowsStay_processed (hp : Processed rt w events w₁) : RowsStay w.documents w₁.documents := by
  obtain ⟨ids, hdocs, -⟩ := hp.documents
  rw [hdocs]
  refine rowsStay_map (fun r => ?_) (DocumentRepository.find?_markIndexed _ _ _)
  split <;> rfl

theorem owned_processed (hp : Processed rt w events w₁) (h : Owned w) : Owned w₁ := by
  have hstay := rowsStay_processed hp
  -- an entry is an old one, or the operation on a row has written it
  have hold : ∀ k s, w₁.engine.docs.get? k = some s →
      ∃ row, w.documents.find? row.id = some row ∧ row.id.str = k ∧ row.tenantId = s.tenantId := by
    intro k s hs
    by_cases hk : ∃ d, w.documents.find? d.id = some d ∧ Named events d.id ∧ d.id.str = k
    · obtain ⟨d, hd, hn, rfl⟩ := hk
      rw [get?_touched hp hd hn] at hs
      rcases entryAfter_cases hs with hs | ⟨-, ht, -⟩
      · exact h _ _ hs
      · exact ⟨d, hd, rfl, (ht.trans (tenantId_operationFor _ _)).symm⟩
    · rw [get?_untouched hp fun d hd hn he => hk ⟨d, hd, hn, he⟩] at hs
      exact h _ _ hs
  intro k s hs
  obtain ⟨row, hrow, hk, ht⟩ := hold k s hs
  obtain ⟨row', hrow', ht'⟩ := hstay _ _ hrow
  have hid : row'.id = row.id := Table.key_of_find? hrow'
  exact ⟨row', hid.symm ▸ hrow', (congrArg Uuid.str hid).trans hk, ht'.trans ht⟩

/-- The events of the tenant name its rows. -/
theorem named_own (hn : ∀ e ∈ events, NamesRow w.documents e) {d : Document}
    (hd : w.documents.find? d.id = some d) (ht : d.tenantId = A) :
    Named (events.filter fun e => decide (e.tenantId = A)) d.id ↔ Named events d.id := by
  constructor
  · rintro ⟨e, he, hid⟩
    exact ⟨e, (List.mem_filter.mp he).1, hid⟩
  · rintro ⟨e, he, hid⟩
    obtain ⟨id, hid', hrow⟩ := hn e he
    obtain rfl := Uuid.str_inj.mp (hid'.symm.trans hid)
    have het := hrow.unique (hasRow_of_find? hd)
    exact ⟨e, List.mem_filter.mpr ⟨he, decide_eq_true (het.trans ht)⟩, hid⟩

/-- The tenant's rows in the two tables. -/
theorem Projects.mem (h : Projects A w w') {d : Document} :
    w'.documents.find? d.id = some d ↔ w.documents.find? d.id = some d ∧ d.tenantId = A := by
  rw [h.rows, Option.filter_eq_some_iff, decide_eq_true_eq]

variable {w₁' : World (inMemory rt)}

theorem rows_processed (h : Projects A w w') (hn : ∀ e ∈ events, NamesRow w.documents e)
    (hp : Processed rt w events w₁)
    (hp' : Processed rt w' (events.filter fun e => decide (e.tenantId = A)) w₁') :
    OwnRows A w₁.documents w₁'.documents := by
  obtain ⟨ids, hdocs, hids⟩ := hp.documents
  obtain ⟨ids', hdocs', hids'⟩ := hp'.documents
  intro id
  rw [hdocs, hdocs', DocumentRepository.find?_markIndexed, DocumentRepository.find?_markIndexed, h.rows,
    own_map (fun r => by split <;> rfl)]
  cases hf : (w.documents.find? id).filter fun d => decide (d.tenantId = A) with
  | none => rfl
  | some d =>
      obtain ⟨hd, ht⟩ := Option.filter_eq_some_iff.mp hf
      obtain rfl := Table.key_of_find? hd
      have hA := of_decide_eq_true ht
      have hmark : (d.id ∈ ids' ∧ d.status = .pending) ↔ (d.id ∈ ids ∧ d.status = .pending) :=
        and_congr_left fun hs => by
          rw [hids d hd hs, hids' d (h.mem.mpr ⟨hd, hA⟩) hs, named_own hn hd hA]
      rw [Option.map_some, Option.map_some, if_congr hmark (by rw [h.now]) rfl]

theorem entries_processed (h : Projects A w w') (hn : ∀ e ∈ events, NamesRow w.documents e)
    (hp : Processed rt w events w₁)
    (hp' : Processed rt w' (events.filter fun e => decide (e.tenantId = A)) w₁') (k : Str) :
    w₁'.engine.docs.get? k =
      (w₁.engine.docs.get? k).filter fun s => decide (s.tenantId = A) := by
  by_cases hk : ∃ d, w.documents.find? d.id = some d ∧ Named events d.id ∧ d.id.str = k
  · obtain ⟨d, hd, hnd, rfl⟩ := hk
    -- what is there before and after is of the tenant of the row
    have hbefore : ∀ s, w.engine.docs.get? d.id.str = some s → s.tenantId = d.tenantId := by
      intro s hs
      obtain ⟨row, hrow, hid, ht⟩ := h.owned _ _ hs
      rw [Uuid.str_inj.mp hid, hd] at hrow
      cases hrow
      exact ht.symm
    have hafter : ∀ s, w₁.engine.docs.get? d.id.str = some s → s.tenantId = d.tenantId := by
      intro s hs
      rw [get?_touched hp hd hnd] at hs
      rcases entryAfter_cases hs with hs | ⟨-, ht, -⟩
      · exact hbefore s hs
      · exact ht.trans (tenantId_operationFor _ _)
    by_cases hA : d.tenantId = A
    · have hnd' := (named_own hn hd hA).mpr hnd
      rw [get?_touched hp' (h.mem.mpr ⟨hd, hA⟩) hnd', h.entries,
        filter_self fun s hs => (hbefore s hs).trans hA, filter_self fun s hs => (hafter s hs).trans hA,
        get?_touched hp hd hnd]
    · rw [get?_untouched hp' fun d' hd' _ he => ?_, h.entries, Option.filter_eq_none_iff.mpr,
        Option.filter_eq_none_iff.mpr]
      · exact fun s hs hs' => hA ((hafter s hs).symm.trans (of_decide_eq_true hs'))
      · exact fun s hs hs' => hA ((hbefore s hs).symm.trans (of_decide_eq_true hs'))
      · -- the row of the other tenant is not in the view
        obtain ⟨hdw, ht⟩ := h.mem.mp hd'
        rw [Uuid.str_inj.mp he, hd] at hdw
        cases hdw
        exact hA ht
  · rw [get?_untouched hp fun d hd hnd he => hk ⟨d, hd, hnd, he⟩,
      get?_untouched hp' fun d hd hnd he => ?_, h.entries]
    obtain ⟨hdw, hA⟩ := h.mem.mp hd
    exact hk ⟨d, hdw, (named_own hn hdw hA).mp hnd, he⟩

/-- **A batch** does to the view what the events of the tenant do. -/
theorem own_process (h : Projects A w w') (hn : ∀ e ∈ events, NamesRow w.documents e) :
    Projects A (process rt w events).2
      (process rt w' (events.filter fun e => decide (e.tenantId = A))).2 := by
  cases hav : w.engine.available with
  | false =>
      rw [process_unavailable hav, process_unavailable (h.engine.trans hav)]
      exact h
  | true =>
      have hav' := h.engine.trans hav
      have hp := process_available hav events
      have hp' := process_available hav' (events.filter fun e => decide (e.tenantId = A))
      have hn' : ∀ e ∈ events.filter (fun e => decide (e.tenantId = A)), NamesRow w'.documents e := by
        intro e he
        obtain ⟨he, ht⟩ := List.mem_filter.mp he
        obtain ⟨id, hid, d, hd, hdt⟩ := hn e he
        obtain rfl := Table.key_of_find? hd
        exact ⟨d.id, hid, d, h.mem.mpr ⟨hd, hdt.trans (of_decide_eq_true ht)⟩, hdt⟩
      exact {
        owned := owned_processed hp h.owned
        published := fun a e hm =>
          (rowsStay_processed hp).namesRow (h.published a e (published_process hm))
        rows := rows_processed h hn hp hp'
        entries := entries_processed h hn hp hp'
        engine := by rw [hp.available, hp'.available, h.engine]
        cache := by
          obtain ⟨ts, hnd, hts, hc⟩ := cache_process hav hn
          obtain ⟨ts', hnd', hts', hc'⟩ := cache_process hav' hn'
          have hmem : A ∈ ts' ↔ A ∈ ts := by
            rw [hts, hts']
            constructor
            · rintro ⟨d, hd, hm, ht⟩
              have hdw := (h.mem.mp hd).1
              exact ⟨d, hdw, (named_own hn hdw ht).mp hm, ht⟩
            · rintro ⟨d, hd, hm, ht⟩
              exact ⟨d, h.mem.mpr ⟨hd, ht⟩, (named_own hn hd ht).mpr hm, ht⟩
          rw [hc, hc']
          refine (sameCache_incrAll ts w.cache hnd).symm.trans
            (.trans ?_ (sameCache_incrAll ts' w'.cache hnd'))
          rw [if_congr hmem rfl rfl]
          split
          · exact h.cache.incr .generation
          · exact h.cache
        now := by rw [hp.now, hp'.now, h.now]
        clock := by rw [hp.clock, hp'.clock, h.clock] }

end Batch

/-! ### Everything else -/

section Rest

variable {w w' : World (inMemory rt)}

theorem own_disturb (h : Projects A w w') (e : Disturbance) :
    Projects A (disturb w e) (disturb w' e) := by
  cases e with
  | elapse d => exact { h with now := congrArg (fun n => n + d) h.now }
  | expire key => exact { h with cache := h.cache.expire key }
  | lose _ => exact { h with }
  | publisher _ => exact { h with }
  | refresh =>
      exact { h with
        published := fun a e hm => h.published a e ((List.mem_cons.mp hm).resolve_left nofun) }
  | engine _ => exact { h with engine := rfl }
  | cache _ => exact { h with cache := ⟨rfl, h.cache.store⟩ }

theorem own_sweep (h : Projects A w w') (cfg : Settings) :
    Projects A (Reconciler.sweepOnce cfg w).2 w' := by
  have hl : Leaves w.documents w.cache w (Reconciler.sweepOnce cfg w).2 :=
    (Leaves.refl w).republish _ fun d hd => (DocumentRepository.mem_findStale hd).1
  exact h.foreign hl (.refl _) (fun _ => rfl) .refl

end Rest

/-! ### The theorem -/

theorem projects_initial (rt : Runtime K) (A : Str) :
    Projects A (World.initial State.initial : World (inMemory rt)) (World.initial State.initial) :=
  ⟨nofun, nofun, fun _ => rfl, fun _ => rfl, rfl, .refl, rfl, rfl⟩

theorem caller_ne {a : AnyCall} (h : (tenant A).part a = none) : caller a ≠ some A := by
  intro hc
  match a, hc with
  | .call (.create _ _ _), hc | .call (.get _ _), hc | .call (.delete _ _), hc | .search _, hc =>
      cases (if_pos hc).symm.trans h

/-- Each call keeps the view, and answers the tenant from it. -/
theorem unwinding (cfg : Settings) (rt : Runtime K) (A : Str) :
    Unwinding (calls cfg rt) (tenant A) Regular (Projects A) where
  ignored {w w' a} h hok hpart := by
    match a, hok, hpart with
    | .call (.create t id payload), hok, hpart =>
        have ht : t ≠ A := fun he => caller_ne hpart (congrArg some he)
        exact ⟨decide_eq_false fun he => ht (Option.some.inj he), foreign_create h ht payload hok⟩
    | .call (.get t d), _, hpart =>
        have ht : t ≠ A := fun he => caller_ne hpart (congrArg some he)
        exact ⟨decide_eq_false fun he => ht (Option.some.inj he), foreign_get h ht d⟩
    | .call (.delete t d), _, hpart =>
        have ht : t ≠ A := fun he => caller_ne hpart (congrArg some he)
        exact ⟨decide_eq_false fun he => ht (Option.some.inj he), foreign_delete h ht d⟩
    | .search q, _, hpart =>
        have ht : q.tenantId ≠ A := fun he => caller_ne hpart (congrArg some he)
        exact ⟨decide_eq_false fun he => ht (Option.some.inj he), foreign_search h ht⟩
    | .sweep, _, _ => exact ⟨rfl, own_sweep h cfg⟩
  seen {w w' a b} h hok hpart := by
    match a, hok, hpart with
    | .call (.process events), hok, hpart =>
        cases hpart
        refine ⟨rfl, nofun, own_process h fun e he => ?_⟩
        obtain ⟨i, hm⟩ := hok e he
        exact h.published i e hm
    | .call (.environment e), _, hpart =>
        cases hpart
        exact ⟨rfl, nofun, own_disturb h e⟩
    | .call (.create t id payload), hok, hpart =>
        obtain ⟨ht, hb⟩ := Option.ite_none_right_eq_some.mp hpart
        cases hb
        cases ht
        obtain ⟨hr, hp⟩ := own_create h payload hok
        exact ⟨rfl, fun _ => congrArg Reply.created hr.symm, hp⟩
    | .call (.get t d), _, hpart =>
        obtain ⟨ht, hb⟩ := Option.ite_none_right_eq_some.mp hpart
        cases hb
        cases ht
        obtain ⟨hr, hp⟩ := own_get h d
        exact ⟨rfl, fun _ => congrArg Reply.got hr.symm, hp⟩
    | .call (.delete t d), _, hpart =>
        obtain ⟨ht, hb⟩ := Option.ite_none_right_eq_some.mp hpart
        cases hb
        cases ht
        obtain ⟨hr, hp⟩ := own_delete h d
        exact ⟨rfl, fun _ => congrArg Reply.deleted hr.symm, hp⟩
    | .search q, _, hpart =>
        obtain ⟨ht, hb⟩ := Option.ite_none_right_eq_some.mp hpart
        cases hb
        obtain ⟨hr, hp⟩ := own_search h (Option.some.inj ht)
        refine ⟨rfl, fun _ => ?_, hp⟩
        change Reply.searched ((SearchService.search rt w w.clock q).1.map Answer.response) =
          Reply.searched ((SearchService.search rt w' w'.clock q).1.map Answer.response)
        rw [hr]

/-- **Tenants are separated.**  In every run of creations, reads, deletions, searches, batches, sweeps
and outages, a tenant is given the answers that it would be given if nobody else used the service. -/
theorem tenants_separated (cfg : Settings) (rt : Runtime K) (A : Str) {as : List AnyCall}
    (h : (calls cfg rt).Conforms Regular (World.initial State.initial) as) :
    (calls cfg rt).heard (tenant A) (World.initial State.initial) as =
      (calls cfg rt).heard (tenant A) (World.initial State.initial) (as.filterMap (concerns A)) :=
  ((unwinding cfg rt A).heard_eq (projects_initial rt A) h).1

end Pipeline

namespace Sample

open Pipeline

/-- Two tenants, one batch with the events of both, and a search of each. -/
def mixedCalls : List AnyCall :=
  [.call (.create globex documentB payload), .call (.create acme documentA payload), .sweep,
    .search (query globex), .call (.process [eventB, eventA]), .search (query globex),
    .search (query acme), .call (.delete globex documentB), .call (.get acme documentA)]

/-- What concerns `acme`. -/
def acmeAlone : List AnyCall :=
  [.call (.create acme documentA payload), .call (.process [eventA]), .search (query acme),
    .call (.get acme documentA)]

theorem tenants_separated_sample :
    (calls settings runtime).heard (tenant acme) (World.initial State.initial) mixedCalls =
      (calls settings runtime).heard (tenant acme) (World.initial State.initial) acmeAlone :=
  tenants_separated settings runtime acme (by decide +kernel)

end Sample

end DocSearch
