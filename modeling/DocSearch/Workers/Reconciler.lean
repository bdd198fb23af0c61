import DocSearch.Services.World

/-!
# Workers — Reconciler

`Reconciler.sweep_once`: the stale rows, and the republication of each until one fails.
-/

namespace DocSearch

namespace Reconciler

variable {K : Type} {E : SearchEngine K}

def stale (cfg : Settings) (w : World E) : List Document :=
  DocumentRepository.findStale w.documents w.now cfg.reconcileStaleAfterSeconds
    cfg.reconcileBatchSize

/-- The event `sweep_once` publishes for a row. -/
def eventFor (d : Document) : Event :=
  ⟨d.id.str, d.tenantId, d.version, if d.status = .deleted then eventDelete else eventIndex⟩

/-- The loop of `sweep_once`, left at the first failure. -/
def republish (w : World E) : List Document → World E
  | [] => w
  | d :: ds =>
      match w.publish (eventFor d) with
      | some w' => republish w' ds
      | none => w

/-- `sweep_once`: the number of stale rows it found. -/
def sweepOnce (cfg : Settings) (w : World E) : ℕ × World E :=
  ((stale cfg w).length, republish w (stale cfg w))

/-- Publishing the events changes neither the rows nor the engine. -/
theorem republish_frame (w : World E) (ds : List Document) :
    (republish w ds).documents = w.documents ∧ (republish w ds).engine = w.engine ∧
      (republish w ds).now = w.now := by
  induction ds generalizing w with
  | nil => exact ⟨rfl, rfl, rfl⟩
  | cons d ds ih =>
      rw [republish]
      split
      · rename_i w' hp
        obtain ⟨-, rfl⟩ := World.publish_eq_some hp
        exact ih _
      · exact ⟨rfl, rfl, rfl⟩

/-- **A sweep with the broker up** publishes an event for every stale row. -/
theorem republish_available {w : World E} (h : w.publisher.available = true) (ds : List Document) :
    (republish w ds).publisher = ⟨w.publisher.events ++ ds.map eventFor, true⟩ := by
  induction ds generalizing w with
  | nil => rw [republish, List.map_nil, List.append_nil, ← h]
  | cons d ds ih =>
      have hp : w.publish (eventFor d) = some (({ w with
          publisher := { w.publisher with events := w.publisher.events ++ [eventFor d] } } :
            World E).record (.published (eventFor d))) := by
        rw [World.publish, Publisher.publish_of_available h]; rfl
      rw [republish, hp]
      refine (ih ?_).trans ?_
      · exact h
      · simp

/-! ### Its steps -/

inductive SweepStep where
  | select
  | publish (d : Document) (rest : List Document)

def proceed : List Document → Option SweepStep
  | [] => none
  | d :: ds => some (.publish d ds)

def resumeSweep (cfg : Settings) (w : World E) : SweepStep → World E × Option SweepStep
  | .select => (w, proceed (stale cfg w))
  | .publish d rest =>
      match w.publish (eventFor d) with
      | some w' => (w', proceed rest)
      | none => (w, none)

end Reconciler

end DocSearch
