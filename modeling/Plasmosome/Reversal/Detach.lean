import Plasmosome.Reversal.Effect

/-!
# Detaching a closed ledger

A detach replays the pending effects last first and stops at the first call the
backend refuses. The cursor, the asserted list and the bound cell stay with the
ledger, so a later detach resumes where the last one stopped.
-/

namespace Plasmosome.Reversal

open Backend

/-- Binds the ledger to the cell of its first detach. -/
def bind (began : Option CellId) (cell : CellId) (plugin : PluginId) :
    Except DetachError CellOwner × Option CellId :=
  let bound := began.getD cell
  (if bound ≠ cell then .error (.cellChanged bound cell) else .ok ⟨cell, plugin⟩, some bound)

/-- What a replay moves: the cursor, the asserted list and the backend. -/
structure Progress (Backend : Type) where
  pending : Nat
  asserted : List String
  backend : Backend

section Replay

variable {Backend : Type} [EnforcementBackend Backend]

/-- Replays the effects below the cursor, last first. -/
def replay (owner : CellOwner) (effects : List Effect) (drain : DrainSpec)
    (forced : Option Force) : (pending : Nat) → pending ≤ effects.length → List String →
      Backend → DetachReport → Except DetachError DetachReport × Progress Backend
  | 0, _, asserted, backend, report =>
      (.ok { report with asserted, forced := forced.map Force.assertionLine },
        ⟨0, asserted, backend⟩)
  | index + 1, hpending, asserted, backend, report =>
      let effect := effects[index]
      let next := replay owner effects drain forced index (Nat.le_of_succ_le hpending)
      match effect.inverseCall owner drain with
      | some call =>
          let (reply, backend) := EnforcementBackend.change backend call
          match reply.error? with
          -- The cursor stays on the effect whose inverse was refused.
          | some error => (.error (.backend error), ⟨index + 1, asserted, backend⟩)
          | none =>
              next asserted backend
                { report with replayed := report.replayed ++ [effect.description] }
      | none =>
          match effect.assertion with
          | some assertion => next (asserted ++ [assertion]) backend report
          | none =>
              next asserted backend { report with delayedDiscarded := report.delayedDiscarded + 1 }

theorem replay_pending_le (owner : CellOwner) (effects : List Effect) (drain : DrainSpec)
    (forced : Option Force) (pending : Nat) (hpending : pending ≤ effects.length)
    (asserted : List String) (backend : Backend) (report : DetachReport) :
    (replay owner effects drain forced pending hpending asserted backend report).2.pending ≤
      pending := by
  induction pending generalizing asserted backend report with
  | zero => exact Nat.le_refl 0
  | succ index ih =>
      have hindex : index ≤ effects.length := Nat.le_of_succ_le hpending
      rw [replay]
      split
      · dsimp only
        split
        · exact Nat.le_refl _
        · exact (ih hindex _ _ _).trans (Nat.le_succ index)
      · split
        · exact (ih hindex _ _ _).trans (Nat.le_succ index)
        · exact (ih hindex _ _ _).trans (Nat.le_succ index)

/-- One detach call, with the operator's force if there is one. -/
def ClosedLedger.detach (ledger : ClosedLedger) (backend : Backend) (cell : CellId)
    (drain : DrainSpec) (forced : Option Force) :
    Except DetachError DetachReport × ClosedLedger × Backend :=
  match bind ledger.began cell ledger.plugin with
  | (.error error, began) => (.error error, { ledger with began }, backend)
  | (.ok owner, began) =>
      let replayed := replay owner ledger.effects drain forced ledger.pending ledger.inBounds
        ledger.asserted backend (DetachReport.new owner.plugin)
      let progress := replayed.2
      (replayed.1,
        { ledger with
          pending := progress.pending
          asserted := progress.asserted
          began
          inBounds := (replay_pending_le ..).trans ledger.inBounds },
        progress.backend)

def SealedLedger.detach (sealed : SealedLedger) (backend : Backend) (cell : CellId)
    (drain : DrainSpec) : Except DetachError DetachReport × SealedLedger × Backend :=
  (sealed.toClosedLedger.detach backend cell drain none).map id (.map .mk id)

def ForcedLedger.detachForced (forcedLedger : ForcedLedger) (backend : Backend) (cell : CellId)
    (drain : DrainSpec) (force : Force) :
    Except DetachError DetachReport × ForcedLedger × Backend :=
  (forcedLedger.toClosedLedger.detach backend cell drain (some force)).map id (.map .mk id)

/-- The assertions of every effect that left the boundary, in push order. -/
def ForcedLedger.externalAssertions (forcedLedger : ForcedLedger) : List String :=
  forcedLedger.effects.filterMap Effect.assertion

/-! ## Runs of detach calls -/

/-- One call of `detach` or `detachForced`; a sealed ledger has no use for the force. -/
structure DetachCall where
  cell : CellId
  drain : DrainSpec
  force : Force

namespace Closure

def closed : Closure → ClosedLedger
  | .externalFree sealed => sealed.toClosedLedger
  | .outstandingExternal forced => forced.toClosedLedger

def detach (closure : Closure) (backend : Backend) (call : DetachCall) :
    Except DetachError DetachReport × Closure × Backend :=
  match closure with
  | .externalFree sealed =>
      (sealed.detach backend call.cell call.drain).map id (.map .externalFree id)
  | .outstandingExternal forced =>
      (forced.detachForced backend call.cell call.drain call.force).map id
        (.map .outstandingExternal id)

end Closure

@[simp] theorem Ledger.close_closed (ledger : Ledger) : ledger.close.closed = ledger.closed := by
  unfold Ledger.close
  split <;> rfl

namespace Closure

/-- A closed ledger and its backend, driven by detach calls. -/
def machine (Backend : Type) [EnforcementBackend Backend] :
    Foundation.Machine (Closure × Backend) DetachCall (Except DetachError DetachReport) where
  step state call := state.1.detach state.2 call

end Closure

end Replay

end Plasmosome.Reversal
