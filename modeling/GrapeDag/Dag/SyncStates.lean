/-
THE STATE MACHINES OF THE SYNC PROTOCOL.

The goroutines of a node share a registry of state machines, one for each tracking id. Every call
holds its mutex to the end, `waitForSM` even while it sleeps: whatever the schedule, the calls
happen one after the other.

Main result: `waitForSM_handle_fails`.
-/
import GrapeDag.Dag.PinHash
import GrapeDag.Dag.Records

namespace GrapeDag

inductive SyncState where
  | zero | dispatchBegin | dispatchEnd | queryBegin | queryEnd | handleBegin | handleEnd | cancel
  deriving DecidableEq

/-- The changes of `NewSyncStateMachine`, each from a state to a state. -/
def syncStateChanges : List (SyncState × SyncState) :=
  [(.zero, .dispatchBegin), (.zero, .queryBegin),
    (.dispatchBegin, .dispatchEnd), (.dispatchEnd, .dispatchBegin), (.dispatchBegin, .cancel),
    (.queryBegin, .handleBegin), (.handleBegin, .handleEnd), (.handleEnd, .queryEnd),
    (.queryEnd, .queryBegin), (.queryBegin, .cancel),
    (.handleBegin, .handleEnd), (.handleEnd, .handleBegin), (.handleBegin, .cancel)]

/-- `SyncChangeTo`; a change that is refused is only logged. -/
def syncChangeTo (newState current : SyncState) : SyncState :=
  if (current, newState) ∈ syncStateChanges then newState else current

inductive SyncCall where
  | resetSM | deleteSM | changeToSM (sc : SyncState)
  deriving DecidableEq

def SyncCall.run (sm : Option SyncState) : SyncCall → Option SyncState
  | .resetSM => some .zero
  | .deleteSM => none
  | .changeToSM sc => sm.map (syncChangeTo sc)

/-- The current states of the machines, which all have the same changes. -/
abbrev SyncSM := NodeId → Option SyncState

namespace SyncSM

def call (ms : SyncSM) (c : NodeId × SyncCall) : SyncSM := Function.update ms c.1 (c.2.run (ms c.1))

/-- The state and the error; after its sleep `WaitForState` finds what it found before. -/
def waitForSM (ms : SyncSM) (id : NodeId) (state : SyncState) : SyncState × Option GoString :=
  match ms id with
  | none => (.zero, some (ascii "Failed to find a statemachine with id " ++ uuidString (uuidToBytes id)))
  | some current =>
    if current = state then (current, none)
    else (current, some (ascii "no change to the desired state past the wait time"))

/-- Where a machine is until `SYNC_QUERY_BEGIN`. -/
def dispatchSide : List SyncState := [.zero, .dispatchBegin, .dispatchEnd, .cancel]

lemma dispatchSide_closed : ∀ change ∈ syncStateChanges, change.1 ∈ dispatchSide →
    change.2 ≠ .queryBegin → change.2 ∈ dispatchSide := by
  decide

variable {id : NodeId} {ms : SyncSM}

lemma dispatchSide_call {c : NodeId × SyncCall} (h : ∀ s ∈ ms id, s ∈ dispatchSide)
    (hc : c ≠ (id, .changeToSM .queryBegin)) : ∀ s ∈ ms.call c id, s ∈ dispatchSide := by
  obtain ⟨id', call⟩ := c
  rw [SyncSM.call, Function.update_apply]
  split
  · subst ‹id = id'›
    cases call with
    | resetSM => simp [SyncCall.run, dispatchSide]
    | deleteSM => exact nofun
    | changeToSM sc =>
      intro s hs
      obtain ⟨old, hold, rfl⟩ := Option.map_eq_some_iff.mp hs
      unfold syncChangeTo
      split
      · rename_i hchange
        exact dispatchSide_closed _ hchange (h old hold) fun hquery => hc (hquery ▸ rfl)
      · exact h old hold
  · exact h

lemma dispatchSide_calls {calls : List (NodeId × SyncCall)} (h : ∀ s ∈ ms id, s ∈ dispatchSide)
    (hcalls : (id, .changeToSM .queryBegin) ∉ calls) :
    ∀ s ∈ calls.foldl call ms id, s ∈ dispatchSide := by
  refine calls.foldlRecOn (motive := fun ms : SyncSM => ∀ s ∈ ms id, s ∈ dispatchSide) _ h fun ms h c hc => ?_
  exact dispatchSide_call h fun heq => hcalls (heq ▸ hc)

/-- **WHO DISPATCHES NEVER SEES THE HANDLING.** As long as nobody asks for `SYNC_QUERY_BEGIN` under
a new tracking id, after every sequence of calls its machine is on the dispatch side, and a wait for
another state, like that of `SyncSnapshot` for `SYNC_HANDLE_END`, fails. -/
theorem waitForSM_handle_fails (calls : List (NodeId × SyncCall)) (hnew : ms id = none)
    (hcalls : (id, .changeToSM .queryBegin) ∉ calls) {state : SyncState}
    (hstate : state ∉ dispatchSide) :
    (waitForSM (calls.foldl call ms) id state).1 ∈ dispatchSide ∧
      (waitForSM (calls.foldl call ms) id state).2 ≠ none := by
  have hside : ∀ s ∈ calls.foldl call ms id, s ∈ dispatchSide :=
    dispatchSide_calls (by simp [hnew]) hcalls
  unfold waitForSM
  cases hs : calls.foldl call ms id with
  | none => exact ⟨List.mem_cons_self, nofun⟩
  | some current =>
    have hcurrent := hside current hs
    have hother : current ≠ state := fun heq => hstate (heq ▸ hcurrent)
    simp only [if_neg hother]
    exact ⟨hcurrent, nofun⟩

/-- What the requester, the publisher and the subscriber with the response call. -/
def snapshotCalls : List SyncCall := [.resetSM, .changeToSM .dispatchBegin] ++
    [.resetSM, .changeToSM .dispatchBegin, .changeToSM .dispatchEnd] ++
      [.changeToSM .handleBegin, .changeToSM .handleEnd]

theorem snapshot_wait_fails :
    (waitForSM ((snapshotCalls.map (7, ·)).foldl call fun _ => none) 7 .handleEnd).2 ≠ none :=
  (waitForSM_handle_fails (snapshotCalls.map (7, ·)) rfl (by decide) (by decide)).2

end SyncSM

end GrapeDag
