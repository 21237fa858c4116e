/-
FAILED FRAMES AND OPEN CHECKPOINTS.

A frame opens a checkpoint and closes it at its end, by a commit or a revert. Two paths miss
the end: a call of a missing account returns at once, and an EXCEPTION leaves the frame where it
is thrown, with its writes in the store. A frame around a leaked checkpoint later reverts only
to the leak.

Main results: `failed_frames_leave_no_trace` and `checkpoints_balanced`.
-/
import GrapeDag.Vm.Invariants

namespace GrapeDag

open Imperative GrapeDag.Frame Prog

/-! ## Runs without exceptions and leaks -/

/-- No instruction and no frame throws in the state it is executed in, and no call leaks its
checkpoint. -/
def atomicGuard (m : Machine) : Guard where
  instruction _ := true
  call a w := !leaks m a w
  create _ _ := true
  strict := true

section

variable {m : Machine} {g : Guard} {n : Nat}

lemma CallMeets.returned {a : CallArgs} {w w' : World} (h : CallMeets m g n a w)
    (hg : g.strict = true) (hrun : ((vm m n).executeCall a w).state? = some w') :
    ∃ r, (vm m n).executeCall a w = .ok r w' := by
  refine Outcome.ok_of_state? hrun fun e => ?_
  rw [← h]
  cases n with
  | zero => exact nofun
  | succ n => exact Guard.step_ne_err hg e w'

lemma CreateMeets.returned {a : CreateArgs} {w w' : World} (h : CreateMeets m g n a w)
    (hg : g.strict = true) (hrun : ((vm m n).create a w).state? = some w') :
    ∃ r, (vm m n).create a w = .ok r w' := by
  refine Outcome.ok_of_state? hrun fun e => ?_
  rw [← h]
  cases n with
  | zero => exact nofun
  | succ n => exact Guard.step_ne_err hg e w'

lemma atomic_history (m : Machine) (n : Nat) :
    Recorded m (atomicGuard m) true (vmGuarded m (atomicGuard m) n) := by
  refine vm_history (fun _ a w hcall => ?_) n
  have hcall : (!leaks m a w) = true := hcall
  simpa using hcall

/-! ## Rolling back -/

lemma RolledBack.restored {chain : List Address} {w w' : World}
    (h : RolledBack m g chain true w w') : w'.observed = w.observed := by
  cases h with
  | refused => rfl
  | reverted hsection hrevert =>
    exact (Storage.restored_of_revert hsection.grows hsection.balanced hrevert).1

/-- A frame that did not succeed: it returned an error, or it threw. -/
def Failed (o : Outcome JavaException World VmResult) : Prop :=
  match o with
  | .ok r _ => r.hasError = true
  | .err _ _ => True
  | .diverge => False

/-- **A FAILED FRAME LEAVES NO TRACE** in every run in which no step throws and no call leaks: every
account and every slot is as it was at the entry of the frame, but for the nonce of the creator of a
create frame. -/
theorem failed_frames_leave_no_trace (m : Machine) (n : Nat) :
    (∀ (a : CallArgs) (w w' : World), (w.readOnly = true → a.kind = .call → a.amount = 0) →
      CallMeets m (atomicGuard m) n a w → ((vm m n).executeCall a w).state? = some w' →
      Failed ((vm m n).executeCall a w) → w'.observed = w.observed) ∧
    (∀ (a : CreateArgs) (w w' : World), w.readOnly = false →
      CreateMeets m (atomicGuard m) n a w → ((vm m n).create a w).state? = some w' →
      Failed ((vm m n).create a w) →
      ∃ w1, NonceRaised a w w1 ∧ w'.observed = w1.observed) := by
  have hrec := atomic_history m n
  constructor
  · intro a w w' hlegal hmeets hrun hfailed
    obtain ⟨r, hok⟩ := hmeets.returned rfl hrun
    have herror : r.hasError = true := by rw [hok] at hfailed; exact hfailed
    have hrecord := (hrec.executeCall a w hlegal).of_ok (hmeets.trans hok)
    exact (hrecord.2 herror).restored
  · intro a w w' hlegal hmeets hrun hfailed
    obtain ⟨r, hok⟩ := hmeets.returned rfl hrun
    have herror : r.hasError = true := by rw [hok] at hfailed; exact hfailed
    have hrecord := (hrec.create a w hlegal).of_ok (hmeets.trans hok)
    obtain ⟨w1, hraised, hback⟩ := hrecord.2 herror
    exact ⟨w1, hraised, hback.restored⟩

end

/-- Write a slot, then pop the empty stack: `PUSH1 1`, `PUSH1 0`, `SSTORE`, `POP`. -/
def throwCode : Bytes := [0x60, 1, 0x60, 0, 0x55, 0x50]

/-- Write a slot, call address 600 without value, and revert: `PUSH1 1`, `PUSH1 0`, `SSTORE`, `PUSH1
0` five times, `PUSH2 600`, `PUSH2 10000`, `CALL`, `PUSH1 0`, `PUSH1 0`, `REVERT`. -/
def revertCode : Bytes :=
  [0x60, 1, 0x60, 0, 0x55, 0x60, 0, 0x60, 0, 0x60, 0, 0x60, 0, 0x60, 0, 0x61, 0x02, 0x58,
    0x61, 0x27, 0x10, 0xf1, 0x60, 0, 0x60, 0, 0xfd]

def World.sampleReverting : World :=
  .start (.holding [(1, .holding 100 []), (500, .holding 0 revertCode), (600, .holding 7 [])])

/-- A frame that throws keeps its writes; and so does a frame that REVERTS after a call of a missing
account, because the revert finds the checkpoint of that call. -/
theorem failed_frames_keep_writes :
    (∃ e w', (vm .sample 20).executeCall (.sample 100000 0) (.sampleWith 0 throwCode) = .err e w' ∧
      w'.getContractStorage 500 0 ≠ (World.sampleWith 0 throwCode).getContractStorage 500 0) ∧
    (∃ r w', (vm .sample 20).executeCall (.sample 100000 0) (.sampleWith 0 revertCode) = .ok r w' ∧
      r.status = .revert ∧
      w'.getContractStorage 500 0 ≠ (World.sampleWith 0 revertCode).getContractStorage 500 0) := by
  decide +kernel

theorem reverted_frame_leaves_no_trace :
    ∃ r w', (vm .sample 20).executeCall (.sample 100000 0) .sampleReverting = .ok r w' ∧
      r.status = .revert ∧ w'.observed = World.sampleReverting.observed := by
  obtain ⟨hmeets, r, w', hrun, hstatus⟩ :=
    ((vmGuarded_below .sample (atomicGuard .sample) 20).executeCall (.sample 100000 0)).returns
      (s := .sampleReverting) (P := fun r _ => r.status = .revert) (by decide +kernel)
  have hfailed : Failed (.ok r w') := by
    show r.status.isFailure = true
    rw [hstatus]
    rfl
  refine ⟨r, w', hrun, hstatus, ?_⟩
  exact (failed_frames_leave_no_trace .sample 20).1 _ _ w' (fun _ _ => rfl) hmeets
    (by rw [hrun]; rfl) (by rw [hrun]; exact hfailed)

/-! ## Balance -/

/-- The body of a call frame, between its checkpoint and its end, meets the guard. -/
def CallBodyMeets (m : Machine) (g : Guard) (n : Nat) (a : CallArgs) (w : World) : Prop :=
  callBody m (run (g.turn m (vmGuarded m g n)) n) a w = callBody m (run (turn m (vm m n)) n) a w

/-- The guard makes no difference to the body of a create. -/
def CreateBodyMeets (m : Machine) (g : Guard) (n : Nat) (a : CreateArgs) (x : Address) (w : World) : Prop :=
  createBody m (run (g.turn m (vmGuarded m g n)) n) a x w = createBody m (run (turn m (vm m n)) n) a x w

/-- **EVERY FRAME CLOSES THE CHECKPOINT IT OPENED** in every run in which no step throws and no call
leaks: the open checkpoints after a frame are those before it, and the commit or revert at its end
finds the open checkpoints of its own start. -/
theorem checkpoints_balanced (m : Machine) (n : Nat) :
    (∀ (a : CallArgs) (w w' : World), (w.readOnly = true → a.kind = .call → a.amount = 0) →
      CallMeets m (atomicGuard m) n a w → ((vm m n).executeCall a w).state? = some w' →
      w'.storage.checkPoints = w.storage.checkPoints) ∧
    (∀ (a : CreateArgs) (w w' : World), w.readOnly = false →
      CreateMeets m (atomicGuard m) n a w → ((vm m n).create a w).state? = some w' →
      w'.storage.checkPoints = w.storage.checkPoints) ∧
    (∀ (a : CallArgs) (w w' : World) (r : VmResult), CallBodyMeets m (atomicGuard m) n a w →
      callBody m (run (turn m (vm m n)) n) a w = .ok r w' →
      w'.storage.checkPoints = w.storage.checkPoints) ∧
    (∀ (a : CreateArgs) (w w1 w' : World) (r : VmResult), w.readOnly = false →
      refusal m a.caller.address a.amount w = none → NonceRaised a w w1 →
      w1.getNonce (createTarget m a w) = 0 →
      CreateBodyMeets m (atomicGuard m) n a (createTarget m a w) w1.checkpointed →
      createBody m (run (turn m (vm m n)) n) a (createTarget m a w) w1.checkpointed = .ok r w' →
      w'.storage.checkPoints = w1.checkpointed.storage.checkPoints) := by
  have hrec := atomic_history m n
  refine ⟨?_, ?_, ?_, ?_⟩
  · intro a w w' hlegal hmeets hrun
    obtain ⟨r, hok⟩ := hmeets.returned rfl hrun
    exact ((hrec.executeCall a w hlegal).of_ok (hmeets.trans hok)).1.balanced
  · intro a w w' hlegal hmeets hrun
    obtain ⟨r, hok⟩ := hmeets.returned rfl hrun
    exact ((hrec.create a w hlegal).of_ok (hmeets.trans hok)).1.balanced
  · intro a w w' r hmeets hok
    exact ((hrec.wp_callBody n a w).of_ok (hmeets.trans hok)).balanced
  · intro a w w1 w' r hlegal hfunds hraised hnonce hmeets hok
    have hfresh : Fresh m (atomicGuard m) a.caller.addresses a w w1.checkpointed :=
      hraised.fresh rfl hlegal hfunds hnonce
    exact ((hrec.wp_createBody n hfresh).of_ok (hmeets.trans hok)).balanced

/-- A call of a missing account returns successfully with one more checkpoint open, and a frame that
throws leaves one open, too. -/
theorem checkpoints_left_open :
    (∃ r w', (vm .sample 5).executeCall ⟨.call, .account 1 0, 600, [], 100, 0⟩
        (.sampleWith 0 []) = .ok r w' ∧ r.status = .success ∧
      (World.sampleWith 0 []).storage.checkPoints.length = 0 ∧
      w'.storage.checkPoints.length = 1) ∧
    (∃ e w', (vm .sample 5).executeCall (.sample 100000 0) (.sampleWith 0 throwCode) = .err e w' ∧
      w'.storage.checkPoints.length = 1) := by
  decide +kernel

theorem reverted_frame_balanced :
    ∃ r w', (vm .sample 20).executeCall (.sample 100000 0) .sampleReverting = .ok r w' ∧
      w'.storage.checkPoints = World.sampleReverting.storage.checkPoints := by
  obtain ⟨hmeets, r, w', hrun, -⟩ :=
    ((vmGuarded_below .sample (atomicGuard .sample) 20).executeCall (.sample 100000 0)).returns
      (s := .sampleReverting) (P := fun _ _ => True) (by decide +kernel)
  exact ⟨r, w', hrun, (checkpoints_balanced .sample 20).1 _ _ w' (fun _ _ => rfl) hmeets (by rw [hrun]; rfl)⟩

end GrapeDag
