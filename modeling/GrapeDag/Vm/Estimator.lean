/-
GAS ESTIMATION AND READ-ONLY CALLS.

`GasEstimator.java` and the applier of `Executors.java`. Both apply a message on a
`CachedReadStateAccess`; every probe of the estimator starts on an EMPTY cache, but all share
one mutable account object for the sender.

All the VM sees of its state is the answers to the operations it issues, so it appears here as a
`Session`: it ends, or issues an operation and goes on with the answer. What is proved holds of
EVERY session, and so of every message and every contract code.

Main result: `simulations_leave_server`.
-/
import GrapeDag.State.Overlay
import GrapeDag.Vm.Message

namespace GrapeDag

open Imperative Simulation

/-! ## Sessions -/

/-- The VM as a client that asks and waits for an answer. -/
inductive Session (ρ : Type) where
  | ends (result : ρ)
  | asks (op : StateOp) (answered : Answer → Session ρ)

def Session.run {ρ : Type} (crypto : CryptoLib) : Session ρ → Java Simulation ρ
  | .ends result => return result
  | .asks op answered => do
      let answer ← answering (CachedReadStateAccess.perform crypto op)
      run crypto (answered answer)

/-- `new StateTransition(message, vm, stateAccess, …).apply()`, for a message whose gas limit is set
to the second argument, as a session on the state it is given. -/
abbrev Transition := Message → Int → Session (Except JavaException MessageResult)

/-! ## The estimator -/

/-- What is fixed for one request: the libraries, the VM, the configuration, the block. -/
structure Simulator where
  crypto : CryptoLib
  apply : Transition
  cfg : ChainConfig
  block : BlockContext

namespace GasEstimator

structure EstimateResult where
  error : Bool
  failed : Bool
  deriving Repr, DecidableEq

def classify : Except JavaException MessageResult → EstimateResult
  | .ok result => ⟨false, result.contractResult.hasError⟩
  | .error (.execution .intrinsicGas) => ⟨false, true⟩
  | .error _ => ⟨true, false⟩

variable (x : Simulator)

def estimateMessageExecution (message : Message) (proposedGasLimit : Int) (account : Nat) :
    Java Simulation EstimateResult := do
  CachedReadStateAccess.new []
  let a ← .gets fun m => (m.objects account).address
  InMemoryStateAccess.putAccount a account
  let result ← (x.apply message proposedGasLimit).run x.crypto
  return classify result

/-- The `while` loop of `estimateGas`, for at most `probes` turns; `none` if it still goes on after
them. Sums of two `long`s wrap. -/
def search (message : Message) (account : Nat) : Nat → Int → Int → Java Simulation (Option Int)
  | 0, lo, hi => return if wrap64 (lo + 1) < hi then none else some hi
  | probes + 1, lo, hi =>
      if wrap64 (lo + 1) < hi then do
        let mid := (wrap64 (lo + hi)).tdiv 2
        let rc ← estimateMessageExecution x message mid account
        if rc.error then .raise (.vm .failure)
        else if rc.failed then search message account probes mid hi
        else search message account probes lo mid
      else return some hi

/-- `estimateGas`: a limit that is still the cap has not been tried yet. -/
def estimateGas (message : Message) (account : Nat) (probes : Nat) : Java Simulation (Option Int) := do
  let lo ← x.cfg.lookForGasPrice .tx
  let cap ← toLongExact x.block.gasLimit
  let found ← search x message account probes lo cap
  if found = some cap then
    let rc ← estimateMessageExecution x message cap account
    if rc.error ∨ rc.failed then .raise (.vm .failure)
    else return found
  else return found

def maxUnsigned : Int := 2 ^ 256 - 1

def receipt (inMessage : Message) (usedGas : Int) : Checked Receipt :=
  receiptFrom ⟨⟨.success, usedGas, [], none, inMessage.receiver⟩, wrap64 inMessage.gasLimit, 0, usedGas, 0⟩

/-- `GasEstimator.executeMessage`. `source` is `from()`, absent for the undefined address, which is
replaced by the zero address; the sender gets an unlimited balance. -/
def executeMessage (source : Option Address) (inMessage : Message) (probes : Nat) :
    Java Simulation (Option Receipt) := do
  let sender := source.getD 0
  let account ← allocate (.new sender inMessage.nonce maxUnsigned)
  let message : Message :=
    { inMessage with sender := sender, nonce := 0, fake := true, nonce_nonneg := Message.zero_nonce }
  .catching (do
      match ← estimateGas x message account probes with
      | none => return none
      | some usedGas => return some (← receipt inMessage usedGas))
    fun e => return some ⟨none, false, some (.exception e)⟩

end GasEstimator

/-! ## The applier -/

/-- `AbstractMessageExecutor.executeMessage` over the state of `Executors.createApplier`. -/
def Applier.executeMessage (x : Simulator) (message : Message) : Java Simulation Receipt := do
  let zAccount ← allocate (.new 0 0 0)
  CachedReadStateAccess.new [zAccount]
  .catching (do
      let applied ← (x.apply message message.gasLimit).run x.crypto
      let result ← applied
      receiptFrom result)
    fun e => return receiptError message e

/-! ## The node's store -/

instance settles_answering {m : Java Simulation Reply} [Answers m] :
    Answers (answering m) := by unfold answering; infer_instance

instance Session.settles_run {ρ : Type} (crypto : CryptoLib) (session : Session ρ) :
    Answers (session.run crypto) := by
  induction session with
  | ends result => exact inferInstanceAs (Answers (pure result))
  | asks op answered ih => exact .seq inferInstance ih

namespace GasEstimator

variable (x : Simulator)

instance settles_probe (message : Message) (limit : Int) (account : Nat) :
    Answers (estimateMessageExecution x message limit account) := by
  unfold estimateMessageExecution InMemoryStateAccess.putAccount; infer_instance

instance settles_search (message : Message) (account : Nat) (probes : Nat) :
    ∀ lo hi, Answers (search x message account probes lo hi) := by
  induction probes with
  | zero => exact fun _ _ => inferInstanceAs (Answers (pure _))
  | succ probes ih =>
    intro lo hi
    unfold search
    infer_instance

lemma settles_executeMessage (source : Option Address) (inMessage : Message) (probes : Nat) :
    Answers (executeMessage x source inMessage probes) := by
  have hbody : ∀ message account, Answers (do
      match ← estimateGas x message account probes with
      | none => return none
      | some usedGas => return some (← receipt inMessage usedGas)) := by
    refine fun message account => .seq (by unfold estimateGas; infer_instance) fun found => ?_
    cases found <;> infer_instance
  unfold executeMessage
  infer_instance

end GasEstimator

lemma Applier.settles_executeMessage (x : Simulator) (message : Message) :
    Answers (Applier.executeMessage x message) := by
  unfold Applier.executeMessage; infer_instance

/-! ## Simulations have no effect -/

/-- **SIMULATIONS HAVE NO EFFECT.** Whatever the VM does, with whatever message and code, on
whatever store: each operation it issues, the estimation with all its probes, and a read-only call
end with the node's store as it was — every account, code, slot, log, checkpoint and journal entry —
and with whatever objects the JVM shares among them. -/
theorem simulations_leave_server (x : Simulator) (m : Simulation) :
    (∀ op, ∃ m', (CachedReadStateAccess.perform x.crypto op m).state? = some m' ∧ m'.server = m.server) ∧
    (∀ source inMessage probes, ∃ m',
      (GasEstimator.executeMessage x source inMessage probes m).state? = some m' ∧ m'.server = m.server) ∧
    (∀ message, ∃ m', (Applier.executeMessage x message m).state? = some m' ∧ m'.server = m.server) := by
  refine ⟨fun op => ?_, fun source inMessage probes => ?_, fun message => ?_⟩
  · exact (CachedReadStateAccess.settles_perform x.crypto op).exists_state m
  · exact (GasEstimator.settles_executeMessage x source inMessage probes).exists_state m
  · exact (Applier.settles_executeMessage x message).exists_state m

end GrapeDag
