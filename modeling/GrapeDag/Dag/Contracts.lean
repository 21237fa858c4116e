/-
CONTRACT TRANSACTIONS ON LEADER AND FULL NODE.

`executeSMCTx`, `execResultToReceipt`, `runSmartContractStage`, `runSmartContractStageFullNode`
and `SyncPins` of `src/dag/pin.go`, `processPin` of `src/dag/syncmngr.go`, `GetLogsForTx` of
`src/vm/server.go`. A full node executes the transactions of a pin again and compares the
receipts.
-/
import GrapeDag.Dag.Replay
import GrapeDag.Dag.VmErrors

namespace GrapeDag

open Imperative Folding

/-! ## The VM -/

/-- What the stage reads of a contract transaction: its hash (`GetHash`), the hash its logs are
stored under (`CurrentExecutingTx().Hash`), and its binary form. -/
structure SmcTx where
  hash : Bytes
  execHash : Bytes
  binary : Bytes
  deriving Repr, DecidableEq

/-- `pb.PinTxHeader`; the coinbase account is the same for all pins. -/
structure PinTxHeader where
  timestamp : Int
  txNumber : Int
  deriving Repr, DecidableEq

/-- A writing request of the VM. -/
inductive ServerOp where
  | store (op : StoreOp)
  | saveLogs (logs : List Log)
  deriving Repr, DecidableEq

/-- The store after the request, whether it is answered with an error or not. -/
def ServerOp.apply (txHash : Bytes) (s : Storage) : ServerOp → Storage
  | .store op => ((op.run s).state?).getD s
  | .saveLogs logs => ((Storage.putLogs txHash logs s).state?).getD s

lemma ServerOp.apply_store {txHash : Bytes} {s s' : Storage} {op : StoreOp}
    (h : (op.run s).state? = some s') : ServerOp.apply txHash s (.store op) = s' := by
  rw [ServerOp.apply, h]
  rfl

lemma ServerOp.apply_saveLogs {txHash : Bytes} {s s' : Storage} {logs : List Log}
    (h : (Storage.putLogs txHash logs s).state? = some s') : ServerOp.apply txHash s (.saveLogs logs) = s' := by
  rw [ServerOp.apply, h]
  rfl

def ServerOp.storeOp? : ServerOp → Option StoreOp
  | .store op => some op
  | .saveLogs _ => none

/-- The VM as the node sees it: what it asks of the state server, and what it answers. Both are
functions of the transaction, the header and what can be read of the store; a gRPC error is no
answer. A frame only closes checkpoints that it has opened. -/
structure ContractVm where
  requests : SmcTx → PinTxHeader → Observed → List ServerOp
  response : SmcTx → PinTxHeader → Observed → Option CallResponse
  nested : ∀ tx header o,
    StoreOp.nested 0 ((requests tx header o).filterMap ServerOp.storeOp?) = true

def ContractVm.storeAfter (vm : ContractVm) (tx : SmcTx) (header : PinTxHeader) (s : Storage) :
    Storage :=
  (vm.requests tx header s.observed).foldl (ServerOp.apply tx.execHash) s

/-- A node's VM, and the order in which its Go map of logs is walked. -/
structure NodeEnv where
  vm : ContractVm
  walk : FinMap Address (List StoredLog) → List (List StoredLog)
  walk_perm : ∀ logs, (walk logs).Perm (logs.entries.map (·.2))

def NodeEnv.inOrder (vm : ContractVm) : NodeEnv where
  vm := vm
  walk logs := logs.entries.map (·.2)
  walk_perm _ := List.Perm.refl _

/-! ## Receipts -/

structure TxExecLog where
  contractAddress : Address
  topics : List Word
  data : Bytes
  deriving Repr, DecidableEq

/-- `pb.TxReceipt`; status 0 is `SUCCESSFUL`, 1 is `FAILED`. -/
structure TxReceipt where
  fuelUsed : Int
  status : Nat
  statusMessage : GoString
  logs : List TxExecLog
  deriving Repr, DecidableEq

structure ExecutedSmcTx where
  tx : SmcTx
  receipt : TxReceipt
  deriving Repr, DecidableEq

def getLogsForTx (env : NodeEnv) (s : Storage) (hash : Bytes) : List StoredLog :=
  (env.walk s.logs).flatten.filter (·.transactionHash = hash)

/-- `execResultToReceipt`; the data of the logs is not copied. -/
def execResultToReceipt (env : NodeEnv) (s : Storage) (r : ExecutionResult) : TxReceipt where
  fuelUsed := wrap32 r.gasUsed
  status := if r.successful then 0 else 1
  statusMessage := r.output
  logs := (getLogsForTx env s r.hash).map fun l => ⟨l.log.contractAddress, l.log.topics, []⟩

/-! ## Executing -/

def executeSMCTx (vm : ContractVm) (tx : SmcTx) (header : PinTxHeader) :
    Go Storage ExecutionResult := fun s =>
  match vm.response tx header s.observed with
  | none => .err .error (vm.storeAfter tx header s)
  | some response =>
      match readResponse tx.hash response with
      | .ok r => .ok r (vm.storeAfter tx header s)
      | .error e => .err e (vm.storeAfter tx header s)

def attempt {σ α : Type} (m : Go σ α) : Go σ (Option α) := fun s =>
  match m s with
  | .ok a s' => .ok (some a) s'
  | .err .error s' => .ok none s'
  | .err .panic s' => .err .panic s'
  | .diverge => .diverge

section Attempt

variable {σ α : Type} {m : Go σ α} {s s' : σ}

lemma attempt_of_ok {a : α} (h : m s = .ok a s') : attempt m s = .ok (some a) s' := by
  unfold attempt
  rw [h]

lemma attempt_of_error (h : m s = .err .error s') : attempt m s = .ok none s' := by
  unfold attempt
  rw [h]

lemma attempt_of_panic (h : m s = .err .panic s') : attempt m s = .err .panic s' := by
  unfold attempt
  rw [h]

lemma keeps_attempt {R : σ → σ → Prop} (h : Prog.Keeps R m) : Prog.Keeps R (attempt m) := by
  refine ⟨fun s => ?_⟩
  have hs := h.wp s
  unfold Prog.wp attempt at *
  cases hm : m s with
  | ok a s' =>
    rw [hm] at hs
    exact hs
  | err e s' =>
    rw [hm] at hs
    cases e <;> exact hs
  | diverge => trivial

end Attempt

/-- The loop of `runSmartContractStage`. A transaction that ends in an error is dropped; what it
has done to the store stays. -/
def executeAll (env : NodeEnv) (header : PinTxHeader) : List SmcTx → Go Storage (List ExecutedSmcTx)
  | [] => return []
  | tx :: txs => do
      match ← attempt (executeSMCTx env.vm tx header) with
      | none => executeAll env header txs
      | some r =>
          let receipt ← .gets fun s => execResultToReceipt env s r
          let rest ← executeAll env header txs
          return ⟨tx, receipt⟩ :: rest

/-- The loop over the logs of a receipt: `receipt.Logs[i]` panics if there is none. -/
def compareLogs : List TxExecLog → List TxExecLog → GoPure Unit
  | [], _ => return ()
  | _ :: _, [] => throw .panic
  | l :: ls, c :: cs => if l.data = c.data then compareLogs ls cs else throw .error

def compareReceipt (executed claimed : TxReceipt) : GoPure Unit :=
  if executed.fuelUsed ≠ claimed.fuelUsed then throw .error
  else if executed.status ≠ claimed.status then throw .error
  else if executed.statusMessage ≠ claimed.statusMessage then throw .error
  else compareLogs executed.logs claimed.logs

def reexecute (env : NodeEnv) (header : PinTxHeader) : List ExecutedSmcTx → Go Storage Unit
  | [] => return ()
  | t :: ts => do
      let r ← executeSMCTx env.vm t.tx header
      let receipt ← .gets fun s => execResultToReceipt env s r
      compareReceipt receipt t.receipt
      reexecute env header ts

/-! ## Pins with contract transactions -/

/-- A pin with its time and its executed contract transactions. -/
structure ContractPin extends TxPin where
  ts : Int
  smcTxs : List ExecutedSmcTx

def currentHeight (pins : List TxPin) : Nat := (pins.getLast?.map (·.pinNumber)).getD 0

def nextHeader (pins : List TxPin) (ts : Int) : PinTxHeader := ⟨ts, wrap32 (currentHeight pins + 1 : Nat)⟩

namespace Ledger

/-- The contract transactions as `NodeTxPin.add` runs them. -/
def contractStage (env : NodeEnv) (pins : List TxPin) (ts : Int) (txs : List SmcTx) : Go Storage Unit := do
  let _ ← executeAll env (nextHeader pins ts) txs
  return ()

/-- `NodeTxPin.add` with contract transactions. -/
def addContracts (env : NodeEnv) (ts : Int) (sites : List Payment) (txs : List SmcTx) : Go Ledger Unit := do
  let pins ← .gets Ledger.pins
  add sites (contractStage env pins ts txs)

end Ledger

/-! ## Followers -/

namespace Peer

def confirmDiff (wc : WalletCache) : Diff → WalletCache
  | .account a acc => appendBalance a acc.balance wc
  | .mapping _ _ _ => wc

/-- The store's part of `runSmartContractStageFullNode` while the diffs are captured. -/
def recapturing (env : NodeEnv) (header : PinTxHeader) (smcTxs : List ExecutedSmcTx) :
    Go Storage (List Diff) := do
  reexecute env header smcTxs
  Storage.getStateStoreDiffs

def runSmartContractStageFullNode (env : NodeEnv) (balances : FinMap Address Nat)
    (pin : ContractPin) : Go Peer Unit := do
  let pins ← .gets Peer.pins
  let diffs ← .zoom Peer.store (fun t s => { s with store := t }) (do
    .modify (Storage.syncBalances balances)
    Storage.captureStateStoreDiffs
    .ensuring (recapturing env (nextHeader pins pin.ts) pin.smcTxs)
      (.modify Storage.resetCaptureStateStoreDiffs))
  .modify fun s => { s with walletCacheConfirmed := diffs.foldl confirmDiff s.walletCacheConfirmed }

/-- `SyncPins` on a full node (node type 0): the error of the contract stage is ignored. -/
def syncPinsFullNode (env : NodeEnv) (pin : ContractPin) : Go Peer Unit := do
  let balances ← replay pin.nodes ∅
  let _ ← attempt (runSmartContractStageFullNode env balances pin)
  return ()

end Peer

/-- `Peer.NodeType` of the configuration. -/
inductive NodeType where
  | fullNode | peerNode | other
  deriving Repr, DecidableEq

def Peer.syncPinsAs (env : NodeEnv) (pin : ContractPin) : NodeType → Go Peer Unit
  | .fullNode => syncPinsFullNode env pin
  | .peerNode => do
      let _ ← syncPins pin.toTxPin
      return ()
  | .other => do
      let _ ← replay pin.nodes ∅
      return ()

/-- A follower: what it has confirmed, its live `walletCache`, and the payments it has accepted into
its DAG. -/
structure Follower extends Peer where
  walletCache : WalletCache
  dag : List Payment

/-- How the download of missing pins goes. The loop takes the flag of a receive for "closed"
although it says the opposite: it ends at the first pin it receives, and dereferences nil if the
channel is closed before. -/
inductive GapOutcome where
  | requestFailed | pinReceived | channelClosed | timeout
  deriving Repr, DecidableEq

namespace Follower

def copyConfirmed (s : Follower) : Follower := { s with walletCache := s.walletCacheConfirmed }

def processPin (env : NodeEnv) (type : NodeType) (gap : GapOutcome) (pin : ContractPin) :
    Go Follower Unit := do
  if currentHeight (← .gets fun s => s.pins) + 1 = pin.pinNumber then
    .zoom Follower.toPeer (fun p s => { s with toPeer := p }) (Peer.syncPinsAs env pin type)
    .modify copyConfirmed
    .modify fun s => { s with pins := s.pins ++ [pin.toTxPin] }
  else
    match gap with
    | .requestFailed => return ()
    | .channelClosed => .raise .panic
    | .pinReceived | .timeout => .modify copyConfirmed

end Follower

end GrapeDag
