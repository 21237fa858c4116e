/-
WALLET BALANCES BETWEEN CACHE AND PINS.

`src/dag/slice.go`, `UpdateBalanceIfValid` of `src/dag/node.go`, `addToDag` of `src/dag/dag.go`,
`NodeTxPin.add` and `runSmartContractStage` of `src/dag/pin.go`. A balance in the cache is a
`big.Int`; in a pin it is the bytes of its absolute value, here a natural number. The
transaction ids in the cache are never read and are left out.
-/
import GrapeDag.State.Diffs
import GrapeDag.Lib.Bank
import Mathlib.Data.List.Sort

namespace GrapeDag

open Imperative Folding

/-! ## Data -/

/-- A vertex id (`uuid.UUID`). -/
abbrev NodeId := BitVec 128

/-- What the ledger reads of a DAG node: its id and time, and of its transaction the hash, the
wallets, the amount and whether it is an Ethereum one (`RlpEthTx` is set). -/
structure Payment where
  id : NodeId
  time : Int
  hash : Bytes
  sender : Address
  recipient : Address
  amount : Nat
  eth : Bool
  deriving Repr, DecidableEq

/-- `pb.TxPin` without its signatures and receipts. -/
structure TxPin where
  nodes : List Payment
  balance : FinMap Address Nat
  diffs : List Diff
  pinNumber : Nat

/-- `WalletCache`: the balances of a wallet, the newest last. -/
abbrev WalletCache := FinMap Address (List Int)

/-- The leader's `_dag_`, `walletCache`, `_pins_`, `pinsQuantity` and state store. -/
structure Ledger where
  dag : List Payment
  walletCache : WalletCache
  /-- oldest first -/
  pins : List TxPin
  pinsQuantity : Nat
  store : Storage

/-- `unsafe_getLatestBalance`: the balance in the newest pin that mentions the wallet. -/
def getLatestBalance (pins : List TxPin) (wallet : Address) : Option Nat :=
  pins.reverse.findSome? (·.balance.lookup wallet)

namespace WalletCache

/-- `get`: the newest balance. -/
def get (wc : WalletCache) (wallet : Address) : Option Int := (wc.lookup wallet).bind List.getLast?

def loaded (pins : List TxPin) (wc : WalletCache) (wallet : Address) : Int :=
  (get wc wallet).getD ((getLatestBalance pins wallet).getD 0)

/-- `add` and `sub` with a signed amount. A wallet that is not in the cache gets an empty history
before the sign of the new balance is looked at. -/
def change (pins : List TxPin) (wallet : Address) (delta : Int) (wc : WalletCache) : Bool × WalletCache :=
  let tmpBalance := loaded pins wc wallet + delta
  let wc : WalletCache := if (get wc wallet).isSome then wc else wc.insert wallet []
  if tmpBalance < 0 then (false, wc)
  else (true, wc.insert wallet ((wc.lookup wallet).getD [] ++ [tmpBalance]))

def add (pins : List TxPin) (wallet : Address) (amount : Nat) (wc : WalletCache) : Bool × WalletCache :=
  change pins wallet amount wc

def sub (pins : List TxPin) (wallet : Address) (amount : Nat) (wc : WalletCache) : Bool × WalletCache :=
  change pins wallet (-amount) wc

/-- `remove` forgets the whole history, whichever transactions are confirmed. -/
def remove (wallet : Address) (wc : WalletCache) : WalletCache := wc.erase wallet

end WalletCache

namespace Storage

def syncBalance (s : Storage) (wallet : Address) (balance : Nat) : Storage :=
  s.putAccount wallet { (s.getAccount wallet).getD .blank with balance := balance }

def syncBalances (balances : FinMap Address Nat) (s : Storage) : Storage :=
  balances.entries.foldl (fun s e => s.syncBalance e.1 e.2) s

def nonceIncr (s : Storage) (a : Address) : Storage :=
  let account := (s.getAccount a).getD .blank
  s.putAccount a { account with nonce := account.nonce + 1 }

end Storage

/-! ## Payments -/

namespace Ledger

/-- `unsafe_getBalanceForWallet`: the newest cached balance, else the one in the newest pin that
mentions the wallet, else zero. -/
def effective (L : Ledger) (wallet : Address) : Int := WalletCache.loaded L.pins L.walletCache wallet

/-- `UpdateBalanceIfValid`; a payment to oneself is valid whatever its amount. -/
def updateBalanceIfValid (p : Payment) (L : Ledger) : Bool × Ledger :=
  if p.sender = p.recipient then (true, L)
  else
    let (paid, wc) := WalletCache.sub L.pins p.sender p.amount L.walletCache
    if paid then
      let (received, wc) := WalletCache.add L.pins p.recipient p.amount wc
      (received, { L with walletCache := wc })
    else (false, { L with walletCache := wc })

/-- `addToDag` for a node whose links are known: accepted if the balances allow it. -/
def addToDag (p : Payment) (L : Ledger) : Bool × Ledger :=
  let (valid, L) := L.updateBalanceIfValid p
  if valid then (true, { L with dag := L.dag ++ [p] }) else (false, L)

/-! ## Pins -/

def includeSite (balanceOf : Address → Int) (pin : TxPin) (p : Payment) : TxPin := { pin with
    nodes := pin.nodes ++ [p]
    balance := (pin.balance.insert p.sender (balanceOf p.sender).natAbs).insert
      p.recipient (balanceOf p.recipient).natAbs }

def forgetSite (wc : WalletCache) (p : Payment) : WalletCache :=
  WalletCache.remove p.recipient (WalletCache.remove p.sender wc)

/-- What `runSmartContractStage` does while the diffs are captured; `smc` executes the contract
transactions. -/
def capturing (pin : TxPin) (smc : Go Storage Unit) : Go Storage (List Diff) := do
  .modify fun s => (pin.nodes.filter (·.eth)).foldl (fun s p => s.nonceIncr p.sender) s
  smc
  Storage.getStateStoreDiffs

def captureStage (pin : TxPin) (smc : Go Storage Unit) : Go Storage (List Diff) := do
  .modify (Storage.syncBalances pin.balance)
  Storage.captureStateStoreDiffs
  .ensuring (capturing pin smc) (.modify Storage.resetCaptureStateStoreDiffs)

def recordDiff (balance : FinMap Address Nat) : Diff → FinMap Address Nat
  | .account a acc => balance.insert a acc.balance.natAbs
  | .mapping _ _ _ => balance

def forgetDiff (wc : WalletCache) : Diff → WalletCache
  | .account a _ => WalletCache.remove a wc
  | .mapping _ _ _ => wc

def runSmartContractStage (pin : TxPin) (smc : Go Storage Unit) : Go Ledger TxPin := do
  let diffs ← .zoom Ledger.store (fun s L => { L with store := s }) (captureStage pin smc)
  .modify fun L => { L with walletCache := diffs.foldl forgetDiff L.walletCache }
  return { pin with diffs := diffs, balance := diffs.foldl recordDiff pin.balance }

/-- The sites in the order of their times; sites of one time keep their order. -/
def inOrder (sites : List Payment) : List Payment := sites.insertionSort (fun p q => p.time ≤ q.time)

/-- `NodeTxPin.add`. The balances of all senders and recipients are read before the first wallet
leaves the cache. -/
def add (sites : List Payment) (smc : Go Storage Unit) : Go Ledger Unit := do
  let sites := inOrder sites
  let balanceOf ← .gets effective
  let number ← .gets pinsQuantity
  let pin := sites.foldl (includeSite balanceOf) ⟨[], ∅, [], number⟩
  .modify fun L => { L with
    walletCache := sites.foldl forgetSite L.walletCache
    pinsQuantity := L.pinsQuantity + 1 }
  let pin ← runSmartContractStage pin smc
  .modify fun L => { L with pins := L.pins ++ [pin] }

end Ledger

def initialOffering : Nat := 10000000000000000000000000000000

/-- The genesis pin (`NodeTxPin.set`): the dag wallet holds the initial offering. -/
def TxPin.genesis (wallet : Address) : TxPin :=
  ⟨[], (∅ : FinMap Address Nat).insert wallet initialOffering, [], 0⟩

/-- The genesis node: the dag wallet pays itself the initial offering. -/
def Payment.genesis (wallet : Address) (hash : Bytes) : Payment :=
  ⟨0, 0, hash, wallet, wallet, initialOffering, false⟩

/-- The leader after `newDag`; `hash` is the hash of the genesis transaction. -/
def Ledger.genesis (wallet : Address) (hash : Bytes) (store : Storage) : Ledger :=
  ⟨[.genesis wallet hash], ∅, [.genesis wallet], 0, store⟩

end GrapeDag
