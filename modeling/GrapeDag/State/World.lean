/-
THE STATE A MESSAGE RUNS ON.

Everything that is mutable while one message executes: the Go store behind the gRPC client, the
`VmStateManager` around it, and the fields of `VmImpl` and `BaseInterpreter`. Which failures of
the store reach the VM is decided per method in `StateClient`: reads answer with a default when
the account is missing, `setNonce` and `saveLogs` SWALLOW the error, and the other writes and
the checkpoint operations let it through as an exception.
-/
import GrapeDag.State.StorageJournal

namespace GrapeDag

open Imperative

/-! ## Parameters -/

/-- How a native contract ends. -/
inductive NativeResult where
  | output (bytes : Bytes)
  | error
  | throws (e : JavaException)
  deriving Repr, DecidableEq

/-- The functions of third-party libraries the VM calls: `CryptoLib`, the curve and hash engines
behind the native precompiles, and the range of `BigInteger.pow`. -/
structure CryptoLib where
  keccak256 : Bytes → Bytes
  sha256sum : Bytes → Bytes
  ripemd160sum : Bytes → Bytes
  createAddress : Address → (nonce : Int) → Address
  createAddress2 : Address → (salt : Word) → (code : Bytes) → Address
  validateSignatureValues : (v : UInt8) → (r s : Nat) → Bool
  ecRecover : (hash signature : Bytes) → Option Bytes
  recoverAddress : (publicKey : Bytes) → Bytes
  /-- the native part of the precompile with this index -/
  native : Nat → Bytes → NativeResult
  /-- whether `BigInteger.pow` supports the size of this power -/
  powFits : (base exponent : Nat) → Bool

def keccak256Null : Bytes := natToBytes 32 0xc5d2460186f7233c927e7db2dcc703c0e500b653ca82273b7bfad8045d85a470

/-! ## The state -/

structure World where
  /-- the Go store -/
  storage : Storage
  /-- `VmStateManager` -/
  transientStorage : FinMap (Address × Word) Bytes
  refundGas : Int
  eventLog : List Log
  warmedAddresses : List Address
  /-- the hashes of address and slot key -/
  warmedSlots : List Bytes
  /-- `VmImpl` -/
  callGas : Int
  depth : Nat
  /-- `BaseInterpreter` -/
  readOnly : Bool
  returnData : Option Bytes

/-- The state a message starts on: a fresh `VmStateManager` and a fresh `VmImpl` over the node's
store. -/
def World.start (storage : Storage) : World := ⟨storage, ∅, 0, [], [], [], 0, 0, false, none⟩

namespace World

variable {α : Type}

/-- A gRPC call: a failed call is a `StatusRuntimeException`. -/
def rpc (m : Go Storage α) : Java World α := fun w =>
  match m w.storage with
  | .ok a s => .ok a { w with storage := s }
  | .err _ s => .err .statusRuntime { w with storage := s }
  | .diverge => .diverge

def rpcLogged (m : Go Storage Unit) : Java World Unit := (rpc m).catching fun
    | .statusRuntime => return ()
    | e => .raise e

@[simp] lemma wp_rpc {m : Go Storage α} {Q : α → World → Prop}
    {E : JavaException → World → Prop} {w : World} :
    Prog.wp (rpc m) Q E w ↔ Prog.wp m (fun a s => Q a { w with storage := s })
        (fun _ s => E .statusRuntime { w with storage := s }) w.storage := by
  unfold Prog.wp rpc
  cases m w.storage <;> exact Iff.rfl

@[simp] lemma wp_rpcLogged {m : Go Storage Unit} {Q : Unit → World → Prop}
    {E : JavaException → World → Prop} {w : World} :
    Prog.wp (rpcLogged m) Q E w ↔ Prog.wp m (fun a s => Q a { w with storage := s })
        (fun _ s => Q () { w with storage := s }) w.storage := by
  unfold rpcLogged
  rw [Prog.wp_catching, wp_rpc]
  simp only [Prog.wp_pure]

/-! ## Reading accounts -/

section

variable (w : World) (a : Address)

def getAccount : Option StoredAccount := w.storage.getAccount a

def isAccountExists : Bool := (w.getAccount a).isSome

def getBalance : Int :=
  match w.getAccount a with
  | none => 0
  | some acc => acc.balance

/-- The nonce as an `int64`. Past that, where `GetAccount` panics, it wraps: `SetNonce` never
leads there, and `NonceIncr` after `2 ^ 63` payments. -/
def getNonce : Int :=
  match w.getAccount a with
  | none => 0
  | some acc => wrap64 acc.nonce

def accountIsEmpty : Bool :=
  match w.getAccount a with
  | none => true
  | some acc => acc.balance = 0 ∧ acc.codeHash.length = 0 ∧ wrap64 acc.nonce = 0

def getContractCode : Bytes :=
  match w.getAccount a with
  | none => []
  | some acc => acc.code

def getContractCodeHash : Bytes :=
  match w.getAccount a with
  | none => keccak256Null
  | some acc => if acc.codeHash.length = 0 then keccak256Null else acc.codeHash

/-- `getContractStorage`, and `getCommittedContractStorage`, which the client answers with the
CURRENT value. -/
def getContractStorage (key : Word) : Bytes := w.storage.getValue a key

end

def getBlockHash (crypto : CryptoLib) (num : Int) : Bytes :=
  crypto.keccak256 (Word.ofBytes (asUnsignedByteArray num)).bytes

/-! ## Writing accounts -/

def createAccount (a : Address) : Java World Unit := rpc (Storage.createAccount a)

def addBalance (a : Address) (amount : Int) : Java World Unit := rpc (Storage.addBalance a amount)

def subBalance (a : Address) (amount : Int) : Java World Unit := rpc (Storage.subBalance a amount)

def setNonce (a : Address) (nonce : Int) : Java World Unit := rpcLogged (Storage.setNonce a nonce)

def putContractCode (crypto : CryptoLib) (a : Address) (data : Bytes) : Java World Unit :=
  rpc (Storage.putContractCode crypto.keccak256 a data)

def putContractStorage (a : Address) (key : Word) (data : Bytes) : Java World Unit :=
  rpc (.modify (Storage.putValue a key data))

/-- `StateServerDei.suicide`, which calls an empty `deleteAccount`. -/
def suicide (_a : Address) : Java World Unit := return ()

def checkpoint : Java World Unit := rpc (.modify Storage.checkpoint)

def commit : Java World Unit := rpc Storage.commit

def revert : Java World Unit := rpc Storage.revert

/-- `StateClient.saveLogs`. The block number is narrowed while the request is built, outside the
exceptions the client catches. -/
def saveLog (txHash : Bytes) (logs : List Log) : Java World Unit := do
  if logs.any fun l => ¬ IsLong l.block then .raise .arithmetic
  rpcLogged (Storage.putLogs txHash logs)

/-! ## `VmStateManager` -/

def addRefundGas (gas : Int) : Java World Unit :=
  .modify fun w => { w with refundGas := wrap64 (w.refundGas + gas) }

def subRefundGas (gas : Int) : Java World Unit := do
  if gas > (← .gets refundGas) then .raise .illegalState
  .modify fun w => { w with refundGas := wrap64 (w.refundGas - gas) }

def getTransientStorage (w : World) (a : Address) (key : Word) : Bytes :=
  w.transientStorage.getD (a, key) emptyArray

def putTransientStorage (a : Address) (key : Word) (data : Bytes) : Java World Unit :=
  .modify fun w => { w with transientStorage := w.transientStorage.insert (a, key) data }

def addLog (l : Log) : Java World Unit := .modify fun w => { w with eventLog := w.eventLog ++ [l] }

def isWarmedAddress (w : World) (a : Address) : Bool := a ∈ w.warmedAddresses

def addWarmedAddress (a : Address) : Java World Unit :=
  .modify fun w => { w with warmedAddresses := a :: w.warmedAddresses }

def slotHash (crypto : CryptoLib) (a : Address) (slot : Word) : Bytes :=
  crypto.keccak256 (Address.bytes a ++ slot.bytes)

def isWarmedSlot (crypto : CryptoLib) (w : World) (a : Address) (slot : Word) : Bool :=
  slotHash crypto a slot ∈ w.warmedSlots

def addWarmedSlot (crypto : CryptoLib) (a : Address) (slot : Word) : Java World Unit :=
  .modify fun w => { w with warmedSlots := slotHash crypto a slot :: w.warmedSlots }

/-! ## `VmContext` and `VmImpl` -/

def canTransfer (w : World) (a : Address) (value : Int) : Bool := w.getBalance a ≥ value

def transfer (source target : Address) (value : Int) : Java World Unit := do
  subBalance source value
  addBalance target value

def setCallGas (value : Int) : Java World Unit :=
  .modify fun w => { w with callGas := if value < 0 then 0 else value }

def enter : Java World Unit := .modify fun w => { w with depth := w.depth + 1 }

def leave : Java World Unit := do
  if (← .gets depth) = 0 then .raise .illegalState
  .modify fun w => { w with depth := w.depth - 1 }

def getReturnData (w : World) : Bytes := w.returnData.getD []

def setReturnData (data : Option Bytes) : Java World Unit := .modify fun w => { w with returnData := data }

def clearReturnData : Java World Unit := setReturnData (some [])

end World

/-! ## Samples -/

/-- Stand-ins for the libraries, for runs that do not depend on what these compute. -/
def CryptoLib.sample : CryptoLib where
  keccak256 _ := keccak256Null
  sha256sum _ := []
  ripemd160sum _ := []
  createAddress creator nonce := BitVec.ofInt 160 (256 * creator.toInt + nonce)
  createAddress2 _ salt _ := salt.toAddress
  validateSignatureValues _ _ _ := false
  ecRecover _ _ := none
  recoverAddress _ := []
  native _ _ := .error
  powFits _ _ := true

def Storage.holding (accounts : List (Address × StoredAccount)) : Storage :=
  { Storage.new with accounts := accounts.foldl (fun m e => m.insert e.1 e.2) ∅ }

def StoredAccount.holding (balance : Int) (code : Bytes) : StoredAccount :=
  { StoredAccount.blank with balance := balance, code := code }

end GrapeDag
