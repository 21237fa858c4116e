/-
THE CACHE THAT SIMULATIONS RUN ON.

Gas estimation and read-only calls run on a `CachedReadStateAccess`: an `InMemoryStateAccess` in
front of the `StateServerDei`, which is asked for what the cache does not hold. Account objects
are MUTABLE and shared by reference, so accounts live on a heap, and the cache maps addresses to
references.

`clearContractStorage` is issued by `VmStateManager.reset` only, which nothing calls; the VM
never issues `getAccount`, `putAccount` and `deleteAccount` itself.
-/
import GrapeDag.State.World

namespace GrapeDag

open Imperative

/-! ## Operations and answers -/

/-- The requests of the VM to a simulation. -/
inductive StateOp where
  | isAccountExists (address : Address)
  | createAccount (address : Address)
  | accountIsEmpty (address : Address)
  | getBalance (address : Address)
  | addBalance (address : Address) (amount : Int)
  | subBalance (address : Address) (amount : Int)
  | getNonce (address : Address)
  | setNonce (address : Address) (nonce : Int)
  | putContractCode (address : Address) (data : Bytes)
  | getContractCode (address : Address)
  | getContractCodeSize (address : Address)
  | getContractCodeHash (address : Address)
  | getContractStorage (address : Address) (key : Word)
  | getCommittedContractStorage (address : Address) (key : Word)
  | putContractStorage (address : Address) (key : Word) (data : Bytes)
  | getBlockHash (num : Int)
  | checkpoint
  | commit
  | revert
  | saveLog (eventLogs : List Log)
  | hasSuicided (address : Address)
  | suicide (address : Address)
  deriving Repr, DecidableEq

inductive Reply where
  | done
  | flag (b : Bool)
  | number (n : Int)
  | bytes (bs : Bytes)
  deriving Repr, DecidableEq

abbrev Answer := Except JavaException Reply

def answering {σ : Type} (m : Java σ Reply) : Java σ Answer :=
  Prog.catching (do return .ok (← m)) fun e => return .error e

/-! ## Accounts -/

/-- `VmAccount`, and the answer of any `Account` to its getters. -/
structure VmAccount where
  address : Address
  nonce : Int
  balance : Int
  root : Bytes
  codeHash : Bytes
  deriving Repr, DecidableEq

namespace VmAccount

/-- `new VmAccount(address, nonce, balance)` -/
def new (address : Address) (nonce balance : Int) : VmAccount :=
  ⟨address, nonce, balance, keccak256Null, keccak256Null⟩

/-- `new Hash(bytes)`, that is `Bytes.leftPadBytes(bytes, 32)` -/
def hash (bytes : Bytes) : Bytes := List.replicate (32 - bytes.length) 0 ++ bytes.drop (bytes.length - 32)

/-- `VmAccount.from`: a copy, with both hashes padded to 32 bytes. -/
def copy (account : VmAccount) : VmAccount :=
  ⟨account.address, account.nonce, account.balance, hash account.root, hash account.codeHash⟩

end VmAccount

/-! ## `StateServerDei` -/

namespace StateServerDei

variable {α : Type}

/-- A method of the client. It has no state of its own, so it sees the store as a message does that
has just started. -/
def call (m : Java World α) : Java Storage α := Prog.zoom World.start (fun w _ => w.storage) m

def read (f : World → α) : Java Storage α := .gets fun s => f (World.start s)

variable (a : Address)

def isAccountExists : Java Storage Bool := read (·.isAccountExists a)

def accountIsEmpty : Java Storage Bool := read (·.accountIsEmpty a)

/-- `getAccount`: an `LnAccount`, whose storage root is empty, or a new `VmAccount`. -/
def getAccount : Java Storage VmAccount := read fun w =>
  match w.getAccount a with
  | some acc => ⟨a, wrap64 acc.nonce, acc.balance, [], acc.codeHash⟩
  | none => .new a 0 0

def getContractCode : Java Storage Bytes := read (·.getContractCode a)

def getContractStorage (key : Word) : Java Storage Bytes := read (·.getContractStorage a key)

def getBlockHash (crypto : CryptoLib) (num : Int) : Java Storage Bytes :=
  return World.getBlockHash crypto num

def perform (crypto : CryptoLib) (txHash : Bytes) : StateOp → Java Storage Reply
  | .isAccountExists a => do return .flag (← isAccountExists a)
  | .createAccount a => do call (World.createAccount a); return .done
  | .accountIsEmpty a => do return .flag (← accountIsEmpty a)
  | .getBalance a => do return .number (← read (·.getBalance a))
  | .addBalance a amount => do call (World.addBalance a amount); return .done
  | .subBalance a amount => do call (World.subBalance a amount); return .done
  | .getNonce a => do return .number (← read (·.getNonce a))
  | .setNonce a nonce => do call (World.setNonce a nonce); return .done
  | .putContractCode a data => do call (World.putContractCode crypto a data); return .done
  | .getContractCode a => do return .bytes (← getContractCode a)
  | .getContractCodeSize a => do return .number (← getContractCode a).length
  | .getContractCodeHash a => do return .bytes (← read (·.getContractCodeHash a))
  | .getContractStorage a key => do return .bytes (← getContractStorage a key)
  -- the client answers with the current value
  | .getCommittedContractStorage a key => do return .bytes (← getContractStorage a key)
  | .putContractStorage a key data => do
      call (World.putContractStorage a key data)
      return .done
  | .getBlockHash num => do return .bytes (← getBlockHash crypto num)
  | .checkpoint => do call World.checkpoint; return .done
  | .commit => do call World.commit; return .done
  | .revert => do call World.revert; return .done
  | .saveLog logs => do call (World.saveLog txHash logs); return .done
  -- not implemented in the source
  | .hasSuicided _ => return .flag false
  | .suicide a => do call (World.suicide a); return .done

end StateServerDei

/-! ## `InMemoryStateAccess` -/

/-- The fields of `InMemoryStateAccess`. The journal of its `VmStorage` is not modelled: nothing
above it asks for a checkpoint. -/
structure InMemory where
  /-- references to account objects -/
  accounts : FinMap Address Nat
  contracts : FinMap Address Bytes
  localStorage : FinMap (Address × Word) Bytes
  suicidedAddresses : List Address
  eventsLog : List Log

def InMemory.new : InMemory := ⟨∅, ∅, ∅, [], []⟩

/-- The node's store, the account objects of the JVM and the cache. -/
structure Simulation where
  server : Storage
  /-- the object behind each reference below `allocated` -/
  objects : Nat → VmAccount
  allocated : Nat
  cache : InMemory

namespace Simulation

def start (server : Storage) : Simulation := ⟨server, fun _ => .new 0 0 0, 0, .new⟩

def allocate (account : VmAccount) : Java Simulation Nat := fun m =>
  .ok m.allocated { m with
    objects := Function.update m.objects m.allocated account
    allocated := m.allocated + 1 }

def mutate (ref : Nat) (f : VmAccount → VmAccount) : Java Simulation Unit :=
  .modify fun m => { m with objects := Function.update m.objects ref (f (m.objects ref)) }

def modifyCache (f : InMemory → InMemory) : Java Simulation Unit :=
  .modify fun m => { m with cache := f m.cache }

def onServer {α : Type} (m : Java Storage α) : Java Simulation α :=
  Prog.zoom Simulation.server (fun s m => { m with server := s }) m

end Simulation

open Simulation

namespace InMemoryStateAccess

variable (a : Address)

def isAccountExists : Java Simulation Bool := .gets fun m => (m.cache.accounts.lookup a).isSome

def putAccount (account : Nat) : Java Simulation Unit :=
  modifyCache fun c => { c with accounts := c.accounts.insert a account }

def createAccount : Java Simulation Unit := do
  let account ← allocate (.new a 0 0)
  putAccount a account

/-- `accounts.get`, on an address that may have no account. -/
def lookup : Java Simulation Nat := do
  match ← .gets fun m => m.cache.accounts.lookup a with
  | some account => return account
  | none => .raise .nullPointer

def getAccount : Java Simulation Nat := do
  if ← isAccountExists a then lookup a
  else
    createAccount a
    lookup a

def accountIsEmpty : Java Simulation Bool := do
  let account ← lookup a
  .gets fun m =>
    let acc := m.objects account
    acc.nonce = 0 ∧ acc.balance = 0 ∧ acc.codeHash = keccak256Null ∧ acc.root = keccak256Null

def deleteAccount : Java Simulation Unit :=
  modifyCache fun c => { c with accounts := c.accounts.erase a }

def putContractCode (data : Bytes) : Java Simulation Unit :=
  modifyCache fun c => { c with contracts := c.contracts.insert a data }

def getContractCode : Java Simulation Bytes := .gets fun m => m.cache.contracts.getD a []

def getContractStorage (key : Word) : Java Simulation Bytes :=
  .gets fun m => m.cache.localStorage.getD (a, key) emptyArray

/-- `VmStorage.put` checks the length of the value; the keys are words. -/
def putContractStorage (key : Word) (data : Bytes) : Java Simulation Unit :=
  if data.length > 32 then .raise .illegalArgument
  else modifyCache fun c => { c with localStorage := c.localStorage.insert (a, key) data }

def saveLog (events : List Log) : Java Simulation Unit :=
  modifyCache fun c => { c with eventsLog := c.eventsLog ++ events }

def hasSuicided : Java Simulation Bool := .gets fun m => a ∈ m.cache.suicidedAddresses

def suicide : Java Simulation Unit := do
  modifyCache fun c => { c with suicidedAddresses := a :: c.suicidedAddresses }
  deleteAccount a

end InMemoryStateAccess

/-! ## `CachedReadStateAccess` -/

namespace CachedReadStateAccess

variable (a : Address)

def isAccountExists : Java Simulation Bool := do
  if ← InMemoryStateAccess.isAccountExists a then return true
  else onServer (StateServerDei.isAccountExists a)

def accountIsEmpty : Java Simulation Bool := do
  if ← InMemoryStateAccess.isAccountExists a then InMemoryStateAccess.accountIsEmpty a
  else onServer (StateServerDei.accountIsEmpty a)

/-- `getAccount`: what the server answers is COPIED into the cache, an absent account as an empty
one. -/
def getAccount : Java Simulation Nat := do
  if ← InMemoryStateAccess.isAccountExists a then InMemoryStateAccess.getAccount a
  else
    let found ← onServer (StateServerDei.getAccount a)
    let account ← allocate found.copy
    InMemoryStateAccess.putAccount a account
    return account

def getBalance : Java Simulation Int := do
  let account ← getAccount a
  .gets fun m => (m.objects account).balance

def addBalance (amount : Int) : Java Simulation Unit := do
  let account ← getAccount a
  mutate account fun acc => { acc with balance := acc.balance + amount }

def subBalance (amount : Int) : Java Simulation Unit := do
  let account ← getAccount a
  let newBalance ← .gets fun m => (m.objects account).balance - amount
  if newBalance < 0 then .raise .illegalArgument
  else mutate account fun acc => { acc with balance := newBalance }

def getNonce : Java Simulation Int := do
  let account ← getAccount a
  .gets fun m => (m.objects account).nonce

def setNonce (nonce : Int) : Java Simulation Unit := do
  let account ← getAccount a
  mutate account fun acc => { acc with nonce := nonce }
  InMemoryStateAccess.putAccount a account

/-- `getContractCode`: an empty local code counts as none. -/
def getContractCode : Java Simulation Bytes := do
  let code ← InMemoryStateAccess.getContractCode a
  if code.length = 0 then
    let code ← onServer (StateServerDei.getContractCode a)
    if code.length > 0 then
      InMemoryStateAccess.putContractCode a code
      return code
    else return code
  else return code

def getContractCodeHash (crypto : CryptoLib) (a : Address) : Java Simulation Bytes := do
  let code ← getContractCode a
  return if code.length = 0 then keccak256Null else crypto.keccak256 code

def getContractStorage (key : Word) : Java Simulation Bytes := do
  if ← .gets fun m => (m.cache.localStorage.lookup (a, key)).isSome then
    InMemoryStateAccess.getContractStorage a key
  else
    let data ← onServer (StateServerDei.getContractStorage a key)
    InMemoryStateAccess.putContractStorage a key data
    return data

def perform (crypto : CryptoLib) : StateOp → Java Simulation Reply
  | .isAccountExists a => do return .flag (← isAccountExists a)
  | .createAccount a => do InMemoryStateAccess.createAccount a; return .done
  | .accountIsEmpty a => do return .flag (← accountIsEmpty a)
  | .getBalance a => do return .number (← getBalance a)
  | .addBalance a amount => do addBalance a amount; return .done
  | .subBalance a amount => do subBalance a amount; return .done
  | .getNonce a => do return .number (← getNonce a)
  | .setNonce a nonce => do setNonce a nonce; return .done
  | .putContractCode a data => do InMemoryStateAccess.putContractCode a data; return .done
  | .getContractCode a => do return .bytes (← getContractCode a)
  | .getContractCodeSize a => do return .number (← getContractCode a).length
  | .getContractCodeHash a => do return .bytes (← getContractCodeHash crypto a)
  | .getContractStorage a key => do return .bytes (← getContractStorage a key)
  -- the server's value, whatever was written to the cache
  | .getCommittedContractStorage a key => do
      return .bytes (← onServer (StateServerDei.getContractStorage a key))
  | .putContractStorage a key data => do
      InMemoryStateAccess.putContractStorage a key data
      return .done
  | .getBlockHash num => do return .bytes (← onServer (StateServerDei.getBlockHash crypto num))
  -- the three methods have an empty body
  | .checkpoint | .commit | .revert => return .done
  | .saveLog logs => do InMemoryStateAccess.saveLog logs; return .done
  | .hasSuicided a => do return .flag (← InMemoryStateAccess.hasSuicided a)
  | .suicide a => do InMemoryStateAccess.suicide a; return .done

/-- `new CachedReadStateAccess(serverState, accounts)`: an empty cache, then the accounts. -/
def new (accounts : List Nat) : Java Simulation Unit := do
  modifyCache fun _ => .new
  putAll accounts
where
  putAll : List Nat → Java Simulation Unit
    | [] => return ()
    | account :: rest => do
        let a ← .gets fun m => (m.objects account).address
        InMemoryStateAccess.putAccount a account
        putAll rest

end CachedReadStateAccess

/-! ## What the operations do to the server -/

/-- The node behind the simulation is untouched. -/
def SameServer (m m' : Simulation) : Prop := m'.server = m.server

instance : IsPreorder Simulation SameServer where
  refl _ := rfl
  trans _ _ _ h h' := Eq.trans h' h

/-- Ends, with the node left alone. -/
abbrev Answers {α : Type} (m : Java Simulation α) : Prop := Prog.Settles SameServer (fun _ => True) m

instance (account : VmAccount) : Answers (allocate account) := by
  refine ⟨⟨fun m => ?_⟩, ⟨fun _ h => (by cases h), fun _ _ _ h => by cases h⟩⟩
  unfold Prog.wp
  rfl

instance (ref : Nat) (f : VmAccount → VmAccount) : Answers (mutate ref f) := .modify fun _ => rfl

instance (f : InMemory → InMemory) : Answers (modifyCache f) := .modify fun _ => rfl

instance {α : Type} (f : World → α) : Answers (onServer (StateServerDei.read f)) := by
  have hends : Prog.Halts (StateServerDei.read f) :=
    inferInstanceAs (Prog.Ends _ (Prog.gets _))
  refine ⟨.zoom_of_eq ⟨fun s => ?_⟩ fun _ => rfl, inferInstanceAs (Prog.Ends _ (Prog.zoom _ _ _))⟩
  exact Prog.wp_gets (fun s => f (World.start s)) |>.mpr rfl

instance {α : Type} (a : α) : Answers (onServer (pure a)) :=
  inferInstanceAs (Answers (onServer (StateServerDei.read fun _ => a)))

instance (a : Address) : Answers (InMemoryStateAccess.lookup a) := by
  refine .seq inferInstance fun found => ?_
  cases found <;> infer_instance

namespace CachedReadStateAccess

instance (a : Address) : Answers (getAccount a) := by
  unfold getAccount InMemoryStateAccess.getAccount InMemoryStateAccess.createAccount
    InMemoryStateAccess.isAccountExists InMemoryStateAccess.putAccount StateServerDei.getAccount
  infer_instance

instance (a : Address) : Answers (getContractCode a) := by
  unfold getContractCode InMemoryStateAccess.getContractCode InMemoryStateAccess.putContractCode
    StateServerDei.getContractCode
  infer_instance

/-- Every operation answers, and none writes to the server. -/
instance settles_perform (crypto : CryptoLib) (op : StateOp) : Answers (perform crypto op) := by
  cases op <;>
    simp only [perform, isAccountExists, InMemoryStateAccess.isAccountExists,
      StateServerDei.isAccountExists, InMemoryStateAccess.createAccount, accountIsEmpty,
      InMemoryStateAccess.accountIsEmpty, StateServerDei.accountIsEmpty, getBalance, addBalance,
      subBalance, getNonce, setNonce, InMemoryStateAccess.putContractCode, getContractCodeHash,
      getContractStorage, InMemoryStateAccess.getContractStorage,
      InMemoryStateAccess.putContractStorage, StateServerDei.getContractStorage,
      StateServerDei.getBlockHash, InMemoryStateAccess.saveLog, InMemoryStateAccess.hasSuicided,
      InMemoryStateAccess.suicide, InMemoryStateAccess.deleteAccount,
      InMemoryStateAccess.putAccount] <;>
    infer_instance

instance settles_new (accounts : List Nat) : Answers (new accounts) := by
  have hputAll : Answers (new.putAll accounts) := by
    induction accounts with
    | nil => exact inferInstanceAs (Answers (pure ()))
    | cons account rest ih =>
      exact .seq inferInstance fun _ => .seq (inferInstanceAs (Answers (modifyCache _))) fun _ => ih
  exact .seq inferInstance fun _ => hputAll

end CachedReadStateAccess

end GrapeDag
