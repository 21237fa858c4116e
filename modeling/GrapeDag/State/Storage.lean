/-
THE GO STATE STORE.

`src/vm/server.go`: the in-memory account store with its undo log, and the gRPC handlers the VM
reaches it through. The Go maps are keyed by the hex text of addresses and slot keys. A Go
function that returns an error keeps what it wrote before; a panic is an error too.
-/
import GrapeDag.Lib.FinMap
import GrapeDag.Lib.Journal
import GrapeDag.Commons.Math256

namespace GrapeDag

open Imperative Journalled

/-! ## Data -/

/-- `StoredAccount`. The texts are kept as what they encode: decimal balance and nonce as integers of
any size, hex as bytes. -/
structure StoredAccount where
  balance : Int
  nonce : Int
  codeHash : Bytes
  code : Bytes
  deriving Repr, DecidableEq

/-- The account `CreateAccount` stores, and `putValue` for an unknown address. -/
def StoredAccount.blank : StoredAccount := ⟨0, 0, [], []⟩

/-- `Modification`: the slot value, or the account, before a write. An account that did not exist
is recorded with an empty nonce text, here `none`. -/
inductive Modification where
  | mapping (address : Address) (key : Word) (value : Bytes)
  | account (address : Address) (accountState : Option StoredAccount)
  deriving Repr, DecidableEq

/-- An event as the VM emits it (`Log.java`, `pb.Log`). -/
structure Log where
  contractAddress : Address
  topics : List Word
  data : Bytes
  block : Int
  deriving Repr, DecidableEq

/-- A stored `Log`: the event with the hash of the transaction that was executing. -/
structure StoredLog where
  log : Log
  transactionHash : Bytes
  deriving Repr, DecidableEq

/-- The Go store; a checkpoint is a number of modifications. -/
structure Storage where
  mappings : FinMap Address (FinMap Word Bytes)
  accounts : FinMap Address StoredAccount
  logs : FinMap Address (List StoredLog)
  checkPoints : List Nat
  modifications : List Modification
  collectDiffs : Bool
  accountDiffs : FinMap Address StoredAccount
  mappingDiffs : FinMap (Address × Word) Bytes
  /-- the batches handed to `TriggerCallbacks`, oldest first -/
  triggered : List (List StoredLog)

def Storage.new : Storage := ⟨∅, ∅, ∅, [], [], false, ∅, ∅, []⟩

/-- `emptyArray`: what an absent slot reads as. -/
def emptyArray : Bytes := List.replicate 32 0

inductive GoError where
  | error | panic
  deriving Repr, DecidableEq

/-- A Go function over the mutable state `σ`. -/
abbrev Go (σ α : Type) := Prog GoError σ α

namespace Storage

/-! ## The store -/

def getAccount (s : Storage) (address : Address) : Option StoredAccount := s.accounts.lookup address

def rawValue (mappings : FinMap Address (FinMap Word Bytes)) (address : Address) (key : Word) : Bytes :=
  ((mappings.lookup address).bind (·.lookup key)).getD emptyArray

/-- `getValue`, without the flag that tells an absent slot from a zero one. -/
def getValue (s : Storage) (address : Address) (key : Word) : Bytes :=
  match s.getAccount address with
  | none => emptyArray
  | some _ => rawValue s.mappings address key

def setMapping (mappings : FinMap Address (FinMap Word Bytes)) (address : Address)
    (key : Word) (value : Bytes) : FinMap Address (FinMap Word Bytes) :=
  mappings.insert address (((mappings.lookup address).getD ∅).insert key value)

def putAccount (address : Address) (account : StoredAccount) (s : Storage) : Storage :=
  let known := (s.mappings.lookup address).isSome
  { s with
    accounts := s.accounts.insert address account
    accountDiffs :=
      if s.collectDiffs then s.accountDiffs.insert address account else s.accountDiffs
    modifications := .account address (s.getAccount address) :: s.modifications
    mappings := if known then s.mappings else s.mappings.insert address ∅
    logs := if known then s.logs else s.logs.insert address [] }

/-- `putValue`. A previous value that does not exist is journalled as the empty one. -/
def putValue (address : Address) (key : Word) (value : Bytes) (s : Storage) : Storage :=
  let s := if (s.getAccount address).isSome then s else putAccount address .blank s
  { s with
    modifications := .mapping address key (rawValue s.mappings address key) :: s.modifications
    mappings := setMapping s.mappings address key value
    mappingDiffs :=
      if s.collectDiffs then s.mappingDiffs.insert (address, key) value else s.mappingDiffs }

def putLog (txHash : Bytes) (l : Log) : Go Storage Unit := do
  let account ← .gets (·.getAccount l.contractAddress)
  match account with
  | none => .raise .error
  | some _ =>
      .modify fun s => { s with
        logs := s.logs.insert l.contractAddress (s.logs.getD l.contractAddress [] ++ [⟨l, txHash⟩]) }

def putEach (txHash : Bytes) : List Log → Go Storage Unit
  | [] => return ()
  | l :: ls => do putLog txHash l; putEach txHash ls

/-- `putLogs`: appends one log after the other and stops at the first log of an unknown account,
keeping what was appended before it. -/
def putLogs (txHash : Bytes) (logs : List Log) : Go Storage Unit :=
  match logs with
  | [] => .raise .error
  | _ => do
      putEach txHash logs
      .modify fun s => { s with triggered := s.triggered ++ [logs.map (⟨·, txHash⟩)] }

def checkpoint (s : Storage) : Storage := { s with checkPoints := s.modifications.length :: s.checkPoints }

/-- One turn of the loop of `revert`. `putValue` creates the mapping of a slot before it journals
the slot and no mapping is ever removed, so the write finds its mapping. -/
def revertOne (s : Storage) (m : Modification) : Storage :=
  match m with
  | .mapping address key value =>
      { s with
        mappings := setMapping s.mappings address key value
        mappingDiffs :=
          if s.collectDiffs then
            if emptyArray = value then s.mappingDiffs.erase (address, key)
            else s.mappingDiffs.insert (address, key) value
          else s.mappingDiffs }
  | .account address none =>
      { s with
        accounts := s.accounts.erase address
        accountDiffs :=
          if s.collectDiffs then s.accountDiffs.erase address else s.accountDiffs }
  | .account address (some account) =>
      { s with
        accounts := s.accounts.insert address account
        accountDiffs :=
          if s.collectDiffs then s.accountDiffs.insert address account else s.accountDiffs }

/-- `revert`; it panics without a checkpoint. -/
def revert : Go Storage Unit := fun s =>
  match s.checkPoints with
  | [] => .err .panic s
  | c :: rest =>
      if c ≤ s.modifications.length then
        let count := s.modifications.length - c
        .ok () { (s.modifications.take count).foldl revertOne s with
          modifications := s.modifications.drop count
          checkPoints := rest }
      else .err .panic s

/-- `commit` only forgets the checkpoint; it panics without one. -/
def commit : Go Storage Unit := fun s =>
  match s.checkPoints with
  | [] => .err .panic s
  | _ :: rest => .ok () { s with checkPoints := rest }

/-! ## The gRPC handlers -/

/-- `CreateAccount` overwrites whatever is stored at the address. -/
def createAccount (address : Address) : Go Storage Unit := .modify (putAccount address .blank)

def updateAccount (address : Address) (f : StoredAccount → StoredAccount) : Go Storage Unit := do
  match ← .gets (·.getAccount address) with
  | none => .raise .error
  | some account => .modify (putAccount address (f account))

lemma wp_updateAccount {address : Address} {f : StoredAccount → StoredAccount}
    {Q : Unit → Storage → Prop} {E : GoError → Storage → Prop} {s : Storage} :
    Prog.wp (updateAccount address f) Q E s ↔ (s.getAccount address = none → E .error s) ∧
      (∀ account, s.getAccount address = some account → Q () (putAccount address (f account) s)) := by
  unfold updateAccount
  rw [Prog.wp_bind, Prog.wp_gets]
  cases s.getAccount address with
  | none | some account => simp

lemma updateAccount_ok {address : Address} {account : StoredAccount} {s : Storage}
    (h : s.getAccount address = some account) (f : StoredAccount → StoredAccount) :
    updateAccount address f s = .ok () (putAccount address (f account) s) := by
  unfold updateAccount
  rw [Prog.bind_apply, Prog.gets_apply]
  simp only [h]
  rfl

/-- `keccak256Hasher.Digest(data)`: the hasher is never fed `data`, so the digest is that of the
empty string whatever the code is. -/
def digest (keccak256 : Bytes → Bytes) (_data : Bytes) : Bytes := keccak256 []

def putContractCode (keccak256 : Bytes → Bytes) (address : Address) (bytecode : Bytes) : Go Storage Unit :=
  updateAccount address fun a => { a with code := bytecode, codeHash := digest keccak256 bytecode }

def addBalance (address : Address) (amount : Int) : Go Storage Unit :=
  updateAccount address fun a => { a with balance := a.balance + amount }

def subBalance (address : Address) (amount : Int) : Go Storage Unit :=
  updateAccount address fun a => { a with balance := a.balance - amount }

def setNonce (address : Address) (nonce : Int) : Go Storage Unit :=
  updateAccount address fun a => { a with nonce := wrap64 nonce }

end Storage

end GrapeDag
