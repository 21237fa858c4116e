/-
ONE RUNNING CALL FRAME.

`RunState`, `VmContract`, `GasPool`, `VmStack` and `VmMemory`. All sizes are Java `int`s, so
`offset + size` can wrap; `VmMemory` then answers with whatever exception the array operation
underneath throws.
-/
import GrapeDag.State.World
import GrapeDag.Vm.Config

namespace GrapeDag

open Imperative Prog

/-! ## Contracts -/

/-- `ContractRef`: the sender of a message, or a running contract with its own caller. -/
inductive ContractRef where
  | account (address : Address) (value : Int)
  | contract (address : Address) (value : Int) (caller : ContractRef)
  deriving Repr, DecidableEq

namespace ContractRef

def address : ContractRef → Address
  | account a _ => a
  | contract a _ _ => a

def value : ContractRef → Int
  | account _ v => v
  | contract _ v _ => v

def addresses : ContractRef → List Address
  | account a _ => [a]
  | contract a _ caller => a :: caller.addresses

end ContractRef

/-- `VmContract` with its `GasPool`. `input` is `null` while init code runs. -/
structure Contract where
  callerAddr : Address
  caller : ContractRef
  self : Address
  value : Int
  gas : Int
  code : Bytes
  input : Option Bytes
  deriving Repr

namespace Contract

def toRef (c : Contract) : ContractRef := .contract c.self c.value c.caller

/-- `new VmContract(caller, self, value, gas)` with its code set. -/
def new (caller : ContractRef) (self : Address) (value gas : Int) (code : Bytes) : Contract :=
  ⟨caller.address, caller, self, value, gas, code, none⟩

/-- `asDelegate`: take over the caller and the value of the caller's caller. -/
def asDelegate (c : Contract) : Checked Contract :=
  match c.caller with
  | .contract _ _ parent => return { c with callerAddr := parent.address, value := parent.value }
  | .account _ _ => .error .illegalState

end Contract

/-! ## The frame -/

/-- The local variables of `run`, with the state it shares. -/
structure Frame where
  pc : Int
  memory : Bytes
  memoryWordCount : Int
  highestMemCost : Int
  /-- top first -/
  stack : List Word
  contract : Contract
  world : World

/-- The result of an instruction or a precompile: a status and an output that may be `null`. -/
structure FnResult where
  status : VmStatus
  output : Option Bytes
  deriving Repr, DecidableEq

def FnResult.hasError (r : FnResult) : Bool := r.status.isFailure

namespace Frame

variable {α : Type}

/-- Run a method of the state manager or the VM from inside a frame. -/
def onWorld (m : Java World α) : Java Frame α := .zoom Frame.world (fun w f => { f with world := w }) m

variable {f : Frame} {E : JavaException → Frame → Prop}

lemma wp_onWorld {m : Java World α} {Q : α → Frame → Prop} : wp (onWorld m) Q E f ↔
      wp m (fun a w => Q a { f with world := w }) (fun e w => E e { f with world := w })
        f.world := wp_zoom

/-- `status(..)`, `success()` and `success(bytes)` of `Instructions` -/
def status (st : VmStatus) : Java Frame FnResult := return ⟨st, none⟩

def success : Java Frame FnResult := return ⟨.success, none⟩

/-! ## Gas -/

/-- `GasPool.useGas`: refuses when there is too little, else subtracts WHATEVER is asked. -/
def useGas (requestedGas : Int) : Java Frame Bool := fun f =>
  if f.contract.gas < requestedGas then .ok false f
  else .ok true { f with
    contract := { f.contract with gas := wrap64 (f.contract.gas - requestedGas) } }

lemma wp_useGas {requestedGas : Int} {Q : Bool → Frame → Prop} : wp (useGas requestedGas) Q E f ↔
      (f.contract.gas < requestedGas → Q false f) ∧
      (requestedGas ≤ f.contract.gas → Q true { f with
        contract := { f.contract with gas := wrap64 (f.contract.gas - requestedGas) } }) := by
  unfold wp useGas
  by_cases h : f.contract.gas < requestedGas
  · simp [h, not_le.mpr h]
  · simp [h, not_lt.mp h]

def addGas (value : Int) : Java Frame Unit :=
  .modify fun f => { f with
    contract := { f.contract with gas := wrap64 (f.contract.gas + value) } }

/-! ## The stack -/

def maxHeight : Nat := 1024

def push (w : Word) : Java Frame Unit := do
  if maxHeight ≤ (← .gets stack).length then .raise (.vm .stackOverflow)
  .modify fun f => { f with stack := w :: f.stack }

lemma push_apply {w : Word} (h : f.stack.length < 1024) :
    push w f = .ok () { f with stack := w :: f.stack } := by
  unfold push
  rw [gets_bind, if_neg (by unfold maxHeight; omega)]
  rfl

/-- `push(Math256.uint256(bytes))`: more than 32 bytes are refused. -/
def pushBytes (bs : Bytes) : Java Frame Unit :=
  if 32 < bs.length then .raise (.vm .argumentOutOfRange) else push (.ofBytes bs)

def pop : Java Frame Word := do
  match ← .gets stack with
  | [] => .raise (.vm .stackUnderflow)
  | w :: rest => do
      .modify fun f => { f with stack := rest }
      return w

lemma pop_apply {w : Word} {rest : List Word} (h : f.stack = w :: rest) :
    pop f = .ok w { f with stack := rest } := by
  unfold pop
  rw [gets_bind, h]
  rfl

lemma pop_bind {w : Word} {rest : List Word} {α : Type} {k : Word → Java Frame α}
    (h : f.stack = w :: rest) : (pop >>= k) f = k w { f with stack := rest } :=
  bind_of_ok (pop_apply h)

lemma wp_pop {Q : Word → Frame → Prop} : wp pop Q E f ↔ (f.stack = [] → E (.vm .stackUnderflow) f) ∧
      ∀ w rest, f.stack = w :: rest → Q w { f with stack := rest } := by
  unfold pop
  rw [wp_bind, wp_gets]
  cases hs : f.stack with
  | nil | cons w rest => simp

def peek (num : Nat) : Java Frame (List Word) := do
  let stack ← .gets Frame.stack
  if stack.length < num then .raise (.vm .stackUnderflow)
  return stack.take num

lemma peek_apply {n : Nat} (h : n ≤ f.stack.length) : peek n f = .ok (f.stack.take n) f := by
  unfold peek
  rw [gets_bind, if_neg (by omega)]
  rfl

def swap (position : Nat) : Java Frame Unit := do
  let stack ← .gets Frame.stack
  if stack.length ≤ position then .raise (.vm .stackUnderflow)
  .modify fun f => { f with
    stack := (stack.set 0 (stack.getD position 0)).set position (stack.getD 0 0) }

def dup (position : Nat) : Java Frame Unit := do
  let stack ← .gets Frame.stack
  if stack.length < position then .raise (.vm .stackUnderflow)
  push (stack.getD (position - 1) 0)

/-! ## Memory -/

/-- `VmMemory.expand`: round up to words, in `int` arithmetic. -/
def expand (offset size : Int) : Java Frame Unit := do
  if size = 0 then return ()
  let newSize := ceilTo (wrap32 (offset + size)) 32
  let store ← .gets memory
  if wrap32 (newSize - store.length) > 0 then
    if wrap32 (newSize - 2147483639) > 0 then .raise (.vm .outOfMemory)
    let store ← rightPadBytes store newSize
    .modify fun f => { f with memory := store }

def memoryWrite (offset size : Int) (data : Option Bytes) : Java Frame Unit := do
  if size = 0 then return ()
  expand offset size
  match data with
  | none => return ()
  | some data =>
      let store ← .gets memory
      if (data.length : Int) < size then .raise (.vm .argumentOutOfRange)
      if wrap32 (offset + size) > store.length then .raise (.vm .memoryCapacityExceeds)
      if offset < 0 ∨ size < 0 ∨ offset + size > store.length then .raise .indexOutOfBounds
      .modify fun f => { f with
        memory := store.take offset.toNat ++ data.take size.toNat ++ store.drop (offset + size).toNat }

def memoryRead (offset size : Int) : Java Frame Bytes := do
  if size = 0 then return []
  expand offset size
  let store ← .gets memory
  if size < 0 then .raise .negativeArraySize
  if offset < 0 ∨ offset + size > store.length then .raise .indexOutOfBounds
  return (store.drop offset.toNat).take size.toNat

/-! ## Code -/

/-- `VmContract.getOPCode`; positions past the end read as `STOP`. -/
def getOPCode (pc : Int) : Java Frame UInt8 := do
  let code := (← .gets contract).code
  if pc < code.length then
    checkElementIndex (wrap32 pc) code.length
    return code.getD (wrap32 pc).toNat 0
  else return 0

/-- `OpCodes.getValidJumps`: 1 marks a `JUMPDEST`, 2 a `BEGINSUB`, and push data is skipped; `skip`
counts the data bytes still to come. -/
def getValidJumps : (skip : Nat) → Bytes → List Nat
  | _, [] => []
  | skip + 1, _ :: code => 0 :: getValidJumps skip code
  | 0, opcode :: code =>
      if 0x60 ≤ opcode.toNat ∧ opcode.toNat ≤ 0x7f then
        0 :: getValidJumps (opcode.toNat - 0x5f) code
      else if opcode = 0x5b then 1 :: getValidJumps 0 code
      else if opcode = 0x5c then 2 :: getValidJumps 0 code
      else 0 :: getValidJumps 0 code

/-- `VmContract.isValidJumpDest`; the index is the destination cast to `int`. -/
def isValidJumpDest (dest : Int) (jumpKind : Nat) : Java Frame Bool := do
  let code := (← .gets contract).code
  if dest ≥ code.length then return false
  checkElementIndex (wrap32 dest) code.length
  return (getValidJumps 0 code).getD (wrap32 dest).toNat 0 = jumpKind

end Frame

end GrapeDag
