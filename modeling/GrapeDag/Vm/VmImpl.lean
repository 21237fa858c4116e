/-
CALL FRAMES AND CREATE FRAMES.

`VmImpl.java`. Calls recurse through the interpreter, and the recursion is cut by fuel: `vm m
n` is the VM in which frames nest at most `n` deep and a frame turns its loop at most `n` times;
a run that needs more has no outcome, and more fuel never changes an outcome (`vm_below`).
-/
import GrapeDag.Vm.Interpreter

namespace GrapeDag

open Imperative Prog

abbrev Runner := Contract → (input : Option Bytes) → (readOnly : Bool) → Java World (FnResult × Contract)

/-! ## The end of a frame -/

/-- `endStateTransaction`; it answers with the result, whose gas an error has reset. -/
def endStateTransaction (m : Machine) (result : VmResult) : Java World VmResult := do
  if result.hasError then
    World.revert
    return if result.status = .revert then result else { result with gas := 0 }
  else
    if result.eventLog.length > 0 then World.saveLog m.txHash result.eventLog
    World.commit
    return result

def frameLog (st : VmStatus) : Java World (List Log) := do
  if st.isFailure then return [] else .gets World.eventLog

/-- Run a contract; the checked exception of the interpreter becomes a `VmException`. -/
def runContract (run : Runner) (contract : Contract) (input : Option Bytes)
    (readOnly : Bool) : Java World (FnResult × Contract) :=
  Prog.catching (run contract input readOnly) fun
    | .interpreter st => .raise (.vm st)
    | e => .raise e

/-! ## Calls -/

/-- The contract a call runs: its own storage for `CALL` and `STATICCALL`, the caller's for
`CALLCODE` and `DELEGATECALL`. -/
def callContract (a : CallArgs) (code : Bytes) : Checked Contract :=
  match a.kind with
  | .call | .staticCall => return .new a.caller a.contractAddress a.amount a.gas code
  | .callCode => return .new a.caller a.caller.address a.amount a.gas code
  | .delegateCall => (Contract.new a.caller a.caller.address a.amount a.gas code).asDelegate

/-- The checks that calls and creates begin with: depth, then funds. The amount is the SIGNED
reading of the value word. -/
def refusal (m : Machine) (caller : Address) (amount : Int) (w : World) : Option VmStatus :=
  if w.depth > m.cfg.callCreateDepth then some .callDepthExceeded
  else if amount ≠ 0 ∧ !w.canTransfer caller amount then some .insufficientBalance
  else none

lemma refusal_eq_none {m : Machine} {caller : Address} {amount : Int} {w : World} :
    refusal m caller amount w = none ↔
      w.depth ≤ m.cfg.callCreateDepth ∧ (amount ≠ 0 → amount ≤ w.getBalance caller) := by
  unfold refusal World.canTransfer
  split
  · simp only [reduceCtorEq, false_iff]
    omega
  · split
    · simp_all
    · simp_all

/-- What `CALL` does on entry. The answer is true when the call returns immediately: the account
does not exist and there is nothing to transfer. -/
def enterCall (m : Machine) (a : CallArgs) : Java World Bool := do
  if a.kind ≠ .call then return false
  if !(← .gets fun w => w.isAccountExists a.contractAddress) then
    if !isPrecompiled m.cfg a.contractAddress ∧ a.amount = 0 then return true
    World.createAccount a.contractAddress
  if a.amount ≠ 0 then World.transfer a.caller.address a.contractAddress a.amount
  return false

/-- The precompile, the code, or nothing, at the called address. -/
def callBody (m : Machine) (run : Runner) (a : CallArgs) : Java World VmResult := do
  if isPrecompiled m.cfg a.contractAddress then
    let p ← asPrecompiled m.cfg a.contractAddress
    let (rc, gas) ← runPrecompiledContract m p a.input a.gas
    return ⟨rc.status, gas, [], rc.output, some a.contractAddress⟩
  else
    let data ← .gets fun w => w.getContractCode a.contractAddress
    if data.length = 0 then return .success a.gas a.contractAddress
    else
      let contract ← callContract a data
      let (rc, contract) ← runContract run contract (some a.input) (a.kind = .staticCall)
      let eventLog ← frameLog rc.status
      return ⟨rc.status, contract.gas, eventLog, rc.output, some a.contractAddress⟩

/-- `VmImpl.executeCall`. The immediate return leaves the checkpoint OPEN. -/
def executeCall (m : Machine) (run : Runner) (a : CallArgs) : Java World VmResult := do
  match ← .gets (refusal m a.caller.address a.amount) with
  | some st => return .error st a.gas a.contractAddress
  | none =>
      World.checkpoint
      if ← enterCall m a then return .success a.gas a.contractAddress
      let result ← callBody m run a
      endStateTransaction m result

/-! ## Creates -/

/-- The address of the new contract; `CREATE` derives it from the CURRENT nonce. -/
def createTarget (m : Machine) (a : CreateArgs) (w : World) : Address :=
  match a.kind with
  | .create => m.crypto.createAddress a.caller.address (w.getNonce a.caller.address)
  | .create2 => m.crypto.createAddress2 a.caller.address a.salt a.code

/-- The checks on the output of init code, and the storing of the code. An output that is `null`
(init code that ran into `STOP`) throws. -/
def storeCode (m : Machine) (contractAddress : Address) (rc : FnResult) (gas : Int) :
    Java World (FnResult × Int) := do
  if rc.hasError then return (rc, gas)
  match rc.output with
  | none => .raise .nullPointer
  | some output =>
      if output.length > m.cfg.maxCodeSize then
        return (⟨.codesizeExceedsMaximum, some []⟩, gas)
      if output.head? = some 0xEF then return (⟨.invalidContractCode, some []⟩, gas)
      let createDataPrice ← m.cfg.lookForGasPrice .createData
      if gas < createDataPrice then return (⟨.codestoreOutOfGas, some []⟩, gas)
      World.putContractCode m.crypto contractAddress output
      return (rc, wrap64 (gas - createDataPrice))

/-- The new account, OVER whatever stood at its address, and its endowment. -/
def enterCreate (a : CreateArgs) (contractAddress : Address) : Java World Unit := do
  World.createAccount contractAddress
  if a.amount ≠ 0 then World.transfer a.caller.address contractAddress a.amount

def createBody (m : Machine) (run : Runner) (a : CreateArgs) (contractAddress : Address) :
    Java World VmResult := do
  enterCreate a contractAddress
  let contract := Contract.new a.caller contractAddress a.amount a.gas a.code
  let (rc, contract) ← runContract run contract none false
  let (rc, gas) ← storeCode m contractAddress rc contract.gas
  let eventLog ← frameLog rc.status
  return ⟨rc.status, gas, eventLog, rc.output, some contractAddress⟩

/-- `VmImpl.create` and `create2`. The caller's nonce is raised BEFORE the checkpoint. -/
def create (m : Machine) (run : Runner) (a : CreateArgs) : Java World VmResult := do
  let w ← .gets id
  let contractAddress := createTarget m a w
  match refusal m a.caller.address a.amount w with
  | some st => return .error st a.gas contractAddress
  | none =>
      let nonce := w.getNonce a.caller.address
      if wrap64 (nonce + 1) < nonce then
        return .error .nonceUnitOverflow a.gas contractAddress
      World.setNonce a.caller.address (nonce + 1)
      let w ← .gets id
      if w.getNonce contractAddress ≠ 0 ∨ w.getContractCodeHash contractAddress ≠ keccak256Null then
        return .error .contractAddressCollision a.gas contractAddress
      World.checkpoint
      let result ← createBody m run a contractAddress
      endStateTransaction m result

/-! ## The knot -/

def framesOver (m : Machine) (run : Runner) : Calls := ⟨executeCall m run, create m run⟩

def Calls.diverging : Calls := ⟨fun _ => .diverging, fun _ => .diverging⟩

def vm (m : Machine) : Nat → Calls
  | 0 => .diverging
  | n + 1 => framesOver m (run (turn m (vm m n)) n)

/-! ## The VM with assertions -/

/-- A condition on the state before each instruction and at the entry of each frame; a strict guard
also demands that no step throws in the state it is taken in. -/
structure Guard where
  instruction : Frame → Bool
  call : CallArgs → World → Bool
  create : CreateArgs → World → Bool
  strict : Bool := false

/-- Take a step under the condition `p`. -/
def Guard.step {σ α : Type} (g : Guard) (p : σ → Bool) (m : Java σ α) : Java σ α := do
  Prog.asserting p
  if g.strict then Prog.strict m else m

/-- A turn of the loop, under the condition on instructions. -/
def Guard.turn (g : Guard) (m : Machine) (calls : Calls) : Java Frame (Option FnResult) :=
  g.step g.instruction (GrapeDag.turn m calls)

def Guard.frames (g : Guard) (calls : Calls) : Calls where
  executeCall a := g.step (g.call a) (calls.executeCall a)
  create a := g.step (g.create a) (calls.create a)

section

variable {σ α : Type} {g : Guard} {p : σ → Bool} {m : Java σ α} {Q : α → σ → Prop}
  {E : JavaException → σ → Prop} {s : σ}

lemma Guard.wp_step (h : p s = true → wp m Q E s) : wp (g.step p m) Q E s := by
  unfold Guard.step
  rw [wp_bind, wp_asserting]
  intro hp
  rw [wp_ite, wp_strict]
  exact ⟨fun _ => (h hp).returned (fun _ _ h' => h'), fun _ => h hp⟩

lemma Guard.step_ne_err (hg : g.strict = true) (e : JavaException) (s' : σ) : g.step p m s ≠ .err e s' := by
  intro herr
  have hwp : wp (g.step p m) (fun _ _ => True) (fun _ _ => False) s := by
    unfold Guard.step
    rw [wp_bind, wp_asserting, if_pos hg, wp_strict]
    exact fun _ => .always fun _ _ => trivial
  exact hwp.of_err herr

end

/-- The VM that checks the guard before each instruction and each frame, at all depths, and has no
outcome where it fails. A run of it that ends IS a run of `vm` in which every step met the guard
(`vmGuarded_below`). -/
def vmGuarded (m : Machine) (g : Guard) : Nat → Calls
  | 0 => .diverging
  | n + 1 => g.frames (framesOver m (run (g.turn m (vmGuarded m g n)) n))

def Guard.any : Guard := ⟨fun _ => true, fun _ _ => true, fun _ _ => true, false⟩

lemma Guard.step_any {σ α : Type} (p : Java σ α) : Guard.any.step (fun _ => true) p = p := by
  funext s
  rfl

lemma vmGuarded_any (m : Machine) : ∀ n, vmGuarded m .any n = vm m n
  | 0 => rfl
  | n + 1 => by
      have hturn : Guard.any.turn m (vmGuarded m .any n) = turn m (vm m n) := by
        rw [vmGuarded_any m n]
        exact Guard.step_any _
      unfold vmGuarded
      rw [hturn]
      congr 1

/-- Every step of the run of a call frame, at every depth, meets the guard: the checking VM has the
outcome of the VM. -/
def CallMeets (m : Machine) (g : Guard) (n : Nat) (a : CallArgs) (w : World) : Prop :=
  (vmGuarded m g n).executeCall a w = (vm m n).executeCall a w

/-- The guard makes no difference to a create. -/
def CreateMeets (m : Machine) (g : Guard) (n : Nat) (a : CreateArgs) (w : World) : Prop :=
  (vmGuarded m g n).create a w = (vm m n).create a w

/-! ## A sample machine -/

def Machine.sample : Machine := ⟨configAt 1700000000, .sample, pinTxContext 1 1700000000 7, 1, 1, []⟩

def World.sampleWith (balance : Int) (code : Bytes) : World :=
  .start (.holding [(1, .holding 100 []), (500, .holding balance code)])

def CallArgs.sample (gas amount : Int) : CallArgs := ⟨.call, .account 1 0, 500, [], gas, amount⟩

end GrapeDag
