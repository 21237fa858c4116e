/-
THE INTERPRETER LOOP.

`BaseInterpreter.java`. An exception inside the loop leaves `run` as an
`InterpreterExecutionException`; the `finally` block restores the depth and the read-only flag
on every path.
-/
import GrapeDag.Vm.Precompiled

namespace GrapeDag

open Imperative GrapeDag.Frame

/-! ## One instruction -/

/-- The `try` block around a gas handler: an overflow is out of gas, a `VmException` becomes its
status, and any other exception goes through. -/
def dynamicFee (handler : Java Frame Int) (cost : Int) : Java Frame (Except VmStatus Int) :=
  .catching (do
      let fee ← handler
      let _ ← addExact cost fee
      return .ok fee) fun
    | .arithmetic => return .error .outOfGas
    | .vm st => return .error st
    | e => .raise e

/-- Pay for an instruction; `none` when it is paid for, else the status it ends with. -/
def charge (m : Machine) (op : Op) : Java Frame (Option VmStatus) := do
  let gasFee := m.cfg.staticFee op
  if ← useGas gasFee then
    match gasHandler m op with
    | none => return none
    | some handler =>
        match ← dynamicFee handler gasFee with
        | .error st => return some st
        | .ok fee => return if ← useGas fee then none else some .outOfGas
  else return some .outOfGas

def runStep (m : Machine) (calls : Calls) (vmCode : UInt8) : Java Frame FnResult :=
  match m.cfg.locateOpCode vmCode with
  | none => status .invalidInstruction
  | some op => do
      match ← charge m op with
      | some st => status st
      | none => locateFn m calls op

/-- One turn of the main loop: `some` result when the loop is left. -/
def turn (m : Machine) (calls : Calls) : Java Frame (Option FnResult) := do
  let opCode ← getOPCode (← .gets Frame.pc)
  let rc ← runStep m calls opCode
  if rc.hasError ∨ rc.status = .stopToken then return some rc
  .modify fun f => { f with pc := wrap64 (f.pc + 1) }
  return none

/-! ## A run of the interpreter -/

def Frame.start (contract : Contract) (w : World) : Frame :=
  { pc := 0, memory := [], memoryWordCount := 0, highestMemCost := 0, stack := [],
    contract := contract, world := w }

def inFrame {α : Type} (contract : Contract) (p : Java Frame α) :
    Java World (α × Contract) := fun w =>
  match p (Frame.start contract w) with
  | .ok a f => .ok (a, f.contract) f.world
  | .err e f => .err e f.world
  | .diverge => .diverge

@[simp] lemma wp_inFrame {α : Type} {contract : Contract} {p : Java Frame α}
    {Q : α × Contract → World → Prop} {E : JavaException → World → Prop} {w : World} :
    Prog.wp (inFrame contract p) Q E w ↔
      Prog.wp p (fun a f => Q (a, f.contract) f.world) (fun e f => E e f.world) (Frame.start contract w) := by
  unfold Prog.wp inFrame
  cases p (Frame.start contract w) <;> exact Iff.rfl

lemma below_inFrame {α : Type} {contract : Contract} {p q : Java Frame α}
    (h : Prog.Below p q) : Prog.Below (inFrame contract p) (inFrame contract q) := by
  intro w
  simp only [inFrame]
  rcases h (Frame.start contract w) with hd | he
  · left; rw [hd]
  · right; rw [he]

/-- The main loop of `run`, with the stop token cleared at its end. -/
def mainLoop (step : Java Frame (Option FnResult)) (fuel : Nat) : Java Frame FnResult := do
  let rc ← Prog.loop step fuel
  return if rc.status = .stopToken then ⟨.success, rc.output⟩ else rc

def runCode (step : Java Frame (Option FnResult)) (fuel : Nat) (contract : Contract)
    (input : Option Bytes) : Java World (FnResult × Contract) :=
  if contract.code.length = 0 then return (⟨.success, some []⟩, contract)
  else Prog.catching (inFrame { contract with input := input } (mainLoop step fuel))
    fun _ => .raise (.interpreter .internalError)

def leaveRun (resetReadonly : Bool) : Java World Unit := do
  World.leave
  if resetReadonly then .modify fun w => { w with readOnly := false }

/-- `BaseInterpreter.run`; `step` is one turn of the main loop. -/
def run (step : Java Frame (Option FnResult)) (fuel : Nat) (contract : Contract)
    (input : Option Bytes) (readOnly : Bool) : Java World (FnResult × Contract) := do
  World.enter
  let resetReadonly := readOnly && !(← .gets World.readOnly)
  if resetReadonly then .modify fun w => { w with readOnly := true }
  World.clearReturnData
  Prog.ensuring (runCode step fuel contract input) (leaveRun resetReadonly)

end GrapeDag
