/-
THE OPCODE FUNCTIONS.

`Instructions.java`, one definition per factory function under its source name. The call and
create instructions take the VM's entry points as a parameter (`Calls`); each is cut in two
around the nested frame (`prepareCall` / `finishCall`, `prepareCreate` / `finishCreate`).
-/
import GrapeDag.Vm.Frame

namespace GrapeDag

open Imperative GrapeDag.Frame

/-! ## The environment of an instruction -/

structure BlockContext where
  blockNumber : Int
  coinbase : Address
  timestamp : Int
  prevRandao : Bytes
  gasLimit : Int
  baseFeePerGas : Int
  deriving Repr

/-- `PinTxContext`: the block context the server builds from a pin header. -/
def pinTxContext (pinTxNumber pinTxTimestamp : Int) (coinbaseAccount : Address) : BlockContext :=
  ⟨pinTxNumber, coinbaseAccount, pinTxTimestamp, emptyArray, 10000000, 10⟩

/-- What is fixed while a message runs: the configuration, the libraries, the block, the sender and
gas price of the message, and the hash of the executing transaction. -/
structure Machine where
  cfg : ChainConfig
  crypto : CryptoLib
  block : BlockContext
  origin : Address
  gasPrice : Int
  txHash : Bytes

structure VmResult where
  status : VmStatus
  gas : Int
  eventLog : List Log
  output : Option Bytes
  contract : Option Address
  deriving Repr, DecidableEq

namespace VmResult

def hasError (r : VmResult) : Bool := r.status.isFailure

def isSuccess (r : VmResult) : Bool := !r.hasError

def error (st : VmStatus) (gas : Int) (contract : Option Address) : VmResult := ⟨st, gas, [], none, contract⟩

def success (gas : Int) (contract : Address) : VmResult := ⟨.success, gas, [], none, some contract⟩

end VmResult

/-- The arguments of `VmImpl.executeCall`. -/
structure CallArgs where
  kind : CallKind
  caller : ContractRef
  contractAddress : Address
  input : Bytes
  gas : Int
  amount : Int

/-- The arguments of `VmImpl.create` and, with the salt, of `VmImpl.create2`. -/
structure CreateArgs where
  kind : CreateKind
  caller : ContractRef
  code : Bytes
  gas : Int
  amount : Int
  salt : Word

/-- The entry points of `VmImpl` that instructions call. -/
structure Calls where
  executeCall : CallArgs → Java World VmResult
  create : CreateArgs → Java World VmResult

/-! ## Families -/

def unaryOp (f : Word → Word) : Java Frame FnResult := do
  let x ← pop
  push (f x)
  success

def binaryOp (f : Word → Word → Word) : Java Frame FnResult := do
  let x ← pop
  let y ← pop
  push (f x y)
  success

def ternaryOp (f : Word → Word → Word → Word) : Java Frame FnResult := do
  let x ← pop
  let y ← pop
  let z ← pop
  push (f x y z)
  success

def pushWord (g : Frame → Word) : Java Frame FnResult := do
  push (← .gets g)
  success

def pushArray (g : Frame → Bytes) : Java Frame FnResult := do
  pushBytes (← .gets g)
  success

def copyOp (source : Java Frame (Option Bytes)) : Java Frame FnResult := do
  let memOffset := (← pop).intValue
  let dataOffset := (← pop).intValueSafe
  let length := (← pop).intValue
  let data ← slicePadded (← source) dataOffset length
  memoryWrite memOffset length (some data)
  success

/-- The jump part of `JUMP` and `JUMPI`; the interpreter loop adds one to the counter. -/
def jumpTo (pos : Int) : Java Frame FnResult := do
  if ← isValidJumpDest pos 1 then
    .modify fun f => { f with pc := wrap64 (pos - 1) }
    success
  else status .badJumpDestination

/-! ## Arithmetic, comparison and bits -/

def opStop : Java Frame FnResult := status .stopToken

def opAdd := binaryOp Word.add

def opMul := binaryOp Word.mul

def opSub := binaryOp Word.sub

def opDiv := binaryOp Word.div

def opSDiv := binaryOp Word.sdiv

def opMod := binaryOp Word.mod

def opSMod := binaryOp Word.smod

def opAddMod := ternaryOp Word.modadd

def opMulMod := ternaryOp Word.modmul

def opExp (crypto : CryptoLib) : Java Frame FnResult := do
  let base ← pop
  let exponent ← pop
  push (← Word.pow crypto.powFits base exponent)
  success

def opSignExtend := binaryOp fun byteNum number => Word.signExt number byteNum

def opLt := binaryOp fun x y => .ofBool (x.lt y)

def opGt := binaryOp fun x y => .ofBool (x.gt y)

def opSLt := binaryOp fun x y => .ofBool (x.slt y)

def opSGt := binaryOp fun x y => .ofBool (x.sgt y)

def opEq := binaryOp fun x y => .ofBool (x.eq y)

def opIsZero := unaryOp fun x => .ofBool x.isZero

def opAnd := binaryOp fun x y => x &&& y

def opOr := binaryOp fun x y => x ||| y

def opXor := binaryOp fun x y => x ^^^ y

def opNot := unaryOp fun x => ~~~x

def opByte := binaryOp fun pos word => Word.getByte pos.intValueSafe word

def opShl := binaryOp fun shift word => if shift.lt 256 then word.shl shift.toNat else 0

def opShr := binaryOp fun shift word => if shift.lt 256 then word.shr shift.toNat else 0

def opSar := binaryOp fun shift word => word.sar shift

def opSha3 (crypto : CryptoLib) : Java Frame FnResult := do
  let offset := (← pop).intValue
  let size := (← pop).intValue
  if size > 0 then
    let data ← memoryRead offset size
    pushBytes (crypto.keccak256 data)
  else pushBytes keccak256Null
  success

/-! ## The environment -/

def opAddress := pushWord fun f => Address.toWord f.contract.self

/-- `uint256(balance.toByteArray())`, sign byte included. -/
def opBalance : Java Frame FnResult := do
  let address := (← pop).toAddress
  pushBytes (toByteArray (← .gets fun f => f.world.getBalance address))
  success

def opOrigin (m : Machine) := pushWord fun _ => Address.toWord m.origin

def opCaller := pushWord fun f => Address.toWord f.contract.callerAddr

def opCallValue := pushArray fun f => asUnsignedByteArray f.contract.value

def opCallDataLoad : Java Frame FnResult := do
  let offset := (← pop).intValue
  pushBytes (← slicePadded (← .gets (·.contract.input)) offset 32)
  success

def callData : Java Frame Bytes := do
  match ← .gets (·.contract.input) with
  | none => .raise .nullPointer
  | some data => return data

def opCallDataSize : Java Frame FnResult := do
  let data ← callData
  push (.ofLong data.length)
  success

def opCallDataCopy := copyOp (.gets (·.contract.input))

def opCodeSize := pushWord fun f => .ofLong f.contract.code.length

def opCodeCopy := copyOp (.gets fun f => some f.contract.code)

def opGasPrice (m : Machine) := pushArray fun _ => asUnsignedByteArray m.gasPrice

def opExtCodeSize : Java Frame FnResult := do
  let address := (← pop).toAddress
  push (.ofLong (← .gets fun f => (f.world.getContractCode address).length))
  success

def opExtCodeCopy : Java Frame FnResult := do
  let address := (← pop).toAddress
  copyOp (.gets fun f => some (f.world.getContractCode address))

def opReturnDataSize := pushWord fun f => .ofLong f.world.getReturnData.length

/-- Turn an arithmetic exception into a status, as the `try` blocks of `RETURNDATACOPY` and `LOG`
do. -/
def arithmeticAs (st : VmStatus) (m : Java Frame FnResult) : Java Frame FnResult := m.catching fun
    | .arithmetic => status st
    | e => .raise e

def opReturnDataCopy : Java Frame FnResult := arithmeticAs .returnDataOutOfBounds do
    let memOffset := (← pop).intValue
    let dataOffset := (← pop).intValue
    let length := (← pop).intValue
    let stop ← addExactInt dataOffset length
    let returnData ← .gets (·.world.getReturnData)
    if (returnData.length : Int) < stop then return ⟨.returnDataOutOfBounds, none⟩
    let data ← slicePadded (some returnData) dataOffset length
    memoryWrite memOffset length (some data)
    success

def opExtCodeHash : Java Frame FnResult := do
  let address := (← pop).toAddress
  let w ← .gets Frame.world
  if !w.isAccountExists address || w.accountIsEmpty address then push 0
  else pushBytes (w.getContractCodeHash address)
  success

def opBlockHash (m : Machine) : Java Frame FnResult := do
  let num ← pop
  let upper := Word.ofBytes (asUnsignedByteArray m.block.blockNumber)
  let lower := if upper.lt 257 then 0 else upper.sub 256
  if num.gte lower && num.lt upper then
    pushBytes (World.getBlockHash m.crypto num.toInt)
  else push 0
  success

def opCoinBase (m : Machine) := pushWord fun _ => Address.toWord m.block.coinbase

def opTimestamp (m : Machine) := pushWord fun _ => .ofLong m.block.timestamp

def opNumber (m : Machine) := pushArray fun _ => toByteArray m.block.blockNumber

def opDifficulty (m : Machine) := pushArray fun _ => m.block.prevRandao

def opGasLimit (m : Machine) := pushArray fun _ => toByteArray m.block.gasLimit

def opChainId := pushWord fun _ => 2

def opSelfBalance := pushArray fun f => toByteArray (f.world.getBalance f.contract.self)

def opBaseFee (m : Machine) := pushArray fun _ => toByteArray m.block.baseFeePerGas

/-! ## Stack, memory, storage and flow -/

def opPop : Java Frame FnResult := do
  let _ ← pop
  success

def opMLoad : Java Frame FnResult := do
  let offset := (← pop).intValue
  pushBytes (← memoryRead offset 32)
  success

def opMStore : Java Frame FnResult := do
  let offset := (← pop).intValue
  let value := (← pop).bytes
  memoryWrite offset 32 (some value)
  success

def opMStore8 : Java Frame FnResult := do
  let offset := (← pop).intValue
  let value := UInt8.ofNat (← pop).toNat
  memoryWrite offset 1 (some [value])
  success

def opSLoad : Java Frame FnResult := do
  let key ← pop
  pushBytes (← .gets fun f => f.world.getContractStorage f.contract.self key)
  success

def opSStore : Java Frame FnResult := do
  if ← .gets (·.world.readOnly) then status .staticModeViolation
  else do
    let key ← pop
    let value := (← pop).bytes
    let address ← .gets (·.contract.self)
    onWorld (World.putContractStorage address key value)
    success

def opJump : Java Frame FnResult := do
  let pos := (← pop).longValue
  jumpTo pos

def opJumpI : Java Frame FnResult := do
  let pos := (← pop).longValue
  if (← pop).isZero then success else jumpTo pos

def opPc := pushWord fun f => .ofLong f.pc

def opMSize := pushWord fun f => .ofLong f.memory.length

def opGas := pushWord fun f => .ofLong f.contract.gas

def opJumpDest : Java Frame FnResult := success

def opBeginSub : Java Frame FnResult := status .invalidBeginsub

def opReturnSub : Java Frame FnResult := do
  let pos := (← pop).longValue
  .modify fun f => { f with pc := pos }
  success

def opJumpSub : Java Frame FnResult := do
  let pos := (← pop).longValue
  if ← isValidJumpDest pos 2 then
    push (.ofLong pos)
    .modify fun f => { f with pc := pos }
    success
  else status .invalidJumpsub

def opPush0 := pushWord fun _ => 0

/-- `PUSHn`: refused when fewer than `n` bytes follow, except for exactly one missing. -/
def opPush (numToPush : Nat) : Java Frame FnResult := do
  let pc ← .gets Frame.pc
  let code ← .gets (·.contract.code)
  let codeSize : Int := code.length
  let startMin := if pc + 1 < codeSize then pc + 1 else codeSize
  let endMin := if startMin + numToPush < codeSize then startMin + numToPush else codeSize
  if pc + numToPush > codeSize then status .argumentOutOfRange
  else do
    let data ← slice code (← toIntExact startMin) (← toIntExact endMin)
    pushBytes data
    .modify fun f => { f with pc := wrap64 (f.pc + numToPush) }
    return ⟨.success, some data⟩

def opDup (stackDups : Nat) : Java Frame FnResult := do
  dup stackDups
  success

def opSwap (stackPops : Nat) : Java Frame FnResult := do
  swap stackPops
  success

def popTopics : Nat → Java Frame (List Word)
  | 0 => return []
  | n + 1 => do
      let topic ← pop
      return topic :: (← popTopics n)

/-- `LOGn`; `VmImpl.addLog` stamps the event with the block number. -/
def opLog (m : Machine) (topicsCount : Nat) : Java Frame FnResult :=
  arithmeticAs .returnDataOutOfBounds do
    if ← .gets (·.world.readOnly) then status .staticModeViolation
    else do
      let memOffset := (← pop).intValue
      let memSize := (← pop).intValue
      let topics ← popTopics topicsCount
      let data ← memoryRead memOffset memSize
      let address ← .gets (·.contract.self)
      onWorld (World.addLog ⟨address, topics, data, m.block.blockNumber⟩)
      success

def opTLoad : Java Frame FnResult := do
  let key ← pop
  pushBytes (← .gets fun f => f.world.getTransientStorage f.contract.self key)
  success

def opTStore : Java Frame FnResult := do
  if ← .gets (·.world.readOnly) then status .staticModeViolation
  else do
    let key ← pop
    let value := (← pop).bytes
    let address ← .gets (·.contract.self)
    onWorld (World.putTransientStorage address key value)
    success

def opReturn : Java Frame FnResult := do
  let offset := (← pop).intValue
  let size := (← pop).intValue
  return ⟨.stopToken, some (← memoryRead offset size)⟩

def opRevert : Java Frame FnResult := do
  let offset := (← pop).intValue
  let size := (← pop).intValue
  let returnResult ← memoryRead offset size
  onWorld (World.setReturnData (some returnResult))
  return ⟨.revert, some returnResult⟩

/-- The balance is added to the beneficiary; `suicide` does not take it away. -/
def opSelfDestruct : Java Frame FnResult := do
  if ← .gets (·.world.readOnly) then status .staticModeViolation
  else do
    let beneficiary := (← pop).toAddress
    let suicide ← .gets (·.contract.self)
    let balance ← .gets fun f => f.world.getBalance suicide
    onWorld (World.addBalance beneficiary balance)
    onWorld (World.suicide suicide)
    status .stopToken

/-! ## Creates -/

/-- A create that is about to enter the VM. -/
structure PreparedCreate where
  value : Int
  code : Bytes
  gas : Int
  salt : Word
  deriving Repr

/-- `makeCreateFunction` up to the nested frame: all but one 64th of the gas is taken. -/
def prepareCreate (kind : CreateKind) : Java Frame (Except VmStatus PreparedCreate) := do
  if ← .gets (·.world.readOnly) then return .error .staticModeViolation
  else do
    let value := (← pop).bigIntegerValue
    let offset ← Word.intValueExact (← pop)
    let size ← Word.intValueExact (← pop)
    let input ← memoryRead offset size
    let gas ← .gets (·.contract.gas)
    let gas := wrap64 (gas - gas.tdiv 64)
    let _ ← useGas gas
    let salt ← match kind with
      | .create => pure 0
      | .create2 => pop
    return .ok ⟨value, input, gas, salt⟩

def finishCreate (result : VmResult) : Java Frame FnResult := do
  push (if result.hasError ∧ result.status ≠ .codestoreOutOfGas then 0
    else (result.contract.map Address.toWord).getD 0)
  addGas result.gas
  if result.hasError ∧ result.status = .revert then do
    onWorld (World.setReturnData result.output)
    return ⟨.success, result.output⟩
  else do
    onWorld World.clearReturnData
    success

def makeCreateFunction (calls : Calls) (kind : CreateKind) : Java Frame FnResult := do
  match ← prepareCreate kind with
  | .error st => status st
  | .ok c => do
      let caller ← .gets (·.contract.toRef)
      let result ← onWorld (calls.create ⟨kind, caller, c.code, c.gas, c.value, c.salt⟩)
      finishCreate result

/-! ## Calls -/

/-- A call that is about to enter the VM. -/
structure PreparedCall where
  toAddr : Address
  args : Bytes
  gasLimit : Int
  value : Word
  retOffset : Int
  retSize : Int
  deriving Repr

/-- The value operand: only `CALL` and `CALLCODE` have one. -/
def popValue : CallKind → Java Frame Word
  | .call | .callCode => pop
  | .delegateCall | .staticCall => pure 0

/-- `makeCallFunction` up to the nested frame. The gas comes from `callGas`, which the gas handler
of the same instruction has set. -/
def prepareCall (kind : CallKind) (callStipend : Int) : Java Frame (Except VmStatus PreparedCall) := do
  let _ ← pop
  let gasLimit ← .gets (·.world.callGas)
  let toAddr := (← pop).toAddress
  let value ← popValue kind
  let inOffset := (← pop).intValue
  let inSize := (← pop).intValue
  let retOffset := (← pop).intValue
  let retSize := (← pop).intValue
  let args ← memoryRead inOffset inSize
  let readOnly ← .gets (·.world.readOnly)
  if readOnly && kind = .call && value.isNonZero then return .error .staticModeViolation
  else if ← useGas gasLimit then
    let gasLimit :=
      if value.isNonZero && kind = .call then wrap64 (gasLimit + callStipend) else gasLimit
    return .ok ⟨toAddr, args, gasLimit, value, retOffset, retSize⟩
  else return .error .outOfGas

def finishCall (c : PreparedCall) (result : VmResult) : Java Frame FnResult := do
  push (.ofBool result.isSuccess)
  if result.isSuccess ∨ result.status = .revert then
    memoryWrite c.retOffset c.retSize result.output
  addGas result.gas
  onWorld (World.setReturnData result.output)
  return ⟨.success, result.output⟩

def makeCallFunction (calls : Calls) (kind : CallKind) (callStipend : Int) : Java Frame FnResult := do
  match ← prepareCall kind callStipend with
  | .error st => status st
  | .ok c => do
      let caller ← .gets (·.contract.toRef)
      let result ← onWorld (calls.executeCall
        ⟨kind, caller, c.toAddr, c.args, c.gasLimit, c.value.bigIntegerValue⟩)
      finishCall c result

/-! ## The function table -/

/-- The call stipend, read once when the opcode table is built. -/
def Machine.callStipend (m : Machine) : Int := (m.cfg.gasPriceMap .callStipend).getD 0

def locateFn (m : Machine) (calls : Calls) : Op → Java Frame FnResult
  | .stop => opStop | .add => opAdd | .mul => opMul | .sub => opSub | .div => opDiv
  | .sdiv => opSDiv | .mod => opMod | .smod => opSMod | .addMod => opAddMod
  | .mulMod => opMulMod | .exp => opExp m.crypto | .signExtend => opSignExtend
  | .lt => opLt | .gt => opGt | .slt => opSLt | .sgt => opSGt | .eq => opEq
  | .isZero => opIsZero | .and => opAnd | .or => opOr | .xor => opXor | .not => opNot
  | .byte => opByte | .shl => opShl | .shr => opShr | .sar => opSar
  | .sha3 => opSha3 m.crypto
  | .address => opAddress | .balance => opBalance | .origin => opOrigin m
  | .caller => opCaller | .callValue => opCallValue | .callDataLoad => opCallDataLoad
  | .callDataSize => opCallDataSize | .callDataCopy => opCallDataCopy
  | .codeSize => opCodeSize | .codeCopy => opCodeCopy | .gasPrice => opGasPrice m
  | .extCodeSize => opExtCodeSize | .extCodeCopy => opExtCodeCopy
  | .returnDataSize => opReturnDataSize | .returnDataCopy => opReturnDataCopy
  | .extCodeHash => opExtCodeHash | .blockHash => opBlockHash m
  | .coinBase => opCoinBase m | .timestamp => opTimestamp m | .number => opNumber m
  | .difficulty => opDifficulty m | .gasLimit => opGasLimit m | .chainId => opChainId
  | .selfBalance => opSelfBalance | .baseFee => opBaseFee m
  | .pop => opPop | .mload => opMLoad | .mstore => opMStore | .mstore8 => opMStore8
  | .sload => opSLoad | .sstore => opSStore | .jump => opJump | .jumpI => opJumpI
  | .pc => opPc | .msize => opMSize | .gas => opGas | .jumpDest => opJumpDest
  | .beginSub => opBeginSub | .returnSub => opReturnSub | .jumpSub => opJumpSub
  | .push0 => opPush0 | .push n => opPush n | .dup n => opDup n | .swap n => opSwap n
  | .log n => opLog m n | .tload => opTLoad | .tstore => opTStore
  | .return_ => opReturn | .revert => opRevert | .selfDestruct => opSelfDestruct
  | .create kind => makeCreateFunction calls kind
  | .call kind => makeCallFunction calls kind m.callStipend

end GrapeDag
