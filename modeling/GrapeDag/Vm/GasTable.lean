/-
THE DYNAMIC GAS HANDLERS.

`GasTableFactory.java`. A handler peeks at the operands of its instruction and narrows them to
`int` or `long`: the copies, `SHA3` and `LOG` take the length as an `int` WITHOUT a range check,
so that a length of `2^31` or more becomes negative.
-/
import GrapeDag.Vm.Instructions

namespace GrapeDag

open Imperative GrapeDag.Frame

namespace GasTable

variable (m : Machine)

def param (params : List Word) (i : Nat) : Word := params.getD i 0

def price (item : PriceItem) : Checked Int := m.cfg.lookForGasPrice item

/-! ## Memory -/

/-- `subMemUsage`: the price of growing the memory to cover the access. -/
def subMemUsage (offset length : Int) : Java Frame Int := do
  -- access with zero length will not extend the memory
  if length = 0 then return 0
  let newMemoryWordCount ← toWordSizeLong (wrap64 (offset + length))
  if newMemoryWordCount ≤ (← .gets memoryWordCount) then return 0
  let fee ← price m .memory
  let quadCoeff ← price m .quadCoeffDiv
  let quad ← divide (multiplyFull newMemoryWordCount newMemoryWordCount) quadCoeff
  let cost ← addExact (multiplyFull newMemoryWordCount fee) quad
  let currentHighestMemCost ← .gets highestMemCost
  .modify fun f => { f with
    memoryWordCount := newMemoryWordCount
    highestMemCost := if cost > currentHighestMemCost then cost else currentHighestMemCost }
  return if cost > currentHighestMemCost then wrap64 (cost - currentHighestMemCost) else cost

def getMemUsageFee (memOffset length : Int) : Java Frame Int := do
  let fee ← subMemUsage m memOffset length
  if length ≠ 0 then addExact fee (multiplyFull (← price m .copy) (toWordSize length))
  else return fee

def makeMemCopyHandler (argsCount offsetIdx lengthIdx : Nat) : Java Frame Int := do
  let params ← peek argsCount
  getMemUsageFee m (param params offsetIdx).longValue (param params lengthIdx).intValue

def wordAccess (size : Int) : Java Frame Int := do
  let params ← peek 1
  subMemUsage m (param params 0).longValue size

def outputAccess : Java Frame Int := do
  let params ← peek 2
  subMemUsage m (param params 0).longValue (param params 1).longValue

/-! ## Access lists -/

def checkStorageAccessFee (address : Address) (key : Word) : Java Frame Int := do
  if World.isWarmedSlot m.crypto (← .gets world) address key then return 0
  onWorld (World.addWarmedSlot m.crypto address key)
  price m .coldsload

def checkAddressAccessFee (address : Address) : Java Frame Int := do
  if (← .gets world).isWarmedAddress address then return 0
  onWorld (World.addWarmedAddress address)
  price m .coldaccountaccess

def makeAddressAccessHandler : Java Frame Int := do
  if m.cfg.isFeatureEnabled .warmedAccess then
    let params ← peek 1
    checkAddressAccessFee m (param params 0).toAddress
  else return 0

def sload : Java Frame Int := do
  if m.cfg.isFeatureEnabled .warmedAccess then
    let params ← peek 1
    let key := param params 0
    let address ← .gets (·.contract.self)
    if World.isWarmedSlot m.crypto (← .gets world) address key then
      price m .warmstorageread
    else
      onWorld (World.addWarmedSlot m.crypto address key)
      price m .coldsload
  else return 0

/-! ## Single instructions -/

def exp : Java Frame Int := do
  let params ← peek 2
  let exponent := param params 1
  if exponent.isZero then return 0
  let byteLength : Int := exponent.byteLength
  if byteLength < 1 ∨ byteLength > 32 then .raise (.vm .argumentOutOfRange)
  multiplyExact byteLength (← price m .expByte)

def sha3 : Java Frame Int := do
  let params ← peek 2
  let offset := (param params 0).longValue
  let length := (param params 1).intValue
  let sha3Word := multiplyFull (← price m .sha3Word) (toWordSize length)
  return wrap64 ((← subMemUsage m offset length) + sha3Word)

def extCodeCopy : Java Frame Int := do
  let params ← peek 4
  let fee ← getMemUsageFee m (param params 1).longValue (param params 3).intValue
  if m.cfg.isFeatureEnabled .warmedAccess then
    addExact fee (← checkAddressAccessFee m (param params 0).toAddress)
  else return fee

def makeLogHandler (topicsCount : Nat) : Java Frame Int := do
  let params ← peek 2
  let offset := (param params 0).longValue
  let length := (param params 1).intValue
  let logFee := wrap64 ((← price m .log) + multiplyFull (← price m .logTopic) topicsCount)
  let memSizeFee := multiplyFull (← price m .logData) length
  let memUsageFee ← subMemUsage m offset length
  addExact (← addExact logFee memSizeFee) memUsageFee

def initCodeFee (length : Int) : Checked Int := do
  if m.cfg.isFeatureEnabled .initCodeWordCost then
    return multiplyFull (← price m .initCodeWordCost) (← toWordSizeLong length)
  else return 0

def create : Java Frame Int := do
  let params ← peek 3
  let offset := (param params 1).longValue
  let length := (param params 2).longValue
  let fee ← initCodeFee m length
  addExact fee (← subMemUsage m offset length)

/-- The price of a word of init code for `CREATE2`, which also hashes it. -/
def create2WordFee : Checked Int := do
  let sha3Word ← price m .sha3Word
  if m.cfg.isFeatureEnabled .initCodeWordCost then
    return wrap32 (sha3Word + (← price m .initCodeWordCost))
  else return sha3Word

/-- The handler of `CREATE2`, which narrows exactly. -/
def create2 : Java Frame Int := do
  let params ← peek 3
  let offset ← Word.intValueExact (param params 1)
  let length ← Word.intValueExact (param params 2)
  let wordFee ← create2WordFee m
  addExact (multiplyFull wordFee (toWordSize length)) (← subMemUsage m offset length)

def addFeeIf (condition : Bool) (fee : Int) (item : PriceItem) : Checked Int := do
  if condition then addExact fee (← price m item) else return fee

/-- `makeSelfDestructHandler`; `hasSuicided` is constantly false. -/
def makeSelfDestructHandler : Java Frame Int := do
  let params ← peek 1
  let beneficiary := (param params 0).toAddress
  let f ← .gets id
  let balance := f.world.getBalance f.contract.self
  let fee ← checkAddressAccessFee m beneficiary
  let fee ← addFeeIf m (balance ≠ 0 ∧ (!f.world.isAccountExists beneficiary
    || f.world.accountIsEmpty beneficiary)) fee .callNewAccount
  onWorld (World.addRefundGas (← price m .selfdestructRefund))
  return fee

/-! ## `SSTORE` -/

def makeSStoreHandlerBase : Java Frame Int := do
  let address ← .gets (·.contract.self)
  let params ← peek 2
  let value := param params 1
  let current ← .gets fun f => f.world.getContractStorage address (param params 0)
  if current.length = 0 ∧ value.isNonZero then price m .sstoreSet
  else if current.length > 0 ∧ value.isZero then do
    onWorld (World.addRefundGas (← price m .sstoreRefund))
    price m .sstoreReset
  else price m .sstoreReset

def refundDelete (value : Bytes) (clearRefund : Int) : Java Frame Unit :=
  if value.length = 0 then onWorld (World.addRefundGas clearRefund) else pure ()

def refundDirty (original current value : Bytes) (clearRefund : Int) : Java Frame Unit :=
  if original.length > 0 then
    if current.length = 0 then onWorld (World.subRefundGas clearRefund)
    else refundDelete value clearRefund
  else pure ()

def refundReset (original value : Bytes) : Java Frame Unit :=
  if original = value then
    if original.length = 0 then do
      let init ← price m .sstoreInitGasEIP2200
      onWorld (World.addRefundGas (wrap32 (init - (← price m .warmstorageread))))
    else do
      let clean ← price m .sstoreCleanGasEIP2200
      let cold ← price m .coldsload
      onWorld (World.addRefundGas (wrap32 (wrap32 (clean - cold) - (← price m .warmstorageread))))
  else pure ()

/-- `makeSStoreHandlerWarmed`. The committed value the client answers with is the current one, so
that the branches for a dirty slot are not reached. -/
def makeSStoreHandlerWarmed : Java Frame Int := do
  let address ← .gets (·.contract.self)
  let params ← peek 2
  let key := param params 0
  let current ← .gets fun f => f.world.getContractStorage address key
  let value := (param params 1).bytes
  let sentryGas ← price m .sstoreSentryGasEIP2200
  if (← .gets (·.contract.gas)) < sentryGas then .raise (.vm .outOfGas)
  else do
    let cost ← checkStorageAccessFee m address key
    if current = value then return wrap64 (cost + (← price m .warmstorageread))
    else do
      let original ← .gets fun f => f.world.getContractStorage address key
      let clearRefund ← price m .sstoreClearRefundEIP2200
      if original = current then
        if original.length = 0 then return wrap64 (cost + (← price m .sstoreInitGasEIP2200))
        else do
          refundDelete value clearRefund
          let clean ← price m .sstoreCleanGasEIP2200
          return wrap64 (cost + wrap32 (clean - (← price m .coldsload)))
      else do
        refundDirty original current value clearRefund
        refundReset m original value
        return wrap64 (cost + (← price m .warmstorageread))

/-! ## Calls -/

/-- `limitCallGas`: all but one 64th of what remains, or less if less is asked for. -/
def limitCallGas (availableGas baseFee : Int) (callCost : Word) : Int :=
  let gas := wrap64 (availableGas - baseFee)
  let gas := wrap64 (gas - gas.tdiv 64)
  min gas callCost.longValueSafe

def coldCallFee (toAddr : Address) : Java Frame Int := do
  if m.cfg.isFeatureEnabled .warmedAccess then
    let coldCost ← checkAddressAccessFee m toAddr
    if (← .gets (·.contract.gas)) < coldCost then .raise (.vm .outOfGas)
    return coldCost
  else return 0

/-- `makeCallHandler`, the handler of `CALL` and `CALLCODE` -/
def makeCallHandler (callKind : CallKind) : Java Frame Int := do
  let params ← peek 7
  let toAddr := (param params 1).toAddress
  let fee ← coldCallFee m toAddr
  let fee ← addExact fee (← subMemUsage m (param params 3).longValue (param params 4).longValue)
  let fee ← addExact fee (← subMemUsage m (param params 5).longValue (param params 6).longValue)
  let w ← .gets world
  let fee ← addFeeIf m (callKind = .call ∧ !w.isAccountExists toAddr) fee .callNewAccount
  let fee ← addFeeIf m (param params 2).isNonZero fee .callValueTransfer
  let cap := limitCallGas (← .gets (·.contract.gas)) fee (param params 0)
  onWorld (World.setCallGas cap)
  return fee

def makeStaticOrDelegateCallHandler : Java Frame Int := do
  let params ← peek 6
  let fee ← coldCallFee m (param params 1).toAddress
  let fee ← addExact fee (← subMemUsage m (param params 2).longValue (param params 3).longValue)
  let fee ← addExact fee (← subMemUsage m (param params 4).longValue (param params 5).longValue)
  let cap := limitCallGas (← .gets (·.contract.gas)) fee (param params 0)
  onWorld (World.setCallGas cap)
  return fee

end GasTable

/-! ## The table -/

open GasTable in
/-- `createGasHandlersMap`; `none` for an opcode without dynamic gas. -/
def gasHandler (m : Machine) : Op → Option (Java Frame Int)
  | .exp => some (exp m)
  | .sha3 => some (sha3 m)
  | .balance => some (makeAddressAccessHandler m)
  | .callDataCopy | .codeCopy => some (makeMemCopyHandler m 3 0 2)
  | .extCodeSize => some (makeAddressAccessHandler m)
  | .extCodeCopy => some (extCodeCopy m)
  | .returnDataCopy => some (makeMemCopyHandler m 4 1 3)
  | .extCodeHash => some (makeAddressAccessHandler m)
  | .mload | .mstore => some (wordAccess m 32)
  | .mstore8 => some (wordAccess m 1)
  | .sload => some (sload m)
  | .sstore =>
      if m.cfg.isFeatureEnabled .warmedAccess then some (makeSStoreHandlerWarmed m)
      else some (makeSStoreHandlerBase m)
  | .log n => some (makeLogHandler m n)
  | .create .create => some (create m)
  | .create .create2 => some (create2 m)
  | .call .call => some (makeCallHandler m .call)
  | .call .callCode => some (makeCallHandler m .callCode)
  | .call .delegateCall | .call .staticCall => some (makeStaticOrDelegateCallHandler m)
  | .return_ | .revert => some (outputAccess m)
  | .selfDestruct =>
      if m.cfg.isFeatureEnabled .selfDestruct then some (makeSelfDestructHandler m) else none
  | _ => none

end GrapeDag
