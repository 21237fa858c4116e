/-
THE PRECOMPILED CONTRACTS.

`PrecompiledContracts.java` and the classes of `grap3.ether.precompile`. The curve arithmetic,
the hashes and the BLS12-381 operations behind them are the parameter `CryptoLib`; the lengths,
checks and fees around them are the source's.
-/
import GrapeDag.Vm.GasTable

namespace GrapeDag

open Imperative Checked

/-! ## The contracts -/

inductive Precompile where
  | ecRecover | sha256Hash | ripemd160Hash | dataCopy | bigModExp
  | ecAdd | ecMul | ecPairing | blake2F
  | bls12G1Add | bls12G1Mul | bls12G1MultiExp | bls12G2Add | bls12G2Mul | bls12G2MultiExp
  | bls12Pairing | bls12MapG1 | bls12MapG2
  | unsupported
  deriving Repr, DecidableEq

def bls12Precompiles : List Precompile :=
  [.ecAdd, .ecMul, .ecPairing, .blake2F, .bls12G1Add, .bls12G1Mul, .bls12G1MultiExp,
   .bls12G2Add, .bls12G2Mul, .bls12G2MultiExp, .bls12Pairing, .bls12MapG1, .bls12MapG2]

/-- `createPrecompiledContracts`: nineteen entries, the first of them `null`. -/
def precompiled (cfg : ChainConfig) : List (Option Precompile) :=
  [none, some .ecRecover, some .sha256Hash, some .ripemd160Hash, some .dataCopy, some .bigModExp]
  ++ if cfg.isFeatureEnabled .bls12 then bls12Precompiles.map some
     else bls12Precompiles.map fun _ => some .unsupported

/-- `toOneByteAddress`: the value of the address as a SIGNED byte, if it has one byte. -/
def toOneByteAddress (address : Address) : Option Int :=
  match trimLeftZeros (Address.bytes address) with
  | [b] => some ((b.toNat : Int).bmod 256)
  | _ => none

/-- `isPrecompiled`. The bytes from `0x80` on are negative, hence below the length. -/
def isPrecompiled (cfg : ChainConfig) (address : Address) : Bool :=
  match toOneByteAddress address with
  | some idx => idx < (precompiled cfg).length
  | none => false

/-- `asPrecompiled`, for addresses that passed `isPrecompiled`. -/
def asPrecompiled (cfg : ChainConfig) (address : Address) : Checked Precompile :=
  match toOneByteAddress address with
  | none => .error .illegalState
  | some idx =>
      if idx ≥ (precompiled cfg).length then .error .illegalState
      else if idx < 0 then .error .indexOutOfBounds
      else match (precompiled cfg).getD idx.toNat none with
        | none => .error .illegalState
        | some p => return p

/-! ## Fees -/

/-- A fee with a base price and a price per word. The length is an `int`, so the sum fits a `long`.
-/
def wordGas (cfg : ChainConfig) (base word : PriceItem) (input : Bytes) : Checked Int := do
  let costBase ← cfg.lookForGasPrice base
  let costWord ← cfg.lookForGasPrice word
  return (31 + input.length) / 32 * costWord + costBase

def extractParam (input : Bytes) (offset length : Int) : Checked Nat := do
  if offset > input.length ∨ length = 0 then return 0
  return bytesToNat (← slicePadded (some input) offset length)

def bigModExpHead (args : Bytes) (baseLen expLen : Nat) : Checked Nat := do
  if args.length ≤ baseLen then return 0
  return bytesToNat (← slicePadded (some args) (wrap32 baseLen) (if expLen > 32 then 32 else wrap32 expLen))

def bigModExpGas (cfg : ChainConfig) (input : Bytes) : Checked Int := do
  let gQuadDivisor ← cfg.lookForGasPrice .gQuadDivisor
  let baseLen := bytesToNat (← slicePadded (some input) 0 32)
  let expLen := bytesToNat (← slicePadded (some input) 32 32)
  let modLen := bytesToNat (← slicePadded (some input) 64 32)
  let args := input.drop 96
  let expHead ← bigModExpHead args baseLen expLen
  let msb := bitLength expHead - 1
  let adjExpLen := if expLen > 32 then (expLen - 32) * 8 + msb else msb
  let words := (max modLen baseLen + 7) / 8
  let gas := wrap64 (← divide (words ^ 2 * max 1 adjExpLen : Nat) gQuadDivisor)
  return if gas < 200 then 200 else gas

def blake2FGas (cfg : ChainConfig) (input : Bytes) : Checked Int := do
  if input.length ≠ 213 then return 0
  let blake2Round ← cfg.lookForGasPrice .blake2Round
  let rounds ← toLongExact (← extractParam input 0 4)
  multiplyExact blake2Round rounds

/-- `AbstractBls12.getDiscount`; the constructor refuses tables of fewer than two. -/
def getDiscount (discount : List Int) (k : Nat) : Int :=
  if k ≥ discount.length then discount.getLastD 0 else discount.getD k 0

def requiredGas (cfg : ChainConfig) (p : Precompile) (input : Bytes) : Checked Int :=
  match p with
  | .ecRecover => cfg.lookForGasPrice .ecRecover
  | .sha256Hash => wordGas cfg .sha256 .sha256Word input
  | .ripemd160Hash => wordGas cfg .ripemd160 .ripemd160Word input
  | .dataCopy => wordGas cfg .identity .identityWord input
  | .bigModExp => bigModExpGas cfg input
  | .ecAdd => cfg.lookForGasPrice .ecAdd
  | .ecMul => cfg.lookForGasPrice .ecMul
  | .ecPairing => do
      let p ← cfg.lookForGasPrice .ecPairing
      let pw ← cfg.lookForGasPrice .ecPairingWord
      return (← multiplyExact pw (input.length / 192 : Nat)) + p
  | .blake2F => blake2FGas cfg input
  | .bls12G1Add => cfg.lookForGasPrice .bls12381G1AddGas
  | .bls12G1Mul => cfg.lookForGasPrice .bls12381G1MulGas
  | .bls12G1MultiExp =>
      let k := input.length / 160
      return 12 * k * getDiscount cfg.bls12Discount k
  | .bls12G2Add => cfg.lookForGasPrice .bls12381G2AddGas
  | .bls12G2Mul => cfg.lookForGasPrice .bls12381G2MulGas
  | .bls12G2MultiExp =>
      let k := input.length / 288
      return 55 * k * getDiscount cfg.bls12Discount k
  | .bls12Pairing => do
      let base ← cfg.lookForGasPrice .bls12381PairingBaseGas
      let perPair ← cfg.lookForGasPrice .bls12381PairingPerPairGas
      return base + perPair * (input.length / 384 : Nat)
  | .bls12MapG1 => cfg.lookForGasPrice .bls12381MapG1Gas
  | .bls12MapG2 => cfg.lookForGasPrice .bls12381MapG2Gas
  | .unsupported => return 0

/-! ## Runs -/

def emptySuccessResult : FnResult := ⟨.success, some []⟩

def paddedResult (hash : Bytes) : Checked FnResult := do
  return ⟨.success, some (← leftPadBytes hash 32)⟩

def runEcRecover (crypto : CryptoLib) (input : Bytes) : Checked FnResult := do
  let input ← rightPadBytes input 128
  let r ← extractParam input 64 32
  let s ← extractParam input 96 32
  let v := input.getD 63 0 - 27
  if !isAllZero (← slice input 32 63) || !crypto.validateSignatureValues v r s then
    return emptySuccessResult
  let sig := (input.drop 64).take 64 ++ [v]
  match crypto.ecRecover (← slice input 0 32) sig with
  | none => return emptySuccessResult
  | some pubKey =>
      if pubKey.length = 0 then return emptySuccessResult
      paddedResult (crypto.recoverAddress (← slice pubKey 1 pubKey.length))

def runBigModExp (input : Bytes) : Checked FnResult := do
  let baseLen ← extractParam input 0 32
  let expLen ← extractParam input 32 32
  let modLen ← extractParam input 64 32
  if baseLen = 0 ∧ modLen = 0 then return emptySuccessResult
  let args := input.drop 96
  let base ← extractParam args 0 (wrap32 baseLen)
  let exp ← extractParam args (wrap32 baseLen) (wrap32 expLen)
  let mod ← extractParam args (wrap32 (baseLen + expLen)) (wrap32 modLen)
  if mod = 0 then return ⟨.success, some (← leftPadBytes [] (wrap32 modLen))⟩
  let v := asUnsignedByteArray (base ^ exp % mod : Nat)
  -- `UInt256` pads short numbers to a word and keeps long ones
  let word ← leftPadBytes v (max 32 v.length)
  return ⟨.success, some (← leftPadBytes word (wrap32 modLen))⟩

def runNative (crypto : CryptoLib) (index : Nat) (input : Bytes) : Checked FnResult :=
  match crypto.native index input with
  | .output bytes => return ⟨.success, some bytes⟩
  | .error => return ⟨.precompileError, none⟩
  | .throws e => .error e

def runEcPairing (crypto : CryptoLib) (input : Bytes) : Checked FnResult :=
  if input.length = 0 then return ⟨.success, some (natToBytes 32 1)⟩
  else if input.length % 192 ≠ 0 then return ⟨.invalidArgument, none⟩
  else runNative crypto 8 input

def runBlake2F (crypto : CryptoLib) (input : Bytes) : Checked FnResult :=
  if input.length ≠ 213 then return ⟨.invalidArgument, none⟩
  else if input.getD 212 0 ≠ 1 ∧ input.getD 212 0 ≠ 0 then return ⟨.invalidArgument, none⟩
  else runNative crypto 9 input

/-- `AbstractBls12.run`: at most one byte more than the operation needs is handed on. -/
def runBls12 (crypto : CryptoLib) (index inputLength : Nat) (input : Bytes) : Checked FnResult :=
  runNative crypto index (input.take (inputLength + 1))

def runPrecompile (crypto : CryptoLib) (p : Precompile) (input : Bytes) : Checked FnResult :=
  match p with
  | .ecRecover => runEcRecover crypto input
  | .sha256Hash => paddedResult (crypto.sha256sum input)
  | .ripemd160Hash => paddedResult (crypto.ripemd160sum input)
  | .dataCopy => return ⟨.success, some input⟩
  | .bigModExp => runBigModExp input
  | .ecAdd => runNative crypto 6 input
  | .ecMul => runNative crypto 7 input
  | .ecPairing => runEcPairing crypto input
  | .blake2F => runBlake2F crypto input
  | .bls12G1Add => runBls12 crypto 0x0a 256 input
  | .bls12G1Mul => runBls12 crypto 0x0b 160 input
  | .bls12G1MultiExp => runBls12 crypto 0x0c (2147483647 / 160 * 160) input
  | .bls12G2Add => runBls12 crypto 0x0d 512 input
  | .bls12G2Mul => runBls12 crypto 0x0e 288 input
  | .bls12G2MultiExp => runBls12 crypto 0x0f (2147483647 / 288 * 288) input
  | .bls12Pairing => runBls12 crypto 0x10 (2147483647 / 384 * 384) input
  | .bls12MapG1 => runBls12 crypto 0x11 64 input
  | .bls12MapG2 => runBls12 crypto 0x12 128 input
  | .unsupported => .error (.vm .rejected)

/-- `VmImpl.runPrecompiledContract`, with the gas that is left. -/
def runPrecompiledContract (m : Machine) (p : Precompile) (input : Bytes) (gas : Int) :
    Checked (FnResult × Int) := do
  let gasCost ← requiredGas m.cfg p input
  if gas < gasCost then return (⟨.outOfGas, none⟩, gas)
  return (← runPrecompile m.crypto p input, wrap64 (gas - gasCost))

/-! ## Fees are not negative -/

section Fees

variable {cfg : ChainConfig} (h : cfg.Sound) {input : Bytes} {fee : Int}
include h

lemma wordGas_nonneg {base word : PriceItem} (hf : wordGas cfg base word input = .ok fee) : 0 ≤ fee := by
  obtain ⟨b, hb, hf⟩ := bind_eq_ok.mp hf
  obtain ⟨w, hw, hf⟩ := bind_eq_ok.mp hf
  obtain rfl : (31 + (input.length : Int)) / 32 * w + b = fee := Except.ok.inj hf
  have hb' := (h.lookForGasPrice hb).1
  have hw' := (h.lookForGasPrice hw).1
  positivity

omit h in
lemma bigModExpGas_nonneg (hf : bigModExpGas cfg input = .ok fee) : 0 ≤ fee := by
  unfold bigModExpGas at hf
  simp only [bind, Except.bind, pure, Except.pure] at hf
  -- every way through ends in the maximum with 200
  repeat' split at hf
  all_goals first
    | cases hf; omega
    | cases hf

lemma blake2FGas_nonneg (hf : blake2FGas cfg input = .ok fee) : 0 ≤ fee := by
  unfold blake2FGas at hf
  split at hf
  · obtain rfl : 0 = fee := Except.ok.inj hf
    exact le_refl 0
  obtain ⟨round, hr, hf⟩ := bind_eq_ok.mp hf
  obtain ⟨first, _, hf⟩ := bind_eq_ok.mp hf
  obtain ⟨rounds, hn, hf⟩ := bind_eq_ok.mp hf
  obtain ⟨_, rfl⟩ := toLongExact_eq_ok.mp hn
  obtain ⟨_, rfl⟩ := toLongExact_eq_ok.mp hf
  have hr' := (h.lookForGasPrice hr).1
  positivity

lemma getDiscount_nonneg {k : Nat} (hk : k ≠ 0) : 0 ≤ getDiscount cfg.bls12Discount k := by
  have hlen := h.discount_length
  have htail := h.discount_range
  unfold getDiscount
  cases hd : cfg.bls12Discount with
  | nil => simp
  | cons d ds =>
    rw [hd] at hlen htail
    have hmem : ∀ x ∈ ds, 0 ≤ x := fun x hx => (htail x hx).1
    have hds : ds ≠ [] := fun hnil => hlen (by rw [hnil]; rfl)
    by_cases hlast : k ≥ (d :: ds).length
    · rw [if_pos hlast, List.getLastD_cons, List.getLastD_eq_getLast?,
        List.getLast?_eq_some_getLast hds]
      exact hmem _ (List.getLast_mem hds)
    · rw [if_neg hlast]
      obtain ⟨j, rfl⟩ := Nat.exists_eq_succ_of_ne_zero hk
      have hj : j < ds.length := by simpa using hlast
      rw [List.getD_cons_succ, List.getD_eq_getElem?_getD, List.getElem?_eq_getElem hj]
      exact hmem _ (List.getElem_mem hj)

lemma multiExp_nonneg {unit : Int} (hu : 0 ≤ unit) (k : Nat) :
    0 ≤ unit * k * getDiscount cfg.bls12Discount k := by
  by_cases hk : k = 0
  · rw [hk]
    simp
  · have hd := getDiscount_nonneg h hk
    positivity

lemma requiredGas_nonneg {p : Precompile} (hf : requiredGas cfg p input = .ok fee) : 0 ≤ fee := by
  have hprice : ∀ {item}, cfg.lookForGasPrice item = .ok fee → 0 ≤ fee :=
    fun hi => (h.lookForGasPrice hi).1
  cases p with
  | sha256Hash | ripemd160Hash | dataCopy => exact wordGas_nonneg h hf
  | bigModExp => exact bigModExpGas_nonneg hf
  | ecPairing =>
    obtain ⟨base, hb, hf⟩ := bind_eq_ok.mp hf
    obtain ⟨word, hw, hf⟩ := bind_eq_ok.mp hf
    obtain ⟨product, hp, hf⟩ := bind_eq_ok.mp hf
    obtain rfl : product + base = fee := Except.ok.inj hf
    obtain ⟨_, rfl⟩ := toLongExact_eq_ok.mp hp
    have hb' := (h.lookForGasPrice hb).1
    have hw' := (h.lookForGasPrice hw).1
    positivity
  | blake2F => exact blake2FGas_nonneg h hf
  | bls12G1MultiExp | bls12G2MultiExp =>
    obtain rfl := Except.ok.inj hf
    exact multiExp_nonneg h (by decide) _
  | bls12Pairing =>
    obtain ⟨base, hb, hf⟩ := bind_eq_ok.mp hf
    obtain ⟨pair, hp, hf⟩ := bind_eq_ok.mp hf
    obtain rfl := Except.ok.inj hf
    have hb' := (h.lookForGasPrice hb).1
    have hp' := (h.lookForGasPrice hp).1
    positivity
  | unsupported =>
    obtain rfl : 0 = fee := Except.ok.inj hf
    exact le_refl 0
  | _ => exact hprice hf

end Fees

end GrapeDag
