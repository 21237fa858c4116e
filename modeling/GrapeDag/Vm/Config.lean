/-
OPCODES, PRICES AND THE SHIPPED CHAIN CONFIGURATION.

`OpCodes.java`, `OpTableFactory.java`, `Feature.java`, the configuration classes and the shipped
`config/chain.json`. The static fee of an `Op` is the price of its lower-cased name, or the
price `base`.
-/
import GrapeDag.Commons.Math256

namespace GrapeDag

open Imperative Option

/-! ## Opcodes -/

inductive CallKind where
  | call | callCode | delegateCall | staticCall
  deriving Repr, DecidableEq

inductive CreateKind where
  | create | create2
  deriving Repr, DecidableEq

/-- The instructions. `PUSHn`, `DUPn`, `SWAPn` and `LOGn` carry their number, the call and create
instructions their kind, as the factory functions of the source do. -/
inductive Op where
  | stop | add | mul | sub | div | sdiv | mod | smod | addMod | mulMod | exp | signExtend
  | lt | gt | slt | sgt | eq | isZero | and | or | xor | not | byte | shl | shr | sar
  | sha3
  | address | balance | origin | caller | callValue | callDataLoad | callDataSize
  | callDataCopy | codeSize | codeCopy | gasPrice | extCodeSize | extCodeCopy
  | returnDataSize | returnDataCopy | extCodeHash
  | blockHash | coinBase | timestamp | number | difficulty | gasLimit | chainId
  | selfBalance | baseFee
  | pop | mload | mstore | mstore8 | sload | sstore | jump | jumpI | pc | msize | gas
  | jumpDest | beginSub | returnSub | jumpSub
  | push0 | push (numToPush : Nat) | dup (stackDups : Nat) | swap (stackPops : Nat)
  | log (topicsCount : Nat) | tload | tstore
  | create (kind : CreateKind) | call (kind : CallKind)
  | return_ | revert | selfDestruct
  deriving Repr, DecidableEq

/-! ## Prices -/

/-- The constants of `GasPrices`. -/
inductive PriceItem where
  | base | expByte | sha3Word | sstoreSet | sstoreReset | sstoreRefund | logData
  | logTopic | callStipend | callValueTransfer | callNewAccount | memory
  | quadCoeffDiv | createData | tx | txCreation | txDataZero | txDataNonZero | copy
  | ecRecover | sha256 | sha256Word | ripemd160 | ripemd160Word | identity
  | identityWord | gQuadDivisor | coldaccountaccess | coldsload | warmstorageread
  | sstoreSentryGasEIP2200 | sstoreInitGasEIP2200 | sstoreCleanGasEIP2200
  | sstoreClearRefundEIP2200 | initCodeWordCost | selfdestructRefund | blake2Round
  | ecAdd | ecMul | ecPairing | ecPairingWord | bls12381G1AddGas | bls12381G1MulGas
  | bls12381G2AddGas | bls12381G2MulGas | bls12381PairingBaseGas
  | bls12381PairingPerPairGas | bls12381MapG1Gas | bls12381MapG2Gas
  | stop | invalid | add | mul | sub | div | sdiv | mod | smod | addmod | mulmod
  | exp | signextend | lt | gt | slt | sgt | eq | iszero | and | or | xor | not
  | byte | shl | shr | sar | sha3 | address | balance | origin | caller | callvalue
  | calldataload | calldatasize | calldatacopy | codesize | codecopy | gasprice
  | extcodesize | extcodecopy | returndatasize | returndatacopy | extcodehash
  | blockhash | coinbase | timestamp | number | difficulty | gaslimit | chainid
  | selfbalance | basefee | pop | mload | mstore | mstore8 | sload | sstore | jump
  | jumpi | pc | msize | gas | jumpdest | beginsub | returnsub | jumpsub | push | dup
  | swap | log | tload | tstore | create | call | callcode | return_ | delegatecall
  | create2 | staticcall | revert | selfdestruct
  deriving Repr, DecidableEq

/-- The feature switches (`Feature.java`, and the key of the BLS12-381 precompiles). -/
inductive Feature where
  | warmedAccess | initCodeWordCost | selfDestruct | bls12
  deriving Repr, DecidableEq

/-- The merged `ChainConfig` of one timestamp. -/
structure ChainConfig where
  gasPriceMap : PriceItem → Option Int
  isFeatureEnabled : Feature → Bool
  /-- `isForkEnabled("fuelOptimization")` -/
  fuelOptimization : Bool
  callCreateDepth : Int
  maxCodeSize : Int
  maxRefundQuotient : Int
  /-- the integer property `Bls12381MultiExpGasDiscount` -/
  bls12Discount : List Int

namespace ChainConfig

def lookForGasPrice (cfg : ChainConfig) (item : PriceItem) : Checked Int :=
  match cfg.gasPriceMap item with
  | some price => return price
  | none => .error .illegalState

end ChainConfig

/-! ## The opcode table -/

def Op.priceItem : Op → PriceItem
  | .stop => .stop | .add => .add | .mul => .mul | .sub => .sub | .div => .div
  | .sdiv => .sdiv | .mod => .mod | .smod => .smod | .addMod => .addmod
  | .mulMod => .mulmod | .exp => .exp | .signExtend => .signextend | .lt => .lt
  | .gt => .gt | .slt => .slt | .sgt => .sgt | .eq => .eq | .isZero => .iszero
  | .and => .and | .or => .or | .xor => .xor | .not => .not | .byte => .byte
  | .shl => .shl | .shr => .shr | .sar => .sar | .sha3 => .sha3 | .address => .address
  | .balance => .balance | .origin => .origin | .caller => .caller
  | .callValue => .callvalue | .callDataLoad => .calldataload
  | .callDataSize => .calldatasize | .callDataCopy => .calldatacopy
  | .codeSize => .codesize | .codeCopy => .codecopy | .gasPrice => .gasprice
  | .extCodeSize => .extcodesize | .extCodeCopy => .extcodecopy
  | .returnDataSize => .returndatasize | .returnDataCopy => .returndatacopy
  | .extCodeHash => .extcodehash | .blockHash => .blockhash | .coinBase => .coinbase
  | .timestamp => .timestamp | .number => .number | .difficulty => .difficulty
  | .gasLimit => .gaslimit | .chainId => .chainid | .selfBalance => .selfbalance
  | .baseFee => .basefee | .pop => .pop | .mload => .mload | .mstore => .mstore
  | .mstore8 => .mstore8 | .sload => .sload | .sstore => .sstore | .jump => .jump
  | .jumpI => .jumpi | .pc => .pc | .msize => .msize | .gas => .gas
  | .jumpDest => .jumpdest | .beginSub => .beginsub | .returnSub => .returnsub
  | .jumpSub => .jumpsub | .push0 => .push | .push _ => .push | .dup _ => .dup
  | .swap _ => .swap | .log _ => .log | .tload => .tload | .tstore => .tstore
  | .create .create => .create | .create .create2 => .create2
  | .call .call => .call | .call .callCode => .callcode
  | .call .delegateCall => .delegatecall | .call .staticCall => .staticcall
  | .return_ => .return_ | .revert => .revert | .selfDestruct => .selfdestruct

/-- `createInitialOpCodes` and `createFuelOptimization`: the byte of each opcode. Bytes without an
entry, and `0xfe` itself, are `INVALID`. -/
def decode (fuelOptimization : Bool) (code : UInt8) : Option Op :=
  match code.toNat with
  | 0x00 => some .stop | 0x01 => some .add | 0x02 => some .mul | 0x03 => some .sub
  | 0x04 => some .div | 0x05 => some .sdiv | 0x06 => some .mod | 0x07 => some .smod
  | 0x08 => some .addMod | 0x09 => some .mulMod | 0x0a => some .exp
  | 0x0b => some .signExtend
  | 0x10 => some .lt | 0x11 => some .gt | 0x12 => some .slt | 0x13 => some .sgt
  | 0x14 => some .eq | 0x15 => some .isZero | 0x16 => some .and | 0x17 => some .or
  | 0x18 => some .xor | 0x19 => some .not | 0x1a => some .byte | 0x1b => some .shl
  | 0x1c => some .shr | 0x1d => some .sar
  | 0x20 => some .sha3
  | 0x30 => some .address | 0x31 => some .balance | 0x32 => some .origin
  | 0x33 => some .caller | 0x34 => some .callValue | 0x35 => some .callDataLoad
  | 0x36 => some .callDataSize | 0x37 => some .callDataCopy | 0x38 => some .codeSize
  | 0x39 => some .codeCopy | 0x3a => some .gasPrice | 0x3b => some .extCodeSize
  | 0x3c => some .extCodeCopy | 0x3d => some .returnDataSize
  | 0x3e => some .returnDataCopy | 0x3f => some .extCodeHash
  | 0x40 => some .blockHash | 0x41 => some .coinBase | 0x42 => some .timestamp
  | 0x43 => some .number | 0x44 => some .difficulty | 0x45 => some .gasLimit
  | 0x46 => some .chainId | 0x47 => some .selfBalance | 0x48 => some .baseFee
  | 0x50 => some .pop | 0x51 => some .mload | 0x52 => some .mstore
  | 0x53 => some .mstore8 | 0x54 => some .sload | 0x55 => some .sstore
  | 0x56 => some .jump | 0x57 => some .jumpI | 0x58 => some .pc | 0x59 => some .msize
  | 0x5a => some .gas | 0x5b => some .jumpDest | 0x5c => some .beginSub
  | 0x5d => some .returnSub | 0x5e => some .jumpSub | 0x5f => some .push0
  | 0xb3 => if fuelOptimization then some .tload else none
  | 0xb4 => if fuelOptimization then some .tstore else none
  | 0xf0 => some (.create .create) | 0xf1 => some (.call .call)
  | 0xf2 => some (.call .callCode) | 0xf3 => some .return_
  | 0xf4 => some (.call .delegateCall) | 0xf5 => some (.create .create2)
  | 0xfa => some (.call .staticCall) | 0xfd => some .revert
  | 0xff => if fuelOptimization then some .selfDestruct else none
  | n =>
      if 0x60 ≤ n ∧ n ≤ 0x7f then some (.push (n - 0x5f))
      else if 0x80 ≤ n ∧ n ≤ 0x8f then some (.dup (n - 0x7f))
      else if 0x90 ≤ n ∧ n ≤ 0x9f then some (.swap (n - 0x8f))
      else if 0xa0 ≤ n ∧ n ≤ 0xa4 then some (.log (n - 0xa0))
      else none

lemma decode_cases {fuelOptimization : Bool} {code : UInt8} {op : Op}
    (h : decode fuelOptimization code = some op) :
    (0x60 ≤ code.toNat ∧ code.toNat ≤ 0x7f ∧ op = .push (code.toNat - 0x5f)) ∨
    (¬ (0x60 ≤ code.toNat ∧ code.toNat ≤ 0x7f) ∧ (∀ n, op ≠ .push n) ∧ ∀ n, op = .log n → n ≤ 4) := by
  unfold decode at h
  -- the bytes with an entry of their own, then the four ranges
  split at h
  all_goals repeat' split at h
  all_goals simp only [some.injEq, reduceCtorEq] at h
  all_goals subst h
  all_goals simp only [ne_eq, reduceCtorEq, Op.push.injEq, Op.log.injEq, false_imp_iff, forall_eq',
    not_false_eq_true, implies_true, and_false, and_true, true_and, false_or]
  all_goals omega

lemma decode_log {fuelOptimization : Bool} {code : UInt8} {n : Nat}
    (h : decode fuelOptimization code = some (.log n)) : n ≤ 4 := by
  obtain ⟨-, -, hpush⟩ | ⟨-, -, hlog⟩ := decode_cases h
  · cases hpush
  · exact hlog n rfl

namespace ChainConfig

/-- `OpTable.locateOpCode`; `none` is the opcode `INVALID`. -/
def locateOpCode (cfg : ChainConfig) (code : UInt8) : Option Op := decode cfg.fuelOptimization code

/-- The fee `OpTableFactory.createTable` gives an opcode. The factory reads `base` first and fails
without it, so a running VM has that price. -/
def staticFee (cfg : ChainConfig) (op : Op) : Int :=
  ((cfg.gasPriceMap op.priceItem).orElse fun _ => cfg.gasPriceMap .base).getD 0

end ChainConfig

/-! ## The shipped configuration -/

def basePrice : PriceItem → Option Int
  | .base => some 2 | .exp => some 10 | .expByte => some 10 | .sha3 => some 30
  | .sha3Word => some 6 | .sload => some 50 | .sstoreSet => some 20000
  | .sstoreReset => some 5000 | .sstoreRefund => some 15000 | .jumpdest => some 1
  | .log => some 375 | .logData => some 8 | .logTopic => some 375
  | .create => some 32000 | .call => some 40 | .callStipend => some 2300
  | .callValueTransfer => some 9000 | .callNewAccount => some 25000
  | .memory => some 3 | .quadCoeffDiv => some 512 | .createData => some 200
  | .tx => some 21000 | .txCreation => some 32000 | .txDataZero => some 4
  | .txDataNonZero => some 68 | .copy => some 3 | .ecRecover => some 3000
  | .sha256 => some 60 | .sha256Word => some 12 | .ripemd160 => some 600
  | .ripemd160Word => some 120 | .identity => some 15 | .identityWord => some 3
  | .gQuadDivisor => some 3 | .stop => some 0 | .add => some 3 | .mul => some 5
  | .sub => some 3 | .div => some 5 | .sdiv => some 5 | .mod => some 5
  | .smod => some 5 | .addmod => some 8 | .mulmod => some 8 | .signextend => some 5
  | .lt => some 3 | .gt => some 3 | .slt => some 3 | .sgt => some 3 | .eq => some 3
  | .iszero => some 3 | .and => some 3 | .or => some 3 | .xor => some 3
  | .not => some 3 | .byte => some 3 | .address => some 2 | .balance => some 20
  | .origin => some 2 | .caller => some 2 | .callvalue => some 2
  | .calldataload => some 3 | .calldatasize => some 2 | .calldatacopy => some 3
  | .codesize => some 2 | .codecopy => some 3 | .gasprice => some 2
  | .extcodesize => some 20 | .extcodecopy => some 20 | .blockhash => some 20
  | .coinbase => some 2 | .timestamp => some 2 | .number => some 2
  | .difficulty => some 2 | .gaslimit => some 2 | .pop => some 2 | .mload => some 3
  | .mstore => some 3 | .mstore8 => some 3 | .sstore => some 0 | .jump => some 8
  | .jumpi => some 10 | .pc => some 2 | .msize => some 2 | .gas => some 2
  | .push => some 3 | .dup => some 3 | .swap => some 3 | .callcode => some 40
  | .return_ => some 0 | .invalid => some 0 | .selfdestruct => some 0
  | _ => none

def warmedAccessPrice : PriceItem → Option Int
  | .coldaccountaccess => some 2600 | .coldsload => some 2100
  | .warmstorageread => some 100 | .sstoreSentryGasEIP2200 => some 2300
  | .sstoreInitGasEIP2200 => some 20000 | .sstoreCleanGasEIP2200 => some 5000
  | .sstoreClearRefundEIP2200 => some 15000
  | _ => none

/-- The `gasPrice` table of the feature "Init code word cost" -/
def initCodeWordCostPrice : PriceItem → Option Int
  | .initCodeWordCost => some 2
  | _ => none

def selfDestructPrice : PriceItem → Option Int
  | .selfdestructRefund => some 24000
  | _ => none

def bls12Price : PriceItem → Option Int
  | .blake2Round => some 1 | .ecAdd => some 150 | .ecMul => some 6000
  | .ecPairing => some 45000 | .ecPairingWord => some 34000
  | .bls12381G1AddGas => some 600 | .bls12381G1MulGas => some 12000
  | .bls12381G2AddGas => some 4500 | .bls12381G2MulGas => some 55000
  | .bls12381PairingBaseGas => some 115000 | .bls12381PairingPerPairGas => some 23000
  | .bls12381MapG1Gas => some 5500 | .bls12381MapG2Gas => some 110000
  | _ => none

def bls12Discount : List Int :=
  [-1, 1200, 888, 764, 641, 594, 547, 500, 453, 438, 423, 408, 394, 379, 364, 349,
   334, 330, 326, 322, 318, 314, 310, 306, 302, 298, 294, 289, 285, 281, 277, 273,
   269, 268, 266, 265, 263, 262, 260, 259, 257, 256, 254, 253, 251, 250, 248, 247,
   245, 244, 242, 241, 239, 238, 236, 235, 233, 232, 231, 229, 228, 226, 225, 223,
   222, 221, 220, 219, 219, 218, 217, 216, 216, 215, 214, 213, 213, 212, 211, 211,
   210, 209, 208, 208, 207, 206, 205, 205, 204, 203, 202, 202, 201, 200, 199, 199,
   198, 197, 196, 196, 195, 194, 193, 193, 192, 191, 191, 190, 189, 188, 188, 187,
   186, 185, 185, 184, 183, 182, 182, 181, 180, 179, 179, 178, 177, 176, 176, 175, 174]

def mergePrice (m n : PriceItem → Option Int) (item : PriceItem) : Option Int :=
  (n item).orElse fun _ => m item

def fuelOptimizationPrice : PriceItem → Option Int :=
  mergePrice (mergePrice (mergePrice (mergePrice basePrice warmedAccessPrice)
    initCodeWordCostPrice) selfDestructPrice) bls12Price

/-- `timestamp` of the fork "init", in seconds: 2023-01-01T00:00:00. -/
def initForkTime : Int := 1672531200

/-- `timestamp` of the fork "fuelOptimization", in seconds: 2023-05-01T15:00:00. -/
def fuelOptimizationForkTime : Int := 1682953200

/-- `ChainConfigFactory.configAt(timestamp)` for the shipped `chain.json`. -/
def configAt (timestamp : Int) : ChainConfig :=
  if fuelOptimizationForkTime < timestamp then
    { gasPriceMap := fuelOptimizationPrice, isFeatureEnabled := fun _ => true,
      fuelOptimization := true, callCreateDepth := 1024, maxCodeSize := 49152,
      maxRefundQuotient := 2, bls12Discount := bls12Discount }
  else
    { gasPriceMap := basePrice, isFeatureEnabled := fun _ => false,
      fuelOptimization := false, callCreateDepth := 1024,
      maxCodeSize := if initForkTime < timestamp then 30000 else 24000,
      maxRefundQuotient := 2, bls12Discount := [] }

/-! ## What the shipped prices satisfy -/

namespace ChainConfig

/-- The price conditions. Everything the gas results need to know about a configuration; every
shipped configuration satisfies it (`configAt_sound`). -/
structure Sound (cfg : ChainConfig) : Prop where
  /-- prices are non-negative `int`s, small enough that no fee overflows -/
  price_range : ∀ item p, cfg.gasPriceMap item = some p → 0 ≤ p ∧ p ≤ 1000000
  quadCoeffDiv_pos : ∀ p, cfg.gasPriceMap .quadCoeffDiv = some p → 0 < p
  gQuadDivisor_pos : ∀ p, cfg.gasPriceMap .gQuadDivisor = some p → 0 < p
  /-- a call that carries value pays at least the stipend it hands on -/
  stipend_le : ∀ p q, cfg.gasPriceMap .callStipend = some p →
    cfg.gasPriceMap .callValueTransfer = some q → p ≤ q
  /-- the price of changing a slot covers the cold access it is reduced by -/
  coldsload_le : ∀ p q, cfg.gasPriceMap .coldsload = some p →
    cfg.gasPriceMap .sstoreCleanGasEIP2200 = some q → p ≤ q
  /-- every entry of the discount table but the first is positive -/
  discount_range : ∀ d ∈ cfg.bls12Discount.tail, 0 ≤ d ∧ d ≤ 1000000
  discount_length : cfg.bls12Discount.length ≠ 1
  maxRefundQuotient_pos : 0 < cfg.maxRefundQuotient

lemma Sound.lookForGasPrice {cfg : ChainConfig} (h : cfg.Sound) {item : PriceItem} {p : Int}
    (hp : cfg.lookForGasPrice item = .ok p) : 0 ≤ p ∧ p ≤ 1000000 := by
  unfold ChainConfig.lookForGasPrice at hp
  cases hi : cfg.gasPriceMap item with
  | none => rw [hi] at hp; cases hp
  | some q =>
    rw [hi] at hp
    obtain rfl : q = p := Except.ok.inj hp
    exact h.price_range item q hi

lemma Sound.staticFee_nonneg {cfg : ChainConfig} (h : cfg.Sound) (op : Op) :
    0 ≤ cfg.staticFee op ∧ cfg.staticFee op ≤ 1000000 := by
  unfold staticFee
  cases hp : cfg.gasPriceMap op.priceItem with
  | some p => exact h.price_range _ _ hp
  | none =>
    cases hb : cfg.gasPriceMap .base with
    | some p => exact h.price_range _ _ hb
    | none => exact ⟨le_refl 0, by decide⟩

end ChainConfig

/-- Prices small enough that no sum of a few overflows. -/
def PriceRange (m : PriceItem → Option Int) : Prop := ∀ item p, m item = some p → 0 ≤ p ∧ p ≤ 1000000

lemma PriceRange.merge {m n : PriceItem → Option Int} (hm : PriceRange m)
    (hn : PriceRange n) : PriceRange (mergePrice m n) := by
  intro item p h
  unfold mergePrice at h
  cases hi : n item with
  | some q =>
    rw [hi] at h
    exact hn item p (hi.trans h)
  | none =>
    rw [hi] at h
    exact hm item p h

lemma basePrice_range : PriceRange basePrice := by
  intro item
  cases item <;> rintro p ⟨⟩ <;> decide

lemma warmedAccessPrice_range : PriceRange warmedAccessPrice := by
  intro item p h
  unfold warmedAccessPrice at h
  split at h <;> simp only [some.injEq, reduceCtorEq] at h <;> omega

lemma initCodeWordCostPrice_range : PriceRange initCodeWordCostPrice := by
  intro item p h
  unfold initCodeWordCostPrice at h
  split at h <;> simp only [some.injEq, reduceCtorEq] at h
  omega

lemma selfDestructPrice_range : PriceRange selfDestructPrice := by
  intro item p h
  unfold selfDestructPrice at h
  split at h <;> simp only [some.injEq, reduceCtorEq] at h
  omega

lemma bls12Price_range : PriceRange bls12Price := by
  intro item p h
  unfold bls12Price at h
  split at h <;> simp only [some.injEq, reduceCtorEq] at h <;> omega

lemma fuelOptimizationPrice_range : PriceRange fuelOptimizationPrice :=
  (((basePrice_range.merge warmedAccessPrice_range).merge
    initCodeWordCostPrice_range).merge selfDestructPrice_range).merge bls12Price_range

private lemma bls12Discount_range : ∀ d ∈ bls12Discount.tail, 0 ≤ d ∧ d ≤ 1000000 := by
  decide +kernel

lemma configAt_callCreateDepth (timestamp : Int) : (configAt timestamp).callCreateDepth = 1024 := by
  unfold configAt
  split <;> rfl

lemma configAt_sound (timestamp : Int) : (configAt timestamp).Sound := by
  unfold configAt
  split
  · exact
    { price_range := fuelOptimizationPrice_range
      quadCoeffDiv_pos := fun p h => by
        obtain rfl : 512 = p := some.inj h
        decide
      gQuadDivisor_pos := fun p h => by
        obtain rfl : 3 = p := some.inj h
        decide
      stipend_le := fun p q hp hq => by
        obtain rfl : 2300 = p := some.inj hp
        obtain rfl : 9000 = q := some.inj hq
        decide
      coldsload_le := fun p q hp hq => by
        obtain rfl : 2100 = p := some.inj hp
        obtain rfl : 5000 = q := some.inj hq
        decide
      discount_range := bls12Discount_range
      discount_length := by decide +kernel
      maxRefundQuotient_pos := by decide }
  · exact
    { price_range := basePrice_range
      quadCoeffDiv_pos := fun p h => by
        obtain rfl : 512 = p := some.inj h
        decide
      gQuadDivisor_pos := fun p h => by
        obtain rfl : 3 = p := some.inj h
        decide
      stipend_le := fun p q hp hq => by
        obtain rfl : 2300 = p := some.inj hp
        obtain rfl : 9000 = q := some.inj hq
        decide
      coldsload_le := fun p q hp _ => absurd hp (some_ne_none p).symm
      discount_range := fun d h => absurd h (List.not_mem_nil)
      discount_length := by show (0 : Nat) ≠ 1; decide
      maxRefundQuotient_pos := by show (0 : Int) < 2; decide }

end GrapeDag
