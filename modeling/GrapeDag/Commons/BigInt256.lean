/-
WORDS AS THE ARRAYS THEY ARE.

`BigInt256.java`, `UInt256.java`, `Math256.java` and `Bytes.leftPadBytes`, on byte arrays. The
constructor pads short arrays and KEEPS long ones; results come from `java.math.BigInteger`, as
a two's complement without its sign byte, padded or cut to 32 bytes. `wordArithmetic` connects
this to the words of the VM, which are `BitVec 256`.
-/
import GrapeDag.Commons.WordArithmetic

namespace GrapeDag

open Word

/-! ## Arrays -/

/-- `BigInt256`; the array may have any length. -/
structure BigInt256 where
  bytes : Bytes
  deriving Repr, DecidableEq

namespace BigInt256

def leftPad (input : Bytes) (len : Nat) (fill : UInt8) : Bytes :=
  if len ≤ input.length then input.drop (input.length - len)
  else List.replicate (len - input.length) fill ++ input

def padToWord (input : Bytes) : Bytes := leftPad input 32 0

def padToWordFF (input : Bytes) : Bytes := leftPad input 32 0xff

def new (bytes : Bytes) : BigInt256 := ⟨if bytes.length < 32 then padToWord bytes else bytes⟩

def asSignedByteArray (value : Int) : Bytes :=
  if value < 0 then padToWordFF (asUnsignedByteArray value)
  else padToWord (asUnsignedByteArray value)

def valueOf (value : Int) : BigInt256 := new (asSignedByteArray value)

def uint256 (value : Int) : BigInt256 := new (asUnsignedByteArray value)

def uint256Long (value : Int) : BigInt256 :=
  new (padToWord (natToBytes 8 (value % 18446744073709551616).toNat))

/-- `UINT_256_ZERO`, `UINT_256_ONE` and `UINT_256_MAX_BIGINT` -/
def zero : BigInt256 := uint256Long 0

def one : BigInt256 := uint256Long 1

def maxBigInt : BigInt256 := uint256 (2 ^ 256 - 1)

/-! ## Readings -/

section

variable (x y : BigInt256)

def unsigned : Nat := bytesToNat x.bytes

/-- `getSignedBigInteger`: the array as a two's complement. -/
def signed : Int :=
  if 2 * x.unsigned < 256 ^ x.bytes.length then x.unsigned
  else x.unsigned - (256 ^ x.bytes.length : Nat)

def intValue : Int := wrap32 x.unsigned

def intValueSafe : Int := if IsInt x.unsigned then x.unsigned else intMax

def isBitSet (n : Nat) : Bool := (x.bytes.getD (31 - n / 8) 0).toNat.testBit (n % 8)

def isZero : Bool := isAllZero x.bytes

def sign : Int := if x.isZero then 0 else if x.isBitSet 255 then -1 else 1

/-! ## Operations -/

def eq : Bool := x.unsigned = y.unsigned

def gt : Bool := x.unsigned > y.unsigned

def lt : Bool := x.unsigned < y.unsigned

def sgt : Bool :=
  if x.sign ≥ 0 ∧ y.sign < 0 then true
  else if x.sign < 0 ∧ y.sign ≥ 0 then false
  else x.gt y

def slt : Bool :=
  if x.sign ≥ 0 ∧ y.sign < 0 then false
  else if x.sign < 0 ∧ y.sign ≥ 0 then true
  else x.lt y

def and : BigInt256 := valueOf (x.unsigned &&& y.unsigned : Nat)

def or : BigInt256 := valueOf (x.unsigned ||| y.unsigned : Nat)

def xor : BigInt256 := valueOf (x.unsigned ^^^ y.unsigned : Nat)

def not : BigInt256 := new (x.bytes.map (~~~ ·))

def add : BigInt256 := valueOf ((x.signed + y.signed) % 2 ^ 256)

def sub : BigInt256 := valueOf ((x.signed - y.signed) % 2 ^ 256)

def neg : BigInt256 := zero.sub x

def abs : BigInt256 := if x.sign = -1 then x.neg else x

def mul : BigInt256 := valueOf ((x.unsigned * y.unsigned : Nat) % 2 ^ 256)

def modmul (a m : BigInt256) : BigInt256 :=
  if m.isZero || a.isZero || x.isZero then zero
  else valueOf ((x.unsigned * a.unsigned) % m.unsigned : Nat)

def div : BigInt256 :=
  if y.isZero then zero else valueOf ((x.unsigned / y.unsigned : Nat) % 2 ^ 256)

def sdiv : BigInt256 :=
  if y.isZero then zero
  else
    let z := (if x.sign < 0 then x.neg else x).div (if y.sign < 0 then y.neg else y)
    if x.sign ≠ y.sign then z.neg else z

def mod : BigInt256 :=
  if y.isZero then zero else valueOf (x.unsigned % y.unsigned : Nat)

def smod : BigInt256 :=
  if y.isZero then zero
  else
    let z := (if x.sign < 0 then x.neg else x).mod y.abs
    if x.sign < 0 then z.neg else z

def modadd (a m : BigInt256) : BigInt256 :=
  if m.isZero then zero else valueOf ((x.unsigned + a.unsigned) % m.unsigned : Nat)

/-- `BigInteger.shiftLeft`; a negative distance shifts to the right. -/
def shiftLeft (value bits : Int) : Int :=
  if 0 ≤ bits then value * 2 ^ bits.toNat else value / 2 ^ (-bits).toNat

def shl (bits : Int) : BigInt256 := valueOf (shiftLeft x.unsigned bits)

def shr (bits : Int) : BigInt256 := valueOf (shiftLeft x.unsigned (-bits))

def sar (shift : BigInt256) : BigInt256 :=
  if shift.gt (uint256Long 256) then (if x.isBitSet 255 then maxBigInt else zero)
  else
    let bit := shift.intValue
    if bit = 0 then x
    else
      let shifted := x.shr bit
      if x.isBitSet 255 then
        if bit = 256 then maxBigInt
        else
          let outBits := 255 - bit
          let mask := (maxBigInt.shr outBits).shl outBits
          shifted.or mask
      else shifted

end

def signExt (value byteNum : BigInt256) : BigInt256 :=
  if byteNum.gt (uint256Long 31) then value
  else
    let bit := byteNum.intValueSafe * 8 + 7
    let mask := (one.shl bit).sub one
    let s := (value.shr bit).and one
    if s.isZero then value.and mask else value.or mask.not

def getByte (pos : Int) (word : BigInt256) : BigInt256 :=
  if pos > 31 then zero else (word.shr ((31 - pos) * 8)).and (uint256Long 0xff)

/-! ## Results have 32 bytes -/

lemma padToWord_eq (bs : Bytes) : padToWord bs = natToBytes 32 (bytesToNat bs) := by
  rw [← natToBytes_bytesToNat_pad]
  unfold padToWord leftPad
  split
  · next hle =>
    rw [Nat.sub_eq_zero_of_le hle]
    rfl
  · next hlt => rw [Nat.sub_eq_zero_of_le (by omega : bs.length ≤ 32), List.drop_zero]

lemma padToWord_natToBytes {len n : Nat} (h : n < 256 ^ len) :
    padToWord (natToBytes len n) = natToBytes 32 n := by
  rw [padToWord_eq, bytesToNat_natToBytes, Nat.mod_eq_of_lt h]

lemma padToWord_asUnsignedByteArray (n : Nat) : padToWord (asUnsignedByteArray n) = natToBytes 32 n := by
  rw [padToWord_eq, bytesToNat_asUnsignedByteArray]

lemma new_of_length {bs : Bytes} (h : bs.length = 32) : new bs = ⟨bs⟩ := by
  unfold new
  rw [if_neg (by omega)]

/-! ## Words -/

def ofWord (w : Word) : BigInt256 := ⟨w.bytes⟩

@[simp] lemma length_ofWord (w : Word) : (ofWord w).bytes.length = 32 := length_natToBytes 32 _

lemma exists_ofWord {x : BigInt256} (h : x.bytes.length = 32) : ∃ w, x = ofWord w := by
  obtain ⟨bs⟩ := x
  have hlen : bs.length = 32 := h
  have hlt : bytesToNat bs < 2 ^ 256 := by
    have hbytes := bytesToNat_lt bs
    rw [hlen] at hbytes
    exact hbytes
  refine ⟨BitVec.ofNat 256 (bytesToNat bs), ?_⟩
  unfold ofWord Word.bytes
  rw [BitVec.toNat_ofNat, Nat.mod_eq_of_lt hlt, ← hlen, natToBytes_bytesToNat]

@[simp] lemma unsigned_ofWord (w : Word) : (ofWord w).unsigned = w.toNat := by
  unfold unsigned ofWord Word.bytes
  rw [bytesToNat_natToBytes]
  exact Nat.mod_eq_of_lt w.isLt

lemma signed_ofWord (w : Word) : (ofWord w).signed = w.toInt := by
  unfold signed
  rw [unsigned_ofWord, length_ofWord]
  rfl

lemma valueOf_eq (n : Nat) : valueOf n = ofWord (Word.valueOf n) := by
  have hrep := Word.represents_valueOf n
  have hneg : ¬ (n : Int) < 0 := by omega
  have hnat : (Word.valueOf n).toNat = n % 256 ^ 32 := by
    unfold Word.Represents at hrep
    omega
  unfold valueOf asSignedByteArray
  rw [if_neg hneg, padToWord_asUnsignedByteArray, new_of_length (length_natToBytes 32 n)]
  unfold ofWord Word.bytes
  rw [hnat, natToBytes_mod]

lemma valueOf_emod (v : Int) : valueOf (v % 2 ^ 256) = ofWord (Word.valueOf (v % 2 ^ 256)) := by
  obtain ⟨n, hn⟩ := Int.eq_ofNat_of_zero_le (Int.emod_nonneg v (by decide : (2 ^ 256 : Int) ≠ 0))
  rw [hn]
  exact valueOf_eq n

lemma isZero_ofWord (w : Word) : (ofWord w).isZero = w.isZero := by
  have hall : ∀ bs : Bytes, isAllZero bs = true ↔ bytesToNat bs = 0 := by
    intro bs
    induction bs with
    | nil => simp [isAllZero, bytesToNat]
    | cons b bs ih =>
      have hcons : isAllZero (b :: bs) = (decide (b = 0) && isAllZero bs) := rfl
      have hb : b = 0 ↔ b.toNat = 0 := UInt8.toNat_inj.symm
      have hpow : 0 < 256 ^ bs.length := Nat.pow_pos (by decide)
      rw [hcons, bytesToNat_cons, Bool.and_eq_true, decide_eq_true_iff, ih, hb, Nat.add_eq_zero_iff,
        Nat.mul_eq_zero]
      omega
  have hword := unsigned_ofWord w
  unfold unsigned at hword
  rw [Bool.eq_iff_iff, isZero_iff]
  unfold isZero
  rw [hall, hword]

lemma isBitSet_ofWord (w : Word) : (ofWord w).isBitSet 255 = w.getLsbD 255 := by
  have hfirst : (ofWord w).bytes.getD 0 0 = UInt8.ofNat (w.toNat / 256 ^ 31) := rfl
  show ((ofWord w).bytes.getD 0 0).toNat.testBit 7 = w.toNat.testBit 255
  have hbyte : (UInt8.ofNat (w.toNat / 256 ^ 31)).toNat = w.toNat / 2 ^ 248 % 2 ^ 8 := UInt8.toNat_ofNat'
  rw [hfirst, hbyte, Nat.testBit_mod_two_pow, Nat.testBit_div_two_pow]
  simp

lemma sign_ofWord (w : Word) : (ofWord w).sign = w.sign := by
  unfold sign Word.sign
  rw [isZero_ofWord, isBitSet_ofWord]

lemma uint256Long_eq {n : Nat} (h : n < 2 ^ 64) : uint256Long n = ofWord (Word.valueOf n) := by
  have hmod : ((n : Int) % 18446744073709551616).toNat = n := by omega
  have hword : (Word.valueOf n).toNat = n := Word.toNat_valueOf (by omega)
  unfold uint256Long
  rw [hmod, padToWord_natToBytes h, new_of_length (length_natToBytes 32 n)]
  unfold ofWord Word.bytes
  rw [hword]

lemma zero_eq : zero = ofWord 0 := uint256Long_eq (n := 0) (by decide)

lemma one_eq : one = ofWord 1 := uint256Long_eq (n := 1) (by decide)

lemma maxBigInt_eq : maxBigInt = ofWord (BitVec.allOnes 256) := by
  decide +kernel

/-! ## The operations on words -/

section

variable (x y : Word)

lemma lt_ofWord : (ofWord x).lt (ofWord y) = x.lt y := by
  unfold lt Word.lt
  rw [unsigned_ofWord, unsigned_ofWord]

lemma gt_ofWord : (ofWord x).gt (ofWord y) = x.gt y := by
  unfold gt Word.gt
  rw [unsigned_ofWord, unsigned_ofWord]

lemma eq_ofWord : (ofWord x).eq (ofWord y) = x.eq y := by
  unfold eq Word.eq
  rw [unsigned_ofWord, unsigned_ofWord]

lemma slt_ofWord : (ofWord x).slt (ofWord y) = x.slt y := by
  unfold slt Word.slt
  simp only [sign_ofWord, lt_ofWord]

lemma sgt_ofWord : (ofWord x).sgt (ofWord y) = x.sgt y := by
  unfold sgt Word.sgt
  simp only [sign_ofWord, gt_ofWord]

lemma add_ofWord : (ofWord x).add (ofWord y) = ofWord (x.add y) := by
  unfold add Word.add
  rw [signed_ofWord, signed_ofWord, valueOf_emod]

lemma sub_ofWord : (ofWord x).sub (ofWord y) = ofWord (x.sub y) := by
  unfold sub Word.sub
  rw [signed_ofWord, signed_ofWord, valueOf_emod]

lemma neg_ofWord : (ofWord x).neg = ofWord x.neg := by
  unfold neg
  rw [zero_eq, sub_ofWord]
  rfl

lemma mul_ofWord : (ofWord x).mul (ofWord y) = ofWord (x.mul y) := by
  unfold mul Word.mul
  rw [unsigned_ofWord, unsigned_ofWord, valueOf_emod]

lemma ifZero_ofWord {z : Bool} {r : BigInt256} {w : Word} (h : r = ofWord w) :
    (if z then zero else r) = ofWord (if z then 0 else w) := by
  rw [h]
  split <;> rfl

lemma div_ofWord : (ofWord x).div (ofWord y) = ofWord (x.div y) := by
  unfold div
  rw [unsigned_ofWord, unsigned_ofWord, isZero_ofWord]
  exact ifZero_ofWord (valueOf_emod _)

lemma mod_ofWord : (ofWord x).mod (ofWord y) = ofWord (x.mod y) := by
  unfold mod
  rw [unsigned_ofWord, unsigned_ofWord, isZero_ofWord]
  exact ifZero_ofWord (valueOf_eq _)

lemma modadd_ofWord (a m : Word) : (ofWord x).modadd (ofWord a) (ofWord m) = ofWord (x.modadd a m) := by
  unfold modadd
  rw [unsigned_ofWord, unsigned_ofWord, unsigned_ofWord, isZero_ofWord]
  exact ifZero_ofWord (valueOf_eq _)

lemma modmul_ofWord (a m : Word) : (ofWord x).modmul (ofWord a) (ofWord m) = ofWord (x.modmul a m) := by
  unfold modmul
  rw [unsigned_ofWord, unsigned_ofWord, unsigned_ofWord, isZero_ofWord, isZero_ofWord, isZero_ofWord]
  exact ifZero_ofWord (valueOf_eq _)

lemma ite_ofWord {p : Prop} [Decidable p] (x y : Word) :
    (if p then ofWord x else ofWord y) = ofWord (if p then x else y) := by
  split <;> rfl

lemma sdiv_ofWord : (ofWord x).sdiv (ofWord y) = ofWord (x.sdiv y) := by
  unfold sdiv
  rw [isZero_ofWord]
  refine ifZero_ofWord ?_
  simp only [sign_ofWord, neg_ofWord, ite_ofWord, div_ofWord]

lemma abs_ofWord : (ofWord x).abs = ofWord x.abs := by
  unfold abs Word.abs
  simp only [sign_ofWord, neg_ofWord, ite_ofWord]

lemma smod_ofWord : (ofWord x).smod (ofWord y) = ofWord (x.smod y) := by
  unfold smod
  rw [isZero_ofWord]
  refine ifZero_ofWord ?_
  simp only [sign_ofWord, neg_ofWord, abs_ofWord, ite_ofWord, mod_ofWord]

lemma valueOf_toNat (w : Word) : valueOf w.toNat = ofWord w := by
  rw [valueOf_eq]
  congr 1
  exact BitVec.eq_of_toNat_eq (toNat_valueOf w.isLt)

lemma and_ofWord : (ofWord x).and (ofWord y) = ofWord (x &&& y) := by
  unfold and
  rw [unsigned_ofWord, unsigned_ofWord, ← BitVec.toNat_and, valueOf_toNat]

lemma or_ofWord : (ofWord x).or (ofWord y) = ofWord (x ||| y) := by
  unfold or
  rw [unsigned_ofWord, unsigned_ofWord, ← BitVec.toNat_or, valueOf_toNat]

lemma xor_ofWord : (ofWord x).xor (ofWord y) = ofWord (x ^^^ y) := by
  unfold xor
  rw [unsigned_ofWord, unsigned_ofWord, ← BitVec.toNat_xor, valueOf_toNat]

lemma bytesToNat_not (bs : Bytes) : bytesToNat (bs.map (~~~ ·)) + bytesToNat bs + 1 = 256 ^ bs.length := by
  induction bs with
  | nil => rfl
  | cons b bs ih =>
    have hb : (~~~b).toNat + b.toNat = 255 := by
      have hlt := b.toNat_lt
      have hnot : (~~~b).toNat = 255 - b.toNat := UInt8.toNat_not b
      omega
    rw [List.map_cons, bytesToNat_cons, bytesToNat_cons, List.length_map, List.length_cons]
    have hsum : (~~~b).toNat * 256 ^ bs.length + b.toNat * 256 ^ bs.length = 255 * 256 ^ bs.length := by
      rw [← Nat.add_mul, hb]
    omega

lemma not_ofWord : (ofWord x).not = ofWord (~~~x) := by
  have hlen : ((ofWord x).bytes.map (~~~ ·)).length = 32 := by simp
  have hsum := bytesToNat_not (ofWord x).bytes
  have hword := unsigned_ofWord x
  unfold unsigned at hword
  rw [length_ofWord] at hsum
  have hnat : bytesToNat ((ofWord x).bytes.map (~~~ ·)) = (~~~x).toNat := by
    rw [BitVec.toNat_not]
    omega
  unfold not
  rw [new_of_length hlen]
  generalize (ofWord x).bytes.map (~~~ ·) = bs at hlen hnat ⊢
  show BigInt256.mk bs = ⟨natToBytes 32 (~~~x).toNat⟩
  rw [← hnat, ← hlen, natToBytes_bytesToNat]

lemma shl_ofWord (bits : Nat) : (ofWord x).shl bits = ofWord (x.shl bits) := by
  unfold shl
  rw [unsigned_ofWord]
  exact_mod_cast valueOf_eq (x.toNat * 2 ^ bits)

lemma shr_ofWord (bits : Nat) : (ofWord x).shr bits = ofWord (x.shr bits) := by
  have hshift : shiftLeft x.toNat (-bits) = (x.toNat / 2 ^ bits : Nat) := by
    unfold shiftLeft
    by_cases hzero : bits = 0
    · simp [hzero]
    · rw [if_neg (by omega), neg_neg]
      push_cast
      rfl
  unfold shr
  rw [unsigned_ofWord, hshift]
  exact valueOf_eq _

lemma gt_uint256Long {n : Nat} (h : n < 2 ^ 64) :
    (ofWord x).gt (uint256Long n) = decide (n < x.toNat) := by
  rw [uint256Long_eq h, gt_ofWord, gt_iff, toNat_valueOf (by omega)]

lemma sar_ofWord (shift : Word) : (ofWord x).sar (ofWord shift) = ofWord (x.sar shift) := by
  have hgt : (ofWord shift).gt (uint256Long 256) = shift.gt 256 := gt_uint256Long shift (n := 256) (by decide)
  unfold sar Word.sar
  rw [hgt, isBitSet_ofWord, maxBigInt_eq, zero_eq, ite_ofWord]
  by_cases hbig : shift.gt 256 = true
  · rw [if_pos hbig, if_pos hbig]
  have hle : shift.toNat ≤ 256 := by
    by_contra hcon
    exact hbig (decide_eq_true (show shift.toNat > 256 by omega))
  have hint : (ofWord shift).intValue = shift.toNat := by
    unfold intValue
    rw [unsigned_ofWord]
    exact wrap32_of_isInt (by omega)
  rw [if_neg hbig, if_neg hbig]
  simp only [hint, shr_ofWord]
  by_cases hzero : shift.toNat = 0
  · rw [if_pos (by omega), if_pos hzero]
  rw [if_neg (by omega)]
  by_cases hfull : shift.toNat = 256
  · simp only [hfull, if_true]
    split <;> rfl
  · have hout : (255 : Int) - shift.toNat = (255 - shift.toNat : Nat) := by omega
    rw [if_neg (by omega : ¬ (shift.toNat : Int) = 256), hout, shr_ofWord, shl_ofWord, or_ofWord]
    split <;> rfl

lemma signExt_ofWord (value byteNum : Word) :
    (ofWord value).signExt (ofWord byteNum) = ofWord (value.signExt byteNum) := by
  have hgt : (ofWord byteNum).gt (uint256Long 31) = byteNum.gt 31 :=
    gt_uint256Long byteNum (n := 31) (by decide)
  unfold signExt Word.signExt
  rw [hgt]
  by_cases hbig : byteNum.gt 31 = true
  · rw [if_pos hbig, if_pos hbig]
  have hle : byteNum.toNat ≤ 31 := by
    by_contra hcon
    exact hbig (decide_eq_true (show byteNum.toNat > 31 by omega))
  have hint : (ofWord byteNum).intValueSafe * 8 + 7 = (byteNum.toNat * 8 + 7 : Nat) := by
    unfold intValueSafe
    rw [unsigned_ofWord, if_pos (by omega)]
    omega
  simp only [hint, one_eq, shl_ofWord, shr_ofWord, sub_ofWord, and_ofWord, or_ofWord, not_ofWord,
    isZero_ofWord, ite_ofWord]

lemma getByte_ofWord (pos word : Word) :
    getByte (ofWord pos).intValueSafe (ofWord word) = ofWord (Word.getByte pos.intValueSafe word) := by
  have hint : (ofWord pos).intValueSafe = pos.intValueSafe := by
    unfold intValueSafe Word.intValueSafe
    rw [unsigned_ofWord]
  have hnonneg : 0 ≤ pos.intValueSafe := by
    unfold Word.intValueSafe intMax
    split <;> omega
  have hff : uint256Long 255 = ofWord 255 := uint256Long_eq (n := 255) (by decide)
  unfold getByte Word.getByte
  rw [hint, zero_eq]
  by_cases hbig : pos.intValueSafe > 31
  · rw [if_pos hbig, if_pos hbig]
  · have hbits : (31 - pos.intValueSafe) * 8 = ((31 - pos.intValueSafe.toNat) * 8 : Nat) := by omega
    rw [if_neg hbig, if_neg hbig, hbits, shr_ofWord, hff, and_ofWord]

end

/-! ## Integers modulo `2^256` -/

/-- An array of 32 bytes that holds the integer modulo `2^256`. -/
structure Holds (r : BigInt256) (v : Int) : Prop where
  length : r.bytes.length = 32
  value : (r.unsigned : Int) = v % 2 ^ 256

lemma holds_ofWord {w : Word} {v : Int} (h : w.Represents v) : (ofWord w).Holds v :=
  ⟨length_ofWord w, by rw [unsigned_ofWord]; exact h⟩

/-- The operations on three words and a shift distance, each against the integers. -/
structure Arithmetic (x y m : BigInt256) (n : Nat) : Prop where
  add : (x.add y).Holds (x.unsigned + y.unsigned)
  sub : (x.sub y).Holds (x.unsigned - y.unsigned)
  mul : (x.mul y).Holds (x.unsigned * y.unsigned)
  div : (x.div y).Holds (if y.unsigned = 0 then 0 else x.unsigned / y.unsigned)
  sdiv : (x.sdiv y).Holds (if y.unsigned = 0 then 0 else x.signed.tdiv y.signed)
  mod : (x.mod y).Holds (if y.unsigned = 0 then 0 else x.unsigned % y.unsigned)
  smod : (x.smod y).Holds (if y.unsigned = 0 then 0 else x.signed.tmod y.signed)
  modadd : (x.modadd y m).Holds
    (if m.unsigned = 0 then 0 else (x.unsigned + y.unsigned) % m.unsigned)
  modmul : (x.modmul y m).Holds
    (if m.unsigned = 0 then 0 else (x.unsigned * y.unsigned) % m.unsigned)
  signExt : (x.signExt y).Holds
    (if y.unsigned ≤ 31 then (x.unsigned : Int).bmod (2 ^ (8 * (y.unsigned + 1))) else x.unsigned)
  lt : x.lt y = decide (x.unsigned < y.unsigned)
  gt : x.gt y = decide (y.unsigned < x.unsigned)
  slt : x.slt y = decide (x.signed < y.signed)
  sgt : x.sgt y = decide (y.signed < x.signed)
  eq : x.eq y = decide (x.unsigned = y.unsigned)
  and : (x.and y).Holds (x.unsigned &&& y.unsigned : Nat)
  or : (x.or y).Holds (x.unsigned ||| y.unsigned : Nat)
  xor : (x.xor y).Holds (x.unsigned ^^^ y.unsigned : Nat)
  not : x.not.Holds (2 ^ 256 - 1 - x.unsigned)
  getByte : (BigInt256.getByte y.intValueSafe x).Holds
    (if y.unsigned ≤ 31 then (x.unsigned / 256 ^ (31 - y.unsigned) % 256 : Nat) else 0)
  shl : (x.shl n).Holds (x.unsigned * 2 ^ n)
  shr : (x.shr n).Holds (x.unsigned / 2 ^ n)
  sar : (x.sar y).Holds (x.signed / 2 ^ y.unsigned)

/-- **On 32-byte words every operation is the one on integers modulo `2^256`**, signed readings are
two's complements, signed division truncates, the remainder has the sign of the dividend, a divisor
or modulus zero gives zero, and every result has 32 bytes. -/
theorem wordArithmetic (x y m : { a : BigInt256 // a.bytes.length = 32 }) (n : Fin 256) :
    Arithmetic x.val y.val m.val n := by
  obtain ⟨x, hx⟩ := x
  obtain ⟨y, hy⟩ := y
  obtain ⟨m, hm⟩ := m
  obtain ⟨x, rfl⟩ := exists_ofWord hx
  obtain ⟨y, rfl⟩ := exists_ofWord hy
  obtain ⟨m, rfl⟩ := exists_ofWord hm
  constructor <;> simp only [unsigned_ofWord, signed_ofWord]
  case add => rw [add_ofWord]; exact holds_ofWord (add_represents x y)
  case sub => rw [sub_ofWord]; exact holds_ofWord (sub_represents x y)
  case mul => rw [mul_ofWord]; exact holds_ofWord (mul_represents x y)
  case div => rw [div_ofWord]; exact holds_ofWord (div_represents x y)
  case sdiv => rw [sdiv_ofWord]; exact holds_ofWord (sdiv_represents x y)
  case mod => rw [mod_ofWord]; exact holds_ofWord (mod_represents x y)
  case smod => rw [smod_ofWord]; exact holds_ofWord (smod_represents x y)
  case modadd => rw [modadd_ofWord]; exact holds_ofWord (modadd_represents x y m)
  case modmul => rw [modmul_ofWord]; exact holds_ofWord (modmul_represents x y m)
  case signExt => rw [signExt_ofWord]; exact holds_ofWord (signExt_represents x y)
  case lt => rw [lt_ofWord, lt_iff]
  case gt => rw [gt_ofWord, gt_iff]
  case slt => rw [slt_ofWord, slt_eq]
  case sgt => rw [sgt_ofWord, sgt_eq]
  case eq => rw [eq_ofWord]; rfl
  case and => rw [and_ofWord]; exact holds_ofWord (represents_toNat _)
  case or => rw [or_ofWord]; exact holds_ofWord (represents_toNat _)
  case xor => rw [xor_ofWord]; exact holds_ofWord (represents_toNat _)
  case not =>
    have hnot : ((~~~x).toNat : Int) = 2 ^ 256 - 1 - x.toNat := by
      rw [BitVec.toNat_not]
      omega
    rw [not_ofWord, ← hnot]
    exact holds_ofWord (represents_toNat _)
  case getByte => rw [getByte_ofWord]; exact holds_ofWord (getByte_represents y x)
  case shl => rw [shl_ofWord]; exact holds_ofWord (shl_represents x n)
  case shr => rw [shr_ofWord]; exact holds_ofWord (shr_represents x n)
  case sar => rw [sar_ofWord]; exact holds_ofWord (sar_represents x y)

end BigInt256

end GrapeDag
