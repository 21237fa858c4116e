/-
256-BIT WORDS AND ADDRESSES.

`BigInt256.java`, `UInt256.java` and `Math256.java`. `UInt256`'s constructor pads
to 32 bytes and the stack refuses anything longer, so a stack word is exactly 32
bytes: a `BitVec 256`. `getUnsignedBigInteger` is `toNat`, `getSignedBigInteger` is
`toInt`, and `BigInt256.valueOf` keeps the lowest 32 bytes, i.e. `BitVec.ofInt`.

The narrowing conversions are where operands lose their upper bits:

  * `intValue`, `longValue`        — the low 32/64 bits, SIGNED;
  * `intValueSafe`, `longValueSafe` — saturating (`intValue(true)`);
  * `intValueExact`                — throws (`intValue(false)`);
  * `bigIntegerValue`              — the SIGNED value of all 256 bits.
-/
import GrapeDag.Commons.Bytes

namespace GrapeDag

open Imperative

abbrev Word := BitVec 256

/-- `VmAddress`: 20 bytes. -/
abbrev Address := BitVec 160

instance (a : Address) (addresses : List Address) : Decidable (a ∈ addresses) := inferInstance

namespace Word

def valueOf (v : Int) : Word := BitVec.ofInt 256 v

/-- `Math256.uint256(byte[])` of at most 32 bytes. -/
def ofBytes (bs : Bytes) : Word := BitVec.ofNat 256 (bytesToNat bs)

/-- `Math256.uint256(long)`: eight bytes, padded with ZEROS also when negative. -/
def ofLong (v : Int) : Word := BitVec.ofNat 256 (v % 18446744073709551616).toNat

/-- `bytes()` and `bytes32()`: the two agree on 32-byte words. -/
def bytes (w : Word) : Bytes := natToBytes 32 w.toNat

lemma length_bytes (w : Word) : w.bytes.length = 32 := length_natToBytes 32 _

/-- `VmAddress.from(word.bytes())`: the last 20 bytes. -/
def toAddress (w : Word) : Address := w.setWidth 160

def ofBool (b : Bool) : Word := if b then 1 else 0

section

variable (w x y : Word)

/-! ## Narrowing -/

def bigIntegerValue : Int := w.toInt

def longValue : Int := wrap64 w.toNat

def longValueSafe : Int := if IsLong w.toNat then w.toNat else longMax

def intValue : Int := wrap32 w.toNat

def intValueSafe : Int := if IsInt w.toNat then w.toNat else intMax

def intValueExact : Checked Int := toIntExact w.toNat

lemma isInt_intValue : IsInt w.intValue := isInt_wrap32 _

/-! ## Arithmetic -/

def byteLength : Nat := (bitLength w.toNat + 7) / 8

def isZero : Bool := w = 0

def isNonZero : Bool := !w.isZero

/-- `sign()`: the sign of the two's-complement value. -/
def sign : Int := if w.isZero then 0 else if w.getLsbD 255 then -1 else 1

def lt : Bool := x.toNat < y.toNat

def gt : Bool := x.toNat > y.toNat

def gte : Bool := x.toNat ≥ y.toNat

def eq : Bool := x.toNat = y.toNat

def slt : Bool :=
  if x.sign ≥ 0 ∧ y.sign < 0 then false
  else if x.sign < 0 ∧ y.sign ≥ 0 then true
  else x.lt y

def sgt : Bool :=
  if x.sign ≥ 0 ∧ y.sign < 0 then true
  else if x.sign < 0 ∧ y.sign ≥ 0 then false
  else x.gt y

def add : Word := valueOf ((x.toInt + y.toInt) % 2 ^ 256)

def sub : Word := valueOf ((x.toInt - y.toInt) % 2 ^ 256)

def neg : Word := sub 0 x

def abs : Word := if x.sign = -1 then x.neg else x

def mul : Word := valueOf ((x.toNat * y.toNat : Nat) % 2 ^ 256)

def div : Word :=
  if y.isZero then 0 else valueOf ((x.toNat / y.toNat : Nat) % 2 ^ 256)

def sdiv : Word :=
  if y.isZero then 0
  else
    let z := (if x.sign < 0 then x.neg else x).div (if y.sign < 0 then y.neg else y)
    if x.sign ≠ y.sign then z.neg else z

def mod : Word := if y.isZero then 0 else valueOf (x.toNat % y.toNat : Nat)

def smod : Word :=
  if y.isZero then 0
  else
    let z := (if x.sign < 0 then x.neg else x).mod y.abs
    if x.sign < 0 then z.neg else z

def modadd (a m : Word) : Word :=
  if m.isZero then 0 else valueOf ((x.toNat + a.toNat) % m.toNat : Nat)

def modmul (a m : Word) : Word :=
  if m.isZero || a.isZero || x.isZero then 0
  else valueOf ((x.toNat * a.toNat) % m.toNat : Nat)

def shl (bits : Nat) : Word := valueOf (x.toNat * 2 ^ bits : Nat)

def shr (bits : Nat) : Word := valueOf (x.toNat / 2 ^ bits : Nat)

def sar (shift : Word) : Word :=
  if shift.gt 256 then (if x.getLsbD 255 then BitVec.allOnes 256 else 0)
  else
    let bit := shift.toNat
    if bit = 0 then x
    else if x.getLsbD 255 then
      if bit = 256 then BitVec.allOnes 256
      else
        let outBits := 255 - bit
        let mask := (shr (BitVec.allOnes 256) outBits).shl outBits
        x.shr bit ||| mask
    else x.shr bit

def signExt (value byteNum : Word) : Word :=
  if byteNum.gt 31 then value
  else
    let bit := byteNum.toNat * 8 + 7
    let mask := (shl 1 bit).sub 1
    if (value.shr bit &&& 1).isZero then value &&& mask else value ||| ~~~mask

/-- `Math256.getByte(pos, word)`; `pos` is a saturated, hence non-negative, `int`. -/
def getByte (pos : Int) (w : Word) : Word :=
  if pos > 31 then 0 else w.shr ((31 - pos.toNat) * 8) &&& 255

end

/-- The square-and-multiply loop of `BigInt256.exponentiation`. -/
def exponentiation : (fuel : Nat) → (result base exponent : Nat) → Nat
  | 0, result, _, _ => result
  | fuel + 1, result, base, exponent =>
      if exponent = 0 then result
      else
        let result := if exponent % 2 = 1 then result * base % 2 ^ 256 else result
        exponentiation fuel result (base * base % 2 ^ 256) (exponent / 2)

/-- `pow`. Small exponents go through `BigInteger.pow`, which forms the full power and throws when
its bit length is not supported by the JDK (`powFits` is false). -/
def pow (powFits : Nat → Nat → Bool) (base exponent : Word) : Checked Word :=
  if base.isZero then return if exponent.isZero then 1 else base
  else if base.eq 1 then return base
  else if exponent.toNat ≤ 2147483647 then
    if powFits base.toNat exponent.toNat then
      return valueOf (base.toNat ^ exponent.toNat % 2 ^ 256 : Nat)
    else .error .arithmetic
  else return valueOf (exponentiation 256 1 base.toNat exponent.toNat : Nat)

end Word

/-! ## Word counts -/

/-- `Math256.divCeil(int, int)`: the sum is an `int` sum and the division truncates towards zero, so
a large or negative argument gives a non-positive count. -/
def divCeil (value ceil : Int) : Int := (wrap32 (value + (ceil - 1))).tdiv ceil

def toWordSize (sizeInBytes : Int) : Int := divCeil sizeInBytes 32

def toWordSizeLong (sizeInBytes : Int) : Checked Int := do
  return divCeil (← toIntExact sizeInBytes) 32

lemma toWordSize_le (sizeInBytes : Int) : toWordSize sizeInBytes ≤ 67108863 := by
  obtain ⟨_, hmax⟩ := isInt_wrap32 (sizeInBytes + (32 - 1))
  show (wrap32 (sizeInBytes + (32 - 1))).tdiv 32 ≤ 67108863
  rw [Int.tdiv_eq_ediv]
  split
  · omega
  · -- a negative count rounds up to zero at most
    show _ + 1 ≤ _
    omega

def ceilTo (numBytes ceiling : Int) : Int :=
  let r := numBytes.tmod ceiling
  if r = 0 then numBytes else wrap32 (numBytes + ceiling - r)

namespace Address

def bytes (a : Address) : Bytes := natToBytes 20 a.toNat

def toWord (a : Address) : Word := a.setWidth 256

end Address

end GrapeDag
