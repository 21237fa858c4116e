/-
BYTE ARRAYS.

`Bytes.java` and the byte representations of `BigInteger`. A `byte[]` that may be `null` is an
`Option`, and a `@NonNull` parameter throws on `none` as Lombok makes it.
-/
import GrapeDag.Commons.Lang

namespace GrapeDag

open List

abbrev Bytes := List UInt8

/-! ## Big-endian numbers -/

/-- `new BigInteger(1, bytes)`: the unsigned big-endian value. -/
def bytesToNat (bs : Bytes) : Nat := bs.foldl (fun n b => n * 256 + b.toNat) 0

def natToBytes : (len : Nat) → (n : Nat) → Bytes
  | 0, _ => []
  | len + 1, n => UInt8.ofNat (n / 256 ^ len) :: natToBytes len n

@[simp] lemma length_natToBytes (len n : Nat) : (natToBytes len n).length = len := by
  induction len with
  | zero => rfl
  | succ len ih => simp [natToBytes, ih]

lemma bytesToNat_foldl (bs : Bytes) (n : Nat) :
    bs.foldl (fun n b => n * 256 + b.toNat) n = n * 256 ^ bs.length + bytesToNat bs := by
  unfold bytesToNat
  induction bs generalizing n with
  | nil => simp
  | cons b bs ih =>
    simp only [foldl_cons, length_cons, Nat.pow_succ]
    rw [ih, ih (0 * 256 + b.toNat)]
    linarith [Nat.mul_assoc n (256 ^ bs.length) 256, Nat.mul_right_comm n 256 (256 ^ bs.length),
      Nat.add_mul (n * 256) b.toNat (256 ^ bs.length)]

lemma bytesToNat_cons (b : UInt8) (bs : Bytes) :
    bytesToNat (b :: bs) = b.toNat * 256 ^ bs.length + bytesToNat bs := by
  show bs.foldl (fun n b => n * 256 + b.toNat) (0 * 256 + b.toNat) = _
  rw [bytesToNat_foldl, Nat.zero_add]

lemma bytesToNat_lt (bs : Bytes) : bytesToNat bs < 256 ^ bs.length := by
  induction bs with
  | nil => exact Nat.one_pos
  | cons b bs ih =>
    have hb : b.toNat + 1 ≤ 256 := b.toNat_lt
    have hmul := Nat.mul_le_mul_right (256 ^ bs.length) hb
    rw [bytesToNat_cons, length_cons, Nat.pow_succ]
    linarith

lemma bytesToNat_natToBytes (len n : Nat) : bytesToNat (natToBytes len n) = n % 256 ^ len := by
  induction len with
  | zero => simp [natToBytes, bytesToNat, Nat.mod_one]
  | succ len ih =>
    have hbyte : (UInt8.ofNat (n / 256 ^ len)).toNat = n / 256 ^ len % 256 := UInt8.toNat_ofNat'
    rw [natToBytes, bytesToNat_cons, ih, length_natToBytes, hbyte, Nat.pow_succ, Nat.mod_mul,
      Nat.mul_comm, Nat.add_comm]

lemma natToBytes_mod (len n : Nat) : natToBytes len (n % 256 ^ len) = natToBytes len n := by
  induction len generalizing n with
  | zero => rfl
  | succ len ih =>
    have hlow : n % 256 ^ (len + 1) % 256 ^ len = n % 256 ^ len :=
      Nat.mod_mod_of_dvd n (Nat.pow_dvd_pow 256 (Nat.le_succ len))
    have hhigh : UInt8.ofNat (n % 256 ^ (len + 1) / 256 ^ len) = UInt8.ofNat (n / 256 ^ len) := by
      apply UInt8.toNat_inj.mp
      rw [UInt8.toNat_ofNat', UInt8.toNat_ofNat', Nat.pow_succ, Nat.mod_mul_right_div_self, Nat.mod_mod]
    rw [natToBytes, natToBytes, hhigh, ← ih (n % 256 ^ (len + 1)), hlow, ih]

lemma natToBytes_bytesToNat (bs : Bytes) : natToBytes bs.length (bytesToNat bs) = bs := by
  induction bs with
  | nil => rfl
  | cons b bs ih =>
    have hlt := bytesToNat_lt bs
    have hhigh : (b.toNat * 256 ^ bs.length + bytesToNat bs) / 256 ^ bs.length = b.toNat := by
      rw [Nat.mul_comm, Nat.mul_add_div (Nat.pow_pos (by decide)), Nat.div_eq_of_lt hlt, Nat.add_zero]
    rw [length_cons, natToBytes, bytesToNat_cons, hhigh, UInt8.ofNat_toNat,
      ← natToBytes_mod, Nat.mul_add_mod_self_right, Nat.mod_eq_of_lt hlt, ih]

lemma natToBytes_drop (k len n : Nat) : (natToBytes (k + len) n).drop k = natToBytes len n := by
  induction k with
  | zero => rw [Nat.zero_add, drop_zero]
  | succ k ih =>
    rw [Nat.succ_add, natToBytes, drop_succ_cons, ih]

lemma natToBytes_add {len n : Nat} (h : n < 256 ^ len) (k : Nat) :
    natToBytes (k + len) n = replicate k 0 ++ natToBytes len n := by
  induction k with
  | zero => rw [Nat.zero_add]; rfl
  | succ k ih =>
    have hle : 256 ^ len ≤ 256 ^ (k + len) := Nat.pow_le_pow_right (by decide) (by omega)
    rw [Nat.succ_add, natToBytes, ih, Nat.div_eq_of_lt (by omega)]
    rfl

lemma natToBytes_bytesToNat_pad (bs : Bytes) (len : Nat) :
    replicate (len - bs.length) 0 ++ bs.drop (bs.length - len) = natToBytes len (bytesToNat bs) := by
  have hlt := bytesToNat_lt bs
  by_cases hle : len ≤ bs.length
  · have hlen : bs.length = (bs.length - len) + len := by omega
    have hdrop := natToBytes_drop (bs.length - len) len (bytesToNat bs)
    rw [← hlen, natToBytes_bytesToNat] at hdrop
    rw [hdrop, Nat.sub_eq_zero_of_le hle]
    rfl
  · have hlen : (len - bs.length) + bs.length = len := by omega
    have hadd := natToBytes_add hlt (len - bs.length)
    rw [hlen, natToBytes_bytesToNat] at hadd
    rw [hadd, Nat.sub_eq_zero_of_le (by omega : bs.length ≤ len), drop_zero]

def bitLength (n : Nat) : Nat := if n = 0 then 0 else n.log2 + 1

/-- `BigInteger.toByteArray()`: the shortest two's-complement representation, which always has room
for a sign bit. -/
def toByteArray (v : Int) : Bytes :=
  let magnitude : Nat := if v < 0 then (-v - 1).toNat else v.toNat
  let len := bitLength magnitude / 8 + 1
  natToBytes len (v % (256 ^ len : Nat)).toNat

/-- `Math256.asUnsignedByteArray`: drops the sign byte of a non-negative number. A negative number
keeps its two's-complement bytes. -/
def asUnsignedByteArray (v : Int) : Bytes :=
  match toByteArray v with
  | 0 :: b :: bs => b :: bs
  | bs => bs

lemma toByteArray_natCast (n : Nat) :
    toByteArray n = natToBytes (bitLength n / 8 + 1) n ∧ n < 256 ^ (bitLength n / 8 + 1) := by
  have hlt : n < 256 ^ (bitLength n / 8 + 1) := by
    have hbits : n < 2 ^ bitLength n := by
      unfold bitLength
      split
      · next h => rw [h]; decide
      · exact Nat.lt_log2_self
    have hpow : 256 ^ (bitLength n / 8 + 1) = 2 ^ (8 * (bitLength n / 8 + 1)) := by
      rw [Nat.pow_mul]
    rw [hpow]
    exact lt_of_lt_of_le hbits (Nat.pow_le_pow_right (by decide) (by omega))
  refine ⟨?_, hlt⟩
  show natToBytes (bitLength n / 8 + 1) ((n : Int) % (256 ^ (bitLength n / 8 + 1) : Nat)).toNat = _
  rw [← Int.natCast_emod, Int.toNat_natCast, Nat.mod_eq_of_lt hlt]

lemma bytesToNat_asUnsignedByteArray (n : Nat) : bytesToNat (asUnsignedByteArray n) = n := by
  obtain ⟨harray, hlt⟩ := toByteArray_natCast n
  have hvalue : bytesToNat (toByteArray n) = n := by
    rw [harray, bytesToNat_natToBytes, Nat.mod_eq_of_lt hlt]
  unfold asUnsignedByteArray
  split
  · next b bs hbytes =>
    -- the sign byte that is dropped is zero
    rw [hbytes, bytesToNat_cons] at hvalue
    have hzero : (0 : UInt8).toNat * 256 ^ (b :: bs).length = 0 := Nat.zero_mul _
    omega
  · exact hvalue

/-! ## `Bytes.java` -/

def isAllZero (data : Bytes) : Bool := data.all (· = 0)

def checkPositionIndex (index : Int) (size : Nat) : Checked Unit :=
  if 0 ≤ index ∧ index ≤ size then return () else .error .indexOutOfBounds

def checkElementIndex (index : Int) (size : Nat) : Checked Unit :=
  if 0 ≤ index ∧ index < size then return () else .error .indexOutOfBounds

def slice (input : Bytes) (start stop : Int) : Checked Bytes := do
  if start = stop then
    if input.length > 0 then checkPositionIndex start input.length
    return []
  checkElementIndex start input.length
  checkPositionIndex stop input.length
  let len := wrap32 (stop - start)
  if len > 0 then
    return (input.drop start.toNat).take len.toNat
  else
    .error .illegalArgument

/-- `Bytes.rightPadBytes`, that is `Arrays.copyOf`: cut off or fill up with zeros. -/
def rightPadBytes (input : Bytes) (len : Int) : Checked Bytes :=
  if len < 0 then .error .negativeArraySize
  else return input.take len.toNat ++ List.replicate (len.toNat - input.length) 0

/-- `Bytes.leftPadBytes`: keep the last bytes or fill up with zeros in front. -/
def leftPadBytes (input : Bytes) (len : Int) : Checked Bytes :=
  if len < 0 then .error .negativeArraySize
  else return List.replicate (len.toNat - input.length) 0 ++ input.drop (input.length - len.toNat)

lemma leftPadBytes_eq (bs : Bytes) (len : Nat) :
    leftPadBytes bs len = .ok (natToBytes len (bytesToNat bs)) := by
  unfold leftPadBytes
  rw [natToBytes_bytesToNat_pad]
  rfl

def trimLeftZeros (input : Bytes) : Bytes := input.dropWhile (· = 0)

/-- `Bytes.slicePadded`; the sum `start + size` is an `int` sum. -/
def slicePadded (data : Option Bytes) (start size : Int) : Checked Bytes := do
  match data with
  | none => .error .nullPointer
  | some data =>
      let length : Int := data.length
      let start := if start > length then length else start
      let stop := wrap32 (start + size)
      let stop := if stop > length then length else stop
      rightPadBytes (← slice data start stop) size

end GrapeDag
