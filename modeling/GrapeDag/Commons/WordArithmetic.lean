/-
WHAT THE WORD OPERATIONS COMPUTE.

The operations of `Commons.Math256` against integers modulo `2^256`. A word has two readings,
`toNat` and the two's complement `toInt`, and the source mixes them freely.
-/
import GrapeDag.Commons.Math256

namespace GrapeDag

namespace Word

/-! ## The two readings -/

/-- `w` is `v` modulo `2^256`. -/
def Represents (w : Word) (v : Int) : Prop := (w.toNat : Int) = v % 2 ^ 256

variable (x y : Word)

lemma toInt_cases :
    (0 ≤ x.toInt ∧ x.toInt = x.toNat) ∨ (x.toInt < 0 ∧ x.toInt = x.toNat - 2 ^ 256 ∧ 2 ^ 255 ≤ x.toNat) := by
  rw [BitVec.toInt_eq_toNat_cond]
  split <;> omega

lemma toInt_emod : x.toInt % 2 ^ 256 = x.toNat := by
  rcases toInt_cases x with ⟨-, hx⟩ | ⟨-, hx⟩ <;> omega

lemma represents_toNat : x.Represents x.toNat := by
  unfold Represents
  omega

lemma represents_toInt : x.Represents x.toInt := (toInt_emod x).symm

lemma represents_valueOf (v : Int) : (valueOf v).Represents v := by
  unfold Represents valueOf
  rw [BitVec.toNat_ofInt]
  omega

lemma Represents.congr {w : Word} {v v' : Int} (h : w.Represents v)
    (hv : v % 2 ^ 256 = v' % 2 ^ 256) : w.Represents v' := h.trans hv

lemma toNat_valueOf {n : Nat} (h : n < 2 ^ 256) : (valueOf n).toNat = n := by
  have hrep := represents_valueOf n
  unfold Represents at hrep
  omega

lemma isZero_iff : x.isZero = true ↔ x.toNat = 0 := by
  unfold isZero
  rw [decide_eq_true_iff]
  exact (BitVec.toNat_eq (y := 0))

lemma getLsbD_255 : x.getLsbD 255 = decide (x.toInt < 0) := by
  have hmsb : x.getLsbD 255 = x.msb := (BitVec.msb_eq_getLsbD_last x).symm
  rw [hmsb, BitVec.msb_eq_decide, BitVec.toInt_eq_toNat_cond, decide_eq_decide]
  split <;> omega

lemma sign_eq : x.sign = x.toInt.sign := by
  unfold sign
  rw [getLsbD_255]
  have hzero : x.toInt = 0 ↔ x.toNat = 0 := by
    rw [BitVec.toInt_eq_toNat_cond]
    split <;> omega
  by_cases hx : x.toInt = 0
  · rw [if_pos ((isZero_iff x).mpr (hzero.mp hx)), hx]
    rfl
  · rw [if_neg fun h => hx (hzero.mpr ((isZero_iff x).mp h))]
    rcases lt_or_gt_of_ne hx with hneg | hpos
    · simp [hneg, Int.sign_eq_neg_one_of_neg hneg]
    · simp [not_lt.mpr hpos.le, Int.sign_eq_one_of_pos hpos]

/-! ## Comparisons -/

lemma lt_iff : x.lt y = decide (x.toNat < y.toNat) := rfl

lemma gt_iff : x.gt y = decide (y.toNat < x.toNat) := rfl

lemma slt_eq : x.slt y = decide (x.toInt < y.toInt) := by
  unfold slt lt
  simp only [sign_eq, ge_iff_le, Int.sign_nonneg_iff, Int.sign_neg_iff]
  rcases toInt_cases x with ⟨hsx, hrx⟩ | ⟨hsx, hrx⟩ <;>
    rcases toInt_cases y with ⟨hsy, hry⟩ | ⟨hsy, hry⟩
  · rw [if_neg (by omega), if_neg (by omega), decide_eq_decide]
    omega
  · rw [if_pos ⟨hsx, hsy⟩, eq_comm, decide_eq_false_iff_not]
    omega
  · rw [if_neg (by omega), if_pos ⟨hsx, hsy⟩, eq_comm, decide_eq_true_iff]
    omega
  · rw [if_neg (by omega), if_neg (by omega), decide_eq_decide]
    omega

lemma sgt_eq : x.sgt y = decide (y.toInt < x.toInt) := by
  rw [← slt_eq]
  unfold slt sgt lt gt
  simp only [sign_eq, ge_iff_le, Int.sign_nonneg_iff, Int.sign_neg_iff]
  rcases toInt_cases x with ⟨hsx, -⟩ | ⟨hsx, -⟩ <;> rcases toInt_cases y with ⟨hsy, -⟩ | ⟨hsy, -⟩ <;>
    simp [hsx, hsy, not_lt.mpr, not_le.mpr]

/-! ## Sums, products and quotients -/

lemma add_represents : (x.add y).Represents (x.toNat + y.toNat) := by
  refine (represents_valueOf _).congr ?_
  rcases toInt_cases x with ⟨-, hx⟩ | ⟨-, hx⟩ <;> rcases toInt_cases y with ⟨-, hy⟩ | ⟨-, hy⟩ <;>
    omega

lemma sub_represents : (x.sub y).Represents (x.toNat - y.toNat) := by
  refine (represents_valueOf _).congr ?_
  rcases toInt_cases x with ⟨-, hx⟩ | ⟨-, hx⟩ <;> rcases toInt_cases y with ⟨-, hy⟩ | ⟨-, hy⟩ <;>
    omega

lemma mul_represents : (x.mul y).Represents (x.toNat * y.toNat) := by
  refine (represents_valueOf _).congr ?_
  rw [Nat.cast_mul, Int.emod_emod]

lemma represents_ifZero {y r : Word} {v : Int} (h : y.toNat ≠ 0 → r.Represents v) :
    (if y.isZero then 0 else r).Represents (if y.toNat = 0 then 0 else v) := by
  by_cases hy : y.toNat = 0
  · rw [if_pos ((isZero_iff y).mpr hy), if_pos hy]
    rfl
  · rw [if_neg fun hz => hy ((isZero_iff y).mp hz), if_neg hy]
    exact h hy

lemma toNat_div_of_ne {x y : Word} (h : y.toNat ≠ 0) : (x.div y).toNat = x.toNat / y.toNat := by
  have hlt : x.toNat / y.toNat < 2 ^ 256 := lt_of_le_of_lt (Nat.div_le_self _ _) x.isLt
  unfold div
  rw [if_neg fun hz => h ((isZero_iff y).mp hz)]
  generalize x.toNat / y.toNat = q at hlt ⊢
  have hrep := represents_valueOf ((q : Int) % 2 ^ 256)
  unfold Represents at hrep
  omega

lemma div_represents : (x.div y).Represents (if y.toNat = 0 then 0 else x.toNat / y.toNat) := by
  refine represents_ifZero fun _ => (represents_valueOf _).congr ?_
  rw [Int.emod_emod]
  rfl

lemma toNat_mod_of_ne {x y : Word} (h : y.toNat ≠ 0) : (x.mod y).toNat = x.toNat % y.toNat := by
  unfold mod
  rw [if_neg fun hz => h ((isZero_iff y).mp hz)]
  exact toNat_valueOf (lt_of_le_of_lt (Nat.mod_le _ _) x.isLt)

lemma mod_represents : (x.mod y).Represents (if y.toNat = 0 then 0 else x.toNat % y.toNat) :=
  represents_ifZero fun _ => represents_valueOf _

lemma modadd_represents (a m : Word) :
    (x.modadd a m).Represents (if m.toNat = 0 then 0 else (x.toNat + a.toNat) % m.toNat) :=
  represents_ifZero fun _ => represents_valueOf _

lemma modmul_represents (a m : Word) :
    (x.modmul a m).Represents (if m.toNat = 0 then 0 else (x.toNat * a.toNat) % m.toNat) := by
  unfold modmul
  by_cases hm : m.toNat = 0
  · rw [if_pos (by simp [(isZero_iff m).mpr hm]), if_pos hm]
    rfl
  rw [if_neg hm]
  by_cases hzero : a.toNat = 0 ∨ x.toNat = 0
  · have hif : (m.isZero || a.isZero || x.isZero) = true := by
      rcases hzero with ha | hx
      · simp [(isZero_iff a).mpr ha]
      · simp [(isZero_iff x).mpr hx]
    rw [if_pos hif]
    rcases hzero with ha | hx
    · simp [ha, Represents]
    · simp [hx, Represents]
  · have hif : ¬ (m.isZero || a.isZero || x.isZero) = true := by
      simp only [Bool.or_eq_true, isZero_iff]
      omega
    rw [if_neg hif]
    exact represents_valueOf _

/-! ## Signed division -/

lemma neg_represents : x.neg.Represents (-x.toNat) := by
  refine (sub_represents 0 x).congr ?_
  simp

lemma sign_neg_iff : x.sign < 0 ↔ x.toInt < 0 := by
  rw [sign_eq]
  exact Int.sign_neg_iff

lemma toNat_magnitude : (if x.sign < 0 then x.neg else x).toNat = x.toInt.natAbs := by
  have hneg := neg_represents x
  unfold Represents at hneg
  rcases toInt_cases x with ⟨hs, hx⟩ | ⟨hs, hx⟩
  · rw [if_neg fun h => not_lt.mpr hs ((sign_neg_iff x).mp h)]
    omega
  · rw [if_pos ((sign_neg_iff x).mpr hs)]
    omega

lemma natAbs_toInt_ne_zero {x : Word} (h : x.toNat ≠ 0) : x.toInt.natAbs ≠ 0 := by
  rcases toInt_cases x with ⟨hs, hx⟩ | ⟨hs, hx⟩ <;> omega

lemma tdiv_eq_ite {a b : Int} (hb : b ≠ 0) :
    a.tdiv b = if a.sign ≠ b.sign then -((a.natAbs / b.natAbs : Nat) : Int)
      else (a.natAbs / b.natAbs : Nat) := by
  have hquot : ((a.natAbs / b.natAbs : Nat) : Int) = (a.natAbs : Int).tdiv b.natAbs := Int.ofNat_tdiv _ _
  rw [hquot]
  rcases lt_trichotomy a 0 with ha | rfl | ha <;> rcases lt_or_gt_of_ne hb with hb | hb
  · simp [Int.sign_eq_neg_one_of_neg, ha, hb, Int.ofNat_natAbs_of_nonpos ha.le,
      Int.ofNat_natAbs_of_nonpos hb.le]
  · simp [Int.sign_eq_neg_one_of_neg, Int.sign_eq_one_of_pos, ha, hb,
      Int.ofNat_natAbs_of_nonpos ha.le, Int.natAbs_of_nonneg hb.le]
  · simp
  · simp
  · simp [Int.sign_eq_neg_one_of_neg, Int.sign_eq_one_of_pos, ha, hb,
      Int.ofNat_natAbs_of_nonpos hb.le, Int.natAbs_of_nonneg ha.le]
  · simp [Int.sign_eq_one_of_pos, ha, hb, Int.natAbs_of_nonneg ha.le, Int.natAbs_of_nonneg hb.le]

lemma tmod_eq_ite (a b : Int) :
    a.tmod b = if a < 0 then -((a.natAbs % b.natAbs : Nat) : Int) else (a.natAbs % b.natAbs : Nat) := by
  have hrem : ((a.natAbs % b.natAbs : Nat) : Int) = (a.natAbs : Int).tmod b.natAbs := Int.ofNat_tmod _ _
  have hb : ∀ c : Int, c.tmod b.natAbs = c.tmod b := by
    intro c
    rcases Int.natAbs_eq b with h | h
    · rw [← h]
    · conv_rhs => rw [h, Int.tmod_neg]
  rw [hrem, hb]
  split
  · next ha => rw [Int.ofNat_natAbs_of_nonpos ha.le, Int.neg_tmod, neg_neg]
  · next ha => rw [Int.natAbs_of_nonneg (not_lt.mp ha)]

lemma sdiv_represents :
    (x.sdiv y).Represents (if y.toNat = 0 then 0 else x.toInt.tdiv y.toInt) := by
  refine represents_ifZero fun hy => ?_
  have hne : (if y.sign < 0 then y.neg else y).toNat ≠ 0 := by
    rw [toNat_magnitude]
    exact natAbs_toInt_ne_zero hy
  have hz := toNat_div_of_ne (x := if x.sign < 0 then x.neg else x) hne
  rw [toNat_magnitude, toNat_magnitude] at hz
  generalize (if x.sign < 0 then x.neg else x).div (if y.sign < 0 then y.neg else y) = z at hz ⊢
  rw [tdiv_eq_ite (Int.natAbs_ne_zero.mp (natAbs_toInt_ne_zero hy)), ← hz]
  show (if x.sign ≠ y.sign then z.neg else z).Represents _
  simp only [sign_eq]
  split
  · exact neg_represents z
  · exact represents_toNat z

lemma smod_represents :
    (x.smod y).Represents (if y.toNat = 0 then 0 else x.toInt.tmod y.toInt) := by
  refine represents_ifZero fun hy => ?_
  have habs : y.abs.toNat = y.toInt.natAbs := by
    have hsign : y.sign = -1 ↔ y.sign < 0 := by
      rw [sign_neg_iff, sign_eq]
      exact Int.sign_eq_neg_one_iff_neg
    rw [← toNat_magnitude]
    unfold abs
    simp only [hsign]
  have hz := toNat_mod_of_ne (x := if x.sign < 0 then x.neg else x) (habs ▸ natAbs_toInt_ne_zero hy)
  rw [toNat_magnitude, habs] at hz
  generalize (if x.sign < 0 then x.neg else x).mod y.abs = z at hz ⊢
  rw [tmod_eq_ite, ← hz]
  show (if x.sign < 0 then z.neg else z).Represents _
  simp only [sign_neg_iff]
  split
  · exact neg_represents z
  · exact represents_toNat z

/-! ## Shifts and bits -/

lemma shl_eq (bits : Nat) : x.shl bits = x <<< bits := by
  apply BitVec.eq_of_toNat_eq
  have hrep := represents_valueOf (x.toNat * 2 ^ bits : Nat)
  unfold Represents at hrep
  rw [BitVec.toNat_shiftLeft]
  show (valueOf (x.toNat * 2 ^ bits : Nat)).toNat = _
  omega

lemma shr_eq (bits : Nat) : x.shr bits = x >>> bits := by
  apply BitVec.eq_of_toNat_eq
  have hlt : x.toNat / 2 ^ bits < 2 ^ 256 := lt_of_le_of_lt (Nat.div_le_self _ _) x.isLt
  rw [BitVec.toNat_ushiftRight, Nat.shiftRight_eq_div_pow]
  exact toNat_valueOf hlt

lemma shl_represents (bits : Nat) : (x.shl bits).Represents (x.toNat * 2 ^ bits) := by
  refine (represents_valueOf _).congr ?_
  push_cast
  rfl

lemma shr_represents (bits : Nat) : (x.shr bits).Represents (x.toNat / 2 ^ bits) := by
  refine (represents_valueOf _).congr ?_
  push_cast
  rfl

lemma getLsbD_sarMask (outBits i : Nat) : ((shr (BitVec.allOnes 256) outBits).shl outBits).getLsbD i
      = (decide (outBits ≤ i) && decide (i < 256)) := by
  rw [shl_eq, shr_eq, BitVec.getLsbD_shiftLeft, BitVec.getLsbD_ushiftRight, BitVec.getLsbD_allOnes]
  by_cases h1 : outBits ≤ i <;> by_cases h2 : i < 256 <;> simp [h1, h2]

lemma sar_of_msb_false {x : Word} (h : x.msb = false) (shift : Word) : x.sar shift = x >>> shift.toNat := by
  have hbit : x.getLsbD 255 = false := (BitVec.msb_eq_getLsbD_last x).symm.trans h
  have hgt : shift.gt 256 = decide (256 < shift.toNat) := rfl
  unfold sar
  simp only [hbit, hgt, shr_eq, Bool.false_eq_true, if_false, decide_eq_true_eq]
  split
  · next hbig => exact (BitVec.ushiftRight_eq_zero (by omega)).symm
  · split
    · next hzero => rw [hzero, BitVec.ushiftRight_zero]
    · rfl

lemma sar_of_msb_true {x : Word} (h : x.msb = true) (shift : Word) {i : Nat} (hi : i < 256) :
    (x.sar shift).getLsbD i = if shift.toNat + i < 256 then x.getLsbD (shift.toNat + i) else true := by
  have hbit : x.getLsbD 255 = true := (BitVec.msb_eq_getLsbD_last x).symm.trans h
  have hgt : shift.gt 256 = decide (256 < shift.toNat) := rfl
  have hones : (BitVec.allOnes 256).getLsbD i = true := by
    rw [BitVec.getLsbD_allOnes]
    exact decide_eq_true hi
  unfold sar
  simp only [hbit, hgt, decide_eq_true_eq, if_true]
  by_cases hbig : 256 ≤ shift.toNat
  · have hout : ¬ shift.toNat + i < 256 := by omega
    split
    · exact hones
    · rw [if_neg (by omega), if_pos (by omega)]
      exact hones
  · rw [if_neg (by omega)]
    by_cases hzero : shift.toNat = 0
    · rw [if_pos hzero, hzero, if_pos (by omega), Nat.zero_add]
    rw [if_neg hzero, if_neg (by omega), BitVec.getLsbD_or, getLsbD_sarMask, shr_eq]
    by_cases hin : shift.toNat + i < 256
    · -- the mask also covers the sign bit, which is a one in any case
      by_cases hsign : shift.toNat + i = 255
      · simp [hsign, hbit]
      · have hmask : ¬ 255 - shift.toNat ≤ i := by omega
        simp [hin, hmask]
    · have hmask : 255 - shift.toNat ≤ i := by omega
      simp [hin, hmask, hi]

lemma sar_eq (shift : Word) : x.sar shift = x.sshiftRight shift.toNat := by
  cases h : x.msb with
  | false => rw [sar_of_msb_false h, BitVec.sshiftRight_eq_of_msb_false h]
  | true =>
    apply BitVec.eq_of_getLsbD_eq
    intro i hi
    have hin : ¬ 256 ≤ i := by omega
    rw [sar_of_msb_true h shift hi, BitVec.getLsbD_sshiftRight, h]
    simp [hin]

lemma sar_represents (shift : Word) : (x.sar shift).Represents (x.toInt / 2 ^ shift.toNat) := by
  refine (represents_toInt _).congr ?_
  rw [sar_eq, BitVec.toInt_sshiftRight, Int.shiftRight_eq_div_pow]
  push_cast
  rfl

lemma getLsbD_signExtMask {bit : Nat} (h : bit < 256) (i : Nat) :
    ((shl 1 bit).sub 1).getLsbD i = decide (i < bit) := by
  have hpow : 2 ^ bit < 2 ^ 256 := Nat.pow_lt_pow_right (by decide) h
  have hpos : 0 < 2 ^ bit := Nat.two_pow_pos bit
  have hone : (shl 1 bit).toNat = 2 ^ bit := by
    have hrep := shl_represents 1 bit
    have hcast : ((1 : Word).toNat : Int) * 2 ^ bit = (2 ^ bit : Nat) := by
      simp
    unfold Represents at hrep
    omega
  have hmask : ((shl 1 bit).sub 1).toNat = 2 ^ bit - 1 := by
    have hrep := sub_represents (shl 1 bit) 1
    have hcast : ((1 : Word).toNat : Int) = 1 := rfl
    unfold Represents at hrep
    omega
  show ((shl 1 bit).sub 1).toNat.testBit i = _
  rw [hmask, Nat.testBit_two_pow_sub_one]

lemma isZero_signBit (value : Word) (bit : Nat) : (value.shr bit &&& 1).isZero = !value.getLsbD bit := by
  have hone : (value.shr bit &&& 1).toNat = value.toNat / 2 ^ bit % 2 := by
    rw [shr_eq, BitVec.toNat_and, BitVec.toNat_ushiftRight, Nat.shiftRight_eq_div_pow]
    exact Nat.and_one_is_mod _
  have hbit : value.getLsbD bit = decide (value.toNat / 2 ^ bit % 2 = 1) := Nat.testBit_eq_decide_div_mod_eq
  rw [Bool.eq_iff_iff, isZero_iff, hone, hbit]
  simp

lemma getLsbD_signExt {value byteNum : Word} (h : byteNum.toNat ≤ 31) {i : Nat} (hi : i < 256) :
    (value.signExt byteNum).getLsbD i = if i < byteNum.toNat * 8 + 7 then value.getLsbD i
        else value.getLsbD (byteNum.toNat * 8 + 7) := by
  have hgt : ¬ byteNum.gt 31 = true := by
    show ¬ decide (byteNum.toNat > 31) = true
    simpa using h
  have hmask := getLsbD_signExtMask (show byteNum.toNat * 8 + 7 < 256 by omega) i
  unfold signExt
  rw [if_neg hgt]
  simp only [isZero_signBit]
  generalize (shl 1 (byteNum.toNat * 8 + 7)).sub 1 = mask at hmask ⊢
  cases hs : value.getLsbD (byteNum.toNat * 8 + 7) with
  | false =>
    show (value &&& mask).getLsbD i = _
    rw [BitVec.getLsbD_and, hmask]
    split <;> simp [*]
  | true =>
    show (value ||| ~~~mask).getLsbD i = _
    rw [BitVec.getLsbD_or, BitVec.getLsbD_not, hmask]
    split <;> simp [*]

lemma signExt_represents (value byteNum : Word) : (value.signExt byteNum).Represents
      (if byteNum.toNat ≤ 31 then (value.toNat : Int).bmod (2 ^ (8 * (byteNum.toNat + 1)))
        else value.toNat) := by
  split
  · next h =>
    have heq : value.signExt byteNum = (value.setWidth (8 * (byteNum.toNat + 1))).signExtend 256 := by
      apply BitVec.eq_of_getLsbD_eq
      intro i hi
      have hlast : 8 * (byteNum.toNat + 1) - 1 = byteNum.toNat * 8 + 7 := by omega
      rw [getLsbD_signExt h hi, BitVec.getLsbD_signExtend, BitVec.getLsbD_setWidth,
        BitVec.msb_setWidth, hlast]
      by_cases hin : i < 8 * (byteNum.toNat + 1)
      · by_cases hlow : i < byteNum.toNat * 8 + 7
        · simp [hin, hlow, hi]
        · -- the sign bit itself
          obtain rfl : i = byteNum.toNat * 8 + 7 := by omega
          simp [hin, hi]
      · have hlow : ¬ i < byteNum.toNat * 8 + 7 := by omega
        simp [hin, hlow, hi]
    rw [heq]
    refine (represents_toInt _).congr ?_
    rw [BitVec.toInt_signExtend_of_le (by omega), BitVec.toInt_setWidth]
  · next h =>
    have hgt : byteNum.gt 31 = true := by
      show decide (byteNum.toNat > 31) = true
      simpa using h
    unfold signExt
    rw [if_pos hgt]
    exact represents_toNat value

lemma getByte_represents (pos word : Word) : (getByte pos.intValueSafe word).Represents
      (if pos.toNat ≤ 31 then (word.toNat / 256 ^ (31 - pos.toNat) % 256 : Nat) else 0) := by
  split
  · next h =>
    have hint : pos.intValueSafe = pos.toNat := if_pos (by omega)
    have hpow : 256 ^ (31 - pos.toNat) = 2 ^ ((31 - pos.toNat) * 8) := by
      rw [Nat.mul_comm, Nat.pow_mul]
    have hbyte : (word.shr ((31 - pos.toNat) * 8) &&& 255).toNat
        = word.toNat / 256 ^ (31 - pos.toNat) % 256 := by
      rw [BitVec.toNat_and, shr_eq, BitVec.toNat_ushiftRight, Nat.shiftRight_eq_div_pow, hpow]
      exact Nat.and_two_pow_sub_one_eq_mod _ 8
    unfold getByte
    rw [hint, if_neg (by omega), ← hbyte]
    exact represents_toNat _
  · next h =>
    have hint : 31 < pos.intValueSafe := by
      unfold intValueSafe intMax
      split <;> omega
    unfold getByte
    rw [if_pos hint]
    rfl

end Word

end GrapeDag
