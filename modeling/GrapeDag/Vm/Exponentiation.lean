/-
THE EXP INSTRUCTION.

`BigInt256.pow` reduces modulo `2^256` at each step when the exponent is above `2^31 - 1`; a
smaller one goes through `BigInteger.pow`, which forms the WHOLE power first.

Main result: `exp_iff`.
-/
import GrapeDag.Commons.WordArithmetic
import GrapeDag.Vm.Step
import Mathlib.Data.Nat.ModEq

namespace GrapeDag

open Imperative GrapeDag.Frame Prog List

namespace Word

/-! ## The integers that are formed -/

def exponentiationTraced : (fuel : Nat) → (result base exponent : Nat) → Nat × List Nat
  | 0, result, _, _ => (result, [])
  | fuel + 1, result, base, exponent =>
      if exponent = 0 then (result, [])
      else
        let product := if exponent % 2 = 1 then [result * base, result * base % 2 ^ 256] else []
        let square := [base * base, base * base % 2 ^ 256]
        let rest := exponentiationTraced fuel
          (if exponent % 2 = 1 then result * base % 2 ^ 256 else result)
          (base * base % 2 ^ 256) (exponent / 2)
        (rest.1, product ++ square ++ [exponent / 2] ++ rest.2)

def powTraced (powFits : Nat → Nat → Bool) (base exponent : Word) : Checked (Word × List Nat) :=
  if base.isZero then return (if exponent.isZero then 1 else base, [])
  else if base.eq 1 then return (base, [])
  else
    let operands := [base.toNat, exponent.toNat]
    if exponent.toNat ≤ 2147483647 then
      if powFits base.toNat exponent.toNat then
        let power := base.toNat ^ exponent.toNat
        return (valueOf (power % 2 ^ 256 : Nat), operands ++ [power, power % 2 ^ 256])
      else .error .arithmetic
    else
      let loop := exponentiationTraced 256 1 base.toNat exponent.toNat
      return (valueOf loop.1, operands ++ loop.2)

lemma exponentiationTraced_fst (fuel : Nat) : ∀ result base exponent,
      (exponentiationTraced fuel result base exponent).1 = exponentiation fuel result base exponent := by
  induction fuel with
  | zero =>
    intro result base exponent
    rfl
  | succ fuel ih =>
    intro result base exponent
    unfold exponentiationTraced exponentiation
    split
    · rfl
    · exact ih _ _ _

lemma powTraced_fst (powFits : Nat → Nat → Bool) (base exponent : Word) :
    (powTraced powFits base exponent).map Prod.fst = pow powFits base exponent := by
  unfold powTraced pow
  split_ifs
  · rfl
  · rfl
  · rfl
  · rfl
  · rfl
  · show Except.ok (valueOf (exponentiationTraced 256 1 base.toNat exponent.toNat).1) = _
    rw [exponentiationTraced_fst]
    rfl

/-! ## The loop -/

lemma pow_halved (base exponent : Nat) :
    base ^ exponent = (if exponent % 2 = 1 then base else 1) * (base * base) ^ (exponent / 2) := by
  have hexp : exponent = exponent % 2 + 2 * (exponent / 2) := by omega
  calc base ^ exponent = base ^ (exponent % 2) * (base * base) ^ (exponent / 2) := by
        rw [← pow_two, ← pow_mul, ← pow_add, ← hexp]
    _ = (if exponent % 2 = 1 then base else 1) * (base * base) ^ (exponent / 2) := by
        rcases Nat.mod_two_eq_zero_or_one exponent with hbit | hbit
        · rw [hbit, if_neg (by decide), pow_zero]
        · rw [hbit, if_pos rfl, pow_one]

/-- The loop computes the power. Its invariant is `result * base ^ exponent`, modulo `2^256`;
the fuel outlasts the halvings of the exponent. -/
theorem exponentiation_modEq (fuel : Nat) : ∀ result base exponent, exponent < 2 ^ fuel →
      exponentiation fuel result base exponent ≡ result * base ^ exponent [MOD 2 ^ 256] := by
  induction fuel with
  | zero =>
    intro result base exponent hfuel
    obtain rfl : exponent = 0 := by omega
    rw [pow_zero, Nat.mul_one]
    rfl
  | succ fuel ih =>
    intro result base exponent hfuel
    unfold exponentiation
    by_cases hdone : exponent = 0
    · rw [if_pos hdone, hdone, pow_zero, Nat.mul_one]
    rw [if_neg hdone]
    have hresult : (if exponent % 2 = 1 then result * base % 2 ^ 256 else result)
        ≡ result * (if exponent % 2 = 1 then base else 1) [MOD 2 ^ 256] := by
      split
      · exact Nat.mod_modEq _ _
      · rw [Nat.mul_one]
    have hsquare : (base * base % 2 ^ 256) ^ (exponent / 2)
        ≡ (base * base) ^ (exponent / 2) [MOD 2 ^ 256] := (Nat.mod_modEq _ _).pow _
    rw [pow_halved base exponent, ← Nat.mul_assoc]
    exact (ih _ _ _ (by rw [Nat.pow_succ] at hfuel; omega)).trans (hresult.mul hsquare)

lemma lt_two_pow_of_le {n i j : Nat} (h : n < 2 ^ i) (hij : i ≤ j) : n < 2 ^ j :=
  h.trans_le (Nat.pow_le_pow_right (by decide) hij)

lemma mul_lt_512 {a b : Nat} (ha : a < 2 ^ 256) (hb : b < 2 ^ 256) : a * b < 2 ^ 512 := by
  have hproduct : a * b < 2 ^ (256 + 256) := by
    rw [Nat.pow_add]
    exact Nat.mul_lt_mul'' ha hb
  exact lt_two_pow_of_le hproduct (by decide)

lemma exponentiationTraced_lt (fuel : Nat) :
    ∀ result base exponent, result < 2 ^ 256 → base < 2 ^ 256 → exponent < 2 ^ 256 →
      ∀ n ∈ (exponentiationTraced fuel result base exponent).2, n < 2 ^ 512 := by
  induction fuel with
  | zero =>
    intro result base exponent _ _ _ n hn
    cases hn
  | succ fuel ih =>
    intro result base exponent hresult hbase hexp n hn
    have hmod : ∀ x, x % 2 ^ 256 < 2 ^ 256 := fun x => Nat.mod_lt x (by decide)
    have hhalf : exponent / 2 < 2 ^ 256 := by omega
    unfold exponentiationTraced at hn
    by_cases hdone : exponent = 0
    · rw [if_pos hdone] at hn
      cases hn
    rw [if_neg hdone] at hn
    simp only [mem_append] at hn
    rcases hn with ((hproduct | hsquare) | hshift) | hrest
    · split at hproduct
      · simp only [mem_cons, not_mem_nil, or_false] at hproduct
        rcases hproduct with rfl | rfl
        · exact mul_lt_512 hresult hbase
        · exact lt_two_pow_of_le (hmod _) (by decide)
      · cases hproduct
    · simp only [mem_cons, not_mem_nil, or_false] at hsquare
      rcases hsquare with rfl | rfl
      · exact mul_lt_512 hbase hbase
      · exact lt_two_pow_of_le (hmod _) (by decide)
    · rw [mem_singleton] at hshift
      exact hshift ▸ lt_two_pow_of_le hhalf (by decide)
    · refine ih _ _ _ ?_ (hmod _) hhalf n hrest
      split
      · exact hmod _
      · exact hresult

/-! ## Both ways -/

/-- The power is right and no intermediate leaves 1024 bits. -/
def PowRight (powFits : Nat → Nat → Bool) (base exponent r : Word) : Prop :=
  r.Represents (base.toNat ^ exponent.toNat : Nat)
    ∧ ∃ formed, powTraced powFits base exponent = .ok (r, formed) ∧ ∀ n ∈ formed, n < 2 ^ 1024

section Pow

variable (powFits : Nat → Nat → Bool) {base exponent : Word}

lemma powRight_of_le_one (hbase : base.toNat ≤ 1) : ∃ r, PowRight powFits base exponent r := by
  by_cases hzero : base.toNat = 0
  · refine ⟨if exponent.isZero then 1 else base, ?_, [], ?_, nofun⟩
    · by_cases hexp : exponent.toNat = 0
      · rw [if_pos ((isZero_iff exponent).mpr hexp), hexp]
        exact represents_toNat 1
      · rw [if_neg (fun h => hexp ((isZero_iff exponent).mp h)), hzero, zero_pow hexp, ← hzero]
        exact represents_toNat base
    · unfold powTraced
      rw [if_pos ((isZero_iff base).mpr hzero)]
      rfl
  · have hone : base.toNat = 1 := by omega
    have heq : base.eq 1 = true := decide_eq_true hone
    refine ⟨base, ?_, [], ?_, nofun⟩
    · rw [hone, one_pow, ← hone]
      exact represents_toNat base
    · unfold powTraced
      rw [if_neg (fun h => hzero ((isZero_iff base).mp h)), if_pos heq]
      rfl

lemma powTraced_of_one_lt (hbase : 1 < base.toNat) : powTraced powFits base exponent
      = if exponent.toNat ≤ 2147483647 then
          if powFits base.toNat exponent.toNat then
            .ok (valueOf (base.toNat ^ exponent.toNat % 2 ^ 256 : Nat),
              [base.toNat, exponent.toNat, base.toNat ^ exponent.toNat,
                base.toNat ^ exponent.toNat % 2 ^ 256])
          else .error .arithmetic
        else .ok (valueOf (exponentiation 256 1 base.toNat exponent.toNat : Nat),
          [base.toNat, exponent.toNat] ++ (exponentiationTraced 256 1 base.toNat exponent.toNat).2) := by
  have hzero : ¬ base.isZero = true := by
    rw [isZero_iff]
    omega
  have hone : ¬ base.eq 1 = true := by
    intro h
    have hvalue : base.toNat = 1 := of_decide_eq_true h
    omega
  unfold powTraced
  rw [if_neg hzero, if_neg hone, ← exponentiationTraced_fst]
  rfl

omit powFits in
lemma operand_lt {n : Nat} (hn : n ∈ [base.toNat, exponent.toNat]) : n < 2 ^ 1024 := by
  simp only [mem_cons, not_mem_nil, or_false] at hn
  rcases hn with rfl | rfl
  · exact lt_two_pow_of_le base.isLt (by decide)
  · exact lt_two_pow_of_le exponent.isLt (by decide)

lemma powRight_of_large (hbase : 1 < base.toNat) (hlarge : 2 ^ 31 ≤ exponent.toNat) :
    ∃ r, PowRight powFits base exponent r := by
  have hpow : exponentiation 256 1 base.toNat exponent.toNat
      ≡ 1 * base.toNat ^ exponent.toNat [MOD 2 ^ 256] :=
    exponentiation_modEq 256 1 base.toNat exponent.toNat exponent.isLt
  rw [Nat.one_mul] at hpow
  refine ⟨valueOf (exponentiation 256 1 base.toNat exponent.toNat : Nat),
    (represents_valueOf _).congr ?_,
    [base.toNat, exponent.toNat] ++ (exponentiationTraced 256 1 base.toNat exponent.toNat).2, ?_, ?_⟩
  · exact_mod_cast hpow
  · rw [powTraced_of_one_lt powFits hbase, if_neg (by omega)]
  · intro n hn
    rcases mem_append.mp hn with hoperand | hloop
    · exact operand_lt hoperand
    · exact lt_two_pow_of_le
        (exponentiationTraced_lt 256 1 _ _ (by decide) base.isLt exponent.isLt n hloop) (by decide)

lemma powRight_iff_of_small (hbase : 1 < base.toNat) (hsmall : exponent.toNat < 2 ^ 31) :
    (∃ r, PowRight powFits base exponent r)
      ↔ powFits base.toNat exponent.toNat = true ∧ base.toNat ^ exponent.toNat < 2 ^ 1024 := by
  unfold PowRight
  rw [powTraced_of_one_lt powFits hbase, if_pos (by omega)]
  by_cases hfits : powFits base.toNat exponent.toNat = true
  · rw [if_pos hfits]
    constructor
    · intro ⟨r, _, formed, htraced, hformed⟩
      cases htraced
      exact ⟨hfits, hformed _ (by simp)⟩
    intro ⟨_, hpower⟩
    refine ⟨_, (represents_valueOf _).congr ?_, _, rfl, ?_⟩
    · rw [Int.natCast_emod]
      exact Int.emod_emod_of_dvd _ (dvd_refl _)
    intro n hn
    rcases mem_append.mp (show n ∈ [base.toNat, exponent.toNat] ++ [_, _] from hn)
      with hoperand | hresult
    · exact operand_lt hoperand
    · simp only [mem_cons, not_mem_nil, or_false] at hresult
      rcases hresult with rfl | rfl
      · exact hpower
      · exact (Nat.mod_le _ _).trans_lt hpower
  · rw [if_neg hfits]
    constructor
    · intro ⟨r, _, formed, htraced, _⟩
      cases htraced
    · intro ⟨hpow, _⟩
      exact absurd hpow hfits

end Pow

lemma PowRight.pow_eq {powFits : Nat → Nat → Bool} {base exponent r : Word}
    (h : PowRight powFits base exponent r) : pow powFits base exponent = .ok r := by
  obtain ⟨_, formed, htraced, _⟩ := h
  rw [← powTraced_fst, htraced]
  rfl

lemma exists_powRight_iff {powFits : Nat → Nat → Bool}
    (hfits : ∀ b e, b ^ e < 2 ^ 1024 → powFits b e = true) (base exponent : Word) :
    (∃ r, PowRight powFits base exponent r)
      ↔ 2 ^ 31 ≤ exponent.toNat ∨ base.toNat ^ exponent.toNat < 2 ^ 1024 := by
  by_cases hbase : base.toNat ≤ 1
  · have hpower : base.toNat ^ exponent.toNat < 2 ^ 1024 :=
      (pow_le_one₀ (Nat.zero_le _) hbase).trans_lt (@lt_two_pow_of_le 1 1 1024 (by decide) (by decide))
    exact ⟨fun _ => Or.inr hpower, fun _ => powRight_of_le_one powFits hbase⟩
  by_cases hlarge : 2 ^ 31 ≤ exponent.toNat
  · exact ⟨fun _ => Or.inl hlarge, fun _ => powRight_of_large powFits (by omega) hlarge⟩
  rw [powRight_iff_of_small powFits (by omega) (by omega)]
  constructor
  · intro ⟨_, hpower⟩
    exact Or.inr hpower
  · intro h
    have hpower := h.resolve_left hlarge
    exact ⟨hfits _ _ hpower, hpower⟩

end Word

/-! ## The instruction -/

lemma opExp_apply {crypto : CryptoLib} {base exponent r : Word}
    (hpow : Word.pow crypto.powFits base exponent = .ok r) {f : Frame} {rest : List Word}
    (hs : f.stack = base :: exponent :: rest) (hstack : f.stack.length ≤ 1024) :
    opExp crypto f = .ok ⟨.success, none⟩ { f with stack := r :: rest } := by
  have hrest : rest.length < 1024 := by
    rw [hs, length_cons, length_cons] at hstack
    omega
  unfold opExp
  rw [pop_bind hs, pop_bind rfl, hpow]
  show (push r >>= fun _ => success) { f with stack := rest } = _
  rw [bind_of_ok (push_apply hrest)]
  rfl

/-- `EXP` pushes the power, and no integer above 1024 bits is formed for it. -/
def ExpRight (crypto : CryptoLib) (base exponent : Word) : Prop :=
  ∃ r, Word.PowRight crypto.powFits base exponent r
    ∧ ∀ f rest, f.stack = base :: exponent :: rest → f.stack.length ≤ 1024 →
        opExp crypto f = .ok ⟨.success, none⟩ { f with stack := r :: rest }

/-- **The operands with which `EXP` is right.** -/
theorem exp_iff {crypto : CryptoLib}
    (hfits : ∀ b e, b ^ e < 2 ^ 1024 → crypto.powFits b e = true) (base exponent : Word) :
    ExpRight crypto base exponent ↔ 2 ^ 31 ≤ exponent.toNat ∨ base.toNat ^ exponent.toNat < 2 ^ 1024 := by
  rw [← Word.exists_powRight_iff hfits]
  constructor
  · intro ⟨r, hright, _⟩
    exact ⟨r, hright⟩
  · intro ⟨r, hright⟩
    exact ⟨r, hright, fun f rest hs hstack => opExp_apply hright.pow_eq hs hstack⟩

theorem exp_three_five : ExpRight CryptoLib.sample 3 5 :=
  (exp_iff (fun _ _ _ => rfl) 3 5).mpr (Or.inr (@Word.lt_two_pow_of_le _ 8 1024 (by decide) (by decide)))

/-- A library whose powers have at most `2^31 - 1` bits, as those of the JDK. -/
def CryptoLib.bounded : CryptoLib :=
  { CryptoLib.sample with powFits := fun b e => decide (e * Nat.log2 b < 2147483647) }

/-- **`EXP` throws** on a base of 256 and the largest exponent that goes through `BigInteger.pow`.
-/
theorem exp_throws :
    opExp CryptoLib.bounded { Frame.sample [0x0a] 1000 with stack := [256, 2147483647] }
      = .err .arithmetic { Frame.sample [0x0a] 1000 with stack := [] } := by
  rfl

end GrapeDag
