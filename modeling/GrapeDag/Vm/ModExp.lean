/-
THE MODEXP PRECOMPILE.

`BigModExp.java`. The input declares three lengths of 256 bits each, and goes on with base,
exponent and modulus; it is read as if it were followed by zeros.

Main results: `modExp_price_iff` and `modExp_result`.
-/
import GrapeDag.Vm.MemoryRange

namespace GrapeDag

open Imperative Checked Area

/-! ## Inputs -/

namespace ModExp

section

variable (input : Bytes)

/-- The number in the `n` bytes from position `o` on, of an input that goes on with zeros. -/
def field (o n : Nat) : Nat := bytesToNat (Area.window o n (Area.extend 0 (o + n) input))

def baseLen : Nat := field input 0 32

def expLen : Nat := field input 32 32

def modLen : Nat := field input 64 32

def base : Nat := field input 96 (baseLen input)

def exponent : Nat := field input (96 + baseLen input) (expLen input)

def modulus : Nat := field input (96 + (baseLen input + expLen input)) (modLen input)

def expHead : Nat := field input (96 + baseLen input) (min 32 (expLen input))

def adjustedLen : Nat := 8 * (expLen input - 32) + (bitLength (expHead input) - 1)

def exactPrice : Nat :=
  ((max (baseLen input) (modLen input) + 7) / 8) ^ 2 * max 1 (adjustedLen input) / 3

/-- What a run is to cost: at least 200, and at most what a `long` can hold. -/
def price : Int :=
  if (exactPrice input : Int) ≤ longMax then max 200 (exactPrice input) else longMax

def output : Bytes :=
  if baseLen input = 0 ∧ modLen input = 0 then []
  else if modulus input = 0 then List.replicate (modLen input) 0
  else natToBytes (modLen input) (base input ^ exponent input % modulus input)

end

/-! ## Reading -/

lemma bytesToNat_zeros (n : Nat) : bytesToNat (List.replicate n 0) = 0 := by
  induction n with
  | zero => rfl
  | succ n ih =>
    rw [List.replicate_succ, bytesToNat_cons, ih]
    exact Nat.zero_mul _

lemma field_zero (input : Bytes) (o : Nat) : field input o 0 = 0 := by
  rfl

lemma field_lt (input : Bytes) (o n : Nat) : field input o n < 256 ^ n := by
  have hlen : (window o n (extend 0 (o + n) input)).length = n :=
    length_window_of_le (by rw [length_extend]; omega)
  have hlt := bytesToNat_lt (window o n (extend 0 (o + n) input))
  rw [hlen] at hlt
  exact hlt

lemma field_of_ge {input : Bytes} {o : Nat} (h : input.length ≤ o) (n : Nat) : field input o n = 0 := by
  unfold field
  rw [window_extend_of_ge h, bytesToNat_zeros]

lemma field_drop (input : Bytes) (k o n : Nat) : field (input.drop k) o n = field input (k + o) n := by
  unfold field
  rw [window_extend, window_extend]
  unfold window
  rw [List.drop_drop, List.length_drop, Nat.sub_sub]

section Read

variable {input : Bytes} {o n : Nat}

lemma slicePadded_field (hlen : input.length ≤ 2147483647)
    (hend : min o input.length + n ≤ 2147483647) :
    ∃ bs, slicePadded (some input) o n = .ok bs ∧ bytesToNat bs = field input o n :=
  ⟨_, slicePadded_eq hlen hend, rfl⟩

lemma extractParam_eq (hlen : input.length ≤ 2147483647)
    (hend : min o input.length + n ≤ 2147483647) :
    extractParam input o n = .ok (field input o n) := by
  unfold extractParam
  by_cases hout : (o : Int) > input.length ∨ (n : Int) = 0
  · have hzero : field input o n = 0 := by
      rcases hout with hpast | hempty
      · exact field_of_ge (by omega) n
      · obtain rfl : n = 0 := by omega
        exact field_zero input o
    rw [if_pos hout, hzero]
    rfl
  · rw [if_neg hout]
    obtain ⟨bs, hslice, hvalue⟩ := slicePadded_field hlen hend
    exact bind_eq_ok.mpr ⟨bs, hslice, by rw [hvalue]; rfl⟩

end Read

/-! ## The price -/

lemma bigModExpHead_eq {input : Bytes} (hlen : input.length ≤ 2147483647) :
    bigModExpHead (input.drop 96) (baseLen input) (expLen input) = .ok (expHead input) := by
  have hdrop : (input.drop 96).length = input.length - 96 := List.length_drop
  unfold bigModExpHead expHead
  rw [← field_drop]
  by_cases hshort : (input.drop 96).length ≤ baseLen input
  · rw [if_pos hshort, field_of_ge hshort]
    rfl
  have hstart : wrap32 (baseLen input) = baseLen input := wrap32_of_isInt (by omega)
  have hsize : (if expLen input > 32 then 32 else wrap32 (expLen input))
      = ((min 32 (expLen input) : Nat) : Int) := by
    split
    · omega
    · rw [wrap32_of_isInt (by omega)]
      omega
  rw [if_neg hshort, hstart, hsize]
  obtain ⟨bs, hslice, hvalue⟩ := @slicePadded_field (input.drop 96) (baseLen input)
    (min 32 (expLen input)) (by omega) (by omega)
  exact bind_eq_ok.mpr ⟨bs, hslice, by rw [hvalue]; rfl⟩

end ModExp

open ModExp

lemma bigModExpGas_eq {cfg : ChainConfig} (hdiv : cfg.lookForGasPrice .gQuadDivisor = .ok 3)
    {input : Bytes} (hlen : input.length ≤ 2147483647) :
    bigModExpGas cfg input = .ok (max 200 (wrap64 (exactPrice input))) := by
  obtain ⟨b, hb, hbase⟩ := @slicePadded_field input 0 32 hlen (by omega)
  obtain ⟨e, he, hexp⟩ := @slicePadded_field input 32 32 hlen (by omega)
  obtain ⟨k, hk, hmod⟩ := @slicePadded_field input 64 32 hlen (by omega)
  have hadj : (if expLen input > 32 then
        (expLen input - 32) * 8 + (bitLength (expHead input) - 1)
      else bitLength (expHead input) - 1) = adjustedLen input := by
    unfold adjustedLen
    split <;> omega
  have hquot : divide ((((max (modLen input) (baseLen input) + 7) / 8) ^ 2
        * max 1 (adjustedLen input) : Nat) : Int) 3 = .ok (exactPrice input : Int) := by
    rw [max_comm (modLen input), divide_eq_ok]
    exact ⟨by decide, (Int.ofNat_tdiv _ _).symm⟩
  have hfloor : ∀ gas : Int, (if gas < 200 then 200 else gas) = max 200 gas := by
    intro gas
    split <;> omega
  refine bind_eq_ok.mpr ⟨3, hdiv, ?_⟩
  refine bind_eq_ok.mpr ⟨b, hb, ?_⟩
  refine bind_eq_ok.mpr ⟨e, he, ?_⟩
  refine bind_eq_ok.mpr ⟨k, hk, ?_⟩
  rw [show bytesToNat b = baseLen input from hbase, show bytesToNat e = expLen input from hexp,
    show bytesToNat k = modLen input from hmod]
  refine bind_eq_ok.mpr ⟨expHead input, bigModExpHead_eq hlen, ?_⟩
  dsimp only
  rw [hadj]
  refine bind_eq_ok.mpr ⟨exactPrice input, hquot, ?_⟩
  exact congrArg Except.ok (hfloor _)

lemma divisor_configAt (timestamp : Int) : (configAt timestamp).lookForGasPrice .gQuadDivisor = .ok 3 := by
  unfold configAt
  split <;> rfl

lemma max_wrap64_eq_longMax_iff (f : Nat) : max 200 (wrap64 f) = longMax ↔ f % 2 ^ 64 = 2 ^ 63 - 1 := by
  unfold wrap64 longMax
  rw [Int.bmod_def]
  omega

/-- **Which inputs are priced right.** -/
theorem modExp_price_iff {cfg : ChainConfig} (hdiv : cfg.lookForGasPrice .gQuadDivisor = .ok 3)
    {input : Bytes} (hlen : input.length ≤ 2147483647) :
    requiredGas cfg .bigModExp input = .ok (price input)
      ↔ exactPrice input < 2 ^ 63 ∨ exactPrice input % 2 ^ 64 = 2 ^ 63 - 1 := by
  show bigModExpGas cfg input = _ ↔ _
  rw [bigModExpGas_eq hdiv hlen]
  unfold price
  by_cases hfits : exactPrice input < 2 ^ 63
  · rw [if_pos (by unfold longMax; omega), wrap64_of_isLong (by omega)]
    exact ⟨fun _ => Or.inl hfits, fun _ => rfl⟩
  · rw [if_neg (by unfold longMax; omega), Except.ok.injEq, max_wrap64_eq_longMax_iff]
    exact ⟨Or.inr, fun h => h.resolve_left hfits⟩

/-- No base, an exponent of 35 bytes and a modulus of `2 ^ 34`. -/
def ModExp.hugeModulus : Bytes := natToBytes 32 0 ++ natToBytes 32 35 ++ natToBytes 32 (2 ^ 34)

lemma hugeModulus_exactPrice : exactPrice hugeModulus = 2 ^ 65 := by
  decide +kernel

/-- **A modulus of sixteen gigabytes is the cheapest**: the price is `2 ^ 65`, whose low bits are
all zero. -/
theorem hugeModulus_is_cheap :
    requiredGas (configAt 0) .bigModExp hugeModulus = .ok 200 ∧ price hugeModulus = longMax := by
  constructor
  · show bigModExpGas (configAt 0) hugeModulus = _
    rw [bigModExpGas_eq (divisor_configAt 0) (by decide), hugeModulus_exactPrice]
    decide
  · unfold price
    rw [hugeModulus_exactPrice]
    decide

def ModExp.threeToTheFour : Bytes := natToBytes 32 1 ++ natToBytes 32 1 ++ natToBytes 32 1 ++ [3, 4, 50]

theorem threeToTheFour_price :
    requiredGas (configAt 0) .bigModExp threeToTheFour = .ok (price threeToTheFour) :=
  (modExp_price_iff (divisor_configAt 0) (by decide)).mpr (Or.inl (by decide +kernel))

/-! ## The result -/

lemma natToBytes_zero_eq_replicate (n : Nat) : natToBytes n 0 = List.replicate n 0 := by
  induction n with
  | zero => rfl
  | succ n ih =>
    unfold natToBytes
    rw [ih, Nat.zero_div]
    rfl

lemma padded_result (v n : Nat) :
    ∃ word, leftPadBytes (asUnsignedByteArray v) (max 32 (asUnsignedByteArray v).length) = .ok word
      ∧ leftPadBytes word n = .ok (natToBytes n v) := by
  have hcast : (max 32 (asUnsignedByteArray v).length : Int)
      = ((max 32 (asUnsignedByteArray v).length : Nat) : Int) := by omega
  rw [hcast]
  refine ⟨_, leftPadBytes_eq _ _, ?_⟩
  have hfits : v < 256 ^ max 32 (asUnsignedByteArray v).length := by
    calc v = bytesToNat (asUnsignedByteArray v) := (bytesToNat_asUnsignedByteArray v).symm
      _ < 256 ^ (asUnsignedByteArray v).length := bytesToNat_lt _
      _ ≤ 256 ^ max 32 (asUnsignedByteArray v).length :=
          Nat.pow_le_pow_right (by decide) (Nat.le_max_right _ _)
  rw [leftPadBytes_eq, bytesToNat_natToBytes, bytesToNat_asUnsignedByteArray, Nat.mod_eq_of_lt hfits]

lemma runBigModExp_eq {input : Bytes} (hlen : input.length ≤ 2147483647)
    (hsum : baseLen input + expLen input + modLen input < 2 ^ 31) :
    runBigModExp input = .ok ⟨.success, some (output input)⟩ := by
  have harg : ∀ o n : Nat, o + n < 2 ^ 31 →
      extractParam (input.drop 96) o n = .ok (field input (96 + o) n) := by
    intro o n hend
    have hdrop : (input.drop 96).length = input.length - 96 := List.length_drop
    rw [extractParam_eq (by omega) (by omega), field_drop]
  have hint : ∀ n : Nat, n < 2 ^ 31 → wrap32 n = n := by
    intro n hn
    exact wrap32_of_isInt (by omega)
  have hbase := harg 0 (baseLen input) (by omega)
  have hexp := harg (baseLen input) (expLen input) (by omega)
  have hmod := harg (baseLen input + expLen input) (modLen input) (by omega)
  unfold output
  refine bind_eq_ok.mpr ⟨baseLen input, @extractParam_eq input 0 32 hlen (by omega), ?_⟩
  refine bind_eq_ok.mpr ⟨expLen input, @extractParam_eq input 32 32 hlen (by omega), ?_⟩
  refine bind_eq_ok.mpr ⟨modLen input, @extractParam_eq input 64 32 hlen (by omega), ?_⟩
  by_cases hempty : baseLen input = 0 ∧ modLen input = 0
  · rw [if_pos hempty, if_pos hempty]
    rfl
  rw [if_neg hempty, if_neg hempty, hint _ (by omega), hint (expLen input) (by omega),
    hint (modLen input) (by omega), ← Int.natCast_add, hint (baseLen input + expLen input) (by omega)]
  refine bind_eq_ok.mpr ⟨base input, hbase, ?_⟩
  refine bind_eq_ok.mpr ⟨exponent input, hexp, ?_⟩
  refine bind_eq_ok.mpr ⟨modulus input, hmod, ?_⟩
  by_cases hzero : modulus input = 0
  · rw [if_pos hzero, if_pos hzero, ← natToBytes_zero_eq_replicate]
    exact bind_eq_ok.mpr ⟨_, leftPadBytes_eq [] (modLen input), rfl⟩
  · rw [if_neg hzero, if_neg hzero]
    obtain ⟨word, hword, hpad⟩ := padded_result (base input ^ exponent input % modulus input) (modLen input)
    refine bind_eq_ok.mpr ⟨word, hword, ?_⟩
    exact bind_eq_ok.mpr ⟨_, hpad, rfl⟩

lemma length_output (input : Bytes) : (output input).length = modLen input := by
  unfold output
  split_ifs with hempty hzero
  · exact hempty.2.symm
  · exact List.length_replicate
  · exact length_natToBytes _ _

lemma bytesToNat_output (input : Bytes) : bytesToNat (output input)
      = if modulus input = 0 then 0 else base input ^ exponent input % modulus input := by
  unfold output
  by_cases hzero : modulus input = 0
  · split
    · rfl
    · exact bytesToNat_zeros _
  have hmod : modLen input ≠ 0 := by
    intro hlen
    apply hzero
    unfold modulus
    rw [hlen, field_zero]
  have hfits : base input ^ exponent input % modulus input < 256 ^ modLen input :=
    (Nat.mod_lt _ (Nat.pos_of_ne_zero hzero)).trans (field_lt _ _ _)
  rw [if_neg (fun h => hmod h.2), if_neg hzero, if_neg hzero, bytesToNat_natToBytes, Nat.mod_eq_of_lt hfits]

/-- **What a run returns**: the power, in as many bytes as the modulus was declared to have. -/
theorem modExp_result {input : Bytes} (hlen : input.length ≤ 2147483647)
    (hsum : baseLen input + expLen input + modLen input < 2 ^ 31) :
    runBigModExp input = .ok ⟨.success, some (output input)⟩ ∧ (output input).length = modLen input
      ∧ bytesToNat (output input)
          = if modulus input = 0 then 0 else base input ^ exponent input % modulus input :=
  ⟨runBigModExp_eq hlen hsum, length_output input, bytesToNat_output input⟩

theorem threeToTheFour_result : runBigModExp threeToTheFour = .ok ⟨.success, some [31]⟩ :=
  (modExp_result (by decide) (by decide +kernel)).1.trans (by decide +kernel)

end GrapeDag
