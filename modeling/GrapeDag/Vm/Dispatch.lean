/-
WHICH ADDRESSES ARE PRECOMPILED.

`VmImpl.isPrecompiled` reduces an address to one byte and compares it with the length of the
table. The byte is SIGNED: the addresses `0x80` to `0xff` pass the test, and then index the
table with a negative number.

Main result: `dispatched_iff`.
-/
import GrapeDag.Vm.VmImpl

namespace GrapeDag

open Imperative Prog

/-! ## One-byte addresses -/

lemma bytesToNat_trimLeftZeros (bs : Bytes) : bytesToNat (trimLeftZeros bs) = bytesToNat bs := by
  unfold trimLeftZeros
  induction bs with
  | nil => rfl
  | cons b bs ih =>
    by_cases hb : b = 0
    · rw [List.dropWhile_cons_of_pos (by simpa using hb), bytesToNat_cons, hb]
      show _ = 0 * _ + _
      omega
    · rw [List.dropWhile_cons_of_neg (by simpa using hb)]

lemma head_trimLeftZeros {bs rest : Bytes} {b : UInt8} (h : trimLeftZeros bs = b :: rest) : b ≠ 0 := by
  intro hb
  have hhead := List.head?_dropWhile_not (fun b : UInt8 => decide (b = 0)) bs
  unfold trimLeftZeros at h
  rw [h] at hhead
  simp [hb] at hhead

lemma bytesToNat_addressBytes (address : Address) : bytesToNat (Address.bytes address) = address.toNat := by
  unfold Address.bytes
  rw [bytesToNat_natToBytes]
  exact Nat.mod_eq_of_lt address.isLt

lemma toOneByteAddress_eq (address : Address) :
    toOneByteAddress address = if 1 ≤ address.toNat ∧ address.toNat ≤ 255 then
      some ((address.toNat : Int).bmod 256) else none := by
  have hvalue : bytesToNat (trimLeftZeros (Address.bytes address)) = address.toNat := by
    rw [bytesToNat_trimLeftZeros, bytesToNat_addressBytes]
  unfold toOneByteAddress
  cases htrim : trimLeftZeros (Address.bytes address) with
  | nil =>
    rw [htrim] at hvalue
    have hzero : address.toNat = 0 := hvalue.symm
    rw [if_neg (by omega)]
  | cons b rest =>
    have hb : b.toNat ≠ 0 := fun h => head_trimLeftZeros htrim (UInt8.toNat_inj.mp h)
    have hlt := b.toNat_lt
    rw [htrim, bytesToNat_cons] at hvalue
    cases rest with
    | nil =>
      have hone : b.toNat = address.toNat := by simpa [bytesToNat] using hvalue
      rw [if_pos (by omega), ← hone]
    | cons c rest =>
      -- a second byte makes the value at least 256
      have hpow : 256 ≤ 256 ^ (c :: rest).length := by
        exact Nat.le_mul_of_pos_left 256 (Nat.pow_pos (by decide))
      have hlarge : 256 ≤ b.toNat * 256 ^ (c :: rest).length :=
        hpow.trans (Nat.le_mul_of_pos_left _ (Nat.pos_of_ne_zero hb))
      rw [if_neg (by omega)]

/-! ## Calls without precompiles -/

def enterAccount (a : CallArgs) : Java World Bool := do
  if a.kind ≠ .call then return false
  if !(← .gets fun w => w.isAccountExists a.contractAddress) then
    if a.amount = 0 then return true
    World.createAccount a.contractAddress
  if a.amount ≠ 0 then World.transfer a.caller.address a.contractAddress a.amount
  return false

def accountBody (run : Runner) (a : CallArgs) : Java World VmResult := do
  let data ← .gets fun w => w.getContractCode a.contractAddress
  if data.length = 0 then return .success a.gas a.contractAddress
  else
    let contract ← callContract a data
    let (rc, contract) ← runContract run contract (some a.input) (a.kind = .staticCall)
    let eventLog ← frameLog rc.status
    return ⟨rc.status, contract.gas, eventLog, rc.output, some a.contractAddress⟩

def executeAccountCall (m : Machine) (run : Runner) (a : CallArgs) : Java World VmResult := do
  match ← .gets (refusal m a.caller.address a.amount) with
  | some st => return .error st a.gas a.contractAddress
  | none =>
      World.checkpoint
      if ← enterAccount a then return .success a.gas a.contractAddress
      let result ← accountBody run a
      endStateTransaction m result

variable {m : Machine} {a : CallArgs}

lemma enterCall_of_not_precompiled
    (h : isPrecompiled m.cfg a.contractAddress = false) : enterCall m a = enterAccount a := by
  unfold enterCall enterAccount
  simp [h]

lemma callBody_of_not_precompiled {run : Runner}
    (h : isPrecompiled m.cfg a.contractAddress = false) : callBody m run a = accountBody run a := by
  unfold callBody accountBody
  rw [h, if_neg Bool.false_ne_true]

lemma executeCall_of_not_precompiled {run : Runner}
    (h : isPrecompiled m.cfg a.contractAddress = false) :
    executeCall m run a = executeAccountCall m run a := by
  unfold executeCall
  rewrite [enterCall_of_not_precompiled h, callBody_of_not_precompiled h]
  refine bind_congr fun refused => ?_
  cases refused <;> rfl

/-! ## The dispatch -/

def registered (cfg : ChainConfig) : Nat := (precompiled cfg).length - 1

/-- The fork has a native contract at the address. -/
def IsRegistered (cfg : ChainConfig) (address : Address) : Prop :=
  1 ≤ address.toNat ∧ address.toNat ≤ registered cfg

lemma length_precompiled (cfg : ChainConfig) : (precompiled cfg).length = 19 := by
  unfold precompiled
  split <;> rfl

lemma registered_eq (cfg : ChainConfig) : registered cfg = 18 := by
  unfold registered
  rw [length_precompiled]

lemma exists_precompile (cfg : ChainConfig) {i : Nat} (hpos : 1 ≤ i) (hle : i ≤ 18) :
    ∃ p, (precompiled cfg)[i]? = some (some p) := by
  obtain ⟨j, rfl⟩ := Nat.exists_eq_add_of_le' hpos
  have hsome : ∀ e ∈ (precompiled cfg).tail, ∃ p, e = some p := by
    unfold precompiled
    split <;> simp [bls12Precompiles]
  have hlen : j < (precompiled cfg).tail.length := by
    rw [List.length_tail, length_precompiled]
    omega
  obtain ⟨p, hp⟩ := hsome _ (List.getElem_mem hlen)
  refine ⟨p, ?_⟩
  rw [← List.getElem?_tail, List.getElem?_eq_getElem hlen, hp]

/-- The dispatch of an address. It is taken for a precompiled contract exactly when it is
registered, the function is then found, and else it is called like an account. -/
structure Dispatched (m : Machine) (address : Address) : Prop where
  isPrecompiled_iff : isPrecompiled m.cfg address = true ↔ IsRegistered m.cfg address
  found : isPrecompiled m.cfg address = true → ∃ p, asPrecompiled m.cfg address = .ok p ∧
    (precompiled m.cfg)[address.toNat]? = some (some p)
  ordinary : ¬ IsRegistered m.cfg address → ∀ (run : Runner) (a : CallArgs),
    a.contractAddress = address → executeCall m run a = executeAccountCall m run a

section Dispatch

variable {m : Machine} {address : Address}

lemma isPrecompiled_iff (cfg : ChainConfig) (address : Address) : isPrecompiled cfg address = true ↔
      1 ≤ address.toNat ∧ address.toNat ≤ 255 ∧ (address.toNat : Int).bmod 256 < 19 := by
  unfold isPrecompiled
  rw [toOneByteAddress_eq]
  by_cases hbyte : 1 ≤ address.toNat ∧ address.toNat ≤ 255
  · rw [if_pos hbyte]
    show decide _ = true ↔ _
    rw [decide_eq_true_iff, length_precompiled]
    exact ⟨fun h => ⟨hbyte.1, hbyte.2, h⟩, fun h => h.2.2⟩
  · rw [if_neg hbyte]
    exact iff_of_false Bool.false_ne_true fun h => hbyte ⟨h.1, h.2.1⟩

lemma bmod_of_small (h : address.toNat < 128) : (address.toNat : Int).bmod 256 = address.toNat := by
  rw [Int.bmod_eq_of_le] <;> omega

lemma bmod_of_large (hlow : 128 ≤ address.toNat) (hhigh : address.toNat ≤ 255) :
    (address.toNat : Int).bmod 256 < 0 := by
  rw [Int.bmod_def]
  omega

lemma isPrecompiled_iff_registered (h : ¬ (128 ≤ address.toNat ∧ address.toNat ≤ 255)) :
    isPrecompiled m.cfg address = true ↔ IsRegistered m.cfg address := by
  rw [isPrecompiled_iff]
  unfold IsRegistered
  rw [registered_eq]
  by_cases hsmall : address.toNat < 128
  · rw [bmod_of_small hsmall]
    omega
  · omega

lemma asPrecompiled_of_registered (h : IsRegistered m.cfg address) :
    ∃ p, asPrecompiled m.cfg address = .ok p ∧ (precompiled m.cfg)[address.toNat]? = some (some p) := by
  obtain ⟨hpos, hle⟩ := h
  rw [registered_eq] at hle
  obtain ⟨p, hp⟩ := exists_precompile m.cfg hpos hle
  refine ⟨p, ?_, hp⟩
  unfold asPrecompiled
  rw [toOneByteAddress_eq, if_pos ⟨hpos, by omega⟩, bmod_of_small (by omega)]
  dsimp only
  rw [length_precompiled, if_neg (by omega), Int.toNat_natCast, List.getD_eq_getElem?_getD, hp]
  rfl

end Dispatch

/-- **Precompile dispatch.** An address is dispatched right if and only if it is not one of `0x80`
to `0xff`. -/
theorem dispatched_iff (m : Machine) (address : Address) :
    Dispatched m address ↔ ¬ (128 ≤ address.toNat ∧ address.toNat ≤ 255) := by
  constructor
  · -- these addresses pass the test, and are not registered
    rintro h ⟨hlow, hhigh⟩
    have hnegative := bmod_of_large hlow hhigh
    have htaken : isPrecompiled m.cfg address = true :=
      (isPrecompiled_iff m.cfg address).mpr ⟨by omega, hhigh, by omega⟩
    have hregistered := h.isPrecompiled_iff.mp htaken
    unfold IsRegistered at hregistered
    rw [registered_eq] at hregistered
    omega
  · intro h
    have hiff := @isPrecompiled_iff_registered m address h
    refine ⟨hiff, fun htaken => asPrecompiled_of_registered (hiff.mp htaken), ?_⟩
    intro hplain run a ha
    apply executeCall_of_not_precompiled
    rw [ha]
    exact Bool.eq_false_iff.mpr fun htaken => hplain (hiff.mp htaken)

/-- A call of address `0x80`, which nobody owns: it is taken for a precompiled contract, and the
look-up throws. -/
theorem high_byte_throws : isPrecompiled Machine.sample.cfg 0x80 = true ∧
    asPrecompiled Machine.sample.cfg 0x80 = .error .indexOutOfBounds ∧
    ∃ e w', (vm .sample 5).executeCall ⟨.call, .account 1 0, 0x80, [], 100000, 0⟩ (.sampleWith 0 [])
      = .err e w' := by
  exact ⟨by decide +kernel, by decide +kernel, by decide +kernel⟩

end GrapeDag
