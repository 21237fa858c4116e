/-
WORDS THAT INSTRUCTIONS PUSH.

`PUSHn` gives up when MORE THAN ONE byte of its data is missing, and with exactly one missing it
pads the data on the wrong side. `BALANCE`, `SELFBALANCE`, `NUMBER`, `GASLIMIT` and `BASEFEE`
push the SIGNED encoding of a number, which has a byte too many once the top bit of the word is
needed.

Main results: `push_iff` and `environment_iff`.
-/
import GrapeDag.Vm.Entry
import GrapeDag.Vm.Operands
import Mathlib.Tactic.IntervalCases

namespace GrapeDag

open Imperative GrapeDag.Frame Prog Area List

/-! ## A turn with a fixed price -/

section Turn

variable {m : Machine} {calls : Calls} {f : Frame} {p : Nat}

lemma opcode_of_pc (hpc : f.pc = p) (hlen : f.contract.code.length ≤ 2147483647) :
    f.opcode = f.contract.code.getD p 0 := by
  unfold Frame.opcode
  rw [hpc]
  by_cases hin : p < f.contract.code.length
  · rw [if_pos (by omega), wrap32_of_isInt (by omega), Int.toNat_natCast]
  · rw [if_neg (by omega), getD_eq_getElem?_getD, getElem?_eq_none (by omega)]
    rfl

lemma getOPCode_of_pc (hpc : f.pc = p) (hlen : f.contract.code.length ≤ 2147483647) :
    getOPCode f.pc f = .ok f.opcode f := by
  unfold getOPCode Frame.opcode
  rw [gets_bind, hpc]
  by_cases hin : p < f.contract.code.length
  · have hcheck : checkElementIndex (wrap32 p) f.contract.code.length = .ok () := by
      rw [wrap32_of_isInt (by omega)]
      exact if_pos ⟨by omega, by omega⟩
    rw [if_pos (by omega), if_pos (by omega), hcheck]
    rfl
  · rw [if_neg (by omega), if_neg (by omega)]
    rfl

lemma charge_of_static {op : Op} (hhandler : gasHandler m op = none)
    (hfee : m.cfg.staticFee op ≤ f.contract.gas) :
    ∃ gas, charge m op f = .ok none { f with contract := { f.contract with gas := gas } } := by
  have huse : useGas (m.cfg.staticFee op) f = .ok true _ := if_neg (by omega)
  refine ⟨wrap64 (f.contract.gas - m.cfg.staticFee op), ?_⟩
  unfold charge
  rw [bind_of_ok huse, hhandler]
  rfl

lemma turn_of_static {op : Op} {b : UInt8} (hpc : f.pc = p)
    (hbyte : f.contract.code[p]? = some b) (hlen : f.contract.code.length ≤ 2147483647)
    (hop : m.cfg.locateOpCode b = some op) (hhandler : gasHandler m op = none)
    (hfee : m.cfg.staticFee op ≤ f.contract.gas) :
    ∃ gas, ∀ rc f',
      locateFn m calls op { f with contract := { f.contract with gas := gas } } = .ok rc f' →
      turn m calls f = if rc.hasError ∨ rc.status = .stopToken then .ok (some rc) f'
          else .ok none { f' with pc := wrap64 (f'.pc + 1) } := by
  obtain ⟨gas, hcharge⟩ := charge_of_static hhandler hfee
  have hopcode : f.opcode = b := by
    rw [opcode_of_pc hpc hlen, getD_eq_getElem?_getD, hbyte]
    rfl
  refine ⟨gas, fun rc f' hfn => ?_⟩
  rw [turn_apply (getOPCode_of_pc hpc hlen), hopcode, bind_of_ok ((runStep_of_paid hop hcharge).trans hfn)]
  split <;> rfl

end Turn

/-! ## `PUSHn` -/

section Push

variable {f : Frame} {p n : Nat}

lemma opPush_of_short (hpc : f.pc = p) (hshort : f.contract.code.length < p + n) :
    opPush n f = .ok ⟨.argumentOutOfRange, none⟩ f := by
  unfold opPush
  rw [gets_bind, gets_bind, hpc, if_pos (by omega)]
  rfl

lemma slice_clipped {code : Bytes} (hlen : code.length ≤ 2147483647) (hp : p < code.length) :
    slice code (p + 1 : Nat) (min (p + 1 + n) code.length : Nat) = .ok (window (p + 1) n code) := by
  rw [slice_eq (by omega) (by omega) hlen]
  have htake : (code.drop (p + 1)).take (min (p + 1 + n) code.length - (p + 1))
      = (code.drop (p + 1)).take n := by
    rw [take_eq_take_iff, length_drop]
    omega
  exact congrArg Except.ok htake

lemma opPush_of_fits (hpc : f.pc = p) (hlen : f.contract.code.length ≤ 2147483647)
    (hp : p < f.contract.code.length) (hn : n ≤ 32)
    (hfits : p + n ≤ f.contract.code.length) (hstack : f.stack.length < 1024) :
    opPush n f = .ok ⟨.success, some (window (p + 1) n f.contract.code)⟩ { f with
        stack := .ofBytes (window (p + 1) n f.contract.code) :: f.stack
        pc := (p + n : Nat) } := by
  have hstart : (if (p : Int) + 1 < f.contract.code.length then (p : Int) + 1
      else f.contract.code.length) = (p + 1 : Nat) := by
    split <;> omega
  have hend : (if ((p + 1 : Nat) : Int) + n < f.contract.code.length then ((p + 1 : Nat) : Int) + n
      else f.contract.code.length) = (min (p + 1 + n) f.contract.code.length : Nat) := by
    split <;> omega
  have hexact : ∀ k : Nat, k ≤ f.contract.code.length → toIntExact k = .ok (k : Int) :=
    fun k hk => if_pos (by omega)
  have hbytes : (window (p + 1) n f.contract.code).length ≤ 32 := by
    rw [length_window]
    omega
  have hnext : wrap64 (f.pc + n) = (p + n : Nat) := by
    rw [hpc, wrap64_of_isLong (by omega)]
    rfl
  unfold opPush
  rw [gets_bind, gets_bind, hpc, hstart, hend,
    if_neg (by omega), liftM_bind (hexact _ (by omega)),
    liftM_bind (hexact _ (by omega)),
    liftM_bind (slice_clipped hlen hp),
    bind_of_ok (pushBytes_apply hbytes hstack), modify_bind]
  show Outcome.ok _ { f with stack := _, pc := wrap64 (f.pc + n) } = _
  rw [hnext]

lemma bytesToNat_eq_zero_iff (bs : Bytes) : bytesToNat bs = 0 ↔ ∀ b ∈ bs, b = 0 := by
  induction bs with
  | nil => exact ⟨nofun, fun _ => rfl⟩
  | cons b bs ih =>
    have hpos : 256 ^ bs.length ≠ 0 := pow_ne_zero _ (by decide)
    have hbyte : b.toNat = 0 ↔ b = 0 := UInt8.toNat_inj (b := 0)
    rw [bytesToNat_cons, forall_mem_cons, Nat.add_eq_zero_iff, Nat.mul_eq_zero, ih, hbyte]
    exact and_congr_left fun _ => or_iff_left hpos

lemma ofBytes_snoc_zero_iff {bs : Bytes} (hlen : bs.length < 32) :
    Word.ofBytes bs = Word.ofBytes (bs ++ [0]) ↔ ∀ b ∈ bs, b = 0 := by
  have hlt := bytesToNat_lt bs
  have hpow : 256 ^ bs.length ≤ 256 ^ 31 := Nat.pow_le_pow_right (by decide) (by omega)
  have hsnoc : bytesToNat (bs ++ [0]) = bytesToNat bs * 256 := by
    unfold bytesToNat
    rw [foldl_append]
    exact Nat.add_zero _
  rw [← bytesToNat_eq_zero_iff, ← BitVec.toNat_inj]
  unfold Word.ofBytes
  rw [BitVec.toNat_ofNat, BitVec.toNat_ofNat, hsnoc]
  rw [Nat.mod_eq_of_lt (by omega), Nat.mod_eq_of_lt (by omega)]
  omega

lemma ofBytes_window_iff {code : Bytes} (hn : 1 ≤ n ∧ n ≤ 32) (hfits : p + n ≤ code.length) :
    Word.ofBytes (window (p + 1) n code) = Word.ofBytes (dataAt code (p + 1) n)
      ↔ p + n < code.length ∨ ∀ b ∈ code.drop (p + 1), b = 0 := by
  by_cases hinside : p + n < code.length
  · have hdata : dataAt code (p + 1) n = window (p + 1) n code := by
      unfold dataAt
      rw [extend_of_le (by omega)]
    rw [hdata]
    exact ⟨fun _ => Or.inl hinside, fun _ => rfl⟩
  · have hwindow : window (p + 1) n code = code.drop (p + 1) := by
      unfold window
      exact take_of_length_le (by rw [length_drop]; omega)
    have hone : n - (code.length - (p + 1)) = 1 := by omega
    have hdata : dataAt code (p + 1) n = code.drop (p + 1) ++ [0] := by
      unfold dataAt
      rw [window_extend, hwindow, hone]
      rfl
    rw [hwindow, hdata, ofBytes_snoc_zero_iff (by rw [length_drop]; omega)]
    exact ⟨Or.inr, fun h => h.resolve_left hinside⟩

/-- `PUSHn` pushes the word of its data, with zeros past the end of the code, and the next
instruction is the one behind the data, or `STOP` past the end of the code. -/
def PushesRight (m : Machine) (calls : Calls) (f : Frame) (p n : Nat) : Prop :=
  ∃ f', turn m calls f = .ok none f'
    ∧ f'.stack = .ofBytes (dataAt f.contract.code (p + 1) n) :: f.stack
    ∧ f'.pc = (p + 1 + n : Nat)
    ∧ f'.opcode = f.contract.code.getD (p + 1 + n) 0

lemma decode_push (fuelOptimization : Bool) {n : Nat} (hn : 1 ≤ n ∧ n ≤ 32) :
    decode fuelOptimization (UInt8.ofNat (0x5f + n)) = some (.push n) := by
  obtain ⟨hlow, hhigh⟩ := hn
  interval_cases n <;> rfl

section Run

variable {m : Machine} {calls : Calls} (hpc : f.pc = p) (hn : 1 ≤ n ∧ n ≤ 32)
  (hbyte : f.contract.code[p]? = some (UInt8.ofNat (0x5f + n)))
  (hlen : f.contract.code.length ≤ 2147483647)
  (hfee : m.cfg.staticFee (.push n) ≤ f.contract.gas)
include hpc hn hbyte hlen hfee

lemma turn_push_short (hshort : f.contract.code.length < p + n) :
    ∃ f', turn m calls f = .ok (some ⟨.argumentOutOfRange, none⟩) f' := by
  obtain ⟨gas, hturn⟩ := turn_of_static hpc hbyte hlen (decode_push _ hn) rfl hfee
  exact ⟨_, hturn _ _ (opPush_of_short hpc hshort)⟩

lemma turn_push_fits (hfits : p + n ≤ f.contract.code.length) (hstack : f.stack.length < 1024) :
    ∃ f', turn m calls f = .ok none f'
      ∧ f'.stack = .ofBytes (window (p + 1) n f.contract.code) :: f.stack
      ∧ f'.pc = (p + 1 + n : Nat) ∧ f'.contract.code = f.contract.code := by
  have hp : p < f.contract.code.length := by omega
  obtain ⟨gas, hturn⟩ := turn_of_static hpc hbyte hlen (decode_push _ hn) rfl hfee
  have hgoes := hturn _ _ (opPush_of_fits hpc hlen hp hn.2 hfits hstack)
  have hsuccess : ∀ data, ¬ ((⟨.success, data⟩ : FnResult).hasError = true
      ∨ (⟨.success, data⟩ : FnResult).status = .stopToken) := by
    intro data h
    rcases h with h | h <;> cases h
  rw [if_neg (hsuccess _)] at hgoes
  refine ⟨_, hgoes, rfl, ?_, rfl⟩
  dsimp only
  rw [wrap64_of_isLong (by omega)]
  omega

/-- **Where `PUSHn` is right**: at least one byte of the code follows its data, or just the last
byte of the data is missing and the others are zeros. -/
theorem push_iff (hstack : f.stack.length < 1024) : PushesRight m calls f p n
      ↔ p + n < f.contract.code.length
        ∨ p + n = f.contract.code.length ∧ ∀ b ∈ f.contract.code.drop (p + 1), b = 0 := by
  by_cases hshort : f.contract.code.length < p + n
  · obtain ⟨f', hturn⟩ := @turn_push_short f p n m calls hpc hn hbyte hlen hfee hshort
    constructor
    · intro ⟨f'', hright, _⟩
      rw [hturn] at hright
      cases hright
    · intro h
      omega
  · obtain ⟨f', hturn, hpushed, hnext, hcode⟩ :=
      @turn_push_fits f p n m calls hpc hn hbyte hlen hfee (by omega) hstack
    have hword := ofBytes_window_iff hn (show p + n ≤ f.contract.code.length by omega)
    constructor
    · intro ⟨f'', hright, hstack'', _⟩
      rw [hturn] at hright
      cases hright
      rw [hpushed] at hstack''
      rcases hword.mp (cons.inj hstack'').1 with hinside | hzeros
      · exact Or.inl hinside
      · by_cases hinside : p + n < f.contract.code.length
        · exact Or.inl hinside
        · exact Or.inr ⟨by omega, hzeros⟩
    · intro h
      refine ⟨f', hturn, ?_, hnext, ?_⟩
      · rw [hpushed, hword.mpr (h.imp_right And.right)]
      · rw [opcode_of_pc hnext (by rw [hcode]; exact hlen), hcode]

end Run

theorem push2_right : PushesRight .sample (vm .sample 1) (Frame.sample [0x61, 0x01, 0x02, 0x00] 1000) 0 2 :=
  (push_iff rfl (by decide) rfl (by decide) (by decide) (by decide)).mpr (Or.inl (by decide))

/-- **Truncated pushes.** A `PUSH2` as the last byte ends the frame with an error; followed by the
byte `1` it pushes `1`, where the code read on with zeros has `256`. -/
theorem truncated_push2 : (turn .sample (vm .sample 1) (Frame.sample [0x61] 1000)).returns
        (fun rc _ => rc = some ⟨.argumentOutOfRange, none⟩)
      ∧ (turn .sample (vm .sample 1) (Frame.sample [0x61, 0x01] 1000)).returns
          (fun rc f => rc = none ∧ f.stack = [1])
      ∧ Word.ofBytes (dataAt [0x61, 0x01] 1 2) = 256 := by
  decide

end Push

/-! ## Words of the environment -/

/-- The instructions that push a number of the state or of the block; `BALANCE` with its operand. -/
inductive EnvironmentOp where
  | balance (slot : Word)
  | selfBalance
  | number
  | gasLimit
  | baseFee

namespace EnvironmentOp

def op : EnvironmentOp → Op
  | balance _ => .balance
  | selfBalance => .selfBalance
  | number => .number
  | gasLimit => .gasLimit
  | baseFee => .baseFee

def operands : EnvironmentOp → List Word
  | balance slot => [slot]
  | _ => []

def value (m : Machine) (f : Frame) : EnvironmentOp → Int
  | balance slot => f.world.getBalance slot.toAddress
  | selfBalance => f.world.getBalance f.contract.self
  | number => m.block.blockNumber
  | gasLimit => m.block.gasLimit
  | baseFee => m.block.baseFeePerGas

lemma locateFn_eq (m : Machine) (calls : Calls) (e : EnvironmentOp) {f : Frame}
    {rest : List Word} (hs : f.stack = e.operands ++ rest) :
    locateFn m calls e.op f
      = (do pushBytes (toByteArray (e.value m f)); success : Java Frame FnResult)
          { f with stack := rest } := by
  cases e with
  | balance slot =>
    show opBalance f = _
    unfold opBalance
    rw [pop_bind hs, gets_bind]
    rfl
  | selfBalance | number | gasLimit | baseFee =>
    obtain rfl : f.stack = rest := hs
    rfl

end EnvironmentOp

lemma bitLength_le_iff (n k : Nat) : bitLength n ≤ k ↔ n < 2 ^ k := by
  unfold bitLength
  split
  · next h =>
    rw [h]
    exact ⟨fun _ => Nat.two_pow_pos k, fun _ => Nat.zero_le k⟩
  · next h => exact Nat.log2_lt h

lemma length_toByteArray_le_iff (n : Nat) : (toByteArray n).length ≤ 32 ↔ n < 2 ^ 255 := by
  rw [(toByteArray_natCast n).1, length_natToBytes, ← bitLength_le_iff]
  omega

lemma ofBytes_toByteArray {n : Nat} (h : n < 2 ^ 256) : (Word.ofBytes (toByteArray n)).toNat = n := by
  obtain ⟨harray, hlt⟩ := toByteArray_natCast n
  unfold Word.ofBytes
  rw [harray, bytesToNat_natToBytes, Nat.mod_eq_of_lt hlt, BitVec.toNat_ofNat, Nat.mod_eq_of_lt h]

/-- The instruction pushes its number as a word. -/
def EnvironmentOp.Right (m : Machine) (calls : Calls) (e : EnvironmentOp) (f : Frame)
    (rest : List Word) : Prop :=
  ∃ w : Word, (w.toNat : Int) = e.value m f
    ∧ locateFn m calls e.op f = .ok ⟨.success, none⟩ { f with stack := w :: rest }

/-- **Which numbers are pushed**: those that fit a signed word. -/
theorem environment_iff (m : Machine) (calls : Calls) (e : EnvironmentOp) {f : Frame}
    {rest : List Word} (hs : f.stack = e.operands ++ rest) (hrest : rest.length < 1024)
    (hrange : 0 ≤ e.value m f ∧ e.value m f < 2 ^ 256) :
    e.Right m calls f rest ↔ e.value m f < 2 ^ 255 := by
  unfold EnvironmentOp.Right
  rw [EnvironmentOp.locateFn_eq m calls e hs]
  obtain ⟨n, hn⟩ := Int.eq_ofNat_of_zero_le hrange.1
  rw [hn] at hrange ⊢
  by_cases hsmall : n < 2 ^ 255
  · have hbytes := (length_toByteArray_le_iff n).mpr hsmall
    have hpush := pushBytes_apply (f := { f with stack := rest }) hbytes hrest
    refine ⟨fun _ => by exact_mod_cast hsmall, fun _ => ?_⟩
    refine ⟨_, congrArg Nat.cast (ofBytes_toByteArray (by omega)), ?_⟩
    rw [bind_of_ok hpush]
    rfl
  · have hbytes : 32 < (toByteArray n).length := by
      have := length_toByteArray_le_iff n
      omega
    constructor
    · intro ⟨w, _, hok⟩
      unfold pushBytes at hok
      rw [if_pos hbytes] at hok
      cases hok
    · intro h
      omega

theorem selfBalance_right :
    EnvironmentOp.selfBalance.Right .sample (vm .sample 1) (Frame.sample [0x47] 1000) [] :=
  (environment_iff .sample _ .selfBalance rfl (by decide) (by decide)).mpr (by decide)

def Frame.unlimited : Frame := { Frame.sample [0x31] 1000 with
    stack := [1], world := .start (.holding [(1, .holding (2 ^ 256 - 1) [])]) }

/-- **`BALANCE` of the sender fails in a gas estimation.** -/
theorem unlimited_balance_throws :
    EnvironmentOp.value .sample Frame.unlimited (.balance 1) = 2 ^ 256 - 1
      ∧ opBalance Frame.unlimited = .err (.vm .argumentOutOfRange) { Frame.unlimited with stack := [] } := by
  constructor <;> rfl

end GrapeDag
