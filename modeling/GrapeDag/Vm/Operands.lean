/-
256-BIT OFFSETS AND LENGTHS.

`MLOAD`, `MSTORE`, `MSTORE8`, `SHA3`, `CALLDATALOAD`, `CALLDATACOPY` and `CODECOPY`. The gas
handler takes the offset as a `long` and the length as an `int`; the instruction takes both as
`int`s, the copies with a source offset that saturates.

Main result: `operands_iff`.
-/
import GrapeDag.Vm.GasFees
import GrapeDag.Vm.MemoryRange

namespace GrapeDag

open Imperative GrapeDag.Frame Prog GasTable Area List

/-! ## Payment for a range -/

/-- A sound configuration that has the prices of memory, copies and hashes. -/
structure ChainConfig.MemoryPriced (cfg : ChainConfig) : Prop where
  sound : cfg.Sound
  priced : ∀ item ∈ [PriceItem.memory, .quadCoeffDiv, .sha3Word, .copy],
    ∃ p, cfg.gasPriceMap item = some p

lemma configAt_memoryPriced (timestamp : Int) : (configAt timestamp).MemoryPriced := by
  refine ⟨configAt_sound timestamp, ?_⟩
  simp only [forall_mem_cons, not_mem_nil, IsEmpty.forall_iff, implies_true, and_true]
  unfold configAt
  split <;> exact ⟨⟨_, rfl⟩, ⟨_, rfl⟩, ⟨_, rfl⟩, ⟨_, rfl⟩⟩

/-- Nothing but the gas and the count of memory words differs, the count within its bounds. -/
structure Settled (f f' : Frame) : Prop where
  stack : f'.stack = f.stack
  memory : f'.memory = f.memory
  pc : f'.pc = f.pc
  world : f'.world = f.world
  words : f'.memoryWordCount ≤ max f.memoryWordCount 67108863
  contract : SameContract f f'

instance : IsPreorder Frame Settled where
  refl f := ⟨rfl, rfl, rfl, rfl, le_max_left _ _, .refl f⟩
  trans _ _ _ h1 h2 := ⟨h2.stack.trans h1.stack, h2.memory.trans h1.memory, h2.pc.trans h1.pc,
    h2.world.trans h1.world, h2.words.trans (max_le h1.words (le_max_right _ _)),
    h1.contract.trans h2.contract⟩

/-- Nothing but the count of memory words differs. -/
structure Counts (f f' : Frame) : Prop extends Settled f f' where
  gas : f'.contract.gas = f.contract.gas

lemma Counts.refl (f : Frame) : Counts f f := ⟨refl_of Settled f, rfl⟩

variable {f f' : Frame}

/-- The end of a range, as the gas handler computes it, is an `int`; an empty range has none. -/
def Narrows (offset length : Int) : Prop := length = 0 ∨ IsInt (wrap64 (offset + length))

/-- A fee within `2 ^ 54`, to which prices can be added. -/
abbrev ModerateFee (fee : Int) : Prop := -18014398509481984 ≤ fee ∧ fee ≤ 18014398509481984

lemma SmallFee.moderate {fee : Int} (h : SmallFee fee) : ModerateFee fee := by
  omega

lemma SmallFee.isLong {fee : Int} (h : SmallFee fee) : IsLong fee := by
  omega

lemma wordFee_range {p : Int} (hp : 0 ≤ p ∧ p ≤ 1000000) (length : Int) :
    -67108864000000 ≤ multiplyFull p (toWordSize length) ∧
      multiplyFull p (toWordSize length) ≤ 67108864000000 := by
  have hmax := toWordSize_le length
  have hmin : -67108864 ≤ toWordSize length := by
    obtain ⟨hlow, _⟩ := isInt_wrap32 (length + (32 - 1))
    show -67108864 ≤ (wrap32 (length + (32 - 1))).tdiv 32
    rw [Int.tdiv_eq_ediv]
    split
    · omega
    · show _ ≤ _ + 1
      omega
  unfold multiplyFull
  constructor <;> nlinarith

variable {f : Frame}

section Payment

variable {m : Machine} (hcfg : m.cfg.MemoryPriced)
include hcfg

lemma price_eq (item : PriceItem) (hitem : item ∈ [PriceItem.memory, .quadCoeffDiv, .sha3Word, .copy]) :
    ∃ p, price m item = .ok p ∧ 0 ≤ p ∧ p ≤ 1000000 := by
  obtain ⟨p, hp⟩ := hcfg.priced item hitem
  have hlook : price m item = .ok p := by
    show m.cfg.lookForGasPrice item = .ok p
    unfold ChainConfig.lookForGasPrice
    rw [hp]
    rfl
  exact ⟨p, hlook, hcfg.sound.lookForGasPrice hlook⟩

lemma quad_pos {quad : Int} (h : price m .quadCoeffDiv = .ok quad) : 0 < quad := by
  obtain ⟨p, hp⟩ := hcfg.priced .quadCoeffDiv (by decide)
  have hlook : m.cfg.lookForGasPrice .quadCoeffDiv = .ok quad := h
  unfold ChainConfig.lookForGasPrice at hlook
  rw [hp] at hlook
  obtain rfl := Except.ok.inj hlook
  exact hcfg.sound.quadCoeffDiv_pos p hp

lemma wp_subMemUsage (offset length : Int) (hf : f.Counted) : wp (subMemUsage m offset length)
      (fun fee f' => SmallFee fee ∧ Counts f f' ∧ Narrows offset length)
      (fun e f' => e = .arithmetic ∧ Counts f f' ∧ ¬ Narrows offset length) f := by
  have hsmall := (yields_subMemUsage hcfg.sound offset length).wp f hf
  have hrest : wp (subMemUsage m offset length) (fun _ f' => Counts f f' ∧ Narrows offset length)
      (fun e f' => e = .arithmetic ∧ Counts f f' ∧ ¬ Narrows offset length) f := by
    unfold subMemUsage
    refine .ite (fun hzero => .pure ⟨Counts.refl f, .inl hzero⟩) fun hne => ?_
    rw [wp_bind, wp_liftM]
    unfold toWordSizeLong toIntExact
    by_cases hint : IsInt (wrap64 (offset + length))
    · rw [if_pos hint]
      have hnarrow : Narrows offset length := .inr hint
      refine ⟨fun n hn => ?_, nofun⟩
      have hmax : n ≤ 67108863 := Except.ok.inj hn ▸ toWordSize_le _
      rw [wp_bind, wp_gets]
      refine .ite (fun _ => .pure ⟨Counts.refl f, hnarrow⟩) fun hgrow => ?_
      -- every step of the computation has a result
      obtain ⟨fee, hfee, hfeeRange⟩ := price_eq hcfg .memory (by decide)
      obtain ⟨quad, hquad, hquadRange⟩ := price_eq hcfg .quadCoeffDiv (by decide)
      have hdiv : divide (multiplyFull n n) quad = .ok ((multiplyFull n n).tdiv quad) :=
        divide_eq_ok.mpr ⟨(quad_pos hcfg hquad).ne', rfl⟩
      have hn0 : 0 ≤ n := le_of_lt (lt_of_le_of_lt hf.words (not_le.mp hgrow))
      have hcost := (smallFee_memoryCost hn0 hmax hfeeRange hquadRange.1).isLong
      have hadd := addExact_of_isLong hcost
      rw [wp_bind, wp_liftM_of_ok hfee, wp_bind, wp_liftM_of_ok hquad, wp_bind,
        wp_liftM_of_ok hdiv, wp_bind, wp_liftM_of_ok hadd, wp_bind, wp_gets, wp_bind, wp_modify,
        wp_pure]
      exact ⟨⟨⟨rfl, rfl, rfl, rfl, hmax.trans (le_max_right _ _), rfl⟩, rfl⟩, hnarrow⟩
    · rw [if_neg hint]
      refine ⟨nofun, fun e he => ?_⟩
      obtain rfl := Except.error.inj he
      exact ⟨rfl, Counts.refl f, fun h => h.elim hne hint⟩
  exact (hsmall.and hrest).mono (fun _ _ h => ⟨h.1.1, h.2⟩) (fun _ _ h => h.2)

end Payment

/-! ## Accesses -/

/-- The instructions that take offsets and lengths, with their operands. -/
inductive Access where
  | mload (offset : Word)
  | mstore (offset value : Word)
  | mstore8 (offset value : Word)
  | sha3 (offset length : Word)
  | callDataLoad (offset : Word)
  | callDataCopy (memOffset dataOffset length : Word)
  | codeCopy (memOffset codeOffset length : Word)

namespace Access

/-- Its instruction. -/
def op : Access → Op
  | mload _ => .mload
  | mstore _ _ => .mstore
  | mstore8 _ _ => .mstore8
  | sha3 _ _ => .sha3
  | callDataLoad _ => .callDataLoad
  | callDataCopy _ _ _ => .callDataCopy
  | codeCopy _ _ _ => .codeCopy

/-- What it takes from the stack. -/
def operands : Access → List Word
  | mload o => [o]
  | mstore o v | mstore8 o v => [o, v]
  | sha3 o l => [o, l]
  | callDataLoad o => [o]
  | callDataCopy mo d l | codeCopy mo d l => [mo, d, l]

/-- The offset and length the gas handler charges for; `CALLDATALOAD` has none. -/
def area : Access → Int × Int
  | mload o | mstore o _ => (o.longValue, 32)
  | mstore8 o _ => (o.longValue, 1)
  | sha3 o l => (o.longValue, l.intValue)
  | callDataLoad _ => (0, 0)
  | callDataCopy mo _ l | codeCopy mo _ l => (mo.longValue, l.intValue)

/-- The end of the range is an `int`. -/
def Narrows (a : Access) : Prop := GrapeDag.Narrows a.area.1 a.area.2

end Access

/-- A handler that asks for a moderate fee if the range narrows, and throws if not. -/
abbrev ChargesIf (narrows : Prop) (f : Frame) (handler : Java Frame Int) : Prop :=
  wp handler (fun fee f' => ModerateFee fee ∧ Counts f f' ∧ narrows)
    (fun e f' => e = .arithmetic ∧ Counts f f' ∧ ¬ narrows) f

variable {a : Access} {rest : List Word}

section Handlers

variable {m : Machine} (hcfg : m.cfg.MemoryPriced) {f : Frame} (hf : f.Counted)
include hcfg hf

lemma chargesIf_getMemUsageFee (offset length : Int) :
    ChargesIf (Narrows offset length) f (getMemUsageFee m offset length) := by
  refine wp_bind.mpr ((wp_subMemUsage hcfg offset length hf).post ?_)
  intro fee f1 h1
  obtain ⟨hsmall, hsettled, hnarrows⟩ := h1
  refine .ite (fun _ => ?_) fun _ => .pure ⟨hsmall.moderate, hsettled, hnarrows⟩
  obtain ⟨p, hp, hprice⟩ := price_eq hcfg .copy (by decide)
  have hword := wordFee_range hprice length
  rw [wp_bind, wp_liftM_of_ok hp, wp_liftM_of_ok (addExact_of_isLong (by omega))]
  exact ⟨by omega, hsettled, hnarrows⟩

variable {handler : Java Frame Int}

lemma chargesIf_accessHandler
    (hhandler : gasHandler m a.op = some handler) (hstack : f.stack = a.operands ++ rest) :
    ChargesIf a.Narrows f handler := by
  have hword : ∀ (o : Word) (size : Int) (s : List Word), f.stack = o :: s →
      ChargesIf (Narrows o.longValue size) f (wordAccess m size) := by
    intro o size s hs
    unfold wordAccess
    refine .of_apply_eq (bind_of_ok (peek_apply (by rw [hs]; simp))) ?_
    rw [hs]
    exact (wp_subMemUsage hcfg _ _ hf).post (fun _ _ h => ⟨h.1.moderate, h.2⟩)
  have hcopy : ∀ mo d l : Word, f.stack = mo :: d :: l :: rest →
      ChargesIf (Narrows mo.longValue l.intValue) f (makeMemCopyHandler m 3 0 2) := by
    intro mo d l hs
    unfold makeMemCopyHandler
    refine .of_apply_eq (bind_of_ok (peek_apply (by rw [hs]; simp))) ?_
    rw [hs]
    exact chargesIf_getMemUsageFee hcfg hf _ _
  unfold Access.Narrows
  cases a with
  | mload o | mstore o v => cases hhandler; dsimp only [Access.area]; exact hword o 32 _ hstack
  | mstore8 o v => cases hhandler; dsimp only [Access.area]; exact hword o 1 _ hstack
  | callDataLoad o => cases hhandler
  | callDataCopy mo d l | codeCopy mo d l =>
    cases hhandler; dsimp only [Access.area]; exact hcopy mo d l hstack
  | sha3 o l =>
    cases hhandler
    dsimp only [Access.area]
    refine .of_apply_eq (bind_of_ok (peek_apply (by rw [hstack]; simp [Access.operands]))) ?_
    rw [hstack]
    obtain ⟨p, hp, hprice⟩ := price_eq hcfg .sha3Word (by decide)
    rw [wp_bind, wp_liftM_of_ok hp]
    refine wp_bind.mpr ((wp_subMemUsage hcfg _ _ hf).post ?_)
    intro fee f1 h1
    obtain ⟨hsmall, hsettled, hnarrows⟩ := h1
    have hwords := wordFee_range hprice l.intValue
    refine .pure ⟨?_, hsettled, hnarrows⟩
    show ModerateFee (wrap64 (fee + multiplyFull p (toWordSize l.intValue)))
    rw [wrap64_of_isLong (by omega)]
    omega

omit hcfg hf in
lemma wp_dynamicFee_moderate {cost : Int} {narrows : Prop} (hcost : 0 ≤ cost ∧ cost ≤ 1000000)
    (h : ChargesIf narrows f handler) :
    wp (dynamicFee handler cost) (fun r f' => Counts f f' ∧
      ((∃ fee, r = .ok fee ∧ ModerateFee fee ∧ narrows) ∨ (r = .error .outOfGas ∧ ¬ narrows)))
      (fun _ _ => False) f := by
  unfold dynamicFee
  rw [wp_catching, wp_bind]
  refine h.mono ?_ ?_
  · rintro fee f' ⟨hfee, hcounts, hnarrows⟩
    rw [wp_bind, wp_liftM_of_ok (addExact_of_isLong (by omega)), wp_pure]
    exact ⟨hcounts, .inl ⟨fee, rfl, hfee, hnarrows⟩⟩
  · rintro e f' ⟨rfl, hcounts, hbeyond⟩
    exact .pure ⟨hcounts, .inr ⟨rfl, hbeyond⟩⟩

/-- Payment for an access. It is paid for, which needs an `int` as the end of its range, or out
of gas; with all the gas a `long` can hold, the end decides. -/
theorem wp_charge_access (hstack : f.stack = a.operands ++ rest) : wp (charge m a.op)
      (fun r f' => Settled f f' ∧ ((r = none ∧ a.Narrows) ∨ r = some .outOfGas) ∧
        (f.contract.gas = longMax → a.Narrows → r = none)) (fun _ _ => False) f := by
  have hstatic := hcfg.sound.staticFee_nonneg a.op
  unfold charge
  rw [wp_bind, wp_useGas]
  refine ⟨fun hless => ?_, fun henough => ?_⟩
  · refine .pure ⟨refl_of Settled f, .inr rfl, fun hmax _ => ?_⟩
    rw [hmax] at hless
    unfold longMax at hless
    omega
  · generalize hf1 : ({ f with contract := { f.contract with
      gas := wrap64 (f.contract.gas - m.cfg.staticFee a.op) } } : Frame) = f1
    have hsettled1 : Settled f f1 := by
      subst hf1
      exact ⟨rfl, rfl, rfl, rfl, le_max_left _ _, rfl⟩
    cases hhandler : gasHandler m a.op with
    | none =>
      have hnarrows : a.Narrows := by
        cases a with
        | callDataLoad o => exact .inl rfl
        | _ => cases hhandler
      exact .pure ⟨hsettled1, .inl ⟨rfl, hnarrows⟩, fun _ _ => rfl⟩
    | some handler =>
      have hcounted : f1.Counted := by subst hf1; exact ⟨hf.words, hf.cost⟩
      have hfee := wp_dynamicFee_moderate hstatic
        (chargesIf_accessHandler hcfg hcounted hhandler (hsettled1.stack.trans hstack))
      refine wp_bind.mpr (hfee.post ?_)
      rintro r f2 ⟨hcounts, h2⟩
      have hsettled2 : Settled f f2 := trans_of Settled hsettled1 hcounts.toSettled
      rcases h2 with ⟨fee, rfl, hfeeRange, hnarrows⟩ | ⟨rfl, hbeyond⟩
      · rw [wp_bind, wp_useGas]
        refine ⟨fun hless => .pure ⟨hsettled2, .inr rfl, fun hmax _ => ?_⟩,
          fun _ => .pure ⟨?_, .inl ⟨rfl, hnarrows⟩, fun _ _ => rfl⟩⟩
        · -- what is left of the largest `long` pays for any moderate fee
          have hgas : f1.contract.gas = wrap64 (f.contract.gas - m.cfg.staticFee a.op) := by
            subst hf1; rfl
          rw [hcounts.gas, hgas, hmax] at hless
          unfold longMax at hless
          rw [wrap64_of_isLong (by omega)] at hless
          omega
        · exact ⟨hsettled2.stack, hsettled2.memory, hsettled2.pc, hsettled2.world,
            hsettled2.words, hsettled2.contract.trans rfl⟩
      · exact .pure ⟨hsettled2, .inr rfl, fun _ hnarrows => absurd hnarrows hbeyond⟩

end Handlers

/-! ## What an access means -/

/-- A range of some data, which continues with zeros. -/
def dataAt (data : Bytes) (offset length : Nat) : Bytes :=
  Area.window offset length (Area.extend 0 (offset + length) data)

/-- The memory after a write. -/
def written (store : Bytes) (offset : Nat) (data : Bytes) : Bytes :=
  if data = [] then store else Area.overwrite offset data (grown store (offset + data.length))

lemma length_dataAt (data : Bytes) (offset length : Nat) : (dataAt data offset length).length = length := by
  unfold dataAt
  rw [length_window_of_le]
  rw [length_extend]
  omega

variable {data : Bytes}

lemma le_length_written (store : Bytes) (offset : Nat) (h : data ≠ []) :
    offset + data.length ≤ (written store offset data).length := by
  have hcover := le_length_grown store (offset + data.length)
  unfold written
  rw [if_neg h, length_overwrite hcover]
  exact hcover

namespace Access

/-- The meaning of an access: the stack and the memory it leaves, by the full values of its
operands. -/
def denoted (m : Machine) (f : Frame) (rest : List Word) : Access → List Word × Bytes
  | mload o =>
      (.ofBytes (Area.window o.toNat 32 (grown f.memory (o.toNat + 32))) :: rest,
        grown f.memory (o.toNat + 32))
  | mstore o v => (rest, written f.memory o.toNat v.bytes)
  | mstore8 o v => (rest, written f.memory o.toNat [UInt8.ofNat v.toNat])
  | sha3 o l =>
      if l = 0 then (.ofBytes keccak256Null :: rest, f.memory)
      else
        (.ofBytes (m.crypto.keccak256
          (Area.window o.toNat l.toNat (grown f.memory (o.toNat + l.toNat)))) :: rest,
          grown f.memory (o.toNat + l.toNat))
  | callDataLoad o =>
      (.ofBytes (dataAt (f.contract.input.getD []) o.toNat 32) :: rest, f.memory)
  | callDataCopy mo d l =>
      (rest, written f.memory mo.toNat (dataAt (f.contract.input.getD []) d.toNat l.toNat))
  | codeCopy mo d l => (rest, written f.memory mo.toNat (dataAt f.contract.code d.toNat l.toNat))

/-- The frame has done what the access means, and nothing else. -/
structure Performed (m : Machine) (a : Access) (f : Frame) (rest : List Word) (f' : Frame) :
    Prop where
  stack : f'.stack = (a.denoted m f rest).1
  memory : f'.memory = (a.denoted m f rest).2
  pc : f'.pc = f.pc
  world : f'.world = f.world
  contract : SameContract f f'

/-- An access is performed, or the frame is out of gas. -/
def Succeeds (m : Machine) (a : Access) (f : Frame) (rest : List Word)
    (o : Outcome JavaException Frame FnResult) : Prop :=
  (∃ f', o = .ok ⟨.outOfGas, none⟩ f') ∨ ∃ f', o = .ok ⟨.success, none⟩ f' ∧ a.Performed m f rest f'

end Access

/-- The sizes of the call data, which may be `null`, and of the code: Java arrays both. -/
structure DataSizes where
  input : Option Nat
  code : Nat
  input_le : ∀ n, input = some n → n ≤ 2147483647
  code_le : code ≤ 2147483647

/-- A frame with call data and code of these sizes, and stack and memory within their limits. -/
structure Frame.Sized (sizes : DataSizes) (f : Frame) : Prop where
  stack : f.stack.length ≤ 1024
  memory : f.memory.length ≤ 2147483647
  input : f.contract.input.map List.length = sizes.input
  code : f.contract.code.length = sizes.code

/-- With these operands and sizes, the instruction is right in every state. -/
def Access.Right (m : Machine) (calls : Calls) (opcode : UInt8) (sizes : DataSizes) (a : Access) :
    Prop :=
  ∀ (f : Frame) (rest : List Word), f.Sized sizes → f.Counted → f.stack = a.operands ++ rest →
    a.Succeeds m f rest (runStep m calls opcode f)

/-- A copy out of `size` bytes of data whose range of the memory and whose source both fit. -/
def CopyFits (memOffset dataOffset length : Word) (size : Nat) : Prop :=
  length = 0 ∨ (memOffset.toNat + length.toNat ≤ maxEnd ∧
    min dataOffset.toNat size + length.toNat ≤ 2147483647)

/-- The ranges that are accessed exactly. -/
def Access.InRange (sizes : DataSizes) : Access → Prop
  | mload o | mstore o _ => o.toNat + 32 ≤ maxEnd
  | mstore8 o _ => o.toNat + 1 ≤ maxEnd
  | sha3 o l => l = 0 ∨ o.toNat + l.toNat ≤ maxEnd
  | callDataLoad o => ∃ n, sizes.input = some n ∧ 0 ≤ o.intValue ∧
      min o.intValue n + 32 ≤ 2147483647 ∧ (o.toNat ≤ 2147483647 ∨ n ≤ o.intValue)
  | callDataCopy mo d l => ∃ n, sizes.input = some n ∧ CopyFits mo d l n
  | codeCopy mo d l => CopyFits mo d l sizes.code

/-! ## Ranges that fit -/

lemma pushBytes_apply {bs : Bytes} (hbs : bs.length ≤ 32) (hstack : f.stack.length < 1024) :
    pushBytes bs f = .ok () { f with stack := .ofBytes bs :: f.stack } := by
  unfold pushBytes
  rw [if_neg (by omega), push_apply hstack]

lemma length_behind (used : List Word) {w : Word}
    (hs : f.stack = w :: (used ++ rest)) (hstack : f.stack.length ≤ 1024) : rest.length < 1024 := by
  rw [hs, length_cons, length_append] at hstack
  omega

lemma intValue_of_le {w : Word} (h : w.toNat ≤ 2147483647) : w.intValue = w.toNat :=
  wrap32_of_isInt (by omega)

lemma intValue_of_fits {w : Word} {n : Nat} (h : w.toNat + n ≤ maxEnd) : w.intValue = w.toNat :=
  intValue_of_le (by unfold maxEnd at h; omega)

lemma slicePadded_saturated (hdata : data.length ≤ 2147483647) {d : Word}
    {length : Nat} (h : min d.toNat data.length + length ≤ 2147483647) :
    slicePadded (some data) d.intValueSafe length = .ok (dataAt data d.toNat length) := by
  unfold Word.intValueSafe
  by_cases hint : IsInt d.toNat
  · rw [if_pos hint]
    exact slicePadded_eq hdata h
  have hlarge : 2147483647 < d.toNat := by
    omega
  rw [if_neg hint]
  show slicePadded (some data) (2147483647 : Nat) length = _
  rw [slicePadded_eq hdata (by omega)]
  unfold dataAt
  rw [window_extend_of_ge hdata, window_extend_of_ge (by omega)]

variable {source : Frame → Option Bytes} {mo l : Word}

section InRange

variable {f : Frame} {rest : List Word} (hmem : f.memory.length ≤ 2147483647)
include hmem

variable {o : Word} {data : Bytes}

lemma opMLoad_apply (hs : f.stack = o :: rest) (hstack : f.stack.length ≤ 1024)
    (hfits : o.toNat + 32 ≤ maxEnd) :
    opMLoad f = .ok ⟨.success, none⟩ { f with
      stack := .ofBytes (window o.toNat 32 (grown f.memory (o.toNat + 32))) :: rest
      memory := grown f.memory (o.toNat + 32) } := by
  have hrest := length_behind [] hs hstack
  unfold opMLoad
  rw [pop_bind hs, intValue_of_fits hfits]
  show (memoryRead o.toNat (32 : Nat) >>= _) _ = _
  rw [bind_of_ok (memoryRead_apply (f := { f with stack := rest }) (by decide) hfits hmem),
    bind_of_ok (pushBytes_apply (by rw [length_window]; omega) hrest)]
  rfl

lemma memoryWrite_written {offset : Nat} (hfits : offset + data.length ≤ maxEnd) :
    memoryWrite offset data.length (some data) f
      = .ok () { f with memory := written f.memory offset data } := by
  unfold written
  by_cases hempty : data = []
  · rw [hempty]
    rfl
  · have hne : data.length ≠ 0 := fun h => hempty (eq_nil_of_length_eq_zero h)
    rw [if_neg hempty, memoryWrite_apply hne hfits hmem (Nat.le_refl _), take_length]

/-- `MSTORE` and `MSTORE8`. -/
lemma storeOp_apply {n : Nat} {data : Word → Bytes} (hdata : ∀ v, (data v).length = n) {v : Word}
    (hs : f.stack = o :: v :: rest) (hfits : o.toNat + n ≤ maxEnd) :
    (do let o ← pop; let v ← pop; memoryWrite o.intValue n (some (data v)); success) f
      = .ok ⟨.success, none⟩ { f with stack := rest, memory := written f.memory o.toNat (data v) } := by
  rw [pop_bind hs, pop_bind rfl, intValue_of_fits hfits]
  rw [← hdata v] at hfits ⊢
  rw [bind_of_ok (memoryWrite_written (f := { f with stack := rest }) hmem hfits)]
  rfl

lemma copyOp_apply {d : Word}
    (hs : f.stack = mo :: d :: l :: rest) (hsource : source { f with stack := rest } = some data)
    (hdata : data.length ≤ 2147483647) (hfits : CopyFits mo d l data.length) :
    copyOp (.gets source) f = .ok ⟨.success, none⟩ { f with
      stack := rest, memory := written f.memory mo.toNat (dataAt data d.toNat l.toNat) } := by
  have hlength := length_dataAt data d.toNat l.toNat
  have hl : l.intValue = l.toNat := by
    rcases hfits with hzero | ⟨hend, _⟩
    · rw [hzero]
      decide
    · exact intValue_of_fits (n := mo.toNat) (by omega)
  have hslice := @slicePadded_saturated data hdata d l.toNat (by
    rcases hfits with hzero | ⟨_, hsource⟩
    · have hl0 : l.toNat = 0 := by rw [hzero]; rfl
      omega
    · exact hsource)
  generalize dataAt data d.toNat l.toNat = bytes at hlength hslice ⊢
  have hwrite : memoryWrite mo.intValue l.toNat (some bytes) { f with stack := rest }
      = .ok () { f with stack := rest, memory := written f.memory mo.toNat bytes } := by
    rcases hfits with hzero | ⟨hend, _⟩
    · -- nothing is copied, wherever to
      have hnone : bytes = [] := eq_nil_of_length_eq_zero (by rw [hlength, hzero]; rfl)
      rw [hzero, hnone]
      rfl
    · rw [intValue_of_fits hend, ← hlength]
      rw [← hlength] at hend
      exact memoryWrite_written (f := { f with stack := rest }) hmem hend
  unfold copyOp
  rw [pop_bind hs, pop_bind rfl, pop_bind rfl]
  show (Prog.gets source >>= _) { f with stack := rest } = _
  rw [gets_bind, hsource, hl, liftM_bind hslice, bind_of_ok hwrite]
  rfl

lemma opSha3_apply {crypto : CryptoLib} (hhash : ∀ data, (crypto.keccak256 data).length ≤ 32)
    (hs : f.stack = o :: l :: rest) (hstack : f.stack.length ≤ 1024) (hl : l ≠ 0)
    (hfits : o.toNat + l.toNat ≤ maxEnd) :
    opSha3 crypto f = .ok ⟨.success, none⟩ { f with
      stack := .ofBytes (crypto.keccak256
        (window o.toNat l.toNat (grown f.memory (o.toNat + l.toNat)))) :: rest
      memory := grown f.memory (o.toNat + l.toNat) } := by
  have hrest := length_behind [l] hs hstack
  have hne : l.toNat ≠ 0 := fun h => hl (BitVec.eq_of_toNat_eq h)
  unfold maxEnd at hfits
  unfold opSha3
  rw [pop_bind hs, pop_bind rfl, intValue_of_le (by omega),
    intValue_of_le (by omega), if_pos (by omega),
    bind_of_ok (memoryRead_apply (f := { f with stack := rest }) hne hfits hmem),
    bind_of_ok (pushBytes_apply (hhash _) hrest)]
  rfl

omit hmem in
lemma opSha3_empty {crypto : CryptoLib} (hs : f.stack = o :: 0 :: rest)
    (hstack : f.stack.length ≤ 1024) :
    opSha3 crypto f = .ok ⟨.success, none⟩ { f with stack := .ofBytes keccak256Null :: rest } := by
  have hrest := length_behind [0] hs hstack
  unfold opSha3
  rw [pop_bind hs, pop_bind rfl, if_neg (by decide),
    bind_of_ok (pushBytes_apply (by decide) hrest)]
  rfl

omit hmem in
lemma opCallDataLoad_of_slice {bytes : Bytes} (hs : f.stack = o :: rest)
    (hstack : f.stack.length ≤ 1024) (hbytes : bytes.length ≤ 32)
    (hslice : slicePadded f.contract.input o.intValue 32 = .ok bytes) :
    opCallDataLoad f = .ok ⟨.success, none⟩ { f with stack := .ofBytes bytes :: rest } := by
  have hrest := length_behind [] hs hstack
  unfold opCallDataLoad
  rw [pop_bind hs, gets_bind, liftM_bind hslice,
    bind_of_ok (pushBytes_apply hbytes hrest)]
  rfl

omit hmem in
lemma opCallDataLoad_apply (hs : f.stack = o :: rest) (hstack : f.stack.length ≤ 1024)
    (hinput : f.contract.input = some data) (hdata : data.length ≤ 2147483647)
    (hpos : 0 ≤ o.intValue) (hend : min o.intValue data.length + 32 ≤ 2147483647)
    (hsame : o.toNat ≤ 2147483647 ∨ data.length ≤ o.intValue) :
    opCallDataLoad f
      = .ok ⟨.success, none⟩ { f with stack := .ofBytes (dataAt data o.toNat 32) :: rest } := by
  have hslice : slicePadded (some data) o.intValue 32 = .ok (dataAt data o.toNat 32) := by
    obtain ⟨k, hk⟩ := Int.eq_ofNat_of_zero_le hpos
    rw [hk] at hend hsame ⊢
    show slicePadded (some data) k (32 : Nat) = _
    rw [slicePadded_eq hdata (by omega)]
    unfold dataAt
    by_cases hsmall : o.toNat ≤ 2147483647
    · rw [intValue_of_le hsmall] at hk
      have hok : o.toNat = k := by omega
      rw [hok]
    · rw [window_extend_of_ge (by omega), window_extend_of_ge (by omega)]
  exact opCallDataLoad_of_slice hs hstack (by rw [length_dataAt]) (hinput ▸ hslice)

end InRange

variable {m : Machine} {sizes : DataSizes}

lemma Access.apply (hhash : ∀ data, (m.crypto.keccak256 data).length ≤ 32)
    (calls : Calls) (hin : a.InRange sizes)
    (hf : f.Sized sizes) (hs : f.stack = a.operands ++ rest) :
    locateFn m calls a.op f = .ok ⟨.success, none⟩ { f with
      stack := (a.denoted m f rest).1, memory := (a.denoted m f rest).2 } := by
  cases a with
  | mload o => exact opMLoad_apply hf.memory hs hf.stack hin
  | mstore o v => exact storeOp_apply hf.memory Word.length_bytes hs hin
  | mstore8 o v =>
    exact @storeOp_apply f rest hf.memory o 1 (fun v => [UInt8.ofNat v.toNat]) (fun _ => rfl) v hs hin
  | sha3 o l =>
    dsimp only [Access.denoted]
    by_cases hl : l = 0
    · subst hl
      exact opSha3_empty hs hf.stack
    · rw [if_neg hl]
      exact opSha3_apply hf.memory hhash hs hf.stack hl (hin.resolve_left hl)
  | callDataLoad o =>
    obtain ⟨n, hn, hpos, hend, hsame⟩ := hin
    obtain ⟨data, hinput, rfl⟩ := Option.map_eq_some_iff.mp (hf.input.trans hn)
    dsimp only [Access.denoted]
    rw [hinput]
    exact opCallDataLoad_apply hs hf.stack hinput (sizes.input_le _ hn) hpos hend hsame
  | callDataCopy mo d l =>
    obtain ⟨n, hn, hfits⟩ := hin
    obtain ⟨data, hinput, rfl⟩ := Option.map_eq_some_iff.mp (hf.input.trans hn)
    dsimp only [Access.denoted]
    rw [hinput]
    exact copyOp_apply hf.memory hs hinput (sizes.input_le _ hn) hfits
  | codeCopy mo d l =>
    have hfits : CopyFits mo d l f.contract.code.length := by
      rw [hf.code]
      exact hin
    exact copyOp_apply hf.memory hs rfl (hf.code ▸ sizes.code_le) hfits

lemma Access.denoted_settled (m : Machine) (a : Access) (h : Settled f f') (rest : List Word) :
    a.denoted m f' rest = a.denoted m f rest := by
  have hcontract : f'.contract.input = f.contract.input ∧ f'.contract.code = f.contract.code := by
    rw [h.contract]
    exact ⟨rfl, rfl⟩
  cases a <;> simp only [Access.denoted, h.memory, hcontract]

lemma Frame.Sized.of_settled (h : f.Sized sizes) (hsettled : Settled f f') : f'.Sized sizes where
  stack := by rw [hsettled.stack]; exact h.stack
  memory := by rw [hsettled.memory]; exact h.memory
  input := by rw [hsettled.contract]; exact h.input
  code := by rw [hsettled.contract]; exact h.code

section Right

variable {m : Machine} (hcfg : m.cfg.MemoryPriced) {calls : Calls} {opcode : UInt8}
  {sizes : DataSizes} {a : Access} (hop : m.cfg.locateOpCode opcode = some a.op)
include hcfg hop

lemma Access.right_of_inRange (hhash : ∀ data, (m.crypto.keccak256 data).length ≤ 32)
    (h : a.InRange sizes ∨ ¬ a.Narrows) : a.Right m calls opcode sizes := by
  intro f rest hf hcounted hs
  have hcharge := wp_charge_access hcfg hcounted hs
  unfold runStep
  rw [hop]
  show a.Succeeds m f rest ((charge m a.op >>= _) f)
  cases hrun : charge m a.op f with
  | err e f1 => exact (hcharge.of_err hrun).elim
  | diverge => exact absurd hrun ((ends_charge m a.op).ends.ends f)
  | ok r f1 =>
    obtain ⟨hsettled, hr, -⟩ := hcharge.of_ok hrun
    rw [bind_of_ok hrun]
    rcases hr with ⟨rfl, hnarrows⟩ | rfl
    · have hin : a.InRange sizes := h.resolve_right (not_not.mpr hnarrows)
      have happly := Access.apply hhash calls hin (hf.of_settled hsettled) (hsettled.stack.trans hs)
      rw [a.denoted_settled m hsettled rest] at happly
      exact .inr ⟨_, happly, rfl, rfl, hsettled.pc, hsettled.world, hsettled.contract⟩
    · exact .inl ⟨f1, rfl⟩

end Right

/-! ## Ranges that do not fit -/

namespace Access

/-- The end of the range of the memory that is meant. -/
def stop : Access → Nat
  | mload o | mstore o _ => o.toNat + 32
  | mstore8 o _ => o.toNat + 1
  | sha3 o l => if l = 0 then 0 else o.toNat + l.toNat
  | callDataLoad _ => 0
  | callDataCopy mo _ l | codeCopy mo _ l => if l = 0 then 0 else mo.toNat + l.toNat

lemma stop_le_denoted (m : Machine) (f : Frame) (rest : List Word) (a : Access) :
    a.stop ≤ (a.denoted m f rest).2.length := by
  have hcopy : ∀ (store data : Bytes) (mo d l : Word), (if l = 0 then 0 else mo.toNat + l.toNat)
        ≤ (written store mo.toNat (dataAt data d.toNat l.toNat)).length := by
    intro store data mo d l
    split
    · exact Nat.zero_le _
    rename_i hl
    have hlength := length_dataAt data d.toNat l.toNat
    have hne : dataAt data d.toNat l.toNat ≠ [] := by
      intro hnil
      rw [hnil] at hlength
      exact hl (BitVec.eq_of_toNat_eq hlength.symm)
    have hcover := le_length_written store mo.toNat hne
    rwa [hlength] at hcover
  cases a with
  | mload o => exact le_length_grown _ _
  | mstore o v =>
    have hne : v.bytes ≠ [] := ne_nil_of_length_eq_add_one (Word.length_bytes v)
    have hcover := le_length_written f.memory o.toNat hne
    rwa [Word.length_bytes] at hcover
  | mstore8 o v =>
    exact le_length_written f.memory o.toNat (cons_ne_nil (UInt8.ofNat v.toNat) [])
  | sha3 o l =>
    dsimp only [stop, denoted]
    split
    · exact Nat.zero_le _
    · exact le_length_grown _ _
  | callDataLoad o => exact Nat.zero_le _
  | callDataCopy mo d l | codeCopy mo d l => exact hcopy _ _ mo d l

lemma wp_success (m : Machine) (calls : Calls) (a : Access) (f : Frame) :
    wpRet (locateFn m calls a.op) (fun r _ => r = ⟨.success, none⟩) f := by
  let ok : FnResult → Frame → Prop := fun r _ => r = ⟨.success, none⟩
  have hafter : ∀ {α : Type} {p : Java Frame α} {k : α → Java Frame FnResult} {g : Frame},
      (∀ x g', wpRet (k x) ok g') → wpRet (p >>= k) ok g :=
    fun h => wp_bind.mpr (.of_forall h (fun _ _ => trivial))
  have hsuccess : ∀ g, wpRet success ok g := fun _ => .pure rfl
  have hcopy : ∀ source g, wpRet (copyOp source) ok g := fun _ _ =>
    hafter fun _ _ => hafter fun _ _ => hafter fun _ _ => hafter fun _ _ => hafter fun _ _ =>
      hafter fun _ _ => hsuccess _
  cases a with
  | mload o | mstore o v | mstore8 o v =>
    exact hafter fun _ _ => hafter fun _ _ => hafter fun _ _ => hsuccess _
  | sha3 o l =>
    refine hafter fun _ _ => hafter fun _ _ => wp_ite.mpr ⟨fun _ => ?_, fun _ => ?_⟩
    · exact hafter fun _ _ => hafter fun _ _ => hsuccess _
    · exact hafter fun _ _ => hsuccess _
  | callDataLoad o =>
    exact hafter fun _ _ => hafter fun _ _ => hafter fun _ _ => hafter fun _ _ => hsuccess _
  | callDataCopy mo d l | codeCopy mo d l => exact hcopy _ f

lemma wp_memory_le {calls : Calls} (hmem : f.memory = []) (hwords : 0 ≤ f.memoryWordCount)
    (hmax : f.memoryWordCount ≤ 67108863)
    (hpaid : AreasPaid f.memoryWordCount (chargedAreas f.stack a.op)) :
    wpRet (locateFn m calls a.op) (fun _ f' => f'.memory.length ≤ maxEnd) f := by
  have hf : PaidFor f.memoryWordCount f :=
    ⟨rfl, by rw [hmem]; exact Nat.zero_le _, by rw [hmem]; simpa using hwords⟩
  refine (paysFrom_charged hf (by cases a <;> nofun) (by cases a <;> nofun) hpaid).returned (fun _ f' h => ?_)
  have hlength := h.paid
  unfold maxEnd
  omega

end Access

section Failures

variable {f : Frame} {rest : List Word}

variable {e : JavaException}

lemma copyOp_fails {d : Word} (hs : f.stack = mo :: d :: l :: rest)
    (hslice : slicePadded (source { f with stack := rest }) d.intValueSafe l.intValue = .error e) :
    ∃ f', copyOp (.gets source) f = .err e f' := by
  refine ⟨{ f with stack := rest }, ?_⟩
  unfold copyOp
  rw [pop_bind hs, pop_bind rfl, pop_bind rfl]
  show (Prog.gets source >>= _) { f with stack := rest } = _
  rw [gets_bind, bind_of_err (liftM_of_error hslice _)]

lemma opCallDataLoad_fails {o : Word} (hs : f.stack = o :: rest)
    (hslice : slicePadded f.contract.input o.intValue 32 = .error e) :
    ∃ f', opCallDataLoad f = .err e f' := by
  refine ⟨{ f with stack := rest }, ?_⟩
  unfold opCallDataLoad
  rw [pop_bind hs, gets_bind, bind_of_err (liftM_of_error hslice _)]

lemma slicePadded_beyond (hdata : data.length ≤ 2147483647) {d : Word}
    (hsmall : l.toNat ≤ maxEnd) (h : 2147483647 < min d.toNat data.length + l.toNat) :
    ∃ e, slicePadded (some data) d.intValueSafe l.intValue = .error e := by
  unfold maxEnd at hsmall
  have hsafe : d.intValueSafe = (min d.toNat 2147483647 : Nat) := by
    unfold Word.intValueSafe
    by_cases hint : IsInt d.toNat
    · rw [if_pos hint]
      omega
    · rw [if_neg hint]
      show (2147483647 : Int) = _
      omega
  rw [intValue_of_le (by omega)]
  refine slicePadded_fails hdata (by omega) (by omega) (by omega) (.inr ?_)
  omega

end Failures

lemma ofBytes_dataAt_ne {n k o : Nat} (hk : k < n) (ho : n ≤ o) :
    Word.ofBytes (dataAt (replicate n 1) k 32) ≠ Word.ofBytes (dataAt (replicate n 1) o 32) := by
  have hzero : bytesToNat (dataAt (replicate n 1) o 32) = 0 := by
    unfold dataAt
    rw [window_extend_of_ge (by rw [length_replicate]; exact ho)]
    decide
  have hlength := length_dataAt (replicate n 1) k 32
  have hlt : bytesToNat (dataAt (replicate n 1) k 32) < 2 ^ 256 := by
    have := bytesToNat_lt (dataAt (replicate n 1) k 32)
    rwa [hlength] at this
  have hpos : 0 < bytesToNat (dataAt (replicate n 1) k 32) := by
    obtain ⟨j, hj⟩ : ∃ j, min 32 (n - k) = j + 1 := ⟨min 32 (n - k) - 1, by omega⟩
    unfold dataAt
    rw [window_extend]
    unfold window
    rw [drop_replicate, take_replicate, hj, replicate_succ, cons_append, bytesToNat_cons]
    exact Nat.add_pos_left (Nat.mul_pos (by decide) (Nat.pow_pos (by decide))) _
  intro heq
  have hnat := congrArg BitVec.toNat heq
  unfold Word.ofBytes at hnat
  rw [BitVec.toNat_ofNat, BitVec.toNat_ofNat] at hnat
  omega

namespace Access

/-- A frame about to make the access, with ones as call data and all the gas there is. -/
def facing (sizes : DataSizes) (a : Access) : Frame :=
  { Frame.start { Contract.new (.account 1 0) 500 0 longMax (List.replicate sizes.code 0) with
      input := sizes.input.map fun n => List.replicate n 1 } (.sampleWith 0 []) with
    stack := a.operands }

lemma facing_sized (sizes : DataSizes) (a : Access) : (a.facing sizes).Sized sizes where
  stack := by
    show a.operands.length ≤ 1024
    cases a <;> simp [operands]
  memory := Nat.zero_le _
  input := by
    show (sizes.input.map fun n => replicate n 1).map length = sizes.input
    cases sizes.input with
    | none => rfl
    | some n => exact congrArg some (length_replicate ..)
  code := length_replicate ..

lemma copyOp_ne_ok {d : Word} {f' : Frame} {r : FnResult}
    {size : Option Nat} (hs : f.stack = [mo, d, l])
    (hsource : (source { f with stack := [] }).map length = size)
    (hsize : ∀ n, size = some n → n ≤ 2147483647) (hstop : ¬ maxEnd < (codeCopy mo d l).stop)
    (hout : ¬ ∃ n, size = some n ∧ CopyFits mo d l n) : copyOp (.gets source) f ≠ .ok r f' := by
  have hslice : ∃ e, slicePadded (source { f with stack := [] }) d.intValueSafe l.intValue = .error e := by
    cases hdata : source { f with stack := [] } with
    | none => exact ⟨_, rfl⟩
    | some data =>
      rw [hdata] at hsource
      have hfits : ¬ CopyFits mo d l data.length := fun h => hout ⟨_, hsource.symm, h⟩
      unfold CopyFits at hfits
      rw [not_or] at hfits
      have hend : mo.toNat + l.toNat ≤ maxEnd := by
        dsimp only [stop] at hstop
        rw [if_neg hfits.1] at hstop
        exact not_lt.mp hstop
      refine slicePadded_beyond (hsize _ hsource.symm) (by omega) ?_
      omega
  obtain ⟨e, he⟩ := hslice
  obtain ⟨g, hg⟩ := copyOp_fails hs he
  rw [hg]
  exact nofun

lemma callDataLoad_wrong {o : Word} {f' : Frame} {r : FnResult}
    (hsettled : Settled ((callDataLoad o).facing sizes) f)
    (hout : ¬ (callDataLoad o).InRange sizes) (hrun : opCallDataLoad f = .ok r f') :
    ¬ (callDataLoad o).Performed m ((callDataLoad o).facing sizes) [] f' := by
  have hs : f.stack = [o] := hsettled.stack
  have hinput : f.contract.input = sizes.input.map fun n => replicate n 1 := by
    rw [hsettled.contract]
    rfl
  have hfails : ∀ e, slicePadded f.contract.input o.intValue 32 ≠ .error e := by
    intro e he
    obtain ⟨g, hg⟩ := opCallDataLoad_fails hs he
    rw [hg] at hrun
    cases hrun
  intro hperformed
  cases hn : sizes.input with
  | none =>
    rw [hn] at hinput
    exact hfails .nullPointer (by rw [hinput]; rfl)
  | some n =>
    rw [hn] at hinput
    have hlen : (replicate n (1 : UInt8)).length = n := length_replicate ..
    have hmax := sizes.input_le n hn
    have hread : ¬ (o.intValue < 0 ∨ 2147483647 < min o.intValue n + 32) := by
      intro hbad
      obtain ⟨e, he⟩ := @slicePadded_fails (replicate n 1) o.intValue 32
        (by rw [hlen]; exact hmax) o.isInt_intValue (by decide) (by decide) (by rw [hlen]; exact hbad)
      exact hfails e (by rw [hinput]; exact he)
    have hwrong : ¬ (o.toNat ≤ 2147483647 ∨ n ≤ o.intValue) :=
      fun h => hout ⟨n, hn, by omega, by omega, h⟩
    obtain ⟨k, hk⟩ := Int.eq_ofNat_of_zero_le (show 0 ≤ o.intValue by omega)
    have hslice : slicePadded f.contract.input o.intValue 32 = .ok (dataAt (replicate n 1) k 32) := by
      rw [hinput, hk]
      show slicePadded (some (replicate n 1)) k (32 : Nat) = _
      exact slicePadded_eq (by rw [hlen]; exact hmax) (by rw [hlen]; omega)
    rw [opCallDataLoad_of_slice hs (by rw [hs]; simp) (by rw [length_dataAt]) hslice] at hrun
    cases hrun
    -- the ones it reads are not the zeros past the end
    have hstack : [Word.ofBytes (dataAt (replicate n 1) k 32)]
        = [Word.ofBytes (dataAt (((callDataLoad o).facing sizes).contract.input.getD []) o.toNat 32)] :=
      hperformed.stack
    have hdata : ((callDataLoad o).facing sizes).contract.input = some (replicate n 1) := by
      show (sizes.input.map fun n => replicate n 1) = _
      rw [hn]
      rfl
    rw [hdata] at hstack
    exact ofBytes_dataAt_ne (by omega) (by omega) (cons.inj hstack).1

lemma not_right (hcfg : m.cfg.MemoryPriced) {calls : Calls} {opcode : UInt8}
    (hop : m.cfg.locateOpCode opcode = some a.op)
    (hnarrows : a.Narrows) (hout : ¬ a.InRange sizes) : ¬ a.Right m calls opcode sizes := by
  intro hright
  have hcounted : (a.facing sizes).Counted := ⟨le_refl 0, le_refl 0⟩
  have hs : (a.facing sizes).stack = a.operands ++ [] := (append_nil _).symm
  obtain ⟨r, f', hrun, hcase⟩ : ∃ r f', runStep m calls opcode (a.facing sizes) = .ok r f' ∧
      (r = ⟨.outOfGas, none⟩ ∨ a.Performed m (a.facing sizes) [] f') := by
    rcases hright _ [] (facing_sized sizes a) hcounted hs with ⟨f', h⟩ | ⟨f', h, hperformed⟩
    · exact ⟨_, f', h, .inl rfl⟩
    · exact ⟨_, f', h, .inr hperformed⟩
  unfold runStep at hrun
  rw [hop] at hrun
  -- the frame pays, whatever the fee
  obtain ⟨paid, f, hcharge, hfn⟩ := bind_eq_ok.mp hrun
  obtain ⟨hsettled, -, hmax⟩ := (wp_charge_access hcfg hcounted hs).of_ok hcharge
  obtain rfl := hmax rfl hnarrows
  obtain ⟨hgrown, hareas⟩ := (wp_charge_areas (a.facing sizes) a.op).of_ok hcharge
  have hperformed : a.Performed m (a.facing sizes) [] f' := by
    refine hcase.resolve_left fun hgas => ?_
    have hr := (wp_success m calls a f).of_ok hfn
    rw [hgas] at hr
    cases hr
  by_cases hstop : maxEnd < a.stop
  · -- the memory it means is larger than any it can lead to
    have hle := (wp_memory_le hsettled.memory hgrown.memoryWordCount hsettled.words
      (hsettled.stack ▸ hareas rfl)).of_ok hfn
    have hcover := stop_le_denoted m (a.facing sizes) [] a
    rw [← hperformed.memory] at hcover
    omega
  · cases a with
    | mload o | mstore o v | mstore8 o v => exact hout (not_lt.mp hstop)
    | sha3 o l =>
      refine hout (or_iff_not_imp_left.mpr fun hl => ?_)
      dsimp only [stop] at hstop
      rw [if_neg hl] at hstop
      exact not_lt.mp hstop
    | callDataLoad o => exact callDataLoad_wrong hsettled hout hfn hperformed
    | callDataCopy mo d l =>
      have hinput := ((facing_sized sizes (callDataCopy mo d l)).of_settled hsettled).input
      exact copyOp_ne_ok hsettled.stack hinput sizes.input_le hstop hout hfn
    | codeCopy mo d l =>
      have hcode := ((facing_sized sizes (codeCopy mo d l)).of_settled hsettled).code
      refine @copyOp_ne_ok f (fun f => some f.contract.code) mo l d f' r (some sizes.code)
        hsettled.stack (congrArg some hcode) ?_ hstop ?_ hfn
      · exact fun n hn => Option.some.inj hn ▸ sizes.code_le
      · rintro ⟨_, ⟨⟩, hfits⟩
        exact hout hfits

end Access

/-! ## Operands -/

/-- **Operands.** With given operands, and sizes of the call data and the code, an access is
performed or out of gas in every state exactly when its ranges fit, or the narrowed end of its range
of the memory is no `int`. -/
theorem operands_iff {m : Machine} (hcfg : m.cfg.MemoryPriced)
    (hhash : ∀ data, (m.crypto.keccak256 data).length ≤ 32) (calls : Calls) (sizes : DataSizes)
    {opcode : UInt8} {a : Access} (hop : m.cfg.locateOpCode opcode = some a.op) :
    a.Right m calls opcode sizes ↔ a.InRange sizes ∨ ¬ a.Narrows := by
  refine ⟨fun hright => ?_, Access.right_of_inRange hcfg hop hhash⟩
  by_contra hno
  rw [not_or, not_not] at hno
  exact Access.not_right hcfg hop hno.2 hno.1 hright

theorem mstore_right :
    Access.Right .sample (vm .sample 1) 0x52 ⟨some 4, 100, by simp, by decide⟩ (.mstore 64 7) :=
  (operands_iff (m := .sample) (configAt_memoryPriced 1700000000) (fun _ => Nat.le_refl 32) _ _
    rfl).mpr (.inl (show 96 ≤ 2147483616 by decide))

/-- `PUSH9 2^64; MLOAD`: the frame pays for one word, and reads the word at position 0. -/
theorem mload_wraps : ∃ f, Executes .sample (fun _ => True) f ∧ f.currentOp .sample = some .mload ∧
      f.stack = (Access.mload 18446744073709551616).operands ∧
      (∃ f', runStep .sample (vm .sample 1) 0x51 f = .ok ⟨.success, none⟩ f' ∧ f'.memory.length = 32) ∧
      ¬ (Access.mload 18446744073709551616).Succeeds .sample f []
        (runStep .sample (vm .sample 1) 0x51 f) := by
  obtain ⟨f, hf, hop, hstack, f', hok, hlength⟩ := @exists_executes_of
    (fun f => f.currentOp .sample = some .mload ∧ f.stack = [18446744073709551616] ∧
      ∃ f', runStep .sample (vm .sample 1) 0x51 f = .ok ⟨.success, none⟩ f' ∧ f'.memory.length = 32)
    [0x68, 1, 0, 0, 0, 0, 0, 0, 0, 0, 0x51] 1000 1 1 (by decide) (by decide +kernel)
  refine ⟨f, hf, hop, hstack, ⟨f', hok, hlength⟩, ?_⟩
  rw [hok]
  rintro (⟨g, hg⟩ | ⟨g, hg, hperformed⟩)
  · cases hg
  · cases hg
    have hcover := (Access.mload 18446744073709551616).stop_le_denoted .sample f []
    rw [← hperformed.memory, hlength] at hcover
    exact absurd hcover (by decide)

end GrapeDag
