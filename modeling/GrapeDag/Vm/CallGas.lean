/-
THE GAS OF A CALL.

The gas handler computes a cap from the gas of the frame BEFORE the fee is taken, and leaves it
in a field of the VM; the interpreter takes the fee; the instruction takes the cap from what is
left, and hands it on.

Main result: `callGas_rule`.
-/
import GrapeDag.Vm.GasSafety
import GrapeDag.Vm.MemoryPaid

namespace GrapeDag

open Imperative GrapeDag.Frame Prog GasTable

/-! ## The cap -/

def handed (left : Int) (word : Word) : Int := min word.toNat (left - left / 64)

lemma handed_nonneg {left : Int} (h : 0 ≤ left) (word : Word) : 0 ≤ handed left word := by
  unfold handed
  omega

lemma handed_le (left : Int) (word : Word) : handed left word ≤ left - left / 64 := min_le_right _ _

lemma limitCallGas_eq {gas fee : Int} (hfee : 0 ≤ fee) (hle : fee ≤ gas)
    (hmax : gas ≤ 9223372036854775807) (word : Word) :
    limitCallGas gas fee word = handed (gas - fee) word := by
  unfold limitCallGas handed
  have hdiff : wrap64 (gas - fee) = gas - fee := wrap64_of_isLong (by omega)
  have hdiv : (gas - fee).tdiv 64 = (gas - fee) / 64 := Int.tdiv_eq_ediv_of_nonneg (by omega)
  have hcap : wrap64 (gas - fee - (gas - fee) / 64) = gas - fee - (gas - fee) / 64 :=
    wrap64_of_isLong (by omega)
  dsimp only
  rw [hdiff, hdiv, hcap, min_comm]
  -- a word beyond the largest `long` is beyond the cap, too
  unfold Word.longValueSafe longMax
  split
  · rfl
  · rename_i hlong
    omega

/-! ## Payment -/

/-- The gas to pass on is capped as EIP-150 says. -/
def CapSet (word : Word) (fee : Int) (f : Frame) : Prop :=
  f.world.callGas = max 0 (limitCallGas f.contract.gas fee word)

section Handler

variable {m : Machine}

lemma wp_setCap (fee : Int) (word : Word) (f : Frame) : wpRet (do
      let cap := limitCallGas (← Prog.gets (·.contract.gas)) fee word
      onWorld (World.setCallGas cap)
      return fee) (CapSet word) f := by
  unfold World.setCallGas
  rw [wpRet, wp_bind, wp_gets, wp_bind, wp_onWorld, wp_modify, wp_pure]
  show ite _ _ _ = max 0 (limitCallGas f.contract.gas fee word)
  split <;> omega

lemma wp_callHandler_cap {kind : CallKind} {handler : Java Frame Int}
    (h : gasHandler m (.call kind) = some handler) (f : Frame) :
    wpRet handler (CapSet (f.operand 0)) f := by
  have hafter : ∀ {α : Type} {p : Java Frame α} {k : α → Java Frame Int} {g : Frame},
      (∀ x g', wpRet (k x) (CapSet (f.operand 0)) g') →
      wpRet (p >>= k) (CapSet (f.operand 0)) g :=
    fun hk => wp_bind.mpr (.of_forall hk (fun _ _ => trivial))
  have hcall : ∀ kind, wpRet (makeCallHandler m kind) (CapSet (f.operand 0)) f := by
    intro kind
    unfold makeCallHandler
    rw [wpRet, wp_bind]
    refine wp_peek (fun _ => trivial) fun _ => ?_
    rw [param_take (i := 0) (by decide)]
    exact hafter fun _ _ => hafter fun _ _ => hafter fun _ _ => hafter fun _ _ => hafter fun _ _ =>
      hafter fun _ _ => hafter fun _ _ => hafter fun _ _ => wp_setCap _ _ _
  have hother : wpRet (makeStaticOrDelegateCallHandler m) (CapSet (f.operand 0)) f := by
    unfold makeStaticOrDelegateCallHandler
    rw [wpRet, wp_bind]
    refine wp_peek (fun _ => trivial) fun _ => ?_
    rw [param_take (i := 0) (by decide)]
    exact hafter fun _ _ => hafter fun _ _ => hafter fun _ _ => hafter fun _ _ =>
      hafter fun _ _ => wp_setCap _ _ _
  cases kind with
  | call | callCode => cases h; exact hcall _
  | delegateCall | staticCall => cases h; exact hother

end Handler

/-- A call instruction of frame `f`, paid for with `fee`. -/
structure CallCharged (m : Machine) (kind : CallKind) (f : Frame) (fee : Int) (f' : Frame) :
    Prop where
  nonneg : 0 ≤ fee
  le : fee ≤ f.contract.gas
  gas : f'.contract.gas = f.contract.gas - fee
  callGas : f'.world.callGas = handed (f.contract.gas - fee) (f.operand 0)
  stipend : kind = .call → (f.operand 2).isNonZero = true → m.callStipend ≤ fee
  stack : f'.stack = f.stack

lemma callCharged {m : Machine} (hs : m.cfg.Sound) {kind : CallKind} {f f1 : Frame}
    (hf : f.Metered) (hpaid : charge m (.call kind) f = .ok none f1) :
    ∃ fee, CallCharged m kind f fee f1 := by
  have hstatic := (hs.staticFee_nonneg (.call kind)).1
  have hmax := hf.isLong
  have hwp : wpRet (charge m (.call kind))
      (fun r f' => r = none → ∃ fee, CallCharged m kind f fee f') f := by
    refine wp_charge_of (wp_useGas_paid hf hstatic (fun _ => ⟨fun _ => nofun, nofun, nofun⟩)
      fun h1 => ⟨nofun, fun _ hnone => ?_, fun handler _ hhandler => ?_⟩)
    · cases kind <;> cases hnone
    have hhandled := (wp_callHandler hs hhandler h1.metered.counted).and
      ((wp_callHandler_cap hhandler _).and ((keeps_gasHandler (R := Peeked) m hhandler).wp _))
    refine hhandled.mono ?_ (fun _ _ _ => ⟨fun _ => nofun, trivial⟩)
    rintro fee f2 ⟨hcall, hcap, hpeeked⟩
    have hgas2 : f2.contract.gas = f.contract.gas - m.cfg.staticFee (.call kind) := by
      rw [hpeeked.contract]
      rfl
    have hfee := hcall.nonneg
    refine ⟨wp_useGas.mpr ⟨fun _ => nofun, fun hle _ => ?_⟩, fun _ => nofun, fun _ => trivial⟩
    refine ⟨m.cfg.staticFee (.call kind) + fee, by omega, by omega, ?_, ?_, ?_, hpeeked.stack⟩
    · show wrap64 (f2.contract.gas - fee) = _
      rw [wrap64_of_isLong (by omega)]
      omega
    · show f2.world.callGas = _
      have hlimit := limitCallGas_eq hfee hle (by omega) (f.operand 0)
      have hleft : 0 ≤ handed (f2.contract.gas - fee) (f.operand 0) := handed_nonneg (by omega) _
      rw [hcap]
      show max 0 (limitCallGas f2.contract.gas fee (f.operand 0)) = _
      rw [hlimit, max_eq_right hleft, hgas2, Int.sub_sub]
    · intro hkind hvalue
      have hstipend := hcall.stipend hkind hvalue
      omega
  exact hwp.of_ok hpaid rfl

lemma useGas_of_le {f : Frame} {fee : Int} (hfee : 0 ≤ fee) (hle : fee ≤ f.contract.gas)
    (hmax : f.contract.gas ≤ 9223372036854775807) : useGas fee f = .ok true (f.paid fee) := by
  unfold useGas Frame.paid
  rw [if_neg (by omega), wrap64_of_isLong (by omega)]

/-! ## The rule -/

def OnlyMemory (f f' : Frame) : Prop := f' = { f with memory := f'.memory }

instance : Memwise OnlyMemory where
  refl _ := rfl
  trans _ _ _ h1 h2 := by
    unfold OnlyMemory at *
    rw [h2, h1]
  memory _ _ := rfl

lemma onlyMemory_of_read {offset size : Int} {args : Bytes} {f f' : Frame}
    (h : memoryRead offset size f = .ok args f') : f' = { f with memory := f'.memory } :=
  ((keeps_memoryRead (R := OnlyMemory) _ _).wp f).of_ok h

section Charged

variable {m : Machine} {kind : CallKind} {c : CallOperands} {rest : List Word} {fee : Int}
  {f f1 f' : Frame} {args : Bytes}

lemma operand_gas (hstack : f.stack = c.words kind ++ rest) : f.operand 0 = c.gas := by
  unfold Frame.operand
  rw [hstack]
  rfl

lemma operand_value (hstack : f.stack = c.words .call ++ rest) : f.operand 2 = c.value := by
  unfold Frame.operand
  rw [hstack]
  rfl

lemma prepareCall_apply (hf : f.Metered) (hcharged : CallCharged m kind f fee f1)
    (hstack : f.stack = c.words kind ++ rest)
    (hread : memoryRead c.inOffset.intValue c.inSize.intValue { f1 with stack := rest }
      = .ok args f') (hstatic : ¬ (f1.world.readOnly = true ∧ c.Sends kind)) :
    prepareCall kind m.callStipend f1
      = .ok (.ok (c.prepared kind m.callStipend f1.world.callGas args)) (f'.paid f1.world.callGas) := by
  have honly := onlyMemory_of_read hread
  have hgas : f'.contract.gas = f.contract.gas - fee := by rw [honly]; exact hcharged.gas
  have hleft : 0 ≤ f.contract.gas - fee := by have := hcharged.le; omega
  have hcap := handed_le (f.contract.gas - fee) (f.operand 0)
  have hnonneg := handed_nonneg hleft (f.operand 0)
  rw [← hcharged.callGas] at hcap hnonneg
  have hmax := hf.isLong
  have hfee := hcharged.nonneg
  have hpay : useGas f1.world.callGas f' = .ok true (f'.paid f1.world.callGas) :=
    useGas_of_le hnonneg (by omega) (by omega)
  have hworld : f'.world = f1.world := by rw [honly]
  rw [prepareCall_eq (hcharged.stack.trans hstack), bind_of_ok hread, gets_bind,
    hworld, if_neg hstatic, bind_of_ok hpay]
  rfl

/-- What a call that left the frame with `left` after the fee hands over, and what the frame keeps.
-/
structure HandsOver (m : Machine) (kind : CallKind) (c : CallOperands) (left : Int)
    (p : PreparedCall) (f' : Frame) : Prop where
  gasLimit : p.gasLimit = handed left c.gas + if c.Sends kind then m.callStipend else 0
  isLong : IsLong p.gasLimit
  gas : f'.contract.gas = left - handed left c.gas
  kept : left / 64 ≤ f'.contract.gas
  isLong_sum : IsLong (f'.contract.gas + p.gasLimit)

lemma handsOver_prepared (hs : m.cfg.Sound) (hf : f.Metered)
    (hcharged : CallCharged m kind f fee f1) (hstack : f.stack = c.words kind ++ rest)
    (hgas : f'.contract.gas = f1.contract.gas) :
    HandsOver m kind c (f.contract.gas - fee)
      (c.prepared kind m.callStipend f1.world.callGas args) (f'.paid f1.world.callGas) := by
  have hleft : 0 ≤ f.contract.gas - fee := by have := hcharged.le; omega
  have hcap := handed_le (f.contract.gas - fee) c.gas
  have hnonneg := handed_nonneg hleft c.gas
  have hcallGas := hcharged.callGas
  rw [operand_gas hstack] at hcallGas
  have hmax := hf.isLong
  have hfee := hcharged.nonneg
  have hstipend := callStipend_nonneg hs
  -- the fee covers the stipend, so that the sum is a `long`
  have hcovered : c.Sends kind → m.callStipend ≤ fee := by
    intro hsends
    obtain ⟨rfl, hvalue⟩ := hsends
    exact hcharged.stipend rfl (by rw [operand_value hstack]; exact hvalue)
  have hlimit : (c.prepared kind m.callStipend f1.world.callGas args).gasLimit
      = handed (f.contract.gas - fee) c.gas + if c.Sends kind then m.callStipend else 0 := by
    show (if c.Sends kind then wrap64 (f1.world.callGas + m.callStipend) else f1.world.callGas) = _
    split
    · rename_i hsends
      have := hcovered hsends
      rw [hcallGas, wrap64_of_isLong (by omega)]
    · rw [hcallGas, Int.add_zero]
  have hrest : (f'.paid f1.world.callGas).contract.gas
      = f.contract.gas - fee - handed (f.contract.gas - fee) c.gas := by
    show f'.contract.gas - f1.world.callGas = _
    rw [hgas, hcharged.gas, hcallGas]
  have hgiven : 0 ≤ (c.prepared kind m.callStipend f1.world.callGas args).gasLimit ∧
      (c.prepared kind m.callStipend f1.world.callGas args).gasLimit
        ≤ handed (f.contract.gas - fee) c.gas + fee := by
    rw [hlimit]
    split
    · rename_i hsends
      have := hcovered hsends
      omega
    · omega
  refine ⟨hlimit, ?_, hrest, by omega, ?_⟩ <;> omega

/-- **The 63/64 rule.** A call instruction whose fee was paid cannot read its arguments, or sends
value in the static mode, or starts the callee with the gas that the rule says. -/
theorem callGas_rule (hs : m.cfg.Sound) (calls : Calls) {opcode : UInt8}
    (hop : m.cfg.locateOpCode opcode = some (.call kind)) (hf : f.Metered)
    (hstack : f.stack = c.words kind ++ rest) (hpaid : charge m (.call kind) f = .ok none f1) :
    ∃ fee, 0 ≤ fee ∧ fee ≤ f.contract.gas ∧ f1.contract.gas = f.contract.gas - fee ∧
      ((∃ e f', memoryRead c.inOffset.intValue c.inSize.intValue { f1 with stack := rest }
          = .err e f') ∨
        (f1.world.readOnly = true ∧ c.Sends kind) ∨
        ∃ p f2, HandsOver m kind c (f.contract.gas - fee) p f2 ∧
          runStep m calls opcode f = (onWorld (calls.executeCall ⟨kind, f2.contract.toRef, p.toAddr,
            p.args, p.gasLimit, p.value.bigIntegerValue⟩) >>= finishCall p) f2) := by
  obtain ⟨fee, hcharged⟩ := callCharged hs hf hpaid
  refine ⟨fee, hcharged.nonneg, hcharged.le, hcharged.gas, ?_⟩
  by_cases hstatic : f1.world.readOnly = true ∧ c.Sends kind
  · exact .inr (.inl hstatic)
  cases hread : memoryRead c.inOffset.intValue c.inSize.intValue { f1 with stack := rest } with
  | diverge => exact absurd hread (ne_diverge _)
  | err e f' => exact .inl ⟨e, f', rfl⟩
  | ok args f' =>
    have hgas : f'.contract.gas = f1.contract.gas := by rw [onlyMemory_of_read hread]
    have hprepare := prepareCall_apply hf hcharged hstack hread hstatic
    refine .inr (.inr ⟨c.prepared kind m.callStipend f1.world.callGas args,
      f'.paid f1.world.callGas, handsOver_prepared hs hf hcharged hstack hgas, ?_⟩)
    exact runStep_of_prepared hop hpaid hprepare

end Charged

def CallOperands.sample : CallOperands := ⟨100000, 500, 0, 0, 0, 0, 0⟩

theorem callGas_sample :
    ∃ fee p f2, 0 ≤ fee ∧ fee ≤ 10000 ∧ HandsOver .sample .call .sample (10000 - fee) p f2 := by
  obtain ⟨f1, hpaid, hwrites⟩ : ∃ f1, charge .sample (.call .call)
      { Frame.sample [] 10000 with stack := CallOperands.sample.words .call } = .ok none f1 ∧
        f1.world.readOnly = false := by decide +kernel
  obtain ⟨fee, hnonneg, hle, -, hcases⟩ := callGas_rule (configAt_sound 1700000000)
    (vm .sample 1) (rfl : Machine.sample.cfg.locateOpCode 0xF1 = _)
    ⟨⟨le_refl 0, le_refl 0⟩, by decide, by decide⟩ (List.append_nil _).symm hpaid
  rcases hcases with ⟨e, f', hread⟩ | ⟨hstatic, -⟩ | ⟨p, f2, hands, -⟩
  · unfold memoryRead at hread
    rw [if_pos (show CallOperands.sample.inSize.intValue = 0 by decide)] at hread
    cases hread
  · rw [hwrites] at hstatic
    cases hstatic
  · exact ⟨fee, p, f2, hnonneg, hle, hands⟩

end GrapeDag
