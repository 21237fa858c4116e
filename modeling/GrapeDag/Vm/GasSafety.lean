/-
NO RUN MINTS GAS.

One turn of the interpreter loop never raises the gas of its frame, as long as the lengths it
pays for fit; a nested frame returns at most what it was given. Where the lengths do not fit
the fee is negative and `useGas` ADDS it.

Main result: `gas_never_minted`.
-/
import GrapeDag.Vm.Entry

namespace GrapeDag

open Imperative GrapeDag.Frame Prog

/-! ## Metered frames -/

/-- The counters are not negative, and the gas is a `long` that is not negative. -/
structure Frame.Metered (f : Frame) : Prop where
  counted : f.Counted
  nonneg : 0 ≤ f.contract.gas
  isLong : f.contract.gas ≤ 9223372036854775807

/-- `f'` is metered and has no more gas than `f`. -/
structure Spends (f f' : Frame) : Prop where
  metered : f'.Metered
  le : f'.contract.gas ≤ f.contract.gas

/-- However `p` ends, the frame has spent from `f0`. -/
abbrev SpendsIn (f0 : Frame) {α : Type} (p : Java Frame α) (f : Frame) : Prop :=
  wpEnd p (Spends f0) f

variable {f : Frame} {m : Machine} {op : Op}

lemma Spends.refl (h : f.Metered) : Spends f f := ⟨h, le_refl _⟩

lemma Spends.trans {g h : Frame} (h1 : Spends f g) (h2 : Spends g h) : Spends f h :=
  ⟨h2.metered, le_trans h2.le h1.le⟩

variable {f' : Frame}

lemma Peeked.spends (h : Peeked f f') (hf : f.Metered) (hf' : f'.Counted) : Spends f f' := by
  refine ⟨⟨hf', ?_, ?_⟩, ?_⟩
  · rw [h.contract]; exact hf.nonneg
  · rw [h.contract]; exact hf.isLong
  · rw [h.contract]

/-- The frame with a fee taken from its gas. -/
def Frame.paid (f : Frame) (fee : Int) : Frame :=
  { f with contract := { f.contract with gas := f.contract.gas - fee } }

variable {fee : Int}

lemma Frame.Metered.paid (h : f.Metered) (h0 : 0 ≤ fee) (h1 : fee ≤ f.contract.gas) :
    (f.paid fee).Metered := by
  obtain ⟨hcounted, hnonneg, hlong⟩ := h
  refine ⟨⟨hcounted.words, hcounted.cost⟩, ?_, ?_⟩
  · show 0 ≤ f.contract.gas - fee
    omega
  · show f.contract.gas - fee ≤ _
    omega

lemma Spends.paid_zero (h : Spends f f') : Spends (f.paid 0) f' :=
  ⟨h.metered, h.le.trans_eq (Int.sub_zero _).symm⟩

lemma wp_useGas_paid (hf : f.Metered) (hfee : 0 ≤ fee) {Q : Bool → Frame → Prop}
    {E : JavaException → Frame → Prop} (hno : f.contract.gas < fee → Q false f)
    (hyes : Spends f (f.paid fee) → Q true (f.paid fee)) : wp (useGas fee) Q E f := by
  rw [wp_useGas]
  refine ⟨hno, fun hle => ?_⟩
  have hpaid := hf.paid hfee hle
  have hlong := hf.isLong
  rw [wrap64_of_isLong (by omega)]
  refine hyes ⟨hpaid, ?_⟩
  show f.contract.gas - fee ≤ f.contract.gas
  omega

/-! ## Paying for an instruction -/

/-- The dynamic fee of instruction `op`, where it comes to be computed, is not negative. -/
def FeeNonneg (m : Machine) (op : Op) (f : Frame) : Prop :=
  ∀ handler fee f', m.cfg.staticFee op ≤ f.contract.gas → gasHandler m op = some handler →
    handler (f.paid (m.cfg.staticFee op)) = .ok fee f' → 0 ≤ fee

/-- What a call instruction of `f` finds after it has been paid for. -/
structure CallReady (m : Machine) (kind : CallKind) (f f' : Frame) : Prop where
  callGas : 0 ≤ f'.world.callGas
  stipend : kind = .call → (f'.operand 2).isNonZero = true →
    f'.contract.gas + m.callStipend ≤ f.contract.gas

/-- What an instruction of `f` finds after it has been paid for. -/
structure Charged (m : Machine) (op : Op) (f f' : Frame) : Prop where
  spends : Spends (f.paid op.ticks) f'
  call : ∀ kind, op = .call kind → CallReady m kind (f.paid op.ticks) f'

/-- A dynamic fee of instruction `op`. -/
structure FeePaid (m : Machine) (op : Op) (f : Frame) (fee : Int) (f' : Frame) : Prop where
  nonneg : 0 ≤ fee
  sstore : op = .sstore → 1 ≤ fee
  call : ∀ kind, op = .call kind → CallPaid m kind f fee f'

section Charge

variable {m : Machine} (hp : m.Priced) {op : Op}
include hp

variable {f : Frame}

lemma wp_handler {handler : Java Frame Int} (h : gasHandler m op = some handler) (hf : f.Counted)
    (hfee : ∀ fee f', handler f = .ok fee f' → 0 ≤ fee) :
    wp handler (fun fee f' => FeePaid m op f fee f' ∧ f'.Counted ∧ Peeked f f')
      (fun _ f' => f'.Counted ∧ Peeked f f') f := by
  have hkept := ((keeps_gasHandler (R := KeepsCounted) m h).wp f).and ((keeps_gasHandler (R := Peeked) m h).wp f)
  have hsstore : wpRet handler (fun fee _ => op = .sstore → 1 ≤ fee) f := by
    by_cases hop : op = .sstore
    · subst hop
      exact ((charges_sstore hp.sound hp.sstore h).wp f hf).returned (fun _ _ h' _ => h'.1)
    · exact .always fun _ _ h' => absurd h' hop
  have hcall : wpRet handler (fun fee f' => ∀ kind, op = .call kind → CallPaid m kind f fee f') f := by
    by_cases hop : ∃ kind, op = .call kind
    · obtain ⟨kind, rfl⟩ := hop
      refine (wp_callHandler hp.sound h hf).returned ?_
      intro fee f' hpaid kind' hk
      cases hk
      exact hpaid
    · exact .always fun _ _ kind hk => absurd ⟨kind, hk⟩ hop
  refine ((hkept.and (wp.self handler f)).and (hsstore.and hcall)).mono ?_ ?_
  · rintro fee f' ⟨⟨⟨hcounted, hpeeked⟩, hrun⟩, hone, hpaid⟩
    exact ⟨⟨hfee fee f' hrun, hone, hpaid⟩, hcounted hf, hpeeked⟩
  · rintro _ f' ⟨⟨⟨hcounted, hpeeked⟩, _⟩, _⟩
    exact ⟨hcounted hf, hpeeked⟩

lemma ticks_le_paid (hfee : FeePaid m op f fee f') :
    (op.ticks : Int) ≤ m.cfg.staticFee op + fee := by
  have hnonneg := hfee.nonneg
  by_cases hop : op = .sstore
  · subst hop
    have := hfee.sstore rfl
    have := (hp.sound.staticFee_nonneg .sstore).1
    show (1 : Int) ≤ _
    omega
  · have := hp.static op hop
    omega

lemma wp_charge (hf : f.Metered) (hfee : FeeNonneg m op f) :
    wp (charge m op) (fun r f' => Spends f f' ∧ (r = none → Charged m op f f'))
      (fun _ f' => Spends f f') f := by
  have hend : ∀ {st : VmStatus} {f'}, Spends f f' →
      Spends f f' ∧ (some st = none → Charged m op f f') := fun h => ⟨h, fun hst => by cases hst⟩
  refine wp_charge_of (wp_useGas_paid hf (hp.sound.staticFee_nonneg op).1
    (fun _ => ⟨fun _ => hend (.refl hf), fun h => (by cases h), fun _ h => by cases h⟩)
    fun h1 => ⟨fun h => (by cases h), fun _ hh => ?_, ?_⟩)
  · refine ⟨h1, fun _ => ⟨⟨h1.metered, ?_⟩, fun kind hk => ?_⟩⟩
    · -- `SSTORE` and the call instructions do have a handler
      have hop : op ≠ .sstore := by
        rintro rfl
        simp only [gasHandler] at hh
        split at hh <;> cases hh
      have := hp.static op hop
      show f.contract.gas - m.cfg.staticFee op ≤ f.contract.gas - op.ticks
      omega
    · subst hk
      cases kind <;> cases hh
  intro handler _ hh
  have hafford : m.cfg.staticFee op ≤ f.contract.gas := by
    have : 0 ≤ f.contract.gas - m.cfg.staticFee op := h1.metered.nonneg
    omega
  have hkept : ∀ {f2 : Frame}, f2.Counted ∧ Peeked _ f2 → Spends f f2 := fun h =>
    h1.trans (h.2.spends h1.metered h.1)
  refine (wp_handler hp hh h1.metered.counted (fun fee f' => hfee handler fee f' hafford hh)).mono ?_
    (fun _ _ h => ⟨fun _ => hend (hkept h), hkept h⟩)
  rintro fee f2 ⟨hpaid, hcounted, hpeeked⟩
  have h2 := hkept ⟨hcounted, hpeeked⟩
  have hgas2 : f2.contract.gas = f.contract.gas - m.cfg.staticFee op := by
    rw [hpeeked.contract]
    rfl
  have hticks := ticks_le_paid hp hpaid
  refine ⟨?_, fun _ => hend h2, fun _ => h2⟩
  refine wp_useGas_paid h2.metered hpaid.nonneg (fun _ => hend h2) fun h3 => ?_
  refine ⟨h2.trans h3, fun _ => ⟨⟨h3.metered, ?_⟩, fun kind hk => ?_⟩⟩
  · show f2.contract.gas - fee ≤ f.contract.gas - op.ticks
    omega
  obtain ⟨_, _, hgas, hstipend⟩ := hpaid.call kind hk
  refine ⟨hgas, fun hkind hvalue => ?_⟩
  -- the static fee covers the instruction, the fee just paid covers the stipend
  have hoperand : (f2.paid fee).operand 2 = (f.paid (m.cfg.staticFee op)).operand 2 := by
    show f2.stack.getD 2 0 = _
    rw [hpeeked.stack]
    rfl
  rw [hoperand] at hvalue
  have hle := hstipend hkind hvalue
  have hstatic := hp.static op (by rintro rfl; cases hk)
  show f2.contract.gas - fee + m.callStipend ≤ f.contract.gas - op.ticks
  omega

end Charge

lemma feeNonneg_of_fits (hs : m.cfg.Sound) (hlog : ∀ n, op = .log n → n ≤ 4) (hf : f.Metered)
    (hfit : lengthsFit m op f = true) : FeeNonneg m op f := by
  intro handler fee f' _ hh hrun
  have hcounted : (f.paid (m.cfg.staticFee op)).Counted := ⟨hf.counted.words, hf.counted.cost⟩
  have hfit' : lengthsFit m op (f.paid (m.cfg.staticFee op)) = true := by
    rw [lengthsFit_congr (show (f.paid (m.cfg.staticFee op)).stack = f.stack from rfl)]
    exact hfit
  exact ((charges_gasHandler hs hcounted hh hlog hfit').of_ok hrun).1

/-! ## Local instructions -/

/-- Contract and memory counters are left alone, whatever happens to the world. -/
structure Idle (f f' : Frame) : Prop where
  contract : f'.contract = f.contract
  memoryWordCount : f'.memoryWordCount = f.memoryWordCount
  highestMemCost : f'.highestMemCost = f.highestMemCost

instance : IsPreorder Frame Idle where
  refl _ := ⟨rfl, rfl, rfl⟩
  trans _ _ _ h1 h2 := ⟨h2.contract.trans h1.contract,
    h2.memoryWordCount.trans h1.memoryWordCount, h2.highestMemCost.trans h1.highestMemCost⟩

instance : Calmwise Idle where
  stack _ _ := ⟨rfl, rfl, rfl⟩
  memory _ _ := ⟨rfl, rfl, rfl⟩
  pc _ _ := ⟨rfl, rfl, rfl⟩
  clears _ _ := ⟨rfl, rfl, rfl⟩

instance : Worldwise Idle where
  world _ _ := ⟨rfl, rfl, rfl⟩

lemma Idle.spends (h : Idle f f') (hf : f.Metered) : Spends f f' := by
  obtain ⟨⟨hw, hc⟩, hnonneg, hlong⟩ := hf
  refine ⟨⟨⟨?_, ?_⟩, ?_, ?_⟩, ?_⟩
  · rw [h.memoryWordCount]; exact hw
  · rw [h.highestMemCost]; exact hc
  · rw [h.contract]; exact hnonneg
  · rw [h.contract]; exact hlong
  · rw [h.contract]

lemma idle_locateFn (m : Machine) (calls : Calls) (h : op.isLocal = true) :
    Keeps Idle (locateFn m calls op) := (steps_local m calls h).keeps

/-! ## Calls and creates -/

variable {f1 : Frame} {gas : Int} {r : VmResult}

section Nested

variable {m : Machine} {f0 f : Frame}

lemma Idle.trans_spends (h : Spends f0 f) (hi : Idle f f1) : Spends f0 f1 :=
  h.trans (hi.spends h.metered)

lemma callStipend_nonneg (hs : m.cfg.Sound) : 0 ≤ m.callStipend := by
  unfold Machine.callStipend
  cases hp : m.cfg.gasPriceMap .callStipend with
  | none => exact le_refl 0
  | some p => exact (hs.price_range _ p hp).1

/-- The gas of a prepared call is taken from the frame, but for a stipend that the fee has
covered. -/
theorem wp_prepareCall_gas (hs : m.cfg.Sound) {kind : CallKind} (hf0 : f0.Metered)
    (h : Spends f0 f) (hready : CallReady m kind f0 f) :
    wp (prepareCall kind m.callStipend) (fun r f' => Spends f0 f' ∧ ∀ c, r = .ok c →
        0 ≤ c.gasLimit ∧ f'.contract.gas + c.gasLimit ≤ f0.contract.gas)
      (fun _ f' => Spends f0 f') f := by
  obtain ⟨hcap, hstipend⟩ := hready
  refine wp_prepareCall_of (fun s => Idle.trans_spends h (Stackwise.stack f s)) fun c rest hstack => ?_
  have hidle : ∀ f', Idle { f with stack := rest } f' → Idle f f' := fun f' h' =>
    IsTrans.trans _ _ _ (Stackwise.stack f rest) h'
  refine ((keeps_memoryRead _ _ : Keeps Idle _).wp _).mono ?_
    (fun _ f' h' => Idle.trans_spends h (hidle f' h'))
  intro args f1 h1
  have hgas : f1.contract.gas = f.contract.gas := by rw [h1.contract]
  have h1 := Idle.trans_spends h (hidle f1 h1)
  refine ⟨fun _ => ⟨h1, nofun⟩, fun _ => ?_⟩
  refine wp_useGas_paid h1.metered hcap (fun _ => ⟨h1, nofun⟩) fun hpaid => ⟨h1.trans hpaid, ?_⟩
  rintro _ ⟨⟩
  have hleft : 0 ≤ f1.contract.gas - f.world.callGas := hpaid.metered.nonneg
  have hmax := hf0.isLong
  have hle := h.le
  have hst := callStipend_nonneg hs
  show 0 ≤ ite _ (wrap64 (f.world.callGas + m.callStipend)) f.world.callGas ∧
    f1.contract.gas - f.world.callGas + ite _ (wrap64 (f.world.callGas + m.callStipend)) f.world.callGas ≤ _
  by_cases hsends : c.Sends kind
  · have hvalue : f.operand 2 = c.value := by
      unfold operand
      rw [hstack, hsends.1]
      rfl
    have hcovered := hstipend hsends.1 (by rw [hvalue]; exact hsends.2)
    rw [wrap64_of_isLong (by omega)]
    omega
  · rw [if_neg hsends]
    omega

lemma wp_addGas_within (hf0 : f0.Metered) (h : Spends f0 f) (hgas : 0 ≤ gas)
    (hsum : f.contract.gas + gas ≤ f0.contract.gas) :
    SpendsIn f0 (addGas gas) f := by
  obtain ⟨⟨hcounted, hnonneg, hlong⟩, hle⟩ := h
  have hmax := hf0.isLong
  rw [SpendsIn, addGas, wpEnd, wp_modify]
  have hwrap : wrap64 (f.contract.gas + gas) = f.contract.gas + gas := wrap64_of_isLong (by omega)
  refine ⟨⟨⟨hcounted.words, hcounted.cost⟩, ?_, ?_⟩, ?_⟩
  · show 0 ≤ wrap64 (f.contract.gas + gas)
    omega
  · show wrap64 (f.contract.gas + gas) ≤ _
    omega
  · show wrap64 (f.contract.gas + gas) ≤ _
    omega

lemma wp_addGas_then {p : Java Frame FnResult} [hp : Keeps Idle p] (hf0 : f0.Metered)
    (h : Spends f0 f) (hgas : 0 ≤ gas) (hsum : f.contract.gas + gas ≤ f0.contract.gas)
    (h1 : Idle f f1) : SpendsIn f0 (do addGas gas; p) f1 := by
  rw [SpendsIn, wpEnd, wp_bind]
  have hsum1 : f1.contract.gas + gas ≤ f0.contract.gas := by rw [h1.contract]; exact hsum
  refine (wp_addGas_within hf0 (Idle.trans_spends h h1) hgas hsum1).post fun _ f2 h2 => ?_
  exact (hp.wp f2).mono (fun _ _ => Idle.trans_spends h2) (fun _ _ => Idle.trans_spends h2)

lemma wp_finishCall_gas {c : PreparedCall} (hf0 : f0.Metered)
    (h : Spends f0 f) (hgas : 0 ≤ r.gas) (hsum : f.contract.gas + r.gas ≤ f0.contract.gas) :
    SpendsIn f0 (finishCall c r) f := by
  have hend : ∀ f1, Idle f f1 → SpendsIn f0 (do
      addGas r.gas
      onWorld (World.setReturnData r.output)
      return (⟨.success, r.output⟩ : FnResult)) f1 :=
    fun _ => wp_addGas_then hf0 h hgas hsum
  refine (steps_push _).keeps.wp_then (refl_of Idle f) (fun _ _ => Idle.trans_spends h) fun _ f1 h1 => ?_
  refine .ite (fun _ => ?_) fun _ => hend f1 h1
  exact (steps_memoryWrite _ _ _).keeps.wp_then h1 (fun _ _ => Idle.trans_spends h) fun _ => hend

lemma allButOne64th (hf : f.Metered) : 0 ≤ wrap64 (f.contract.gas - f.contract.gas.tdiv 64) ∧
      wrap64 (f.contract.gas - f.contract.gas.tdiv 64) ≤ f.contract.gas := by
  have hnonneg := hf.nonneg
  have hlong := hf.isLong
  rw [Int.tdiv_eq_ediv_of_nonneg hnonneg, wrap64_of_isLong (by omega)]
  omega

lemma wp_prepareCreate_gas (kind : CreateKind) (h : Spends f0 f) : wp (prepareCreate kind)
      (fun r f' => Spends f0 f' ∧ ∀ c, r = .ok c → 0 ≤ c.gas ∧ f'.contract.gas + c.gas ≤ f0.contract.gas)
      (fun _ f' => Spends f0 f') f := by
  unfold prepareCreate
  rw [wp_bind, wp_gets]
  refine .ite (fun _ => .pure ⟨h, nofun⟩) fun _ => ?_
  have hend : ∀ (_ : JavaException) (f' : Frame), Idle f f' → Spends f0 f' :=
    fun _ _ hi => Idle.trans_spends h hi
  refine keeps_pop.wp_then (refl_of Idle f) hend fun value f1 h1 => ?_
  refine keeps_pop.wp_then h1 hend fun w1 f2 h2 => ?_
  refine Keeps.wp_then (.liftM _) h2 hend fun offset f3 h3 => ?_
  refine keeps_pop.wp_then h3 hend fun w2 f4 h4 => ?_
  refine Keeps.wp_then (.liftM _) h4 hend fun size f5 h5 => ?_
  refine (keeps_memoryRead _ _).wp_then h5 hend fun input f6 h6 => ?_
  have h6 := Idle.trans_spends h h6
  rw [wp_bind, wp_gets, wp_bind]
  obtain ⟨hgas, hall⟩ := allButOne64th h6.metered
  generalize wrap64 (f6.contract.gas - f6.contract.gas.tdiv 64) = gas at *
  refine wp_useGas_paid h6.metered hgas (fun hlt => absurd hall (not_le.mpr hlt)) fun hpaid => ?_
  have hleft := h6.trans hpaid
  have hsum : (f6.paid gas).contract.gas + gas ≤ f0.contract.gas := by
    have := h6.le
    show f6.contract.gas - gas + gas ≤ _
    omega
  cases kind with
  | create =>
    rw [wp_bind, wp_pure, wp_pure]
    refine ⟨hleft, ?_⟩
    rintro c ⟨⟩
    exact ⟨hgas, hsum⟩
  | create2 =>
    refine keeps_pop.wp_then (refl_of Idle _) (fun _ _ => Idle.trans_spends hleft) fun salt f7 h7 => ?_
    refine .pure ⟨Idle.trans_spends hleft h7, ?_⟩
    rintro c ⟨⟩
    exact ⟨hgas, by rw [h7.contract]; exact hsum⟩

lemma wp_finishCreate_gas (hf0 : f0.Metered) (h : Spends f0 f)
    (hgas : 0 ≤ r.gas) (hsum : f.contract.gas + r.gas ≤ f0.contract.gas) :
    SpendsIn f0 (finishCreate r) f :=
  (steps_push _).keeps.wp_then (refl_of Idle f) (fun _ _ => Idle.trans_spends h) fun _ _ =>
    wp_addGas_then hf0 h hgas hsum

end Nested

/-! ## The frame contract -/

/-- THE FRAME CONTRACT. A nested frame that is `ok` spends at least its `cost`, and returns
between nothing and the rest of its gas. -/
structure Thrifty (calls : Calls) (ok : Nested → Prop) (cost : Nested → Int) : Prop where
  cost_nonneg : ∀ x, 0 ≤ cost x
  cost_le : ∀ x, ok x → 0 ≤ x.gas → x.gas ≤ 9223372036854775807 → cost x ≤ x.gas
  returns : ∀ x, ok x → 0 ≤ x.gas → x.gas ≤ 9223372036854775807 →
    wpRet (x.program calls) (fun r _ => 0 ≤ r.gas ∧ cost x + r.gas ≤ x.gas) x.world

/-- The cost of the nested frame that an instruction opens, if any. -/
def openedCost (cost : Nested → Int) : Option Nested → Int
  | some x => cost x
  | none => 0

/-- What the next turn of a frame costs. -/
def Frame.cost (m : Machine) (cost : Nested → Int) (f : Frame) : Int :=
  f.ticks m + openedCost cost (f.opens m)

/-- The end of a call or create instruction gives back no more gas than the nested frame left. -/
def FinishesWithin (finish : VmResult → Java Frame FnResult) : Prop :=
  ∀ {f0 f : Frame} {r : VmResult}, f0.Metered → Spends f0 f → 0 ≤ r.gas →
    f.contract.gas + r.gas ≤ f0.contract.gas → SpendsIn f0 (finish r) f

variable {x : Nested}

lemma opened_spends (hs : m.cfg.Sound) {f0 : Frame} (hf0 : f0.Metered) (hf : Spends f0 f)
    (hready : ∀ kind, op = .call kind → CallReady m kind f0 f)
    (hx : openedBy m op f = some x) :
    ∃ f1 finish, Opening m op f x f1 finish ∧ FinishesWithin finish ∧ Spends f0 f1 ∧ 0 ≤ x.gas ∧
      f1.contract.gas + x.gas ≤ f0.contract.gas := by
  rcases openedBy_eq_some hx with ⟨kind, c, f1, rfl, hprep, rfl⟩ | ⟨kind, c, f1, rfl, hprep, rfl⟩
  · obtain ⟨h1, hc⟩ := (wp_prepareCall_gas hs hf0 hf (hready kind rfl)).of_ok hprep
    exact ⟨f1, _, opening_call hprep, wp_finishCall_gas, h1, hc c rfl⟩
  · obtain ⟨h1, hc⟩ := (wp_prepareCreate_gas kind hf).of_ok hprep
    exact ⟨f1, _, opening_create hprep, wp_finishCreate_gas, h1, hc c rfl⟩

lemma opened_gas (hs : m.cfg.Sound) {f0 : Frame} (hf0 : f0.Metered) (hf : Spends f0 f)
    (hready : ∀ kind, op = .call kind → CallReady m kind f0 f)
    (hx : openedBy m op f = some x) : 0 ≤ x.gas ∧ x.gas ≤ f0.contract.gas := by
  obtain ⟨f1, _, _, _, h1, hgas, hsum⟩ := opened_spends hs hf0 hf hready hx
  have hnonneg := h1.metered.nonneg
  omega

section Turn

variable {m : Machine} {calls : Calls} {ok : Nested → Prop} {cost : Nested → Int} (h : Thrifty calls ok cost)
include h

variable {f f0 : Frame}

lemma spends_nested {finish : VmResult → Java Frame FnResult} (hf0 : f0.Metered)
    (hf : Spends f0 f) (hok : ok x) (hx : 0 ≤ x.gas)
    (hsum : f.contract.gas + x.gas ≤ f0.contract.gas) (hworld : x.world = f.world)
    (hfinish : FinishesWithin finish) :
    cost x ≤ f0.contract.gas ∧ wp (do let r ← onWorld (x.program calls); finish r)
        (fun _ f' => Spends (f0.paid (cost x)) f') (fun _ f' => Spends f0 f') f := by
  have hnonneg := hf.metered.nonneg
  have hmax := hf0.isLong
  have hcost0 := h.cost_nonneg x
  have hcost := h.cost_le x hok hx (by omega)
  have hpaid : (f0.paid (cost x)).Metered := hf0.paid hcost0 (by omega)
  refine ⟨by omega, ?_⟩
  rw [wp_bind, wp_onWorld, ← hworld]
  refine (h.returns x hok hx (by omega)).mono ?_ ?_
  · rintro r w' ⟨hr0, hr⟩
    have hidle : Idle f { f with world := w' } := ⟨rfl, rfl, rfl⟩
    have hleft : Spends (f0.paid (cost x)) { f with world := w' } := by
      refine ⟨(hidle.spends hf.metered).metered, ?_⟩
      show f.contract.gas ≤ f0.contract.gas - cost x
      omega
    refine (hfinish hpaid hleft hr0 ?_).mono (fun _ _ h' => h') (fun _ f' h' => ?_)
    · show f.contract.gas + r.gas ≤ f0.contract.gas - cost x
      omega
    · refine ⟨h'.metered, le_trans h'.le ?_⟩
      show f0.contract.gas - cost x ≤ f0.contract.gas
      omega
  · intro _ w' _
    exact Idle.trans_spends hf ⟨rfl, rfl, rfl⟩

omit h in
lemma spends_unopened (hf0 : f0.Metered) {p : Java Frame FnResult} {o : Option Nested}
    (ho : o = none) (hp : SpendsIn f0 p f) :
    openedCost cost o ≤ f0.contract.gas ∧
      wp p (fun _ f' => Spends (f0.paid (openedCost cost o)) f') (fun _ f' => Spends f0 f') f := by
  subst ho
  exact ⟨hf0.nonneg, hp.post fun _ _ => Spends.paid_zero⟩

lemma spends_locateFn (hs : m.cfg.Sound) {op : Op} (hf : f.Metered)
    (hcharged : Charged m op f f1) (hok : ∀ x, openedBy m op f1 = some x → ok x) :
    op.ticks + openedCost cost (openedBy m op f1) ≤ f.contract.gas ∧ wp (locateFn m calls op)
        (fun _ f' => Spends (f.paid (op.ticks + openedCost cost (openedBy m op f1))) f')
        (fun _ f' => Spends f f') f1 := by
  have hticks : (0 : Int) ≤ op.ticks := Int.natCast_nonneg _
  have hle := hcharged.spends.le
  have hnonneg := hcharged.spends.metered.nonneg
  have hleft : (f.paid op.ticks).contract.gas = f.contract.gas - op.ticks := rfl
  have hf0 : (f.paid op.ticks).Metered := hf.paid hticks (by omega)
  have hkey : openedCost cost (openedBy m op f1) ≤ (f.paid op.ticks).contract.gas ∧
      wp (locateFn m calls op)
        (fun _ f' => Spends ((f.paid op.ticks).paid (openedCost cost (openedBy m op f1))) f')
        (fun _ f' => Spends (f.paid op.ticks) f') f1 := by
    have hready := fun kind hk => hcharged.call kind hk
    cases hx : openedBy m op f1 with
    | none =>
      refine spends_unopened hf0 rfl (wp_unopened hx (fun hlocal => ?_) ?_ ?_)
      · exact ((idle_locateFn m calls hlocal).wp f1).mono (fun _ _ => Idle.trans_spends hcharged.spends)
          (fun _ _ => Idle.trans_spends hcharged.spends)
      · intro kind hkind
        exact (wp_prepareCall_gas hs hf0 hcharged.spends (hready kind hkind)).mono
          (fun _ _ h => h.1) (fun _ _ h => h)
      · exact fun kind _ => (wp_prepareCreate_gas kind hcharged.spends).mono
          (fun _ _ h => h.1) (fun _ _ h => h)
    | some x =>
      obtain ⟨f2, finish, hopening, hfinish, h2, hgas, hsum⟩ := opened_spends hs hf0 hcharged.spends hready hx
      have hnested := spends_nested h hf0 h2 (hok x hx) hgas hsum hopening.world hfinish
      exact ⟨hnested.1, .of_apply_eq (hopening.run calls) hnested.2⟩
  refine ⟨by omega, hkey.2.mono (fun _ f' h' => ⟨h'.metered, ?_⟩) (fun _ f' h' => ⟨h'.metered, ?_⟩)⟩
  · have : f'.contract.gas ≤ f.contract.gas - op.ticks - openedCost cost (openedBy m op f1) := h'.le
    show _ ≤ f.contract.gas - (op.ticks + openedCost cost (openedBy m op f1))
    omega
  · have := h'.le
    omega

omit h in
lemma spends_uncharged (hf : f.Metered) (hnone : f.charged m = none)
    (hturn : SpendsIn f (turn m calls) f) :
    f.cost m cost ≤ f.contract.gas ∧
      wp (turn m calls) (fun _ f' => Spends (f.paid (f.cost m cost)) f') (fun _ f' => Spends f f') f := by
  have hcost : f.cost m cost = 0 := by
    unfold Frame.cost Frame.ticks Frame.opens
    rw [hnone]
    rfl
  rw [hcost]
  exact ⟨hf.nonneg, hturn.post fun _ _ => Spends.paid_zero⟩

omit h in
lemma spends_turn_of_runStep (hf : f.Metered)
    (hstep : wp (runStep m calls f.opcode) (fun _ f' => Spends f0 f') (fun _ f' => Spends f f') f) :
    wp (turn m calls) (fun _ f' => Spends f0 f') (fun _ f' => Spends f f') f :=
  wp_turn_of (fun _ _ => .refl hf) fun _ => hstep.mono
    (fun _ f' h' => ⟨fun _ => h', fun _ => Idle.trans_spends h' (Pcwise.pc f' _)⟩) (fun _ _ h' => h')

/-- ONE TURN SPENDS WHAT IT COSTS, where the fee of its instruction is not negative. -/
theorem spends_turn (hp : m.Priced) (hf : f.Metered)
    (hfee : getOPCode f.pc f = .ok f.opcode f → ∀ op, f.currentOp m = some op → FeeNonneg m op f)
    (hok : ∀ x, f.opens m = some x → ok x) :
    f.cost m cost ≤ f.contract.gas ∧
      wp (turn m calls) (fun _ f' => Spends (f.paid (f.cost m cost)) f') (fun _ f' => Spends f f') f := by
  rcases getOPCode_apply f with hget | ⟨e, hget⟩
  swap
  · refine spends_uncharged hf (by simp only [charged, hget]) ?_
    have herr : turn m calls f = .err e f := by
      unfold turn
      rw [gets_bind, bind_of_err hget]
    exact .of_apply_err herr (.refl hf)
  cases hop : m.cfg.locateOpCode f.opcode with
  | none =>
    refine spends_uncharged hf (by simp only [charged, hget, hop]) (spends_turn_of_runStep hf ?_)
    unfold runStep
    rw [hop]
    exact .pure (.refl hf)
  | some op =>
    have hpay := wp_charge hp hf (hfee hget op hop)
    cases hrun : charge m op f with
    | ok r f1 =>
      obtain ⟨hspends, hcharged⟩ := hpay.of_ok hrun
      cases r with
      | some st =>
        refine spends_uncharged hf (by simp only [charged, hget, hop, hrun]) (spends_turn_of_runStep hf ?_)
        exact .of_apply_eq (runStep_of_unpaid hop hrun) (.pure hspends)
      | none =>
        have hsome : f.charged m = some (op, f1) := by simp only [charged, hget, hop, hrun]
        have hopens : f.opens m = openedBy m op f1 := by simp only [opens, hsome]; rfl
        have hcost : f.cost m cost = op.ticks + openedCost cost (openedBy m op f1) := by
          simp only [Frame.cost, Frame.ticks, hopens, hsome]
        rw [hopens] at hok
        rw [hcost]
        have hfn := spends_locateFn h hp.sound hf (hcharged rfl) hok
        exact ⟨hfn.1, spends_turn_of_runStep hf (.of_apply_eq (runStep_of_paid hop hrun) hfn.2)⟩
    | err e f1 =>
      refine spends_uncharged hf (by simp only [charged, hget, hop, hrun]) (spends_turn_of_runStep hf ?_)
      exact .of_apply_err (runStep_of_err hop hrun) (hpay.of_err hrun)
    | diverge => exact absurd hrun ((ends_charge m op).ends.ends f)

end Turn

/-! ## Frames -/

section Frames

variable {m : Machine}

lemma thrifty_end {limit : Int} (hr : 0 ≤ r.gas ∧ r.gas ≤ limit) (w : World) :
    wpRet (endStateTransaction m r) (fun r' _ => 0 ≤ r'.gas ∧ r'.gas ≤ limit) w := by
  refine wp_end_of (fun _ => .always fun _ _ => ?_) fun _ =>
    .always fun _ _ => .always fun _ _ => hr
  split
  · exact hr
  · exact ⟨le_refl 0, le_trans hr.1 hr.2⟩

lemma callContract_gas {a : CallArgs} {code : Bytes} {c : Contract}
    (h : callContract a code = .ok c) : c.gas = a.gas := by
  unfold callContract Contract.asDelegate at h
  cases hk : a.kind with
  | delegateCall =>
    rw [hk] at h
    cases hc : a.caller with
    | account x v => simp [Contract.new, hc] at h
    | contract x v parent =>
      simp only [Contract.new, hc] at h
      cases h
      rfl
  | _ => rw [hk] at h; cases h; rfl

variable (hs : m.cfg.Sound)
include hs

lemma runPrecompiledContract_gas {p : Precompile} {input : Bytes}
    {r : FnResult × Int} (hgas : 0 ≤ gas) (hmax : gas ≤ 9223372036854775807)
    (h : runPrecompiledContract m p input gas = .ok r) : 0 ≤ r.2 ∧ r.2 ≤ gas := by
  obtain ⟨cost, hcost, h⟩ := Checked.bind_eq_ok.mp h
  have hnonneg := requiredGas_nonneg hs hcost
  split at h
  · obtain rfl := Except.ok.inj h
    exact ⟨hgas, le_refl _⟩
  · obtain ⟨rc, _, h⟩ := Checked.bind_eq_ok.mp h
    obtain rfl := Except.ok.inj h
    show 0 ≤ wrap64 (gas - cost) ∧ wrap64 (gas - cost) ≤ gas
    rw [wrap64_of_isLong (by omega)]
    omega

lemma thrifty_storeCode (x : Address) (rc : FnResult) (hgas : 0 ≤ gas)
    (hmax : gas ≤ 9223372036854775807) (w : World) :
    wpRet (storeCode m x rc gas) (fun r _ => 0 ≤ r.2 ∧ r.2 ≤ gas) w := by
  have hsame : ∀ rc' : FnResult, ∀ w, wpRet (pure (rc', gas) : Java World (FnResult × Int))
      (fun r _ => 0 ≤ r.2 ∧ r.2 ≤ gas) w :=
    fun _ _ => .pure ⟨hgas, le_refl _⟩
  unfold storeCode
  refine .ite (fun _ => hsame _ w) fun _ => ?_
  cases rc.output with
  | none => exact (wp_raise _).mpr trivial
  | some output =>
    show wp (if _ then _ else _) _ _ w
    refine .ite (fun _ => hsame _ w) fun _ => ?_
    refine .ite (fun _ => hsame _ w) fun _ => ?_
    rw [wp_bind, wp_liftM]
    refine ⟨fun price hprice => ?_, fun _ _ => trivial⟩
    have hp := (hs.lookForGasPrice hprice).1
    refine .ite (fun _ => hsame _ w) fun hpay => ?_
    refine wp_skip fun _ _ => .pure ?_
    show 0 ≤ wrap64 (gas - price) ∧ wrap64 (gas - price) ≤ gas
    rw [wrap64_of_isLong (by omega)]
    omega

/-- What is left of the gas where a frame ends before its code runs, or what its code gets. -/
def Entry.Within (limit : Int) : Entry → Prop
  | .done r | .ended r => 0 ≤ r.gas ∧ r.gas ≤ limit
  | .code c => c.gas = limit

lemma within_entry (hgas : 0 ≤ x.gas) (hmax : x.gas ≤ 9223372036854775807) :
    wpRet (x.entry m) (fun e _ => e.Within x.gas) x.world := by
  have hall : 0 ≤ x.gas ∧ x.gas ≤ x.gas := ⟨hgas, le_refl _⟩
  cases x with
  | call a w =>
    refine wp_callEntry_of (fun _ _ => hall) fun _ => .always fun _ _ => ?_
    exact ⟨hall, hall, fun _ _ => runPrecompiledContract_gas hs hgas hmax, fun _ _ _ => callContract_gas⟩
  | create a w =>
    exact wp_createEntry_of (fun _ _ _ _ => hall) fun _ _ _ =>
      .always fun _ _ => rfl

lemma within_exit (x : Nested) (c : Contract) (rc : FnResult) {c' : Contract}
    (hgas : 0 ≤ c'.gas) (hmax : c'.gas ≤ 9223372036854775807) (w : World) :
    wpRet (x.exit m c rc c') (fun r _ => 0 ≤ r.gas ∧ r.gas ≤ c'.gas) w := by
  cases x with
  | call a _ =>
    show wp (callExit a rc c') _ _ w
    unfold callExit
    exact wp_skip fun _ _ => .pure ⟨hgas, le_refl _⟩
  | create a _ =>
    show wp (createExit m c.self rc c') _ _ w
    unfold createExit
    rw [wp_bind]
    refine (thrifty_storeCode hs c.self rc hgas hmax w).returned ?_
    rintro ⟨rc', gas⟩ w1 hleft
    exact wp_skip fun _ _ => .pure hleft

lemma thrifty_program (run : Runner) (cost : Int) (hgas : 0 ≤ x.gas)
    (hmax : x.gas ≤ 9223372036854775807) (hcost : 0 ≤ cost)
    (hnone : (∀ c w1, x.entry m x.world ≠ .ok (.code c) w1) → cost = 0)
    (hrun : ∀ c w1, x.entry m x.world = .ok (.code c) w1 → c.gas = x.gas →
      wpRet (run c x.input x.readOnly) (fun r _ => 0 ≤ r.2.gas ∧ cost + r.2.gas ≤ x.gas) w1) :
    wpRet (x.program (framesOver m run)) (fun r _ => 0 ≤ r.gas ∧ cost + r.gas ≤ x.gas) x.world := by
  rw [Nested.program_eq]
  refine wp_framed (((within_entry hs hgas hmax).and (wp.self _ _)).returned ?_)
  rintro e w1 ⟨hwithin, he⟩
  cases e with
  | done r =>
    obtain ⟨h0, h1⟩ := hwithin
    refine ⟨h0, ?_⟩
    rw [hnone fun c w2 h' => nomatch he.symm.trans h']
    omega
  | ended r =>
    rw [hnone fun c w2 h' => nomatch he.symm.trans h']
    exact (thrifty_end hwithin w1).returned (fun _ _ h' => ⟨h'.1, by omega⟩)
  | code c =>
    have hcgas : c.gas = x.gas := hwithin
    refine (wp_runContract (E := fun _ => True) (hrun c w1 he hcgas)).returned ?_
    rintro ⟨rc, c'⟩ w2 ⟨h0, h1⟩
    have h1 : cost + c'.gas ≤ x.gas := h1
    refine (within_exit hs x c rc h0 (by show c'.gas ≤ _; omega) w2).returned ?_
    rintro r w3 ⟨hr0, hr1⟩
    have hleft : r.gas ≤ x.gas - cost := by omega
    refine (thrifty_end ⟨hr0, hleft⟩ w3).returned (fun _ _ h' => ⟨h'.1, ?_⟩)
    omega

end Frames

/-- The guard: the lengths that instructions pay for fit. -/
def meteredGuard (m : Machine) : Guard where
  instruction f :=
    match f.currentOp m with
    | some op => lengthsFit m op f
    | none => true
  call _ _ := true
  create _ _ := true

lemma meteredGuard_fee (hs : m.cfg.Sound) (hf : f.Metered)
    (h : (meteredGuard m).instruction f = true) (op : Op) (hop : f.currentOp m = some op) :
    FeeNonneg m op f := by
  refine feeNonneg_of_fits hs ?_ hf (by simpa only [meteredGuard, hop] using h)
  rintro n rfl
  exact decode_log hop

/-- Every frame is thrifty. -/
abbrev ThriftyAll (calls : Calls) : Prop := Thrifty calls (fun _ => True) (fun _ => 0)

lemma ThriftyAll.program {calls : Calls} (h : ThriftyAll calls) (x : Nested) (hgas : 0 ≤ x.gas)
    (hmax : x.gas ≤ 9223372036854775807) :
    wpRet (x.program calls) (fun r _ => 0 ≤ r.gas ∧ r.gas ≤ x.gas) x.world :=
  (h.returns x trivial hgas hmax).post fun r _ hr => ⟨hr.1, by have := hr.2; omega⟩

section Guarded

variable {m : Machine} (hp : m.Priced) {g : Guard}
  (hg : ∀ f, g.instruction f = true → (meteredGuard m).instruction f = true)
include hp

lemma ThriftyAll.spends_turn {calls : Calls} (h : ThriftyAll calls) {f : Frame} (hf : f.Metered)
    (hguard : (meteredGuard m).instruction f = true) :
    SpendsIn f (turn m calls) f := by
  have hturn := (GrapeDag.spends_turn h hp hf (fun _ => meteredGuard_fee hp.sound hf hguard)
    (fun _ _ => trivial)).2
  refine hturn.post (fun _ f' h' => ⟨h'.metered, le_trans h'.le ?_⟩)
  have hopened : ∀ o, openedCost (fun _ => 0) o = 0 := by
    intro o
    cases o <;> rfl
  show f.contract.gas - (f.ticks m + openedCost (fun _ => 0) (f.opens m)) ≤ f.contract.gas
  rw [hopened]
  omega

include hg

/-- EVERY FRAME IS THRIFTY, at every depth of every run whose lengths fit. -/
theorem thrifty_vm (n : Nat) : ThriftyAll (vmGuarded m g n) := by
  refine vm_rule (P := ThriftyAll) ?_ ?_ n
  · refine ⟨fun _ => le_refl 0, fun x _ hgas _ => hgas, fun x _ _ _ => ?_⟩
    cases x <;> exact wp_diverging.mpr trivial
  intro calls fuel h
  refine ⟨fun _ => le_refl 0, fun x _ hgas _ => hgas, fun x _ hgas hmax => ?_⟩
  -- the main loop stays at or below the gas it starts with
  have hprogram := thrifty_program hp.sound (run (g.turn m calls) fuel) 0 hgas hmax (le_refl 0)
    (fun _ => rfl) fun c w1 _ hc => ?_
  · cases x with
    | call a w | create a w => exact Guard.wp_step fun _ => hprogram
  refine wp_run_contract (Q := fun _ c' => 0 ≤ c'.gas ∧ 0 + c'.gas ≤ x.gas) (fun _ => by omega)
    fun s hs => ?_
  have hstart : s.Metered ∧ s.contract.gas = x.gas := by
    unfold startOn at hs
    split at hs <;> cases hs
    exact ⟨⟨⟨le_refl 0, le_refl 0⟩, by show 0 ≤ c.gas; omega, by show c.gas ≤ _; omega⟩, hc⟩
  have hloop : wpRet (Prog.loop (g.turn m calls) fuel) (fun _ f => Spends s f) s := by
    refine wp_loop (I := fun f => Spends s f) (fun f hf => ?_) fuel s (.refl hstart.1)
    refine Guard.wp_step fun hinstr => ?_
    refine (h.spends_turn hp hf.metered (hg f hinstr)).returned ?_
    intro r f' hf'
    cases r <;> exact hf.trans hf'
  refine hloop.returned (fun _ f hf => ⟨hf.metered.nonneg, ?_⟩)
  have := hf.le
  omega

end Guarded

/-! ## Gas is never minted -/

/-- A turn of a frame's loop that meets the guard, in itself and in the frames it opens. -/
def TurnMeets (m : Machine) (g : Guard) (n : Nat) (f : Frame) : Prop :=
  g.instruction f = true ∧ turn m (vmGuarded m g n) f = turn m (vm m n) f

/-- **GAS IS NEVER MINTED** where the lengths fit: no dynamic fee is negative, no turn of a frame's
loop raises the frame's gas, and a frame that returns has between nothing and all of its gas left.
-/
theorem gas_never_minted (m : Machine) (timestamp : Int) (hcfg : m.cfg = configAt timestamp) :
    (∀ (f : Frame) (op : Op) (handler : Java Frame Int), f.Metered → f.currentOp m = some op →
      gasHandler m op = some handler → lengthsFit m op f = true →
      ∀ fee f', handler f = .ok fee f' → 0 ≤ fee) ∧
    (∀ (n : Nat) (f : Frame), f.Metered → TurnMeets m (meteredGuard m) n f →
      ∀ r f', turn m (vm m n) f = .ok r f' → f'.Metered ∧ f'.contract.gas ≤ f.contract.gas) ∧
    (∀ (n : Nat) (a : CallArgs) (w : World), 0 ≤ a.gas → IsLong a.gas →
      CallMeets m (meteredGuard m) n a w →
      ∀ r w', (vm m n).executeCall a w = .ok r w' → 0 ≤ r.gas ∧ r.gas ≤ a.gas) ∧
    (∀ (n : Nat) (a : CreateArgs) (w : World), 0 ≤ a.gas → IsLong a.gas →
      CreateMeets m (meteredGuard m) n a w →
      ∀ r w', (vm m n).create a w = .ok r w' → 0 ≤ r.gas ∧ r.gas ≤ a.gas) := by
  have hp : m.Priced := priced_of_configAt hcfg
  have hs := hp.sound
  have hthrifty : ∀ n, ThriftyAll (vmGuarded m (meteredGuard m) n) := thrifty_vm hp fun _ h => h
  refine ⟨?_, ?_, ?_, ?_⟩
  · intro f op handler hf hop hh hfit fee f' hrun
    have hlog : ∀ n, op = .log n → n ≤ 4 := by
      rintro n rfl
      exact decode_log hop
    exact ((charges_gasHandler hs hf.counted hh hlog hfit).of_ok hrun).1
  · intro n f hf hmeets r f' hrun
    have hspends := ((hthrifty n).spends_turn hp hf hmeets.1).of_ok (hmeets.2.trans hrun)
    exact ⟨hspends.metered, hspends.le⟩
  · intro n a w hgas hlong hmeets r w' hrun
    exact ((hthrifty n).program (.call a w) hgas hlong.2).of_ok (hmeets.trans hrun)
  · intro n a w hgas hlong hmeets r w' hrun
    exact ((hthrifty n).program (.create a w) hgas hlong.2).of_ok (hmeets.trans hrun)

/-- `PUSH4 length, PUSH1 0, SHA3, STOP` -/
def sha3Code (b3 b2 b1 b0 : UInt8) : Bytes := [0x63, b3, b2, b1, b0, 0x60, 0, 0x20, 0]

/-- Hashing `2^31` bytes costs a NEGATIVE fee: a call with 1000 units of gas returns with more than
400 million. -/
theorem sha3_mints_gas :
    ∃ r w', (vm .sample 5).executeCall (.sample 1000 0) (.sampleWith 0 (sha3Code 0x80 0 0 0))
      = .ok r w' ∧ r.gas = 402654142 := by
  decide +kernel

theorem sha3_pays :
    ∃ r w', (vm .sample 5).executeCall (.sample 1000 0) (.sampleWith 0 (sha3Code 0 0 0 32))
      = .ok r w' ∧ 0 ≤ r.gas ∧ r.gas ≤ 1000 := by
  obtain ⟨hmeets, r, w', hrun, -⟩ :=
    ((vmGuarded_below .sample (meteredGuard .sample) 5).executeCall (.sample 1000 0)).returns
      (s := .sampleWith 0 (sha3Code 0 0 0 32)) (P := fun _ _ => True) (by decide +kernel)
  exact ⟨r, w', hrun, (gas_never_minted .sample 1700000000 rfl).2.2.1 5 (.sample 1000 0) _
    (by decide) (by decide) hmeets r w' hrun⟩

end GrapeDag
