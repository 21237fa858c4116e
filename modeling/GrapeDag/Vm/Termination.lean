/-
GAS BOUNDS THE RUN.

Every instruction that is not halting costs something, and a nested frame lives on gas that was
taken from the frame that opened it. So a message can execute no more such instructions, summed
over all its frames, than it has gas, and every loop comes to an end.

Main result: `bounded_execution`.
-/
import GrapeDag.Vm.GasSafety
import GrapeDag.Vm.Message

namespace GrapeDag

open Imperative GrapeDag.Frame Prog

/-! ## Sums over a run -/

/-- The sum of `p` over the turns of a main loop, and of `nested` over the frames it opens. -/
def loopSum (m : Machine) (calls : Calls) (p : Frame → Nat) (nested : Nested → Nat) :
    Nat → Frame → Nat
  | 0, _ => 0
  | fuel + 1, f =>
      p f + ((f.opens m).elim 0 nested) +
        match turn m calls f with
        | .ok none f' => loopSum m calls p nested fuel f'
        | _ => 0

/-- The sum of `p` over all turns of a frame's run under `vm m n`, nested frames included. -/
def frameSum (m : Machine) (p : Frame → Nat) : Nat → Nested → Nat
  | 0, _ => 0
  | n + 1, x => (x.start m).elim 0 (loopSum m (vm m n) p (frameSum m p n) n)

variable {f : Frame}

/-- No turn and no nested frame counts. -/
lemma loopSum_succ_eq_zero {m : Machine} {calls : Calls} {p : Frame → Nat} {nested : Nested → Nat}
    {fuel : Nat} (h : loopSum m calls p nested (fuel + 1) f = 0) :
    p f = 0 ∧ (f.opens m).elim 0 nested = 0 ∧
      ∀ f', turn m calls f = .ok none f' → loopSum m calls p nested fuel f' = 0 := by
  unfold loopSum at h
  refine ⟨by omega, by omega, fun f' hrun => ?_⟩
  rw [hrun] at h
  simp only at h
  omega

def Frame.overdraws (m : Machine) (f : Frame) : Bool :=
  match getOPCode f.pc f with
  | .ok opCode _ =>
      match m.cfg.locateOpCode opCode with
      | none => false
      | some op =>
          match useGas (m.cfg.staticFee op) f, gasHandler m op with
          | .ok true f1, some handler => (handler f1).returns fun fee _ => fee < 0
          | _, _ => false
  | _ => false

def overdrafts (m : Machine) : Nat → Nested → Nat := frameSum m fun f => if f.overdraws m then 1 else 0

/-- How many instructions the run executes that are not halting. -/
def executed (m : Machine) : Nat → Nested → Nat := frameSum m (Frame.ticks m)

lemma feeNonneg_of_overdraws {m : Machine} (hf : f.Metered)
    (h : f.overdraws m = false) (hget : getOPCode f.pc f = .ok f.opcode f) (op : Op)
    (hop : f.currentOp m = some op) (hs : m.cfg.Sound) : FeeNonneg m op f := by
  intro handler fee f' hafford hh hrun
  have huse : useGas (m.cfg.staticFee op) f = .ok true (f.paid (m.cfg.staticFee op)) := by
    have hnonneg := (hs.staticFee_nonneg op).1
    have hmax := hf.isLong
    unfold useGas
    rw [if_neg (by omega), wrap64_of_isLong (by omega)]
    rfl
  have hop' : m.cfg.locateOpCode f.opcode = some op := hop
  simp only [overdraws, hget, hop', huse, hh, hrun, Outcome.returns, decide_eq_false_iff_not] at h
  omega

/-! ## Turns that go on -/

section Turn

variable {m : Machine} {calls : Calls} {f f' : Frame}

lemma halting_ends {op : Op} (h : op.isHalting = true) (f : Frame) :
    wpRet (locateFn m calls op) (fun rc _ => rc.hasError ∨ rc.status = .stopToken) f := by
  -- the status is a constant; what is computed before it does not matter
  have hlast : ∀ {α : Type} (p : Java Frame α) {k : α → Java Frame FnResult} (f : Frame),
      (∀ a f1, wpRet (k a) (fun rc _ => rc.hasError ∨ rc.status = .stopToken) f1) →
      wpRet (p >>= k) (fun rc _ => rc.hasError ∨ rc.status = .stopToken) f :=
    fun p _ f hk => wp_bind.mpr (.always hk)
  cases op with
  | stop => exact .pure (.inr rfl)
  | return_ =>
    exact hlast _ f fun _ _ => hlast _ _ fun _ _ => hlast _ _ fun _ _ => .pure (.inr rfl)
  | revert =>
    exact hlast _ f fun _ _ => hlast _ _ fun _ _ => hlast _ _ fun _ _ => hlast _ _ fun _ _ =>
      .pure (.inl rfl)
  | selfDestruct =>
    refine hlast _ f fun readOnly f1 => wp_ite.mpr ⟨fun _ => .pure (.inl rfl), fun _ => ?_⟩
    exact hlast _ f1 fun _ _ => hlast _ _ fun _ _ => hlast _ _ fun _ _ => hlast _ _ fun _ _ =>
      hlast _ _ fun _ _ => .pure (.inr rfl)
  | _ => cases h

def turnOutcome : Outcome JavaException Frame FnResult → Outcome JavaException Frame (Option FnResult)
  | .ok rc f =>
      if rc.hasError ∨ rc.status = .stopToken then .ok (some rc) f
      else .ok none { f with pc := wrap64 (f.pc + 1) }
  | .err e f => .err e f
  | .diverge => .diverge

lemma turn_of_step (hget : getOPCode f.pc f = .ok f.opcode f) :
    turn m calls f = turnOutcome (runStep m calls f.opcode f) := by
  rw [turn_apply hget, bind_apply]
  cases runStep m calls f.opcode f with
  | ok rc f1 =>
    show (if _ then _ else _ : Java Frame (Option FnResult)) f1 = if _ then _ else _
    split <;> rfl
  | err e f1 | diverge => rfl

lemma turn_cases (m : Machine) (calls : Calls) (f : Frame) :
    (∃ op f1, f.charged m = some (op, f1) ∧ getOPCode f.pc f = .ok f.opcode f ∧
      runStep m calls f.opcode f = locateFn m calls op f1) ∨
    ((∃ rc f', turn m calls f = .ok (some rc) f') ∨ ∃ e f', turn m calls f = .err e f') := by
  rcases getOPCode_apply f with hget | ⟨e, hget⟩
  swap
  · refine .inr (.inr ⟨e, f, ?_⟩)
    unfold turn
    rw [gets_bind, bind_of_err hget]
  have hfail : ∀ (st : VmStatus) f1, st.isFailure = true → runStep m calls f.opcode f = .ok ⟨st, none⟩ f1 →
      ∃ rc f', turn m calls f = .ok (some rc) f' := by
    intro st f1 hst hstep
    refine ⟨⟨st, none⟩, f1, ?_⟩
    rw [turn_of_step hget, hstep]
    exact if_pos (.inl hst)
  cases hop : m.cfg.locateOpCode f.opcode with
  | none =>
    refine .inr (.inl (hfail .invalidInstruction f rfl ?_))
    unfold runStep
    rw [hop]
    rfl
  | some op =>
    cases hrun : charge m op f with
    | ok r f1 =>
      cases r with
      | none =>
        refine .inl ⟨op, f1, ?_, hget, ?_⟩
        · simp only [charged, hget, hop, hrun]
        · exact runStep_of_paid hop hrun
      | some st =>
        refine .inr (.inl (hfail st f1 ?_ (runStep_of_unpaid hop hrun)))
        exact (ends_charge m op).failure f (some st) f1 st hrun rfl
    | err e f1 =>
      refine .inr (.inr ⟨e, f1, ?_⟩)
      rw [turn_of_step hget, runStep_of_err hop hrun]
      rfl
    | diverge => exact absurd hrun ((ends_charge m op).ends.ends f)

lemma ticks_of_turn (h : turn m calls f = .ok none f') : f.ticks m = 1 := by
  rcases turn_cases m calls f with ⟨op, f1, hcharged, hget, hstep⟩ | ⟨rc, f1, hrun⟩ | ⟨e, f1, hrun⟩
  · have hticks : f.ticks m = op.ticks := by simp only [ticks, hcharged]
    rw [hticks]
    unfold Op.ticks
    cases hop : op.isHalting with
    | false => rfl
    | true =>
      rw [turn_of_step hget, hstep] at h
      have hends : wp (locateFn m calls op) _ _ f1 := halting_ends hop f1
      cases hfn : locateFn m calls op f1 with
      | ok rc f2 =>
        rw [hfn, turnOutcome, if_pos (hends.of_ok hfn)] at h
        cases h
      | err e f2 => rw [hfn] at h; cases h
      | diverge => rw [hfn] at h; cases h
  · rw [hrun] at h; cases h
  · rw [hrun] at h; cases h

lemma locateFn_ends {op : Op}
    (h : ∀ x, openedBy m op f = some x → x.program calls x.world ≠ .diverge) :
    locateFn m calls op f ≠ .diverge := by
  have hworld : ∀ {p : Java World VmResult} {f : Frame}, p f.world ≠ .diverge → onWorld p f ≠ .diverge := by
    intro p f hp hd
    unfold onWorld Prog.zoom at hd
    split at hd
    · cases hd
    · cases hd
    · exact hp ‹_›
  by_cases hlocal : op.isLocal = true
  · exact (steps_local (R := Anyhow) m calls hlocal).ends.ends f
  cases op with
  | call kind =>
    refine bind_ne_diverge (ne_diverge f) fun r f1 hrun => ?_
    cases r with
    | error st => exact fun h => by cases h
    | ok c =>
      refine bind_ne_diverge (ne_diverge f1) fun caller f2 hcaller => ?_
      cases hcaller
      refine bind_ne_diverge (hworld (h (.call _ _) ?_)) fun r f3 _ => ne_diverge f3
      simp only [openedBy, hrun]
  | create kind =>
    refine bind_ne_diverge (ne_diverge f) fun r f1 hrun => ?_
    cases r with
    | error st => exact fun h => by cases h
    | ok c =>
      refine bind_ne_diverge (ne_diverge f1) fun caller f2 hcaller => ?_
      cases hcaller
      refine bind_ne_diverge (hworld (h (.create _ _) ?_)) fun r f3 _ => ne_diverge f3
      simp only [openedBy, hrun]
  | _ => exact absurd rfl hlocal

lemma turn_ends (h : ∀ x, f.opens m = some x → x.program calls x.world ≠ .diverge) :
    turn m calls f ≠ .diverge := by
  intro hd
  rcases turn_cases m calls f with ⟨op, f1, hcharged, hget, hstep⟩ | ⟨rc, f1, hrun⟩ | ⟨e, f1, hrun⟩
  · have hfn : locateFn m calls op f1 ≠ .diverge := by
      refine locateFn_ends fun x hx => h x ?_
      simp only [opens, hcharged]
      exact hx
    rw [turn_of_step hget, hstep] at hd
    cases hrun : locateFn m calls op f1 with
    | ok rc f2 =>
      rw [hrun, turnOutcome] at hd
      split at hd <;> cases hd
    | err e f2 => rw [hrun] at hd; cases hd
    | diverge => exact hfn hrun
  · rw [hrun] at hd; cases hd
  · rw [hrun] at hd; cases hd

end Turn

/-! ## Loops -/

section Loop

variable {m : Machine} (hp : m.Priced) {calls : Calls} {bad count : Nested → Nat}
include hp

lemma spends_counted (h : Thrifty calls (fun x => bad x = 0) (fun x => count x))
    (hf : f.Metered) (hover : f.overdraws m = false) (hbad : (f.opens m).elim 0 bad = 0) :
    ((f.ticks m + (f.opens m).elim 0 count : Nat) : Int) ≤ f.contract.gas ∧ wp (turn m calls)
        (fun _ f' => Spends (f.paid ((f.ticks m + (f.opens m).elim 0 count : Nat) : Int)) f')
        (fun _ f' => Spends f f') f := by
  have hcost : f.cost m (fun x => (count x : Int))
      = ((f.ticks m + (f.opens m).elim 0 count : Nat) : Int) := by
    unfold cost
    cases f.opens m <;> rfl
  rw [← hcost]
  refine spends_turn h hp hf (fun hget op hop => ?_) fun x hx => ?_
  · exact feeNonneg_of_overdraws hf hover hget op hop hp.sound
  · rw [hx] at hbad
    exact hbad

lemma opens_gas (hf : f.Metered) (hover : f.overdraws m = false) {x : Nested}
    (hx : f.opens m = some x) : 0 ≤ x.gas ∧ x.gas < f.contract.gas := by
  cases hcharged : f.charged m with
  | none =>
    simp only [opens, hcharged] at hx
    cases hx
  | some p =>
    obtain ⟨op, f1⟩ := p
    have hx : openedBy m op f1 = some x := by
      simp only [opens, hcharged] at hx
      exact hx
    -- only calls and creates open a frame, and both cost something
    have hticks : op.ticks = 1 := by
      cases op <;> first | rfl | cases hx
    obtain ⟨hget, hop, hrun⟩ := charged_eq hcharged
    have hfee := feeNonneg_of_overdraws hf hover hget op hop hp.sound
    have hpaid := ((wp_charge hp hf hfee).of_ok hrun).2 rfl
    have hnonneg := hpaid.spends.metered.nonneg
    have hle := hpaid.spends.le
    have hgas : (f.paid op.ticks).contract.gas = f.contract.gas - 1 := by
      show f.contract.gas - (op.ticks : Int) = _
      rw [hticks]
      rfl
    have hpaidFor : (f.paid op.ticks).Metered :=
      hf.paid (Int.natCast_nonneg _) (by rw [hticks]; push_cast; omega)
    have hopened := opened_gas hp.sound hpaidFor hpaid.spends (fun kind hk => hpaid.call kind hk) hx
    omega

lemma spends_loop (h : Thrifty calls (fun x => bad x = 0) (fun x => count x)) :
    ∀ (fuel : Nat) (f : Frame), f.Metered →
      loopSum m calls (fun f => if f.overdraws m then 1 else 0) bad fuel f = 0 →
      (loopSum m calls (ticks m) count fuel f : Int) ≤ f.contract.gas ∧
        wpRet (Prog.loop (turn m calls) fuel)
          (fun _ f' => Spends (f.paid (loopSum m calls (ticks m) count fuel f)) f') f := by
  intro fuel
  induction fuel with
  | zero =>
    intro f hf _
    exact ⟨hf.nonneg, wp_diverging.mpr trivial⟩
  | succ fuel ih =>
    intro f hf hsum
    obtain ⟨hover, hbad, hrest⟩ := loopSum_succ_eq_zero hsum
    obtain ⟨hle, hturn⟩ := spends_counted hp h hf (by simpa using hover) hbad
    unfold loopSum
    -- by the outcome of the first turn
    cases hrun : turn m calls f with
    | ok r f' =>
      have hf' := hturn.of_ok hrun
      cases r with
      | none =>
        obtain ⟨hle', hloop⟩ := ih f' hf'.metered (hrest f' hrun)
        have hgas' : f'.contract.gas ≤ f.contract.gas
            - ((f.ticks m + (f.opens m).elim 0 count : Nat) : Int) := hf'.le
        refine ⟨by push_cast at *; omega, .of_apply_eq (bind_of_ok hrun) ?_⟩
        refine hloop.returned (fun _ f'' h'' => ⟨h''.metered, ?_⟩)
        have : f''.contract.gas ≤ f'.contract.gas
            - (loopSum m calls (ticks m) count fuel f' : Nat) := h''.le
        show f''.contract.gas ≤ f.contract.gas - _
        push_cast at *
        omega
      | some rc =>
        refine ⟨by simpa using hle, .of_apply_eq (bind_of_ok hrun) (.pure ?_)⟩
        simpa using hf'
    | err e f' => exact ⟨by simpa using hle, .of_apply_err (bind_of_err hrun) trivial⟩
    | diverge => exact ⟨by simpa using hle, .of_apply_diverge (bind_of_diverge hrun)⟩

lemma loop_ends (h : Thrifty calls (fun x => bad x = 0) (fun x => count x)) (limit : Int)
    (hnested : ∀ x, bad x = 0 → 0 ≤ x.gas → x.gas < limit → x.program calls x.world ≠ .diverge) :
    ∀ (fuel : Nat) (f : Frame), f.Metered → f.contract.gas ≤ limit → f.contract.gas < fuel →
      loopSum m calls (fun f => if f.overdraws m then 1 else 0) bad fuel f = 0 →
      Prog.loop (turn m calls) fuel f ≠ .diverge := by
  intro fuel
  induction fuel with
  | zero =>
    intro f hf _ hfuel _
    have := hf.nonneg
    push_cast at hfuel
    omega
  | succ fuel ih =>
    intro f hf hlimit hfuel hsum
    obtain ⟨hcount, hbad, hrest⟩ := loopSum_succ_eq_zero hsum
    have hover : f.overdraws m = false := by simpa using hcount
    have hturn := (spends_counted hp h hf hover hbad).2
    refine bind_ne_diverge (turn_ends fun x hx => ?_) fun r f' hrun => ?_
    · obtain ⟨hgas, hless⟩ := opens_gas hp hf hover hx
      rw [hx] at hbad
      exact hnested x hbad hgas (by omega)
    cases r with
    | some rc => exact nofun
    | none =>
      -- the turn has executed an instruction, so there is less gas now
      have hticks := ticks_of_turn hrun
      have hle : f'.contract.gas ≤ f.contract.gas
          - ((f.ticks m + (f.opens m).elim 0 count : Nat) : Int) := (hturn.of_ok hrun).le
      push_cast at hle hfuel
      exact ih f' (hturn.of_ok hrun).metered (by omega) (by omega) (hrest f' hrun)

end Loop

/-! ## Frames -/

section Frames

variable {m : Machine} (hp : m.Priced)
include hp

lemma start_metered {x : Nested} {s : Frame} (hgas : 0 ≤ x.gas)
    (hmax : x.gas ≤ 9223372036854775807) (hs : x.start m = some s) :
    s.Metered ∧ s.contract.gas = x.gas := by
  unfold Nested.start at hs
  split at hs
  · next c w1 he =>
    have hc : c.gas = x.gas := (within_entry hp.sound hgas hmax).of_ok he
    unfold startOn at hs
    split at hs <;> cases hs
    refine ⟨⟨⟨le_refl 0, le_refl 0⟩, ?_, ?_⟩, hc⟩
    · show 0 ≤ c.gas
      omega
    · show c.gas ≤ _
      omega
  · cases hs

/-- EVERY FRAME SPENDS WHAT IT EXECUTES, where no fee is negative. -/
theorem thrifty_frameSum (n : Nat) :
    Thrifty (vm m n) (fun x => overdrafts m n x = 0) (fun x => executed m n x) := by
  induction n with
  | zero =>
    refine ⟨fun _ => le_refl 0, fun x _ hgas _ => hgas, fun x _ _ _ => ?_⟩
    cases x <;> exact wp_diverging.mpr trivial
  | succ n ih =>
    have hcost : ∀ x s, x.start m = some s → executed m (n + 1) x
        = loopSum m (vm m n) (ticks m) (executed m n) n s := by
      intro x s hs
      simp only [executed, frameSum, hs, Option.elim_some]
    have hloop : ∀ x s, overdrafts m (n + 1) x = 0 → 0 ≤ x.gas → x.gas ≤ 9223372036854775807 →
        x.start m = some s → (executed m (n + 1) x : Int) ≤ x.gas ∧
          wpRet (Prog.loop (turn m (vm m n)) n)
            (fun _ f => Spends (s.paid (executed m (n + 1) x)) f) s := by
      intro x s hok hgas hmax hs
      obtain ⟨hmetered, hsgas⟩ := start_metered hp hgas hmax hs
      simp only [overdrafts, frameSum, hs, Option.elim_some] at hok
      rw [hcost x s hs, ← hsgas]
      exact spends_loop hp ih n s hmetered hok
    have hnone : ∀ x, x.start m = none → executed m (n + 1) x = 0 := by
      intro x hs
      simp only [executed, frameSum, hs, Option.elim_none]
    refine ⟨fun _ => Int.natCast_nonneg _, fun x hok hgas hmax => ?_, fun x hok hgas hmax => ?_⟩
    · cases hs : x.start m with
      | none => rw [hnone x hs]; exact hgas
      | some s => exact (hloop x s hok hgas hmax hs).1
    refine thrifty_program hp.sound (run (turn m (vm m n)) n) _ hgas hmax
      (Int.natCast_nonneg _) (fun hno => ?_) fun c w1 he hc => ?_
    · rw [hnone x]
      · rfl
      · unfold Nested.start
        split
        · next c w1 he => exact absurd he (hno c w1)
        · rfl
    · have hstart : x.start m = startOn c x.input x.readOnly w1 := by
        simp only [Nested.start, he]
      refine wp_run_contract (Q := fun _ c' => 0 ≤ c'.gas ∧ executed m (n + 1) x + c'.gas ≤ x.gas)
        (fun hs => ?_) fun s hs => ?_
      · rw [hnone x (hstart.trans hs)]
        push_cast
        omega
      have hs := hstart.trans hs
      refine (hloop x s hok hgas hmax hs).2.returned (fun _ f hf => ⟨hf.metered.nonneg, ?_⟩)
      have hsgas := (start_metered hp hgas hmax hs).2
      have : f.contract.gas ≤ s.contract.gas - executed m (n + 1) x := hf.le
      omega

/-- EVERY FRAME WITH MORE FUEL THAN GAS ENDS, where no fee is negative. -/
theorem program_ends_of_gas (n : Nat) :
    ∀ x : Nested, overdrafts m n x = 0 → 0 ≤ x.gas → x.gas ≤ 9223372036854775807 →
      x.gas + 1 < n → x.program (vm m n) x.world ≠ .diverge := by
  induction n with
  | zero =>
    intro x _ hgas _ hfuel
    push_cast at hfuel
    omega
  | succ n ih =>
    intro x hok hgas hmax hfuel
    push_cast at hfuel
    refine program_ends fun s hs => ?_
    obtain ⟨hmetered, hsgas⟩ := start_metered hp hgas hmax hs
    simp only [overdrafts, frameSum, hs, Option.elim_some] at hok
    refine loop_ends hp (thrifty_frameSum hp n) s.contract.gas ?_ n s hmetered (le_refl _) (by omega) hok
    exact fun y hy hy0 hlt => ih y hy hy0 (by omega) (by omega)

end Frames

/-! ## Messages -/

namespace Execution

/-- `apply` up to the run of the contract; the answer is the gas for it. -/
def prepare (x : Execution) (msg : Message) : Java World Int := do
  let initialGas ← toLongExact msg.gasLimit
  let gasPrice ← toLongExact msg.gasPrice
  preCheck msg
  buyGas msg initialGas gasPrice
  startGas x msg initialGas

def opens (x : Execution) (msg : Message) (w : World) : Option Nested :=
  match x.prepare msg w with
  | .ok gas w1 =>
      match msg.receiver with
      | none => some (.create ⟨.create, msg.caller, msg.data, gas, msg.amount, 0⟩ w1)
      | some receiver =>
          match World.setNonce msg.sender (wrap64 (w1.getNonce msg.sender + 1)) w1 with
          | .ok _ w2 => some (.call ⟨.call, msg.caller, receiver, msg.data, gas, msg.amount⟩ w2)
          | _ => none
  | _ => none

/-- How many instructions the message executes that are not halting, in all its frames. -/
def executed (x : Execution) (n : Nat) (msg : Message) (w : World) : Nat :=
  (x.opens msg w).elim 0 (GrapeDag.executed (x.machine msg) n)

/-- No instruction of the message, in any of its frames, computes a negative fee. -/
def FeesNonneg (x : Execution) (n : Nat) (msg : Message) (w : World) : Prop :=
  (x.opens msg w).elim 0 (overdrafts (x.machine msg) n) = 0

instance (x : Execution) (n : Nat) (msg : Message) (w : World) : Decidable (x.FeesNonneg n msg w) :=
  inferInstanceAs (Decidable (_ = _))

end Execution

section Ends

variable (x : Execution) (msg : Message)

instance : Halts (preCheck msg) := by unfold preCheck; infer_instance

instance (gas gasPrice : Int) : Halts (buyGas msg gas gasPrice) := by
  unfold buyGas; infer_instance

instance (initialGas : Int) : Halts (startGas x msg initialGas) := by
  unfold startGas; infer_instance

instance (initialGas gasPrice : Int) (r : VmResult) :
    Halts (settle x msg initialGas gasPrice r) := by
  unfold settle refundGas payFee; infer_instance

end Ends

section Messages

variable {x : Execution} {msg : Message}

variable {w : World}

lemma prepare_gas (hs : x.cfg.Sound) {gas : Int} {w1 : World} (h : x.prepare msg w = .ok gas w1) :
    0 ≤ gas ∧ gas ≤ msg.gasLimit ∧ msg.gasLimit ≤ 9223372036854775807 := by
  obtain ⟨initialGas, w2, hlimit, h⟩ := bind_eq_ok.mp h
  obtain ⟨gasPrice, w3, _, h⟩ := bind_eq_ok.mp h
  obtain ⟨_, w4, _, h⟩ := bind_eq_ok.mp h
  obtain ⟨_, w5, _, hstart⟩ := bind_eq_ok.mp h
  cases hlong : toLongExact msg.gasLimit with
  | error e =>
    rw [hlong] at hlimit
    cases hlimit
  | ok limit =>
    rw [hlong] at hlimit
    cases hlimit
    obtain ⟨hfits, rfl⟩ := toLongExact_eq_ok.mp hlong
    by_cases hstarts : Starts x msg w5
    · obtain ⟨gas', hgas', hnonneg, hle, _⟩ := startGas_ok hs hfits hstarts
      obtain ⟨rfl, _⟩ := Outcome.ok.inj (hgas'.symm.trans hstart)
      exact ⟨hnonneg, hle, hfits.2⟩
    · obtain ⟨e, herr⟩ := startGas_err hs hfits hstarts
      cases herr.symm.trans hstart

lemma opens_gas_le (hs : x.cfg.Sound) {y : Nested} (h : x.opens msg w = some y) :
    0 ≤ y.gas ∧ y.gas ≤ msg.gasLimit ∧ y.gas ≤ 9223372036854775807 := by
  unfold Execution.opens at h
  split at h
  · next gas w1 hprep =>
    obtain ⟨hgas, hle, hmax⟩ := prepare_gas hs hprep
    split at h
    · cases h
      exact ⟨hgas, hle, by show gas ≤ _; omega⟩
    · split at h
      · cases h
        exact ⟨hgas, hle, by show gas ≤ _; omega⟩
      · cases h
  · cases h

lemma executeMessage_ends {calls : Calls}
    (h : ∀ y, x.opens msg w = some y → y.program calls y.world ≠ .diverge) :
    executeMessage x calls msg w ≠ .diverge := by
  refine catching_ne_diverge (bind_ne_diverge ?_ fun r w' _ => ?_) fun e w' => ne_diverge w'
  swap
  · exact (Ends.of_fails (P := fun _ => True) fun _ _ => trivial).ends w'
  refine bind_ne_diverge (ne_diverge w) fun initialGas w1 h1 => ?_
  refine bind_ne_diverge (ne_diverge w1) fun gasPrice w2 h2 => ?_
  refine bind_ne_diverge (ne_diverge w2) fun _ w3 h3 => ?_
  refine bind_ne_diverge (ne_diverge w3) fun _ w4 h4 => ?_
  refine bind_ne_diverge (ne_diverge w4) fun gas w5 h5 => ?_
  refine bind_ne_diverge ?_ fun result w6 _ => ne_diverge w6
  -- up to here the message has done what `prepare` does
  have hprep : x.prepare msg w = .ok gas w5 :=
    bind_eq_ok.mpr ⟨_, _, h1, bind_eq_ok.mpr ⟨_, _, h2, bind_eq_ok.mpr ⟨_, _, h3,
      bind_eq_ok.mpr ⟨_, _, h4, h5⟩⟩⟩⟩
  refine catching_ne_diverge ?_ fun e w' => ne_diverge w'
  cases hreceiver : msg.receiver with
  | none =>
    refine h (.create _ _) ?_
    simp only [Execution.opens, hprep, hreceiver]
  | some receiver =>
    refine bind_ne_diverge (ne_diverge w5) fun nonce w6 hnonce => ?_
    cases hnonce
    refine bind_ne_diverge (ne_diverge w5) fun _ w6 hset => ?_
    refine h (.call _ _) ?_
    simp only [Execution.opens, hprep, hreceiver, hset]

end Messages

/-- **BOUNDED EXECUTION.** With the shipped prices, a message whose instructions compute no
negative fee executes at most as many instructions that are not halting, in all its frames, as it
has gas; and it ends, with an outcome that no further fuel changes. -/
theorem bounded_execution (x : Execution) (timestamp : Int) (hcfg : x.cfg = configAt timestamp)
    (msg : Message) (w : World) (n : Nat) (hfees : x.FeesNonneg n msg w) :
    (x.executed n msg w : Int) ≤ msg.gasLimit ∧
    (msg.gasLimit + 1 < n → ∃ outcome, outcome ≠ .diverge ∧
      ∀ n', n ≤ n' → executeMessage x (vm (x.machine msg) n') msg w = outcome) := by
  have hp : (x.machine msg).Priced := priced_of_configAt hcfg
  have hs : x.cfg.Sound := hp.sound
  unfold Execution.FeesNonneg at hfees
  refine ⟨?_, fun hfuel => ?_⟩
  · unfold Execution.executed
    cases hopen : x.opens msg w with
    | none => exact msg.gasLimit_nonneg
    | some y =>
      obtain ⟨hgas, hle, hmax⟩ := opens_gas_le hs hopen
      rw [hopen] at hfees
      exact le_trans ((thrifty_frameSum hp n).cost_le y hfees hgas hmax) hle
  · have hends : executeMessage x (vm (x.machine msg) n) msg w ≠ .diverge := by
      refine executeMessage_ends fun y hopen => ?_
      obtain ⟨hgas, hle, hmax⟩ := opens_gas_le hs hopen
      rw [hopen] at hfees
      exact program_ends_of_gas hp n y hfees hgas hmax (by omega)
    refine ⟨_, hends, fun n' hn' => ?_⟩
    -- what has ended is not changed by more fuel
    rcases executeMessage_below x (vm_below (x.machine msg) hn') msg w with hd | he
    · exact absurd hd hends
    · exact he.symm

/-- `PUSH1 0` five times, `PUSH2 500`, `GAS`, `CALL`: the contract at 500 calls itself until the gas
no longer covers a call. -/
def recursiveCode : Bytes := [0x60, 0, 0x60, 0, 0x60, 0, 0x60, 0, 0x60, 0, 0x61, 0x01, 0xf4, 0x5a, 0xf1]

theorem recursive_call_bounded :
    8 < Execution.sample.executed 23702 (.sample 23700) (World.start (.sample 5 recursiveCode)) ∧
    (Execution.sample.executed 23702 (.sample 23700) (World.start (.sample 5 recursiveCode)) : Int) ≤ 23700 ∧
    ∃ outcome, outcome ≠ .diverge ∧ ∀ n', 23702 ≤ n' →
      executeMessage Execution.sample (vm (Execution.sample.machine (.sample 23700)) n')
        (.sample 23700) (World.start (.sample 5 recursiveCode)) = outcome := by
  have h := bounded_execution .sample 1700000000 rfl (.sample 23700)
    (World.start (.sample 5 recursiveCode)) 23702 (by decide +kernel)
  exact ⟨by decide +kernel, h.1, h.2 (by decide)⟩

end GrapeDag
