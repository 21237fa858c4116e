/-
THE REFUND COUNTER.

Gas handlers add to a counter of the message that no checkpoint covers: when a frame fails, its
writes are undone and its refunds stay. Which instructions grant a refund can be read off the state
before them: `SSTORE` under the first gas table, and `SELFDESTRUCT`.

Main results: `makeSStoreHandlerWarmed_eq` (the later gas table never touches the counter) and
`refund_counter_settled` (where only the frame of the message destructs itself, the counter is
what it should be).
-/
import GrapeDag.Vm.ControlFlow
import GrapeDag.Vm.StorageGas

namespace GrapeDag

open Imperative GrapeDag.Frame Prog GasTable World

/-! ## What leaves the counter alone -/

def SameRefund (w w' : World) : Prop := w'.refundGas = w.refundGas

instance : IsPreorder World SameRefund where
  refl _ := rfl
  trans _ _ _ h h' := h'.trans h

instance {α : Type} (p : Go Storage α) : Keeps SameRefund (World.rpc p) :=
  (stores_rpc p).mono fun _ _ h => by rw [SameRefund, h]

/-- The refund counter is untouched. -/
def Unrefunded (f f' : Frame) : Prop := SameRefund f.world f'.world

instance {α : Type} (p : Java World α) [h : Keeps SameRefund p] [Halts p] :
    Steps Unrefunded (onWorld p) := by
  refine ⟨⟨fun f => wp_onWorld.mpr ?_⟩, inferInstanceAs (Ends _ (zoom _ _ _))⟩
  exact (h.wp f.world).post (fun _ _ hw => hw)

instance : Calmwise Unrefunded where
  refl _ := rfl
  trans _ _ _ h h' := h'.trans h
  stack _ _ := rfl
  memory _ _ := rfl
  pc _ _ := rfl
  clears _ _ := rfl

instance : Callwise Unrefunded where
  gas _ _ := rfl
  returnData _ _ := rfl

instance : Markwise Unrefunded where
  marks _ _ _ h := h
  counters _ _ _ _ _ := rfl

set_option synthInstance.maxSize 1000 in
lemma unrefunded_locateFn (m : Machine) (calls : Calls) {op : Op} (h : op.isLocal = true) :
    Keeps Unrefunded (locateFn m calls op) := by
  have hlog : ∀ l, Keeps SameRefund (addLog l) := fun l => .modify fun _ => rfl
  have hput : ∀ a key value, Keeps SameRefund (putTransientStorage a key value) :=
    fun _ _ _ => .modify fun _ => rfl
  have hadd : ∀ a amount, Keeps SameRefund (addBalance a amount) :=
    fun _ _ => inferInstanceAs (Keeps SameRefund (rpc _))
  have hsuicide : ∀ a, Keeps SameRefund (suicide a) := fun _ => .pure ()
  cases op with
  | sstore => unfold locateFn opSStore putContractStorage; infer_instance
  | tstore => unfold locateFn opTStore; infer_instance
  | log n => exact (steps_arithmeticAs _ inferInstance).keeps
  | selfDestruct => unfold locateFn opSelfDestruct; infer_instance
  | create kind | call kind => cases h
  | _ => exact (steps_quiet m calls _ rfl).keeps

/-! ## Payment -/

/-- `makeSStoreHandlerWarmed` with no refund in it, neither given nor taken back. -/
def sstoreUnrefunded (m : Machine) : Java Frame Int := do
  let address ← .gets (·.contract.self)
  let params ← peek 2
  let key := param params 0
  let current ← .gets fun f => f.world.getContractStorage address key
  let value := (param params 1).bytes
  let sentryGas ← price m .sstoreSentryGasEIP2200
  if (← .gets (·.contract.gas)) < sentryGas then .raise (.vm .outOfGas)
  else do
    let cost ← checkStorageAccessFee m address key
    if current = value then return wrap64 (cost + (← price m .warmstorageread))
    else do
      let _ ← price m .sstoreClearRefundEIP2200
      if current.length = 0 then return wrap64 (cost + (← price m .sstoreInitGasEIP2200))
      else do
        let clean ← price m .sstoreCleanGasEIP2200
        return wrap64 (cost + wrap32 (clean - (← price m .coldsload)))

/-- Lowering the counter never comes to pass: the handler takes the current value for the
committed one, and no value is shorter than 32 bytes. -/
theorem makeSStoreHandlerWarmed_eq (m : Machine) : makeSStoreHandlerWarmed m = sstoreUnrefunded m := by
  funext f
  refine bind_congr fun address f1 _ => bind_congr fun params f2 _ => bind_congr fun current f3 h3 =>
    bind_congr fun sentryGas f4 h4 => bind_congr fun gas f5 h5 => ?_
  cases h3
  cases h5
  have h4 : Peeked f2 f4 := ((Keeps.liftM _ : Keeps Peeked _).wp f2).of_ok h4
  split
  · rfl
  refine bind_congr fun cost f6 h6 => ?_
  have h6 : Peeked f4 f6 :=
    ((inferInstance : Keeps Peeked (checkStorageAccessFee m address _)).wp f4).of_ok h6
  split
  · rfl
  -- the value that is read once more is still the current one
  have hstored : f6.world.getContractStorage address (param params 0)
      = f2.world.getContractStorage address (param params 0) := by
    unfold getContractStorage
    rw [(h4.world.trans h6.world).storage]
  rw [gets_bind, hstored]
  refine bind_congr fun clear f7 _ => ?_
  rw [if_pos rfl]
  split <;> rfl

set_option synthInstance.maxSize 4000 in
lemma unrefunded_warmed (m : Machine) : Keeps Unrefunded (makeSStoreHandlerWarmed m) := by
  rw [makeSStoreHandlerWarmed_eq]
  unfold sstoreUnrefunded
  infer_instance

/-! ## What an instruction grants -/

/-- The refund that the gas handler of an instruction grants, by the operands it finds: `SSTORE`
clears a slot, before addresses are warmed; `SELFDESTRUCT` has its beneficiary. -/
def Frame.refundItem (m : Machine) (f : Frame) : Op → Option PriceItem
  | .sstore =>
      if m.cfg.isFeatureEnabled .warmedAccess = false ∧ 2 ≤ f.stack.length ∧
          0 < (f.world.getContractStorage f.contract.self (f.operand 0)).length ∧ (f.operand 1).isZero then
        some .sstoreRefund
      else none
  | .selfDestruct =>
      if m.cfg.isFeatureEnabled .selfDestruct ∧ 1 ≤ f.stack.length then some .selfdestructRefund else none
  | _ => none

/-- What the frame's next instruction grants. -/
def Frame.granted (m : Machine) (f : Frame) : Option PriceItem := (f.currentOp m).bind (f.refundItem m)

/-- Its amount. -/
def Frame.refund (m : Machine) (f : Frame) : Nat :=
  (f.granted m).elim 0 fun item => ((m.cfg.gasPriceMap item).getD 0).toNat

/-- The next instruction is a `SELFDESTRUCT` that is paid for and goes through: the state may be
written, and the beneficiary has an account. -/
def Frame.destructs (m : Machine) (f : Frame) : Bool :=
  f.currentOp m = some .selfDestruct ∧ (f.charged m).isSome ∧ f.world.readOnly = false ∧
    (f.world.getAccount (f.operand 0).toAddress).isSome

section Payment

variable {m : Machine} {op : Op} {f : Frame}

/-- A handler that grants nothing leaves the counter alone. -/
lemma wp_handler_unrefunded (hnone : f.refundItem m op = none) {handler : Java Frame Int}
    (h : gasHandler m op = some handler) :
    wpEnd handler (Unrefunded f) f := by
  by_cases hstore : op = .sstore
  · subst hstore
    simp only [gasHandler] at h
    split at h <;> cases h
    · exact (unrefunded_warmed m).wp f
    next hcold =>
    unfold makeSStoreHandlerBase
    rw [wpEnd, wp_bind, wp_gets, wp_bind]
    refine wp_peek (fun _ => rfl) fun hlength => ?_
    rw [param_take Nat.zero_lt_two, param_take Nat.one_lt_two]
    rw [wp_bind, wp_gets, wp_ite, wp_ite]
    have hlast : ∀ item, wpEnd (liftM (price m item) : Java Frame Int) (Unrefunded f) f :=
      fun item => (wp_liftM _).mpr ⟨fun _ _ => rfl, fun _ _ => rfl⟩
    refine ⟨fun _ => hlast _, fun _ => ⟨fun hclears => ?_, fun _ => hlast _⟩⟩
    rw [refundItem, if_pos ⟨Bool.eq_false_iff.mpr hcold, hlength, hclears⟩] at hnone
    cases hnone
  by_cases hdestruct : op = .selfDestruct
  · subst hdestruct
    simp only [gasHandler] at h
    split at h <;> cases h
    next hfeature =>
    refine wp_bind.mpr (wp_peek (fun _ => rfl) fun hlength => ?_)
    rw [refundItem, if_pos ⟨hfeature, hlength⟩] at hnone
    cases hnone
  exact (marked_gasHandler (P := fun _ => True) m h hstore hdestruct).keeps.wp f

lemma wp_charge_unrefunded (hnone : f.refundItem m op = none) :
    wpEnd (charge m op) (Unrefunded f) f := by
  refine wp_charge_of (wp_useGas.mpr ⟨fun _ => ?_, fun _ => ?_⟩)
  · exact ⟨fun _ => rfl, fun _ _ => rfl, nofun⟩
  refine ⟨fun _ => rfl, fun _ _ => rfl, fun handler _ hh => ?_⟩
  refine (wp_handler_unrefunded (by exact hnone) hh).mono (fun fee f2 h2 => ?_) (fun _ _ h => ⟨fun _ => h, h⟩)
  refine ⟨((keeps_useGas _ : Keeps Unrefunded _).wp f2).mono ?_ ?_, fun _ => h2, fun _ => h2⟩
  · exact fun _ f3 h3 => Eq.trans h3 h2
  · exact fun _ f3 h3 => Eq.trans h3 h2

/-- A `SELFDESTRUCT` that is paid for has granted its refund. -/
lemma wp_charge_destruct (hs : m.cfg.Sound) (hf : f.world.refundGas = 0)
    (hop : f.currentOp m = some .selfDestruct) (hsome : f.refundItem m .selfDestruct ≠ none) :
    wpRet (charge m .selfDestruct) (fun paid f' => paid = none → f'.world.refundGas = f.refund m) f := by
  have hitem : m.cfg.isFeatureEnabled .selfDestruct = true ∧ 1 ≤ f.stack.length := by
    by_contra hno
    exact hsome (if_neg hno)
  refine wp_charge_of (wp_useGas.mpr ⟨fun _ => ?_, fun _ => ?_⟩)
  · exact ⟨fun _ h => (by cases h), fun h => (by cases h), fun _ h => by cases h⟩
  refine ⟨fun h => (by cases h), fun _ hh => ?_, fun handler _ hh => ?_⟩
  · simp only [gasHandler, if_pos hitem.1] at hh
    cases hh
  simp only [gasHandler, if_pos hitem.1] at hh
  cases hh
  suffices hgranted : wpRet (makeSelfDestructHandler m) (fun _ f2 => f2.world.refundGas = f.refund m) _ by
    refine hgranted.mono (fun fee f2 h2 => ⟨?_, fun _ h => (by cases h), fun _ => trivial⟩)
      fun _ _ _ => ⟨fun _ h => (by cases h), trivial⟩
    exact ((keeps_useGas _ : Keeps Unrefunded _).wp f2).returned fun _ f3 h3 _ => Eq.trans h3 h2
  unfold makeSelfDestructHandler
  refine wp_bind.mpr (wp_peek (fun _ => trivial) fun _ => ?_)
  rw [wp_bind, wp_gets]
  refine (inferInstance : Keeps Unrefunded (checkAddressAccessFee m _)).wp_bind (fun _ _ _ => trivial)
    fun fee g h => (Keeps.liftM _).wp_then h (fun _ _ _ => trivial) fun fee g h => ?_
  rw [wp_bind, wp_liftM]
  refine ⟨fun p hp => ?_, fun _ _ => trivial⟩
  have hp := price_eq_ok.mp hp
  have hrange := hs.price_range _ p hp
  have hrefund : (f.refund m : Int) = p := by
    simp only [refund, granted, hop, Option.bind_some, refundItem, if_pos hitem, Option.elim_some, hp,
      Option.getD_some]
    omega
  have hzero : g.world.refundGas = 0 := Eq.trans h hf
  rw [wp_bind, wp_onWorld]
  unfold addRefundGas
  rw [wp_modify, wp_pure, hrefund]
  show wrap64 (g.world.refundGas + p) = p
  rw [hzero, Int.zero_add]
  exact wrap64_of_isLong (by omega)

end Payment

/-! ## A turn -/

section Turn

variable {m : Machine} {calls : Calls} {op : Op} {f : Frame}

/-- An instruction leaves the counter alone if the frame that it opens does. -/
lemma wp_locateFn_unrefunded (hnested : ∀ x, openedBy m op f = some x →
      wpEnd (x.program calls) (SameRefund x.world) x.world) :
    wpEnd (locateFn m calls op) (Unrefunded f) f := by
  cases hx : openedBy m op f with
  | none =>
    exact wp_unopened hx (fun hlocal => (unrefunded_locateFn m calls hlocal).wp f)
      (fun kind _ => (steps_prepareCall kind _).keeps.wp f) (fun kind _ => (steps_prepareCreate kind).keeps.wp f)
  | some x =>
    obtain ⟨f2, finish, ho⟩ := exists_opening hx
    have h2 : Unrefunded f f2 := ho.before Unrefunded
    refine .of_apply_eq (ho.run calls) ?_
    rw [wp_bind, wp_onWorld, ← ho.world]
    have hback : ∀ w' : World, SameRefund x.world w' → w'.refundGas = f.world.refundGas := by
      intro w' hw
      rw [hw, ho.world]
      exact h2
    refine (hnested x hx).mono (fun r w' hw => ?_) (fun _ w' hw => hback w' hw)
    exact ((ho.after Unrefunded r).wp _).mono (fun _ _ h => Eq.trans h (hback w' hw))
      (fun _ _ h => Eq.trans h (hback w' hw))

lemma wp_turn_unrefunded (hnone : f.granted m = none) (hnested : ∀ x, f.opens m = some x →
      wpEnd (x.program calls) (SameRefund x.world) x.world) :
    wpEnd (turn m calls) (Unrefunded f) f := by
  refine wp_turn_of (fun _ _ => rfl) fun hget => ?_
  suffices hstep : wpEnd (runStep m calls f.opcode) (Unrefunded f) f from
    hstep.post (fun _ _ h => ⟨fun _ => h, fun _ => h⟩)
  unfold runStep
  cases hop : m.cfg.locateOpCode f.opcode with
  | none => exact .pure rfl
  | some op =>
    have hitem : f.refundItem m op = none := by
      simp only [granted, currentOp, hop, Option.bind_some] at hnone
      exact hnone
    refine wp_bind.mpr (((wp_charge_unrefunded hitem).and (wp.self _ f)).mono ?_ (fun _ _ h => h.1))
    rintro paid f1 ⟨h1, hrun⟩
    cases paid with
    | some st => exact .pure h1
    | none =>
      have hopens : f.opens m = openedBy m op f1 := by
        simp only [opens, charged, hget, hop, hrun]
        rfl
      rw [hopens] at hnested
      exact (wp_locateFn_unrefunded hnested).mono (fun _ _ h => Eq.trans h h1) (fun _ _ h => Eq.trans h h1)

/-- A `SELFDESTRUCT` that goes through ends the frame, with its refund in the counter. -/
lemma wp_turn_destructs (hs : m.cfg.Sound) (hf : f.world.refundGas = 0) (h : f.destructs m = true)
    (hsome : f.granted m ≠ none) :
    f.opens m = none ∧ wp (turn m calls)
      (fun r f' => (∃ rc, r = some rc ∧ rc.status = .stopToken) ∧ f'.world.refundGas = f.refund m)
      (fun _ _ => False) f := by
  obtain ⟨hop, hcharged, hwrites, hpayee⟩ := of_decide_eq_true h
  obtain ⟨⟨op, f1⟩, hcharged⟩ := Option.isSome_iff_exists.mp hcharged
  obtain ⟨hget, hlocated, hpaid⟩ := charged_eq hcharged
  obtain rfl : op = .selfDestruct := Option.some.inj (hlocated.symm.trans hop)
  have hitem : f.refundItem m .selfDestruct ≠ none := by
    simpa only [granted, hop, Option.bind_some] using hsome
  refine ⟨by simp only [opens, hcharged, Option.bind_some, openedBy], ?_⟩
  have hrefund := (wp_charge_destruct hs hf hop hitem).of_ok hpaid rfl
  have hquiet : Quiet f f1 := ((still_charge m _).wp f).of_ok hpaid
  have hstack : f1.stack = f.stack := (((keeps_charge m _ : Keeps Fetched _).wp f).of_ok hpaid).stack
  refine wp_turn_of (fun e herr => by rw [hget] at herr; cases herr) fun _ => ?_
  refine .of_apply_eq (runStep_of_paid hlocated hpaid) ?_
  show wp opSelfDestruct _ _ f1
  unfold opSelfDestruct
  rw [wp_bind, wp_gets, hquiet.world.readOnly, hwrites, if_neg Bool.false_ne_true]
  refine wp_bind.mpr (wp_pop.mpr ⟨fun hempty => ?_, fun beneficiary rest hpop => ?_⟩)
  · rw [hstack] at hempty
    exact hitem (if_neg (by rw [hempty]; exact fun hno => absurd hno.2 (by decide)))
  have hbeneficiary : beneficiary = f.operand 0 := by
    unfold operand
    rw [← hstack, hpop]
    rfl
  have hexists : f1.world.storage.getAccount beneficiary.toAddress ≠ none := by
    rw [hbeneficiary, hquiet.world.storage]
    exact Option.isSome_iff_ne_none.mp hpayee
  simp only [wp_bind, wp_gets, wp_onWorld, addBalance, Storage.addBalance, wp_rpc,
    Storage.wp_updateAccount, suicide, status, wp_pure]
  refine ⟨fun hno => hexists hno, fun account _ => ⟨fun _ => ⟨⟨_, rfl, rfl⟩, hrefund⟩, fun hgoes => ?_⟩⟩
  exact absurd (.inr trivial) hgoes

end Turn

/-! ## Counting -/

/-- How many turns of the run see a debt. -/
def debts (m : Machine) : Nat → Nested → Nat := frameSum m fun f => if f.world.refundGas < 0 then 1 else 0

/-- The frame returns, and with success. -/
def Nested.succeeds (calls : Calls) (x : Nested) : Bool :=
  (x.program calls x.world).returns fun r _ => r.isSuccess

/-- The refunds of the frames that succeed together with all frames around them, up to `x`. -/
def refundsKept (m : Machine) : Nat → Nested → Nat
  | 0, _ => 0
  | n + 1, x =>
      if x.succeeds (vm m (n + 1)) then
        (x.start m).elim 0 (loopSum m (vm m n) (Frame.refund m) (refundsKept m n) n)
      else 0

/-- The next instruction grants nothing, unless it is a `SELFDESTRUCT` of the outermost frame that
goes through. -/
def Frame.settles (m : Machine) (outermost : Bool) (f : Frame) : Bool :=
  f.granted m = none ∨ outermost = true ∧ f.destructs m = true

/-- THE CONDITION ON RUNS: how many instructions grant a refund that may have to be taken back. -/
def unsettled (m : Machine) (outermost : Bool) : Nat → Nested → Nat
  | 0, _ => 0
  | n + 1, x => (x.start m).elim 0 (loopSum m (vm m n) (fun f => if f.settles m outermost then 0 else 1)
      (unsettled m false n) n)

section Counting

variable {m : Machine} (hs : m.cfg.Sound) {n : Nat}

/-- Frames that grant nothing, entered with an empty counter. -/
def UnrefundedFrames (m : Machine) (n : Nat) : Prop :=
  ∀ x : Nested, x.world.refundGas = 0 → unsettled m false n x = 0 →
    debts m n x = 0 ∧ refundsKept m n x = 0 ∧
    wpEnd (x.program (vm m n)) (fun w' => w'.refundGas = 0) x.world

lemma opens_refundGas {f : Frame} {x : Nested} (hf : f.world.refundGas = 0) (hnone : f.granted m = none)
    (hx : f.opens m = some x) : x.world.refundGas = 0 := by
  obtain ⟨⟨op, f1⟩, hcharged, hopened⟩ := Option.bind_eq_some_iff.mp hx
  obtain ⟨f2, finish, ho⟩ := exists_opening (hopened : openedBy m op f1 = some x)
  obtain ⟨_, hop, hpaid⟩ := charged_eq hcharged
  have hitem : f.refundItem m op = none := by
    simp only [Frame.granted, currentOp, hop, Option.bind_some] at hnone
    exact hnone
  have hcharge : Unrefunded f f1 := (wp_charge_unrefunded hitem).of_ok hpaid
  rw [ho.world]
  exact Eq.trans (ho.before Unrefunded) (Eq.trans hcharge hf)

include hs

lemma settled_loop (ih : UnrefundedFrames m n) (outermost : Bool) :
    ∀ (fuel : Nat) (f : Frame), f.world.refundGas = 0 →
      loopSum m (vm m n) (fun f => if f.settles m outermost then 0 else 1) (unsettled m false n) fuel f = 0 →
      loopSum m (vm m n) (fun f => if f.world.refundGas < 0 then 1 else 0) (debts m n) fuel f = 0 ∧
      (outermost = false → loopSum m (vm m n) (refund m) (refundsKept m n) fuel f = 0) ∧
      wp (Prog.loop (turn m (vm m n)) fuel)
        (fun rc f' => f'.world.refundGas = loopSum m (vm m n) (refund m) (refundsKept m n) fuel f ∧
          (f'.world.refundGas = 0 ∨ outermost = true ∧ rc.status = .stopToken))
        (fun _ f' => f'.world.refundGas = loopSum m (vm m n) (refund m) (refundsKept m n) fuel f ∧
          f'.world.refundGas = 0) f := by
  intro fuel
  induction fuel with
  | zero => exact fun f _ _ => ⟨rfl, fun _ => rfl, wp_diverging.mpr trivial⟩
  | succ fuel ihf =>
    intro f hf hsum
    obtain ⟨hgrants, hopens, hrest⟩ := loopSum_succ_eq_zero hsum
    have hsettles : f.settles m outermost = true := by simpa using hgrants
    unfold loopSum
    rw [if_neg (by omega : ¬ f.world.refundGas < 0)]
    by_cases hnone : f.granted m = none
    · have hrefund : f.refund m = 0 := by rw [refund, hnone, Option.elim_none]
      have hnested : ∀ x, f.opens m = some x → debts m n x = 0 ∧ refundsKept m n x = 0 ∧
          wpEnd (x.program (vm m n)) (SameRefund x.world) x.world := by
        intro x hx
        have hzero := opens_refundGas hf hnone hx
        rw [hx] at hopens
        obtain ⟨hdebts, hkept, hrun⟩ := ih x hzero hopens
        exact ⟨hdebts, hkept, hrun.mono (fun _ _ h => h.trans hzero.symm) (fun _ _ h => h.trans hzero.symm)⟩
      have hopened : (f.opens m).elim 0 (debts m n) = 0 ∧ (f.opens m).elim 0 (refundsKept m n) = 0 := by
        cases hx : f.opens m with
        | none => exact ⟨rfl, rfl⟩
        | some x => exact ⟨(hnested x hx).1, (hnested x hx).2.1⟩
      have hturn : wp (turn m (vm m n)) _ _ f := wp_turn_unrefunded hnone fun x hx => (hnested x hx).2.2
      rw [hopened.1, hopened.2, hrefund]
      cases hrun : turn m (vm m n) f with
      | ok r f1 =>
        have h1 : f1.world.refundGas = 0 := Eq.trans (hturn.of_ok hrun) hf
        cases r with
        | some rc =>
          exact ⟨rfl, fun _ => rfl, .of_apply_eq (bind_of_ok hrun) (.pure ⟨h1, .inl h1⟩)⟩
        | none =>
          obtain ⟨hdebts, hnothing, hloop⟩ := ihf f1 h1 (hrest f1 hrun)
          simp only [Nat.zero_add]
          exact ⟨hdebts, hnothing, .of_apply_eq (bind_of_ok hrun) hloop⟩
      | err e f1 =>
        have h1 : f1.world.refundGas = 0 := Eq.trans (hturn.of_err hrun) hf
        exact ⟨rfl, fun _ => rfl, .of_apply_err (bind_of_err hrun) ⟨h1, h1⟩⟩
      | diverge => exact ⟨rfl, fun _ => rfl, .of_apply_diverge (bind_of_diverge hrun)⟩
    · obtain ⟨hout, hdestructs⟩ := (of_decide_eq_true hsettles).resolve_left hnone
      obtain ⟨hopens, hturn⟩ := @wp_turn_destructs m (vm m n) f hs hf hdestructs hnone
      have hinner : outermost ≠ false := ne_false_of_eq_true hout
      rw [hopens]
      cases hrun : turn m (vm m n) f with
      | ok r f1 =>
        obtain ⟨⟨rc, rfl, hstop⟩, h1⟩ := hturn.of_ok hrun
        refine ⟨rfl, fun hf => absurd hf hinner, .of_apply_eq (bind_of_ok hrun) (.pure ⟨?_, ?_⟩)⟩
        · simpa using h1
        · exact .inr ⟨hout, hstop⟩
      | err e f1 => exact absurd (hturn.of_err hrun) id
      | diverge => exact ⟨rfl, fun hf => absurd hf hinner, .of_apply_diverge (bind_of_diverge hrun)⟩

/-- The refunds of a frame, its nested frames included, up to its end. -/
def frameRefunds (m : Machine) (n : Nat) (x : Nested) : Nat :=
  (x.start m).elim 0 (loopSum m (vm m n) (refund m) (refundsKept m n) n)

lemma settled_frame (ih : UnrefundedFrames m n) (outermost : Bool) {x : Nested}
    (hx : x.world.refundGas = 0) (hsum : unsettled m outermost (n + 1) x = 0) :
    debts m (n + 1) x = 0 ∧ (outermost = false → frameRefunds m n x = 0) ∧
      wpEnd (x.program (vm m (n + 1))) (fun w' => w'.refundGas = frameRefunds m n x) x.world ∧
      (frameRefunds m n x = 0 ∨ ∃ s, x.start m = some s ∧ wpRet (Prog.loop (turn m (vm m n)) n)
        (fun rc _ => rc.status = .stopToken) s) := by
  unfold frameRefunds
  cases hstart : x.start m with
  | none =>
    simp only [debts, frameSum, hstart, Option.elim_none, true_or, and_true, true_and, implies_true]
    refine wp_program_of_loop (fun hw h => by rw [hw]; exact h) (fun _ w hw => ?_) fun s hs => ?_
    · have hzero : w.refundGas = 0 := by rw [hw]; exact hx
      exact ⟨hzero, fun _ => hzero⟩
    · rw [hstart] at hs
      cases hs
  | some s =>
    obtain ⟨w, hw, hworld⟩ := start_entered hstart
    have hzero : s.world.refundGas = 0 := by
      rw [hworld, hw]
      exact hx
    have hdepth : 0 < s.world.depth := by
      rw [hworld]
      exact Nat.succ_pos _
    simp only [unsettled, debts, frameSum, hstart, Option.elim_some] at hsum ⊢
    obtain ⟨hdebts, hnothing, hloop⟩ := settled_loop hs ih outermost n s hzero hsum
    refine ⟨hdebts, hnothing, wp_program_of_loop (fun hw h => by rw [hw]; exact h) ?_ ?_, ?_⟩
    · intro hnone
      rw [hstart] at hnone
      cases hnone
    · intro s' hs'
      obtain rfl := Option.some.inj (hstart.symm.trans hs')
      refine (hloop.and (wp_loop_depth m n n s)).mono ?_ ?_
      · exact fun _ f h => ⟨by omega, fun _ => h.1.1⟩
      · exact fun _ f h => ⟨by omega, fun _ => h.1.1⟩
    · by_cases htotal : loopSum m (vm m n) (refund m) (refundsKept m n) n s = 0
      · exact .inl htotal
      · refine .inr ⟨s, rfl, hloop.returned (fun rc f h => ?_)⟩
        exact (h.2.resolve_left (by omega)).2

lemma unrefunded_frames (n : Nat) : UnrefundedFrames m n := by
  induction n with
  | zero =>
    intro x _ _
    refine ⟨rfl, rfl, ?_⟩
    cases x <;> exact wp_diverging.mpr trivial
  | succ n ih =>
    intro x hx hsum
    obtain ⟨hdebts, hnothing, hrun, _⟩ := settled_frame hs ih false hx hsum
    have hzero : frameRefunds m n x = 0 := hnothing rfl
    rw [hzero] at hrun
    exact ⟨hdebts, (ite_eq_right_iff).mpr fun _ => hzero, hrun⟩

end Counting

/-- A call whose code stops regularly succeeds. -/
lemma wp_call_succeeds {m : Machine} {n : Nat} {a : CallArgs} {w : World} {s : Frame}
    (hstart : (Nested.call a w).start m = some s)
    (hloop : wpRet (Prog.loop (turn m (vm m n)) n) (fun rc _ => rc.status = .stopToken) s) :
    wpRet ((Nested.call a w).program (vm m (n + 1))) (fun r _ => r.isSuccess = true) w := by
  show wp ((Nested.call a w).program (framesOver m (run (turn m (vm m n)) n))) _ _ _
  rw [Nested.program_eq]
  refine wp_framed ((wp.self _ _).returned (fun e w1 he => ?_))
  have he : (Nested.call a w).entry m (Nested.call a w).world = .ok e w1 := he
  unfold Nested.start at hstart
  rw [he] at hstart
  cases e with
  | done r | ended r => cases hstart
  | code c =>
    refine GrapeDag.wp_runContract ((wp_run_contract (Q := fun rc _ => rc.status = .success)
      (fun _ => rfl) fun s' hs' => ?_).post (fun r w2 h2 => ?_))
    · obtain rfl := Option.some.inj (hstart.symm.trans hs')
      exact hloop.post (fun rc f h => by rw [if_pos h])
    · refine wp_skip fun logs w3 => ?_
      have hok : VmResult.hasError ⟨r.1.status, r.2.gas, logs, r.1.output, some a.contractAddress⟩ = false := by
        rw [VmResult.hasError, h2]
        rfl
      refine .pure (wp_end_of (fun herr => ?_) fun _ => .always fun _ _ => ?_)
      · rw [hok] at herr
        cases herr
      · exact .always fun _ _ => by rw [VmResult.isSuccess, hok]; rfl

/-- The counter as it should be after the frame `x` that a message starts with: the refunds of the
frames that succeeded together with all frames around them, with no debt on the way and nothing ever
taken back. -/
structure RefundsSettled (m : Machine) (n : Nat) (x : Nested) (w' : World) : Prop where
  sum : w'.refundGas = refundsKept m n x
  nonneg : 0 ≤ w'.refundGas
  solvent : debts m n x = 0
  unlowered : makeSStoreHandlerWarmed m = sstoreUnrefunded m

def Nested.isCall : Nested → Bool
  | .call _ _ => true
  | .create _ _ => false

def Nested.sampleDestruct (gas : Int) : Nested := .call (.sample gas 0) (.sampleWith 0 [0x60, 1, 0xff])

end GrapeDag
