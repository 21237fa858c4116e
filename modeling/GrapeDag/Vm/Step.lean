/-
ONE TURN OF THE INTERPRETER, INVERTED.

What the opcode functions do to the world, and from it the rule for a whole turn of the loop:
`TurnInto.wp_turn` reduces a property of every turn to a quiet step, one of the writes `SSTORE`,
`TSTORE`, `LOG`, `SELFDESTRUCT`, a call and a create. `Executes` has the states in which a
frame of the VM is about to execute an instruction.
-/
import GrapeDag.Vm.Effects

namespace GrapeDag

open Imperative GrapeDag.Frame Prog World

/-! ## Quiet instructions -/

variable {R : Frame → Frame → Prop} {handler : Java Frame Int} {f f' f1 : Frame}
  {E : JavaException → Frame → Prop} {m : Machine} {op : Op} {kind : CallKind} {ok : Frame → Prop}

lemma steps_arithmeticAs [IsPreorder Frame R] (st : VmStatus) {p : Java Frame FnResult}
    (h : Steps R p) : Steps R (arithmeticAs st p) := by
  refine .catching h fun e => ?_
  cases e <;> unfold status <;> infer_instance

def Op.isPlain : Op → Bool
  | .sha3 | .callDataCopy | .codeCopy | .extCodeCopy | .returnDataCopy => false
  | .mload | .mstore | .mstore8 | .return_ | .revert => false
  | .jump | .jumpI | .returnSub | .jumpSub | .push _ => false
  | .sstore | .tstore | .log _ | .selfDestruct | .create _ | .call _ => false
  | _ => true

def Op.isMemory : Op → Bool
  | .sha3 | .callDataCopy | .codeCopy | .extCodeCopy | .returnDataCopy => true
  | .mload | .mstore | .mstore8 | .return_ => true
  | _ => false

section Plain

variable {R : Frame → Frame → Prop} [Stackwise R]

instance (st : VmStatus) : Steps R (status st) := inferInstanceAs (Steps R (pure _))

instance : Steps R success := inferInstanceAs (Steps R (pure _))

instance steps_unaryOp (g : Word → Word) : Steps R (unaryOp g) := by unfold unaryOp; infer_instance

instance steps_binaryOp (g : Word → Word → Word) : Steps R (binaryOp g) := by
  unfold binaryOp; infer_instance

instance steps_ternaryOp (g : Word → Word → Word → Word) : Steps R (ternaryOp g) := by
  unfold ternaryOp; infer_instance

instance steps_pushWord (g : Frame → Word) : Steps R (pushWord g) := by unfold pushWord; infer_instance

instance steps_pushArray (g : Frame → Bytes) : Steps R (pushArray g) := by
  unfold pushArray; infer_instance

instance steps_callData : Steps R callData := by
  refine .seq inferInstance fun input => ?_
  cases input <;> dsimp only <;> infer_instance

instance steps_isValidJumpDest (dest : Int) (jumpKind : Nat) :
    Steps R (isValidJumpDest dest jumpKind) := by unfold isValidJumpDest; infer_instance

instance steps_popTopics : ∀ n, Steps R (popTopics n)
  | 0 => inferInstanceAs (Steps R (pure _))
  | n + 1 => by
      have := steps_popTopics n
      unfold popTopics
      infer_instance

instance steps_popValue (kind : CallKind) : Steps R (popValue kind) := by
  cases kind <;> unfold popValue <;> infer_instance

lemma steps_plain (m : Machine) (calls : Calls) :
    ∀ op : Op, op.isPlain = true → Steps R (locateFn m calls op)
  | .stop, _ | .beginSub, _ => inferInstanceAs (Steps R (status _))
  | .jumpDest, _ => inferInstanceAs (Steps R success)
  | .add, _ | .mul, _ | .sub, _ | .div, _ | .sdiv, _ | .mod, _ | .smod, _ => steps_binaryOp _
  | .signExtend, _ | .lt, _ | .gt, _ | .slt, _ | .sgt, _ | .eq, _ => steps_binaryOp _
  | .and, _ | .or, _ | .xor, _ | .byte, _ | .shl, _ | .shr, _ | .sar, _ => steps_binaryOp _
  | .addMod, _ | .mulMod, _ => steps_ternaryOp _
  | .isZero, _ | .not, _ => steps_unaryOp _
  | .address, _ | .origin, _ | .caller, _ | .codeSize, _ | .returnDataSize, _ => steps_pushWord _
  | .coinBase, _ | .timestamp, _ | .chainId, _ | .pc, _ | .msize, _ | .gas, _ => steps_pushWord _
  | .push0, _ => steps_pushWord _
  | .callValue, _ | .gasPrice, _ | .number, _ | .difficulty, _ => steps_pushArray _
  | .gasLimit, _ | .selfBalance, _ | .baseFee, _ => steps_pushArray _
  | .exp, _ => by unfold locateFn opExp; infer_instance
  | .balance, _ => by unfold locateFn opBalance; infer_instance
  | .callDataLoad, _ => by unfold locateFn opCallDataLoad; infer_instance
  | .callDataSize, _ => by unfold locateFn opCallDataSize; infer_instance
  | .extCodeSize, _ => by unfold locateFn opExtCodeSize; infer_instance
  | .extCodeHash, _ => by unfold locateFn opExtCodeHash; infer_instance
  | .blockHash, _ => by unfold locateFn opBlockHash; infer_instance
  | .pop, _ => by unfold locateFn opPop; infer_instance
  | .sload, _ => by unfold locateFn opSLoad; infer_instance
  | .tload, _ => by unfold locateFn opTLoad; infer_instance
  | .dup n, _ => by unfold locateFn opDup; infer_instance
  | .swap n, _ => by unfold locateFn opSwap; infer_instance

end Plain

section Memory

variable {R : Frame → Frame → Prop} [Memorywise R]

instance steps_copyOp (g : Frame → Option Bytes) : Steps R (copyOp (Prog.gets g)) := by
  unfold copyOp; infer_instance

set_option synthInstance.maxSize 1000 in
lemma steps_memoryOp (m : Machine) (calls : Calls) :
    ∀ op : Op, op.isMemory = true → Steps R (locateFn m calls op)
  | .callDataCopy, _ | .codeCopy, _ => steps_copyOp _
  | .extCodeCopy, _ => by unfold locateFn opExtCodeCopy; infer_instance
  | .returnDataCopy, _ => steps_arithmeticAs _ inferInstance
  | .sha3, _ => by unfold locateFn opSha3; infer_instance
  | .mload, _ => by unfold locateFn opMLoad; infer_instance
  | .mstore, _ => by unfold locateFn opMStore; infer_instance
  | .mstore8, _ => by unfold locateFn opMStore8; infer_instance
  | .return_, _ => by unfold locateFn opReturn; infer_instance

end Memory

section Writes

variable {R : Frame → Frame → Prop} [Worldwise R]

lemma steps_opSStore : Steps R opSStore := by unfold opSStore; infer_instance

lemma steps_opTStore : Steps R opTStore := by unfold opTStore; infer_instance

set_option synthInstance.maxSize 1000 in
lemma steps_opSelfDestruct : Steps R opSelfDestruct := by unfold opSelfDestruct; infer_instance

set_option synthInstance.maxSize 1000 in
lemma steps_opLog [Memorywise R] (m : Machine) (n : Nat) : Steps R (opLog m n) :=
  steps_arithmeticAs _ inferInstance

end Writes

def Op.isQuiet : Op → Bool
  | .sstore => false | .tstore => false | .log _ => false | .selfDestruct => false
  | .create _ => false | .call _ => false
  | _ => true

def Op.setsPc : Op → Bool
  | .jump | .jumpI | .returnSub | .jumpSub | .push _ => true
  | _ => false

section Pc

variable {R : Frame → Frame → Prop} [Pcwise R]

instance steps_setPc (g : Frame → Int) :
    Steps R (Prog.modify fun f => { f with pc := g f } : Java Frame Unit) :=
  .modify fun f => Pcwise.pc f (g f)

instance steps_jumpTo (pos : Int) : Steps R (jumpTo pos) := by unfold jumpTo; infer_instance

set_option synthInstance.maxSize 1000 in
lemma steps_jumps (m : Machine) (calls : Calls) :
    ∀ op : Op, op.setsPc = true → Steps R (locateFn m calls op)
  | .jump, _ => by unfold locateFn opJump; infer_instance
  | .jumpI, _ => by unfold locateFn opJumpI; infer_instance
  | .returnSub, _ => by unfold locateFn opReturnSub; infer_instance
  | .jumpSub, _ => by unfold locateFn opJumpSub; infer_instance
  | .push n, _ => by unfold locateFn opPush; infer_instance

end Pc

lemma steps_quiet [Calmwise R] (m : Machine) (calls : Calls) (op : Op) (h : op.isQuiet = true) :
    Steps R (locateFn m calls op) := by
  cases op with
  | sstore | tstore | log n | selfDestruct | create kind | call kind => cases h
  | jump | jumpI | returnSub | jumpSub | push n => exact steps_jumps m calls _ rfl
  | revert => unfold locateFn opRevert; infer_instance
  | sha3 | callDataCopy | codeCopy | extCodeCopy | returnDataCopy | mload | mstore | mstore8
  | return_ => exact steps_memoryOp m calls _ rfl
  | _ => exact steps_plain m calls _ rfl

/-! ## Payment -/

lemma keeps_dynamicFee [IsPreorder Frame R] (h : Keeps R handler) (cost : Int) :
    Keeps R (dynamicFee handler cost) := by
  refine .catching (.bind h fun _ => .bind (.liftM _) fun _ => .pure _) fun e => ?_
  cases e with
  | arithmetic | vm st => exact .pure _
  | _ => exact .raise _

lemma wp_dynamicFee_of {cost : Int} {Q : Except VmStatus Int → Frame → Prop}
    (h : wp handler (fun fee f' => Q (.ok fee) f' ∧ (∀ st, Q (.error st) f') ∧ ∀ e, E e f')
      (fun e f' => (∀ st, Q (.error st) f') ∧ E e f') f) : wp (dynamicFee handler cost) Q E f := by
  unfold dynamicFee
  rw [wp_catching, wp_bind]
  refine h.mono ?_ ?_
  · rintro fee f' ⟨hok, herror, hE⟩
    rw [wp_bind, wp_liftM]
    refine ⟨fun _ _ => .pure hok, fun e _ => ?_⟩
    cases e with
    | arithmetic | vm st => exact .pure (herror _)
    | _ => exact (wp_raise _).mpr (hE _)
  · rintro e f' ⟨herror, hE⟩
    cases e with
    | arithmetic | vm st => exact .pure (herror _)
    | _ => exact (wp_raise _).mpr hE

lemma wp_charge_of {Q : Option VmStatus → Frame → Prop}
    (hstatic : wp (useGas (m.cfg.staticFee op)) (fun enough f1 =>
      (enough = false → Q (some .outOfGas) f1) ∧
      (enough = true → gasHandler m op = none → Q none f1) ∧
      ∀ handler, enough = true → gasHandler m op = some handler → wp handler
        (fun fee f2 => wp (useGas fee) (fun paid f3 => Q (if paid then none else some .outOfGas) f3)
          E f2 ∧ (∀ st, Q (some st) f2) ∧ ∀ e, E e f2)
        (fun e f2 => (∀ st, Q (some st) f2) ∧ E e f2) f1) E f) : wp (charge m op) Q E f := by
  refine wp_bind.mpr (hstatic.post (fun enough f1 h1 => ?_))
  obtain ⟨hno, hnone, hsome⟩ := h1
  cases enough with
  | false => exact .pure (hno rfl)
  | true =>
    cases hh : gasHandler m op with
    | none => exact .pure (hnone rfl hh)
    | some handler =>
      refine wp_bind.mpr (wp_dynamicFee_of ((hsome handler rfl hh).mono ?_ ?_))
      · rintro fee f2 ⟨hpay, hstatus, hE⟩
        refine ⟨wp_bind.mpr (hpay.post (fun _ _ h => .pure h)), ?_, hE⟩
        exact fun st => .pure (hstatus st)
      · rintro e f2 ⟨hstatus, hE⟩
        exact ⟨fun st => .pure (hstatus st), hE⟩

lemma keeps_charge_of [Gaswise R]
    (h : ∀ handler, gasHandler m op = some handler → Keeps R handler) : Keeps R (charge m op) := by
  refine .bind (keeps_useGas _) fun _ => .ite ?_ (.pure _)
  cases hh : gasHandler m op with
  | none => exact .pure _
  | some handler =>
    refine .bind (keeps_dynamicFee (h handler hh) _) fun r => ?_
    cases r with
    | error st => exact .pure _
    | ok fee => exact .bind (keeps_useGas _) fun _ => .pure _

lemma keeps_charge [Gaswise R] [Peekwise R] (m : Machine) (op : Op) :
    Keeps R (charge m op) := keeps_charge_of fun _ => keeps_gasHandler m

lemma still_charge (m : Machine) (op : Op) : Still (charge m op) := keeps_charge m op

open JavaException (Proper)

lemma ends_gasHandler (h : gasHandler m op = some handler) : Ends Proper handler :=
  (peeked_gasHandler m h : Settles Anyhow Proper handler).ends

/-- It ends, and a status it gives back is a failure. -/
structure EndsPaid {α : Type} (status : α → Option VmStatus) (p : Java Frame α) : Prop where
  ends : Halts p
  failure : ∀ f a f' st, p f = .ok a f' → status a = some st → st.isFailure = true

def feeStatus : Except VmStatus Int → Option VmStatus
  | .error st => some st
  | .ok _ => none

lemma ends_dynamicFee (h : Ends Proper handler) (cost : Int) :
    EndsPaid feeStatus (dynamicFee handler cost) := by
  have hbody : Ends Proper (do
      let fee ← handler
      let _ ← (addExact cost fee : Checked Int)
      return .ok fee : Java Frame (Except VmStatus Int)) := inferInstance
  refine ⟨hbody.catching fun e _ => ?_, fun f a f' st hrun hst => ?_⟩
  · cases e <;> infer_instance
  unfold dynamicFee Prog.catching at hrun
  split at hrun
  · next a1 f1 hok =>
    cases hrun
    -- the body itself answers with a fee only
    obtain ⟨fee, f2, _, hrest⟩ := bind_eq_ok.mp hok
    obtain ⟨_, f3, _, hpure⟩ := bind_eq_ok.mp hrest
    cases hpure
    cases hst
  · next e f1 herr =>
    have he := hbody.throws _ _ _ herr
    cases e with
    | arithmetic => cases hrun; cases hst; rfl
    | vm st' => cases hrun; cases hst; exact he _ rfl
    | _ => cases hrun
  · cases hrun

lemma ends_charge (m : Machine) (op : Op) : EndsPaid id (charge m op) := by
  have hpay : ∀ fee, EndsPaid id (do
      return if ← useGas fee then none else some .outOfGas : Java Frame (Option VmStatus)) := by
    refine fun fee => ⟨inferInstance, fun f a f' st hrun hst => ?_⟩
    obtain ⟨paid, f1, _, hpure⟩ := bind_eq_ok.mp hrun
    cases hpure
    cases paid <;> cases hst
    rfl
  refine ⟨?_, fun f a f' st hrun hst => ?_⟩
  · refine Ends.seq inferInstance fun paid => ?_
    cases paid with
    | false => exact .pure _
    | true =>
      cases hh : gasHandler m op with
      | none => exact .pure _
      | some handler =>
        refine (ends_dynamicFee (ends_gasHandler hh) (m.cfg.staticFee op)).ends.seq fun r => ?_
        cases r <;> infer_instance
  · obtain ⟨paid, f1, _, hbranch⟩ := bind_eq_ok.mp hrun
    cases paid with
    | false => cases hbranch; cases hst; rfl
    | true =>
      cases hh : gasHandler m op with
      | none => rw [hh] at hbranch; cases hbranch; cases hst
      | some handler =>
        have hfee := ends_dynamicFee (ends_gasHandler hh) (m.cfg.staticFee op)
        rw [hh] at hbranch
        obtain ⟨r, f2, hr, hrest⟩ := bind_eq_ok.mp hbranch
        cases r with
        | error st' => cases hrest; cases hst; exact hfee.failure _ _ _ _ hr rfl
        | ok fee => exact (hpay fee).failure _ _ _ _ hrest hst

/-! ## Writes -/

/-- What the four writing instructions do to the world. A `SELFDESTRUCT` whose beneficiary does not
exist throws and writes nothing. -/
inductive Write (self : Address) : Op → World → World → Prop
  | sstore (w : World) (key : Word) (value : Bytes) :
      Write self .sstore w { w with storage := w.storage.putValue self key value }
  | tstore (w : World) (key : Word) (value : Bytes) : Write self .tstore w
        { w with transientStorage := w.transientStorage.insert (self, key) value }
  | log (w : World) (n : Nat) (l : Log) (hl : l.contractAddress = self) :
      Write self (.log n) w { w with eventLog := w.eventLog ++ [l] }
  | selfDestruct (w : World) (beneficiary : Address) (account : StoredAccount)
      (h : w.getAccount beneficiary = some account) :
      Write self .selfDestruct w { w with
        storage := w.storage.putAccount beneficiary
          { account with balance := account.balance + w.getBalance self } }

/-- `f'` is a frame of the same contract over (a world like) `w`. -/
structure Over (f : Frame) (w : World) (f' : Frame) : Prop where
  contract : SameContract f f'
  world : World.Same w f'.world

/-- A write of instruction `op`, with quiet steps before and after it. -/
structure Wrote (op : Op) (f f' : Frame) : Prop where
  writable : f.world.readOnly = false
  write : ∃ w1 w2, World.Same f.world w1 ∧ Write f.contract.self op w1 w2 ∧ Over f w2 f'

/-- An instruction is quiet or writes as its opcode does. -/
def Effect (op : Op) (f f' : Frame) : Prop := Quiet f f' ∨ Wrote op f f'

lemma Effect.of_quiet {g h : Frame} (h1 : Quiet f g) (h2 : Effect op g h) : Effect op f h := by
  rcases h2 with h2 | ⟨hro, w1, w2, hs, hw, ho⟩
  · exact .inl (h1.trans h2)
  · refine .inr ⟨by rw [← hro, h1.world.readOnly], w1, w2, h1.world.trans hs, ?_, ?_⟩
    · rw [← h1.contract.self]; exact hw
    · exact ⟨h1.contract.trans ho.contract, ho.world⟩

abbrev HasEffect (op : Op) {α : Type} (p : Java Frame α) : Prop := Keeps (Effect op) p

section HasEffect

variable {op : Op} {α : Type} {p : Java Frame α}

lemma Still.hasEffect (h : Still p) : HasEffect op p := h.mono fun _ _ => .inl

lemma HasEffect.unlessReadOnly {q : Java Frame FnResult}
    (hq : ∀ f, f.world.readOnly = false → wpEnd q (Effect op f) f) :
    HasEffect op (do
      if ← Prog.gets (·.world.readOnly) then status .staticModeViolation else q) := by
  refine ⟨fun f => wp_bind.mpr ((wp_gets _).mpr ?_)⟩
  cases hro : f.world.readOnly with
  | true => exact .pure (.inl (Quiet.refl f))
  | false => exact hq f hro

end HasEffect

lemma effect_opSStore : HasEffect .sstore opSStore := by
  refine .unlessReadOnly fun f hro => ?_
  refine keeps_pop.wp_bind (fun _ _ h => .inl h) fun key f1 h1 => ?_
  refine keeps_pop.wp_bind (fun _ _ h => .inl (h1.trans h)) fun value f2 h2 => ?_
  have h := h1.trans h2
  simp only [wp_bind, wp_gets, wp_onWorld, putContractStorage, wp_rpc, wp_modify, success, wp_pure]
  refine .inr ⟨hro, f2.world, _, h.world, Write.sstore f2.world key value.bytes, ?_⟩
  exact ⟨h.contract, by rw [← h.contract.self]; exact .refl _⟩

lemma effect_opTStore : HasEffect .tstore opTStore := by
  refine .unlessReadOnly fun f hro => ?_
  refine keeps_pop.wp_bind (fun _ _ h => .inl h) fun key f1 h1 => ?_
  refine keeps_pop.wp_bind (fun _ _ h => .inl (h1.trans h)) fun value f2 h2 => ?_
  have h := h1.trans h2
  simp only [wp_bind, wp_gets, wp_onWorld, putTransientStorage, wp_modify, success, wp_pure]
  refine .inr ⟨hro, f2.world, _, h.world, Write.tstore f2.world key value.bytes, ?_⟩
  exact ⟨h.contract, by rw [← h.contract.self]; exact .refl _⟩

lemma effect_opLog (m : Machine) (n : Nat) : HasEffect (.log n) (opLog m n) := by
  have hbody : ∀ f : Frame, wpEnd (do
      if ← Prog.gets (·.world.readOnly) then status .staticModeViolation
      else do
        let memOffset := (← pop).intValue
        let memSize := (← pop).intValue
        let topics ← popTopics n
        let data ← memoryRead memOffset memSize
        let address ← Prog.gets (·.contract.self)
        onWorld (addLog ⟨address, topics, data, m.block.blockNumber⟩)
        success) (Effect (.log n) f) f := by
    refine (HasEffect.unlessReadOnly fun f hro => ?_).wp
    refine keeps_pop.wp_bind (fun _ _ h => .inl h) fun offset f1 h1 => ?_
    refine keeps_pop.wp_bind (fun _ _ h => .inl (h1.trans h)) fun size f2 h2 => ?_
    have h2 := h1.trans h2
    refine (steps_popTopics n).keeps.wp_bind (fun _ _ h => .inl (h2.trans h)) fun topics f3 h3 => ?_
    have h3 := h2.trans h3
    refine Keeps.wp_bind (keeps_memoryRead _ _) (fun _ _ h => .inl (h3.trans h)) fun data f4 h4 => ?_
    have h := h3.trans h4
    simp only [wp_bind, wp_gets, wp_onWorld, addLog, wp_modify, success, wp_pure]
    refine .inr ⟨hro, f4.world, _, h.world, Write.log f4.world n
      ⟨f4.contract.self, topics, data, m.block.blockNumber⟩ h.contract.self, ?_⟩
    exact ⟨h.contract, .refl _⟩
  refine ⟨fun f => wp_catching.mpr ((hbody f).mono (fun _ _ h => h) fun e f' h => ?_)⟩
  cases e with
  | arithmetic => exact .pure h
  | _ => exact (wp_raise _).mpr h

lemma effect_opSelfDestruct : HasEffect .selfDestruct opSelfDestruct := by
  refine .unlessReadOnly fun f hro => ?_
  refine keeps_pop.wp_bind (fun _ _ h => .inl h) fun w f1 h1 => ?_
  simp only [wp_bind, wp_gets, wp_onWorld, addBalance, Storage.addBalance, wp_rpc,
    Storage.wp_updateAccount, suicide, status, wp_pure]
  refine ⟨fun _ => .inl h1, fun account hacc => .inr ⟨hro, f1.world, _, h1.world,
    Write.selfDestruct f1.world w.toAddress account hacc, h1.contract, ?_⟩⟩
  rw [← h1.contract.self]
  exact .refl _

def Op.isLocal : Op → Bool
  | .create _ => false | .call _ => false
  | _ => true

lemma effect_locateFn (m : Machine) (calls : Calls) (op : Op) (h : op.isLocal = true) :
    HasEffect op (locateFn m calls op) := by
  cases op with
  | sstore => exact effect_opSStore
  | tstore => exact effect_opTStore
  | log n => exact effect_opLog m n
  | selfDestruct => exact effect_opSelfDestruct
  | create kind | call kind => cases h
  | _ => exact Still.hasEffect (steps_quiet m calls _ rfl).keeps

lemma steps_local [Calmwise R] [Worldwise R] (m : Machine) (calls : Calls) (h : op.isLocal = true) :
    Steps R (locateFn m calls op) := by
  cases op with
  | sstore => exact steps_opSStore
  | tstore => exact steps_opTStore
  | log n => exact steps_opLog m n
  | selfDestruct => exact steps_opSelfDestruct
  | create kind | call kind => cases h
  | _ => exact steps_quiet m calls _ rfl

/-! ## Calls and creates -/

/-- What is known of the arguments of a call instruction of frame `f`. -/
structure CallFrom (f : Frame) (a : CallArgs) : Prop where
  caller : a.caller = f.contract.toRef
  amount_of_readOnly : f.world.readOnly = true → a.kind = .call → a.amount = 0
  amount_of_kind : a.kind = .delegateCall ∨ a.kind = .staticCall → a.amount = 0

/-- What is known of the arguments of a create instruction of frame `f`. -/
structure CreateFrom (f : Frame) (a : CreateArgs) : Prop where
  caller : a.caller = f.contract.toRef
  writable : f.world.readOnly = false

structure CallOperands where
  gas : Word
  toAddr : Word
  value : Word
  inOffset : Word
  inSize : Word
  retOffset : Word
  retSize : Word

namespace CallOperands

/-- The value of a call: only `CALL` and `CALLCODE` have one. -/
def amount (c : CallOperands) : CallKind → Word
  | .call | .callCode => c.value
  | .delegateCall => 0
  | .staticCall => 0

/-- The operand that only `CALL` and `CALLCODE` have. -/
def values (c : CallOperands) : CallKind → List Word
  | .call | .callCode => [c.value]
  | .delegateCall => []
  | .staticCall => []

def words (c : CallOperands) (kind : CallKind) : List Word :=
  [c.gas, c.toAddr] ++ c.values kind ++ [c.inOffset, c.inSize, c.retOffset, c.retSize]

/-- A call that sends value: the static mode forbids it, and a stipend goes with it. -/
def Sends (c : CallOperands) (kind : CallKind) : Prop := kind = .call ∧ c.value.isNonZero = true

instance (c : CallOperands) (kind : CallKind) : Decidable (c.Sends kind) :=
  inferInstanceAs (Decidable (_ ∧ _))

def prepared (c : CallOperands) (kind : CallKind) (callStipend callGas : Int) (args : Bytes) :
    PreparedCall :=
  ⟨c.toAddr.toAddress, args, if c.Sends kind then wrap64 (callGas + callStipend) else callGas,
    c.amount kind, c.retOffset.intValue, c.retSize.intValue⟩

lemma sends_iff {c : CallOperands} {kind : CallKind} :
    c.Sends kind ↔ kind = .call ∧ (c.amount kind).isNonZero = true := by
  cases kind <;> simp [Sends, amount]

end CallOperands

variable {c : CallOperands}

lemma popValue_apply {rest : List Word} (hs : f.stack = c.values kind ++ rest) :
    popValue kind f = .ok (c.amount kind) { f with stack := rest } := by
  cases kind with
  | call | callCode => exact pop_apply hs
  | delegateCall | staticCall => rw [← show f.stack = rest from hs]; rfl

lemma wp_popValue_of {Q : Word → Frame → Prop} (hshort : E (.vm .stackUnderflow) f)
    (h : ∀ (c : CallOperands) rest, f.stack = c.values kind ++ rest →
      Q (c.amount kind) { f with stack := rest }) : wp (popValue kind) Q E f := by
  cases kind with
  | call | callCode => exact wp_pop.mpr ⟨fun _ => hshort, fun w => h ⟨0, 0, w, 0, 0, 0, 0⟩⟩
  | delegateCall | staticCall => exact .pure (h ⟨0, 0, 0, 0, 0, 0, 0⟩ f.stack rfl)

lemma prepareCall_eq {callStipend : Int} {rest : List Word} (hs : f.stack = c.words kind ++ rest) :
    prepareCall kind callStipend f = (do
      let args ← memoryRead c.inOffset.intValue c.inSize.intValue
      let readOnly ← Prog.gets (·.world.readOnly)
      if readOnly = true ∧ c.Sends kind then return .error .staticModeViolation
      else if ← useGas f.world.callGas then
        return .ok (c.prepared kind callStipend f.world.callGas args)
      else return .error .outOfGas : Java Frame (Except VmStatus PreparedCall)) { f with stack := rest } := by
  have hstatic : ∀ readOnly : Bool, (readOnly && kind = .call && (c.amount kind).isNonZero) = true
      ↔ readOnly = true ∧ c.Sends kind := by
    intro readOnly
    simp only [Bool.and_eq_true, decide_eq_true_eq, CallOperands.sends_iff, and_assoc]
  have hsends : ((c.amount kind).isNonZero && kind = .call) = true ↔ c.Sends kind := by
    simp only [Bool.and_eq_true, decide_eq_true_eq, CallOperands.sends_iff, and_comm]
  have hs : f.stack = c.gas :: c.toAddr :: (c.values kind ++
      ([c.inOffset, c.inSize, c.retOffset, c.retSize] ++ rest)) := by
    rw [hs]
    simp [CallOperands.words]
  unfold prepareCall
  rw [pop_bind hs, gets_bind, pop_bind rfl,
    bind_of_ok (popValue_apply rfl), pop_bind rfl, pop_bind rfl,
    pop_bind rfl, pop_bind rfl]
  simp only [hstatic, hsends]
  rfl

/-- The rule for a prepared call: its operands are popped, the arguments are read, and the cap
is taken where the mode allows it. -/
theorem wp_prepareCall_of {callStipend : Int} {Q : Except VmStatus PreparedCall → Frame → Prop}
    (hshort : ∀ s, E (.vm .stackUnderflow) { f with stack := s })
    (hrun : ∀ (c : CallOperands) rest, f.stack = c.words kind ++ rest →
      wp (memoryRead c.inOffset.intValue c.inSize.intValue) (fun args f' =>
        (f'.world.readOnly = true ∧ c.Sends kind → Q (.error .staticModeViolation) f') ∧
        (¬ (f'.world.readOnly = true ∧ c.Sends kind) → wp (useGas f.world.callGas)
          (fun paid f'' => Q (if paid then .ok (c.prepared kind callStipend f.world.callGas args)
            else .error .outOfGas) f'') E f')) E { f with stack := rest }) :
    wp (prepareCall kind callStipend) Q E f := by
  by_cases hs : ∃ (c : CallOperands) (rest : List Word), f.stack = c.words kind ++ rest
  · obtain ⟨c, rest, hs⟩ := hs
    refine .of_apply_eq (prepareCall_eq hs) (wp_bind.mpr ((hrun c rest hs).post ?_))
    intro args f' h
    rw [wp_bind, wp_gets, wp_ite, wp_pure]
    refine ⟨h.1, fun hstatic => wp_bind.mpr ((h.2 hstatic).post ?_)⟩
    intro paid f'' hQ
    cases paid <;> exact .pure hQ
  -- one of the operands is missing
  have hend : ∀ {α : Type} (k : Word → Java Frame α) {Q : α → Frame → Prop} s,
      (∀ w rest, s = w :: rest → wp (k w) Q E { f with stack := rest }) →
      wp (pop >>= k) Q E { f with stack := s } := fun k Q s hk =>
    wp_bind.mpr (wp_pop.mpr ⟨fun _ => hshort s, hk⟩)
  refine hend _ f.stack fun gas s1 h1 => wp_bind.mpr ((wp_gets _).mpr ?_)
  refine hend _ s1 fun toAddr s2 h2 => wp_bind.mpr (wp_popValue_of (hshort s2) fun c s3 h3 => ?_)
  refine hend _ s3 fun inOffset s4 h4 => hend _ s4 fun inSize s5 h5 => ?_
  refine hend _ s5 fun retOffset s6 h6 => hend _ s6 fun retSize s7 h7 => ?_
  refine absurd ⟨⟨gas, toAddr, c.value, inOffset, inSize, retOffset, retSize⟩, s7, ?_⟩ hs
  rw [h1, h2, show s2 = _ from h3, h4, h5, h6, h7]
  cases kind <;> rfl

lemma wp_prepareCall (kind : CallKind) (callStipend : Int) (f : Frame) :
    wp (prepareCall kind callStipend) (fun r f' => Quiet f f' ∧ ∀ c, r = .ok c →
        (f.world.readOnly = true → kind = .call → c.value = 0) ∧
        (kind = .delegateCall ∨ kind = .staticCall → c.value = 0))
      (fun _ f' => Quiet f f') f := by
  have hstack : ∀ s, Quiet f { f with stack := s } := Stackwise.stack f
  refine wp_prepareCall_of hstack fun c rest _ => ?_
  refine ((keeps_memoryRead _ _ : Still _).wp _).mono (fun args f1 h1 => ?_)
    (fun _ _ h => (hstack rest).trans h)
  have h1 := (hstack rest).trans h1
  refine ⟨fun _ => ⟨h1, nofun⟩, fun hstatic => ?_⟩
  refine ((keeps_useGas _ : Still _).wp f1).mono (fun paid f2 h2 => ⟨h1.trans h2, ?_⟩)
    (fun _ _ h => h1.trans h)
  cases paid with
  | false => nofun
  | true =>
    rintro _ ⟨⟩
    refine ⟨fun hro hkind => ?_, fun hkind => by rcases hkind with rfl | rfl <;> rfl⟩
    rw [h1.world.readOnly, hro] at hstatic
    subst hkind
    show c.value = 0
    simpa [CallOperands.Sends, Word.isNonZero, Word.isZero] using hstatic

section Callwise

set_option synthInstance.maxSize 4000

variable {R : Frame → Frame → Prop} [Callwise R]

instance steps_finishCall (c : PreparedCall) (r : VmResult) : Steps R (finishCall c r) := by
  unfold finishCall; dsimp only; infer_instance

instance steps_finishCreate (r : VmResult) : Steps R (finishCreate r) := by
  unfold finishCreate World.clearReturnData; infer_instance

instance steps_prepareCall (kind : CallKind) (callStipend : Int) :
    Steps R (prepareCall kind callStipend) := by unfold prepareCall; infer_instance

instance steps_prepareCreate (kind : CreateKind) : Steps R (prepareCreate kind) := by
  unfold prepareCreate
  cases kind <;> dsimp only <;> infer_instance

end Callwise

lemma wp_prepareCreate (kind : CreateKind) (f : Frame) : wp (prepareCreate kind)
      (fun r f' => Quiet f f' ∧ ∀ c, r = .ok c → f.world.readOnly = false)
      (fun _ f' => Quiet f f') f := by
  unfold prepareCreate
  rw [wp_bind, wp_gets]
  cases hro : f.world.readOnly with
  | true => exact .pure ⟨Quiet.refl f, nofun⟩
  | false =>
    have hquiet := (steps_prepareCreate kind : Steps Quiet _).keeps.wp f
    unfold prepareCreate at hquiet
    rw [wp_bind, wp_gets, hro] at hquiet
    exact hquiet.post (fun _ _ h => ⟨h, fun _ _ => rfl⟩)

section Nested

variable {f : Frame} {P : FnResult → Frame → Prop} {E : Frame → Prop} {calls : Calls}

lemma Steps.wp_over {p : Java Frame FnResult} {f1 : Frame} {w' : World} (hp : Steps Quiet p)
    (h1 : Quiet f f1) (hr : ∀ r f', Over f w' f' → P r f' ∧ E f') :
    wp p P (fun _ f' => E f') { f1 with world := w' } := by
  refine (hp.keeps.wp _).mono ?_ ?_
  · intro rc f' h'
    exact (hr rc f' ⟨h1.contract.trans h'.contract, h'.world⟩).1
  · intro _ f' h'
    exact (hr ⟨.success, none⟩ f' ⟨h1.contract.trans h'.contract, h'.world⟩).2

lemma wp_makeCallFunction (kind : CallKind) (callStipend : Int)
    (hquiet : ∀ r f', Quiet f f' → P r f' ∧ E f')
    (hcall : ∀ a w, a.kind = kind → CallFrom f a → World.Same f.world w →
      wp (calls.executeCall a) (fun _ w' => ∀ r f', Over f w' f' → P r f' ∧ E f')
        (fun _ w' => ∀ f', Over f w' f' → E f') w) :
    wp (makeCallFunction calls kind callStipend) P (fun _ f' => E f') f := by
  refine wp_bind.mpr ((wp_prepareCall kind callStipend f).mono ?_
    (fun _ f' h => (hquiet ⟨.success, none⟩ f' h).2))
  rintro r f1 ⟨h1, hc⟩
  cases r with
  | error st => exact .pure (hquiet _ f1 h1).1
  | ok c =>
    obtain ⟨hro, hkind⟩ := hc c rfl
    have hzero : ∀ {v : Word}, v = 0 → v.bigIntegerValue = 0 := by rintro _ rfl; rfl
    rw [wp_bind, wp_gets, wp_bind, wp_onWorld]
    refine (hcall _ f1.world rfl ⟨h1.contract.toRef, fun h h' => hzero (hro h h'),
      fun h => hzero (hkind h)⟩ h1.world).mono ?_ ?_
    · intro r w' hr
      exact (steps_finishCall c r).wp_over h1 hr
    · intro _ w' hr
      exact hr _ ⟨h1.contract, .refl w'⟩

lemma wp_makeCreateFunction (kind : CreateKind) (hquiet : ∀ r f', Quiet f f' → P r f' ∧ E f')
    (hcreate : ∀ a w, a.kind = kind → CreateFrom f a → World.Same f.world w →
      wp (calls.create a) (fun _ w' => ∀ r f', Over f w' f' → P r f' ∧ E f')
        (fun _ w' => ∀ f', Over f w' f' → E f') w) :
    wp (makeCreateFunction calls kind) P (fun _ f' => E f') f := by
  refine wp_bind.mpr ((wp_prepareCreate kind f).mono ?_ (fun _ f' h => (hquiet ⟨.success, none⟩ f' h).2))
  rintro r f1 ⟨h1, hc⟩
  cases r with
  | error st => exact .pure (hquiet _ f1 h1).1
  | ok c =>
    rw [wp_bind, wp_gets, wp_bind, wp_onWorld]
    refine (hcreate _ f1.world rfl ⟨h1.contract.toRef, hc c rfl⟩ h1.world).mono ?_ ?_
    · intro r w' hr
      exact (steps_finishCreate r).wp_over h1 hr
    · intro _ w' hr
      exact hr _ ⟨h1.contract, .refl w'⟩

end Nested

/-! ## A turn of the loop -/

/-- The opcode the program counter points at; `STOP` past the end of the code. -/
def Frame.opcode (f : Frame) : UInt8 :=
  if f.pc < f.contract.code.length then f.contract.code.getD (wrap32 f.pc).toNat 0 else 0

def Frame.currentOp (m : Machine) (f : Frame) : Option Op := m.cfg.locateOpCode f.opcode

instance (pc : Int) : Halts (getOPCode pc) := by unfold getOPCode; infer_instance

lemma wp_getOPCode (f : Frame) :
    wp (getOPCode f.pc) (fun b f' => b = f.opcode ∧ f' = f) (fun _ f' => f' = f) f := by
  unfold getOPCode Frame.opcode
  rw [wp_bind, wp_gets]
  refine .ite (fun h => ?_) fun h => .pure ⟨by rw [if_neg h], rfl⟩
  rw [wp_bind, wp_liftM]
  exact ⟨fun _ _ => .pure ⟨by rw [if_pos h], rfl⟩, fun _ _ => rfl⟩

section Parts

variable {m : Machine} {calls : Calls} {f f1 : Frame} {op : Op}

variable {b : UInt8}

lemma runStep_of_paid (hop : m.cfg.locateOpCode b = some op) (hpay : charge m op f = .ok none f1) :
    runStep m calls b f = locateFn m calls op f1 := by
  unfold runStep
  rw [hop]
  exact bind_of_ok hpay

lemma runStep_of_prepared {kind : CallKind} {p : PreparedCall} {f2 : Frame}
    (hop : m.cfg.locateOpCode b = some (.call kind)) (hpay : charge m (.call kind) f = .ok none f1)
    (hprepare : prepareCall kind m.callStipend f1 = .ok (.ok p) f2) :
    runStep m calls b f = (onWorld (calls.executeCall ⟨kind, f2.contract.toRef, p.toAddr,
      p.args, p.gasLimit, p.value.bigIntegerValue⟩) >>= finishCall p) f2 := by
  rw [runStep_of_paid hop hpay]
  show makeCallFunction calls kind m.callStipend f1 = _
  unfold makeCallFunction
  rw [bind_of_ok hprepare]
  rfl

lemma runStep_of_unpaid {st : VmStatus} (hop : m.cfg.locateOpCode b = some op)
    (hpay : charge m op f = .ok (some st) f1) : runStep m calls b f = status st f1 := by
  unfold runStep
  rw [hop]
  exact bind_of_ok hpay

lemma runStep_of_err {e : JavaException} (hop : m.cfg.locateOpCode b = some op)
    (hpay : charge m op f = .err e f1) : runStep m calls b f = .err e f1 := by
  unfold runStep
  rw [hop]
  exact bind_of_err hpay

lemma turn_apply (h : getOPCode f.pc f = .ok f.opcode f) : turn m calls f = (do
      let rc ← runStep m calls f.opcode
      if rc.hasError ∨ rc.status = .stopToken then return some rc
      .modify fun f => { f with pc := wrap64 (f.pc + 1) }
      return none : Java Frame (Option FnResult)) f := by
  unfold turn
  rw [gets_bind, bind_of_ok h]

end Parts

lemma CallFrom.of_quiet {a : CallArgs} (h : Quiet f f1) (ha : CallFrom f1 a) : CallFrom f a :=
  ⟨ha.caller.trans h.contract.toRef,
    fun hro => ha.amount_of_readOnly (h.world.readOnly.trans hro), ha.amount_of_kind⟩

lemma CreateFrom.of_quiet {a : CreateArgs} (h : Quiet f f1) (ha : CreateFrom f1 a) : CreateFrom f a :=
  ⟨ha.caller.trans h.contract.toRef, h.world.readOnly.symm.trans ha.writable⟩

lemma Over.of_quiet {w : World} (h : Quiet f f1) (ho : Over f1 w f') :
    Over f w f' := ⟨h.contract.trans ho.contract, ho.world⟩

lemma Over.then_quiet {w : World} (ho : Over f w f1) (h : Quiet f1 f') :
    Over f w f' := ⟨ho.contract.trans h.contract, ho.world.trans h.world⟩

section Turn

variable {f : Frame} {P E : Frame → Prop} {m : Machine} {calls : Calls}

/-- The conditions under which a turn from `f` ends in `P`, or in `E` if it throws. -/
structure TurnInto (m : Machine) (calls : Calls) (f : Frame) (P E : Frame → Prop) : Prop where
  quiet : ∀ f', Quiet f f' → P f' ∧ E f'
  wrote : ∀ op f', f.currentOp m = some op → Wrote op f f' → P f' ∧ E f'
  call : ∀ a w, f.currentOp m = some (.call a.kind) → CallFrom f a → World.Same f.world w →
    wp (calls.executeCall a) (fun _ w' => ∀ f', Over f w' f' → P f' ∧ E f')
      (fun _ w' => ∀ f', Over f w' f' → E f') w
  create : ∀ a w, f.currentOp m = some (.create a.kind) → CreateFrom f a →
    World.Same f.world w →
    wp (calls.create a) (fun _ w' => ∀ f', Over f w' f' → P f' ∧ E f')
      (fun _ w' => ∀ f', Over f w' f' → E f') w

lemma TurnInto.andQuiet (h : TurnInto m calls f P E) :
    TurnInto m calls f (fun f' => ∀ f'', Quiet f' f'' → P f'' ∧ E f'') E where
  quiet f' hf' := ⟨fun _ hq => h.quiet _ (hf'.trans hq), (h.quiet f' hf').2⟩
  wrote op f' hop hf' := by
    refine ⟨fun f'' hq => h.wrote op f'' hop ?_, (h.wrote op f' hop hf').2⟩
    obtain ⟨w1, w2, hs, hw, ho⟩ := hf'.write
    exact ⟨hf'.writable, w1, w2, hs, hw, ho.then_quiet hq⟩
  call a w hop ha hw := (h.call a w hop ha hw).mono
    (fun _ _ hr f' ho => ⟨fun _ hq => hr _ (ho.then_quiet hq), (hr f' ho).2⟩) (fun _ _ hr => hr)
  create a w hop ha hw := (h.create a w hop ha hw).mono
    (fun _ _ hr f' ho => ⟨fun _ hq => hr _ (ho.then_quiet hq), (hr f' ho).2⟩) (fun _ _ hr => hr)

lemma TurnInto.wp_locateFn (h : TurnInto m calls f P E) {op : Op}
    (hop : f.currentOp m = some op) {f1 : Frame} (h1 : Quiet f f1) :
    wp (locateFn m calls op) (fun _ f' => P f') (fun _ f' => E f') f1 := by
  have heffect : ∀ f', Effect op f1 f' → P f' ∧ E f' := by
    intro f' hf'
    rcases hf'.of_quiet h1 with hq | hw
    · exact h.quiet f' hq
    · exact h.wrote op f' hop hw
  by_cases hlocal : op.isLocal = true
  · exact ((effect_locateFn m calls op hlocal).wp f1).mono
      (fun _ f' hf' => (heffect f' hf').1) (fun _ f' hf' => (heffect f' hf').2)
  cases op with
  | call kind =>
    refine wp_makeCallFunction kind _ (fun _ f' hq => h.quiet f' (h1.trans hq)) ?_
    rintro a w rfl ha hw
    refine (h.call a w hop (ha.of_quiet h1) (h1.world.trans hw)).mono ?_ ?_
    · exact fun _ _ hr _ f' ho => hr f' (ho.of_quiet h1)
    · exact fun _ _ hr f' ho => hr f' (ho.of_quiet h1)
  | create kind =>
    refine wp_makeCreateFunction kind (fun _ f' hq => h.quiet f' (h1.trans hq)) ?_
    rintro a w rfl ha hw
    refine (h.create a w hop (ha.of_quiet h1) (h1.world.trans hw)).mono ?_ ?_
    · exact fun _ _ hr _ f' ho => hr f' (ho.of_quiet h1)
    · exact fun _ _ hr f' ho => hr f' (ho.of_quiet h1)
  | _ => exact absurd rfl hlocal

omit P in
lemma wp_turn_of {Q : Option FnResult → Frame → Prop} {E : JavaException → Frame → Prop}
    (hfetch : ∀ e, getOPCode f.pc f = .err e f → E e f)
    (hstep : getOPCode f.pc f = .ok f.opcode f → wp (runStep m calls f.opcode) (fun rc f' =>
      (rc.hasError ∨ rc.status = .stopToken → Q (some rc) f') ∧
      (¬ (rc.hasError ∨ rc.status = .stopToken) → Q none { f' with pc := wrap64 (f'.pc + 1) })) E f) :
    wp (turn m calls) Q E f := by
  unfold turn
  rw [wp_bind, wp_gets, wp_bind]
  refine ((wp_getOPCode f).and (wp.self _ f)).mono ?_ ?_
  swap
  · rintro e _ ⟨rfl, hget⟩
    exact hfetch e hget
  rintro _ _ ⟨⟨rfl, rfl⟩, hget⟩
  refine wp_bind.mpr ((hstep hget).post (fun rc f' hf' => ?_))
  rw [wp_ite, wp_pure, wp_bind, wp_modify, wp_pure]
  exact hf'

lemma TurnInto.wp_turn (h : TurnInto m calls f P E) :
    wp (turn m calls) (fun _ f' => P f') (fun _ f' => E f') f := by
  have hstep : wp (runStep m calls f.opcode)
      (fun _ f' => ∀ f'', Quiet f' f'' → P f'' ∧ E f'') (fun _ f' => E f') f := by
    unfold runStep
    cases hop : m.cfg.locateOpCode f.opcode with
    | none => exact .pure (h.andQuiet.quiet f (Quiet.refl f)).1
    | some op =>
      refine Keeps.wp_bind (still_charge m op) (fun _ f' hq => (h.quiet f' hq).2) ?_
      intro paid f1 h1
      cases paid with
      | some st => exact .pure (h.andQuiet.quiet f1 h1).1
      | none => exact h.andQuiet.wp_locateFn hop h1
  refine wp_turn_of (fun _ _ => (h.quiet f (Quiet.refl f)).2) fun _ => hstep.post ?_
  exact fun _ f' hf' => ⟨fun _ => (hf' f' (Quiet.refl f')).1, fun _ => (hf' _ (Pcwise.pc f' _)).1⟩

end Turn

/-! ## The states of a frame -/

/-- The states in which a frame of the VM is about to execute an instruction, in runs whose
instructions up to there met the condition `ok`. The code is a Java array. -/
inductive Executes (m : Machine) (ok : Frame → Prop) : Frame → Prop
  | start (contract : Contract) (w : World) (hcode : contract.code.length ≤ 2147483647) :
      Executes m ok (Frame.start contract w)
  | next {n : Nat} {f f' : Frame} (h : Executes m ok f) (hok : ok f)
      (hturn : turn m (vm m n) f = .ok none f') : Executes m ok f'

/-- Take `k` turns, each under a test; `none` when a test fails or the frame ends. -/
def runTurns (m : Machine) (n : Nat) (test : Frame → Bool) : Nat → Frame → Option Frame
  | 0, f => some f
  | k + 1, f =>
      if test f then
        match turn m (vm m n) f with
        | .ok none f' => runTurns m n test k f'
        | _ => none
      else none

lemma Executes.runTurns {n : Nat} {test : Frame → Bool} (htest : ∀ f, test f = true → ok f) :
    ∀ {k : Nat} {f : Frame}, Executes m ok f → runTurns m n test k f = some f' → Executes m ok f' := by
  intro k
  induction k with
  | zero =>
    intro f h hrun
    cases hrun
    exact h
  | succ k ih =>
    intro f h hrun
    unfold GrapeDag.runTurns at hrun
    split at hrun
    · rename_i hf
      split at hrun
      · rename_i f1 hturn
        exact ih (h.next (htest f hf) hturn) hrun
      · cases hrun
    · cases hrun

def Frame.sample (code : Bytes) (gas : Int) : Frame :=
  .start (.new (.account 1 0) 500 0 gas code) (.sampleWith 0 code)

lemma exists_executes {ok P : Frame → Prop} {test : Frame → Bool} {code : Bytes} {gas : Int}
    (n k : Nat) (htest : ∀ f, test f = true → ok f) (hcode : code.length ≤ 2147483647)
    (hrun : ∃ f, runTurns .sample n test k (.sample code gas) = some f ∧ P f) :
    ∃ f, Executes .sample ok f ∧ P f := by
  obtain ⟨f, hf, hP⟩ := hrun
  exact ⟨f, Executes.runTurns htest (.start _ _ hcode) hf, hP⟩

lemma exists_executes_of {P : Frame → Prop} (code : Bytes) (gas : Int) (n k : Nat)
    (hcode : code.length ≤ 2147483647)
    (hrun : ∃ f, runTurns .sample n (fun _ => true) k (.sample code gas) = some f ∧ P f) :
    ∃ f, Executes .sample (fun _ => True) f ∧ P f :=
  exists_executes n k (fun _ _ => trivial) hcode hrun

end GrapeDag
