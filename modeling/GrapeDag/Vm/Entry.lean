/-
WHERE FRAMES BEGIN.

A call or create frame, cut in three at the run of its code: what comes before it (`callEntry`,
`createEntry`), the run, and what comes after it (`callExit`, `createExit`).
-/
import GrapeDag.Vm.GasFees
import GrapeDag.Vm.History

namespace GrapeDag

open Imperative GrapeDag.Frame Prog

/-! ## A frame in three parts -/

/-- How far a frame gets before its code. -/
inductive Entry where
  /-- it has returned -/
  | done (result : VmResult)
  /-- it has no code to run, and is about to close its checkpoint -/
  | ended (result : VmResult)
  | code (contract : Contract)

/-- `VmImpl.executeCall` up to the run of the code. -/
def callEntry (m : Machine) (a : CallArgs) : Java World Entry := do
  match ← .gets (refusal m a.caller.address a.amount) with
  | some st => return .done (.error st a.gas a.contractAddress)
  | none =>
      World.checkpoint
      if ← enterCall m a then return .done (.success a.gas a.contractAddress)
      if isPrecompiled m.cfg a.contractAddress then
        let p ← asPrecompiled m.cfg a.contractAddress
        let (rc, gas) ← runPrecompiledContract m p a.input a.gas
        return .ended ⟨rc.status, gas, [], rc.output, some a.contractAddress⟩
      else
        let data ← .gets fun w => w.getContractCode a.contractAddress
        if data.length = 0 then return .ended (.success a.gas a.contractAddress)
        else return .code (← callContract a data)

/-- `VmImpl.executeCall` from the end of the run on. -/
def callExit (a : CallArgs) (rc : FnResult) (contract : Contract) : Java World VmResult := do
  let eventLog ← frameLog rc.status
  return ⟨rc.status, contract.gas, eventLog, rc.output, some a.contractAddress⟩

/-- `VmImpl.create` up to the run of the init code. -/
def createEntry (m : Machine) (a : CreateArgs) : Java World Entry := do
  let w ← .gets id
  let contractAddress := createTarget m a w
  match refusal m a.caller.address a.amount w with
  | some st => return .done (.error st a.gas contractAddress)
  | none =>
      let nonce := w.getNonce a.caller.address
      if wrap64 (nonce + 1) < nonce then
        return .done (.error .nonceUnitOverflow a.gas contractAddress)
      World.setNonce a.caller.address (nonce + 1)
      let w ← .gets id
      if w.getNonce contractAddress ≠ 0 ∨ w.getContractCodeHash contractAddress ≠ keccak256Null then
        return .done (.error .contractAddressCollision a.gas contractAddress)
      World.checkpoint
      enterCreate a contractAddress
      return .code (.new a.caller contractAddress a.amount a.gas a.code)

/-- `VmImpl.create` from the end of the run on. -/
def createExit (m : Machine) (contractAddress : Address) (rc : FnResult) (contract : Contract) :
    Java World VmResult := do
  let (rc, gas) ← storeCode m contractAddress rc contract.gas
  let eventLog ← frameLog rc.status
  return ⟨rc.status, gas, eventLog, rc.output, some contractAddress⟩

/-- The parts put together; `exit` sees the contract as it was entered and as it is left. -/
def framed (m : Machine) (entry : Java World Entry)
    (run : Contract → Java World (FnResult × Contract))
    (exit : Contract → FnResult → Contract → Java World VmResult) : Java World VmResult := do
  match ← entry with
  | .done result => return result
  | .ended result => endStateTransaction m result
  | .code contract =>
      let (rc, left) ← run contract
      let result ← exit contract rc left
      endStateTransaction m result

lemma executeCall_eq (m : Machine) (run : Runner) (a : CallArgs) :
    executeCall m run a = framed m (callEntry m a)
      (fun c => runContract run c (some a.input) (a.kind = .staticCall))
      (fun _ => callExit a) := by
  unfold framed callEntry
  simp only [seq_assoc]
  refine bind_congr fun refused => ?_
  cases refused with
  | some st => rfl
  | none =>
    simp only [seq_assoc]
    refine bind_congr fun _ => bind_congr fun early => ?_
    cases early with
    | true => rfl
    | false =>
      unfold callBody callExit
      simp only [Bool.false_eq_true, if_false]
      split
      · simp only [seq_assoc, pure_seq]
      · simp only [seq_assoc]
        refine bind_congr fun data => ?_
        split
        · rfl
        · simp only [seq_assoc, pure_seq]

lemma create_eq (m : Machine) (run : Runner) (a : CreateArgs) :
    create m run a = framed m (createEntry m a) (fun c => runContract run c none false)
      (fun c => createExit m c.self) := by
  unfold framed createEntry
  simp only [seq_assoc]
  refine bind_congr fun w => ?_
  cases refusal m a.caller.address a.amount w with
  | some st => rfl
  | none =>
    simp only
    split
    · rfl
    simp only [seq_assoc]
    refine bind_congr fun _ => bind_congr fun w' => ?_
    split
    · rfl
    unfold createBody createExit
    simp only [seq_assoc, pure_seq]
    rfl

section Ends

variable (m : Machine)

instance (a : CallArgs) : Halts (enterCall m a) := by
  unfold enterCall; infer_instance

instance (a : CreateArgs) (x : Address) : Halts (enterCreate a x) := by
  unfold enterCreate; infer_instance

instance (a : CallArgs) : Halts (callEntry m a) := by
  refine Ends.seq inferInstance fun refused => ?_
  cases refused <;> dsimp only <;> infer_instance

instance (a : CreateArgs) : Halts (createEntry m a) := by
  refine Ends.seq inferInstance fun w => ?_
  cases refusal m a.caller.address a.amount w <;> dsimp only <;> infer_instance

instance (st : VmStatus) : Halts (frameLog st) := by
  unfold frameLog; infer_instance

instance (result : VmResult) : Halts (endStateTransaction m result) := by
  unfold endStateTransaction; infer_instance

instance (a : CallArgs) (rc : FnResult) (c : Contract) : Halts (callExit a rc c) := by
  unfold callExit; infer_instance

instance (x : Address) (rc : FnResult) (gas : Int) : Halts (storeCode m x rc gas) := by
  unfold storeCode
  cases rc.output <;> dsimp only <;> infer_instance

instance (x : Address) (rc : FnResult) (c : Contract) : Halts (createExit m x rc c) := by
  unfold createExit; infer_instance

end Ends

variable {m : Machine} {w : World}

lemma framed_ends {entry : Java World Entry} {run : Contract → Java World (FnResult × Contract)}
    {exit : Contract → FnResult → Contract → Java World VmResult}
    (hentry : Halts entry) (hexit : ∀ c rc c', Halts (exit c rc c'))
    (hrun : ∀ c w1, entry w = .ok (.code c) w1 → run c w1 ≠ .diverge) :
    framed m entry run exit w ≠ .diverge := by
  refine bind_ne_diverge (hentry.ends w) fun e w1 he => ?_
  cases e with
  | done result => exact nofun
  | ended result => exact ne_diverge w1
  | code c =>
    refine bind_ne_diverge (hrun c w1 he) fun r w2 _ => ?_
    exact ne_diverge w2

lemma wp_framed {entry : Java World Entry} {run : Contract → Java World (FnResult × Contract)}
    {exit : Contract → FnResult → Contract → Java World VmResult} {Q : VmResult → World → Prop}
    {E : JavaException → World → Prop} (h : wp entry (fun e w1 =>
      match e with
      | .done r => Q r w1
      | .ended r => wp (endStateTransaction m r) Q E w1
      | .code c => wp (run c) (fun r w2 => wp (exit c r.1 r.2)
          (fun result w3 => wp (endStateTransaction m result) Q E w3) E w2) E w1) E w) :
    wp (framed m entry run exit) Q E w := by
  unfold framed
  rw [wp_bind]
  refine h.post (fun e w1 he => ?_)
  cases e with
  | done r => exact .pure he
  | ended r => exact he
  | code c =>
    rw [wp_bind]
    refine he.post (fun r w2 hr => ?_)
    rw [wp_bind]
    exact hr

lemma refusal_status {sender : Address} {amount : Int} {st : VmStatus}
    (h : refusal m sender amount w = some st) : st.isFailure = true ∧ st ≠ .codestoreOutOfGas := by
  unfold refusal at h
  split at h
  · cases h
    exact ⟨rfl, by decide⟩
  · split at h <;> cases h
    exact ⟨rfl, by decide⟩

lemma callEntry_refused {a : CallArgs} {st : VmStatus}
    (h : refusal m a.caller.address a.amount w = some st) :
    callEntry m a w = .ok (.done (.error st a.gas a.contractAddress)) w := by
  unfold callEntry
  rw [gets_bind, h]
  rfl

lemma createEntry_refused {a : CreateArgs} {st : VmStatus}
    (h : refusal m a.caller.address a.amount w = some st) :
    createEntry m a w = .ok (.done (.error st a.gas (createTarget m a w))) w := by
  unfold createEntry
  rw [gets_bind]
  simp only [id, h]
  rfl

/-- The rule for the part of a call before its code. -/
lemma wp_callEntry_of {a : CallArgs} {Q : Entry → World → Prop}
    (hrefused : ∀ st, st.isFailure = true → Q (.done (.error st a.gas a.contractAddress)) w)
    (hentered : refusal m a.caller.address a.amount w = none →
      wpRet (enterCall m a) (fun _ w1 => Q (.done (.success a.gas a.contractAddress)) w1 ∧
        Q (.ended (.success a.gas a.contractAddress)) w1 ∧
        (∀ p r, runPrecompiledContract m p a.input a.gas = .ok r →
          Q (.ended ⟨r.1.status, r.2, [], r.1.output, some a.contractAddress⟩) w1) ∧
        ∀ c, isPrecompiled m.cfg a.contractAddress = false →
          w1.getContractCode a.contractAddress ≠ [] →
          callContract a (w1.getContractCode a.contractAddress) = .ok c → Q (.code c) w1) w.checkpointed) :
    wpRet (callEntry m a) Q w := by
  cases hr : refusal m a.caller.address a.amount w with
  | some st => exact .of_apply_eq (callEntry_refused hr) (.pure (hrefused st (refusal_status hr).1))
  | none =>
    unfold callEntry World.checkpoint
    rw [wpRet, wp_bind, wp_gets, hr]
    dsimp only
    rw [wp_bind, World.wp_rpc, wp_modify, wp_bind]
    refine (hentered hr).post ?_
    rintro early w1 ⟨hearly, hempty, hnative, hcode⟩
    refine .ite (fun _ => .pure hearly) fun _ => .ite (fun _ => ?_) fun hpre => ?_
    · rw [wp_bind, wp_liftM]
      refine ⟨fun p _ => ?_, fun _ _ => trivial⟩
      rw [wp_bind, wp_liftM]
      exact ⟨fun r hr => .pure (hnative p r hr), fun _ _ => trivial⟩
    rw [wp_bind, wp_gets]
    refine .ite (fun _ => .pure hempty) fun hlen => ?_
    rw [wp_bind, wp_liftM]
    refine ⟨fun c hc => .pure (hcode c (Bool.eq_false_iff.mpr hpre) ?_ hc), fun _ _ => trivial⟩
    exact fun hnil => hlen (congrArg List.length hnil)

/-- The rule for the part of a create before its code. -/
lemma wp_createEntry_of {a : CreateArgs} {Q : Entry → World → Prop}
    (hrefused : ∀ st w1, st.isFailure = true → st ≠ .codestoreOutOfGas →
      Q (.done (.error st a.gas (createTarget m a w))) w1)
    (hentered : refusal m a.caller.address a.amount w = none → ∀ w1, NonceRaised a w w1 →
      wpRet (enterCreate a (createTarget m a w))
        (fun _ => Q (.code (.new a.caller (createTarget m a w) a.amount a.gas a.code))) w1.checkpointed) :
    wpRet (createEntry m a) Q w := by
  cases hr : refusal m a.caller.address a.amount w with
  | some st =>
    obtain ⟨hfails, hother⟩ := refusal_status hr
    exact .of_apply_eq (createEntry_refused hr) (.pure (hrefused st w hfails hother))
  | none =>
    unfold createEntry World.checkpoint
    rw [wpRet, wp_bind, wp_gets]
    simp only [id, hr]
    refine .ite (fun _ => .pure (hrefused _ w rfl (by decide))) fun _ => ?_
    rw [wp_bind]
    refine (wp_raiseNonce a w).returned fun _ w1 h1 => ?_
    rw [wp_bind, wp_gets]
    refine .ite (fun _ => .pure (hrefused _ w1 rfl (by decide))) fun _ => ?_
    rw [wp_bind, World.wp_rpc, wp_modify, wp_bind]
    exact (hentered hr w1 h1).post fun _ _ hQ => .pure hQ

/-! ## The run of a frame -/

/-- The state in which `run` starts on a contract; without code it does not. -/
def startOn (contract : Contract) (input : Option Bytes) (readOnly : Bool) (w : World) : Option Frame :=
  if contract.code.length = 0 then none
  else some (.start { contract with input := input } (w.entered readOnly))

lemma run_apply (step : Java Frame (Option FnResult)) (fuel : Nat) (contract : Contract)
    (input : Option Bytes) (readOnly : Bool) (w : World) :
    run step fuel contract input readOnly w = Prog.ensuring (runCode step fuel contract input)
      (leaveRun (readOnly && !w.readOnly)) (w.entered readOnly) := by
  have hflag : (w.readOnly || readOnly) = if readOnly && !w.readOnly then true else w.readOnly := by
    cases w.readOnly <;> cases readOnly <;> rfl
  unfold run World.entered
  rw [hflag, bind_apply]
  show (Prog.gets World.readOnly >>= _) ({ w with depth := w.depth + 1 } : World) = _
  show (if (readOnly && !w.readOnly) = true then _ else _ : Java World _) _ = _
  cases readOnly && !w.readOnly <;> rfl

section Run

variable {step : Java Frame (Option FnResult)} {fuel : Nat} {contract : Contract}
  {input : Option Bytes} {readOnly : Bool} {w : World}

lemma startOn_eq {s : Frame} (h : startOn contract input readOnly w = some s) :
    s = .start { contract with input := input } (w.entered readOnly) := by
  unfold startOn at h
  split at h
  · cases h
  · exact (Option.some.inj h).symm

lemma run_ends
    (h : ∀ s, startOn contract input readOnly w = some s → Prog.loop step fuel s ≠ .diverge) :
    run step fuel contract input readOnly w ≠ .diverge := by
  have hcode : runCode step fuel contract input (w.entered readOnly) ≠ .diverge := by
    unfold runCode
    unfold startOn at h
    split at h
    · next hempty => rw [if_pos hempty]; exact nofun
    next hcode =>
    rw [if_neg hcode]
    have hloop : mainLoop step fuel (.start { contract with input := input } (w.entered readOnly))
        ≠ .diverge := bind_ne_diverge (h _ rfl) fun _ _ _ hd => by cases hd
    unfold Prog.catching inFrame
    intro hd
    split at hd
    · cases hd
    · cases hd
    · next hdiv =>
      split at hdiv
      · cases hdiv
      · cases hdiv
      · exact hloop ‹_›
  have hleave : ∀ reset, Halts (leaveRun reset) := by
    intro reset
    unfold leaveRun
    infer_instance
  rw [run_apply]
  unfold Prog.ensuring
  intro hd
  split at hd
  · exact (Ends.seq (hleave _) fun _ => inferInstance).ends _ hd
  · exact (Ends.seq (hleave _) fun _ => inferInstance).ends _ hd
  · exact hcode ‹_›

lemma wp_run_contract {Q : FnResult → Contract → Prop}
    (hempty : startOn contract input readOnly w = none → Q ⟨.success, some []⟩ contract)
    (hloop : ∀ s, startOn contract input readOnly w = some s →
      wpRet (Prog.loop step fuel) (fun rc f => Q (if rc.status = .stopToken then ⟨.success, rc.output⟩ else rc)
        f.contract) s) :
    wpRet (run step fuel contract input readOnly) (fun r _ => Q r.1 r.2) w := by
  have hcode : wpRet (runCode step fuel contract input) (fun r _ => Q r.1 r.2)
      (w.entered readOnly) := by
    unfold runCode
    refine .ite (fun hcode => .pure (hempty (if_pos hcode))) fun hcode => ?_
    rw [wp_catching, wp_inFrame]
    unfold mainLoop
    rw [wp_bind]
    refine (hloop _ (if_neg hcode)).mono ?_ (fun _ _ _ => (wp_raise _).mpr trivial)
    exact fun _ _ hQ => .pure hQ
  refine .of_apply_eq (run_apply ..) ?_
  rw [wp_ensuring]
  exact hcode.mono (fun _ _ hQ => .always fun _ _ => hQ) (fun _ _ _ => .always fun _ _ => trivial)

lemma wp_run_world {Q X : World → Prop} (hempty : startOn contract input readOnly w = none →
      Q ((w.entered readOnly).left (readOnly && !w.readOnly)))
    (hloop : ∀ s, startOn contract input readOnly w = some s → wp (Prog.loop step fuel)
      (fun _ f => 0 < f.world.depth ∧ Q (f.world.left (readOnly && !w.readOnly)))
      (fun _ f => 0 < f.world.depth ∧ X (f.world.left (readOnly && !w.readOnly))) s) :
    wp (run step fuel contract input readOnly) (fun _ w' => Q w') (fun _ w' => X w') w := by
  have hcode : wp (runCode step fuel contract input)
      (fun _ w' => 0 < w'.depth ∧ Q (w'.left (readOnly && !w.readOnly)))
      (fun _ w' => 0 < w'.depth ∧ X (w'.left (readOnly && !w.readOnly))) (w.entered readOnly) := by
    unfold runCode
    refine .ite (fun hcode => .pure ⟨Nat.succ_pos _, hempty (if_pos hcode)⟩) fun hcode => ?_
    rw [wp_catching, wp_inFrame]
    unfold mainLoop
    rw [wp_bind]
    exact (hloop _ (if_neg hcode)).mono (fun _ _ hQ => .pure hQ) (fun _ _ hX => (wp_raise _).mpr hX)
  refine .of_apply_eq (run_apply ..) ?_
  rw [wp_ensuring]
  exact hcode.mono (fun _ _ hQ => wp_leaveRun _ hQ.1 hQ.2) (fun _ _ hX => wp_leaveRun _ hX.1 hX.2)

end Run

/-! ## Nested frames -/

/-- A frame that is about to be entered, with the world it is entered in. -/
inductive Nested where
  | call (args : CallArgs) (world : World)
  | create (args : CreateArgs) (world : World)

namespace Nested

def gas : Nested → Int
  | call a _ | create a _ => a.gas

def world : Nested → World
  | call _ w => w
  | create _ w => w

def program (calls : Calls) : Nested → Java World VmResult
  | call a _ => calls.executeCall a
  | create a _ => calls.create a

def entry (m : Machine) : Nested → Java World Entry
  | call a _ => callEntry m a
  | create a _ => createEntry m a

def input : Nested → Option Bytes
  | call a _ => some a.input
  | create _ _ => none

def readOnly : Nested → Bool
  | call a _ => a.kind = .staticCall
  | create _ _ => false

def exit (m : Machine) : Nested → Contract → FnResult → Contract → Java World VmResult
  | call a _ => fun _ => callExit a
  | create _ _ => fun c => createExit m c.self

lemma program_eq (m : Machine) (run : Runner) (x : Nested) :
    x.program (framesOver m run) = framed m (x.entry m)
      (fun c => runContract run c x.input x.readOnly) (x.exit m) := by
  cases x with
  | call a w => exact executeCall_eq m run a
  | create a w => exact create_eq m run a

/-- The state in which the interpreter starts on the frame's code, if it comes to that. -/
def start (m : Machine) (x : Nested) : Option Frame :=
  match x.entry m x.world with
  | .ok (.code c) w1 => startOn c x.input x.readOnly w1
  | _ => none

instance (m : Machine) (x : Nested) : Halts (x.entry m) := by
  cases x <;> unfold entry <;> infer_instance

instance (m : Machine) (x : Nested) (c : Contract) (rc : FnResult) (c' : Contract) :
    Halts (x.exit m c rc c') := by
  cases x <;> unfold exit <;> infer_instance

end Nested

/-- Holds over all that a call or create does before its code. -/
class Entrywise (R : World → World → Prop) : Prop extends IsPreorder World R where
  checkpoint : Keeps R World.checkpoint
  createAccount : ∀ a, Keeps R (World.createAccount a)
  setNonce : ∀ a nonce, Keeps R (World.setNonce a nonce)
  transfer : ∀ source target value, Keeps R (World.transfer source target value)

attribute [instance] Entrywise.checkpoint Entrywise.createAccount Entrywise.setNonce Entrywise.transfer

section Keeps

variable {R : World → World → Prop} (m : Machine)

instance keeps_enterCall [Entrywise R] (a : CallArgs) : Keeps R (enterCall m a) := by
  unfold enterCall; infer_instance

instance keeps_enterCreate [Entrywise R] (a : CreateArgs) (x : Address) :
    Keeps R (enterCreate a x) := by unfold enterCreate; infer_instance

set_option synthInstance.maxSize 1000 in
instance keeps_entry [Entrywise R] (x : Nested) : Keeps R (x.entry m) := by
  cases x with
  | call a w =>
    refine .bind (.gets _) fun refused => ?_
    cases refused <;> dsimp only <;> infer_instance
  | create a w =>
    refine .bind (.gets _) fun w0 => ?_
    cases refusal m a.caller.address a.amount w0 <;> dsimp only <;> infer_instance

lemma keeps_rpcLogged [IsPreorder World R] {p : Go Storage Unit} (h : Keeps R (World.rpc p)) :
    Keeps R (World.rpcLogged p) := by
  refine .catching h fun e => ?_
  cases e <;> infer_instance

lemma keeps_storeCode [IsPreorder World R] {x : Address}
    (h : ∀ data, Keeps R (World.putContractCode m.crypto x data)) (rc : FnResult) (gas : Int) :
    Keeps R (storeCode m x rc gas) := by
  refine .ite (.pure _) ?_
  cases rc.output <;> dsimp only <;> infer_instance

end Keeps

lemma runContract_ends {run : Runner} {contract : Contract} {input : Option Bytes}
    {readOnly : Bool} (h : run contract input readOnly w ≠ .diverge) :
    runContract run contract input readOnly w ≠ .diverge := by
  refine catching_ne_diverge h fun e w' => ?_
  cases e <;> exact ne_diverge w'

lemma program_ends {step : Java Frame (Option FnResult)} {fuel : Nat} {x : Nested}
    (h : ∀ s, x.start m = some s → Prog.loop step fuel s ≠ .diverge) :
    x.program (framesOver m (run step fuel)) x.world ≠ .diverge := by
  rw [Nested.program_eq]
  refine framed_ends inferInstance (fun _ _ _ => inferInstance) fun c w1 he => ?_
  refine runContract_ends (run_ends fun s hs => h s ?_)
  simp only [Nested.start, he]
  exact hs

/-! ## What a turn opens -/

def Frame.charged (m : Machine) (f : Frame) : Option (Op × Frame) :=
  match getOPCode f.pc f with
  | .ok opCode _ =>
      match m.cfg.locateOpCode opCode with
      | none => none
      | some op =>
          match charge m op f with
          | .ok none f1 => some (op, f1)
          | _ => none
  | _ => none

def openedBy (m : Machine) (op : Op) (f : Frame) : Option Nested :=
  match op with
  | .call kind =>
      match prepareCall kind m.callStipend f with
      | .ok (.ok c) f1 => some (.call ⟨kind, f1.contract.toRef, c.toAddr, c.args, c.gasLimit,
          c.value.bigIntegerValue⟩ f1.world)
      | _ => none
  | .create kind =>
      match prepareCreate kind f with
      | .ok (.ok c) f1 => some (.create ⟨kind, f1.contract.toRef, c.code, c.gas, c.value, c.salt⟩ f1.world)
      | _ => none
  | _ => none

/-- A static context passes on no value and creates nothing. -/
def Nested.Legal : Nested → Prop
  | .call a w => w.readOnly = true → a.kind = .call → a.amount = 0
  | .create _ w => w.readOnly = false

section Opened

variable {m : Machine} {op : Op} {f : Frame}

/-- What an instruction does that opens the frame `x`: it takes its operands, runs the frame, and
finishes. -/
structure Opening (m : Machine) (op : Op) (f : Frame) (x : Nested) (f1 : Frame)
    (finish : VmResult → Java Frame FnResult) : Prop where
  world : x.world = f1.world
  legal : x.Legal
  before : ∀ (R : Frame → Frame → Prop) [Callwise R], R f f1
  after : ∀ (R : Frame → Frame → Prop) [Callwise R] r, Keeps R (finish r)
  run : ∀ calls, locateFn m calls op f = (onWorld (x.program calls) >>= finish) f1

lemma opening_call {kind : CallKind} {c : PreparedCall} {f1 : Frame}
    (h : prepareCall kind m.callStipend f = .ok (.ok c) f1) :
    Opening m (.call kind) f (.call ⟨kind, f1.contract.toRef, c.toAddr, c.args, c.gasLimit,
      c.value.bigIntegerValue⟩ f1.world) f1 (finishCall c) := by
  obtain ⟨hquiet, hc⟩ := (wp_prepareCall kind m.callStipend f).of_ok h
  refine ⟨rfl, fun hro hkind => ?_, fun R _ => ((steps_prepareCall kind _ : Steps R _).keeps.wp f).of_ok h,
    fun _ _ r => (steps_finishCall c r).keeps, fun calls => (bind_of_ok h).trans (gets_bind)⟩
  have hzero : c.value = 0 := (hc c rfl).1 (hquiet.world.readOnly.symm.trans hro) hkind
  show c.value.bigIntegerValue = 0
  rw [hzero]
  rfl

lemma opening_create {kind : CreateKind} {c : PreparedCreate} {f1 : Frame}
    (h : prepareCreate kind f = .ok (.ok c) f1) :
    Opening m (.create kind) f (.create ⟨kind, f1.contract.toRef, c.code, c.gas, c.value, c.salt⟩
      f1.world) f1 finishCreate := by
  obtain ⟨hquiet, hc⟩ := (wp_prepareCreate kind f).of_ok h
  exact ⟨rfl, hquiet.world.readOnly.trans (hc c rfl),
    fun R _ => ((steps_prepareCreate kind : Steps R _).keeps.wp f).of_ok h,
    fun _ _ r => (steps_finishCreate r).keeps, fun calls => (bind_of_ok h).trans (gets_bind)⟩

lemma openedBy_eq_some {x : Nested} (h : openedBy m op f = some x) :
    (∃ kind c f1, op = .call kind ∧ prepareCall kind m.callStipend f = .ok (.ok c) f1 ∧
      x = .call ⟨kind, f1.contract.toRef, c.toAddr, c.args, c.gasLimit, c.value.bigIntegerValue⟩ f1.world) ∨
    ∃ kind c f1, op = .create kind ∧ prepareCreate kind f = .ok (.ok c) f1 ∧
      x = .create ⟨kind, f1.contract.toRef, c.code, c.gas, c.value, c.salt⟩ f1.world := by
  cases op with
  | call kind =>
    simp only [openedBy] at h
    split at h
    · next c f1 hprep => exact .inl ⟨kind, c, f1, rfl, hprep, (Option.some.inj h).symm⟩
    · cases h
  | create kind =>
    simp only [openedBy] at h
    split at h
    · next c f1 hprep => exact .inr ⟨kind, c, f1, rfl, hprep, (Option.some.inj h).symm⟩
    · cases h
  | _ => cases h

lemma exists_opening {x : Nested} (h : openedBy m op f = some x) :
    ∃ f1 finish, Opening m op f x f1 finish := by
  rcases openedBy_eq_some h with ⟨kind, c, f1, rfl, hprep, rfl⟩ | ⟨kind, c, f1, rfl, hprep, rfl⟩
  · exact ⟨f1, _, opening_call hprep⟩
  · exact ⟨f1, _, opening_create hprep⟩

lemma wp_unopened {calls : Calls} {P : Frame → Prop} (h : openedBy m op f = none)
    (hlocal : op.isLocal = true → wpEnd (locateFn m calls op) P f)
    (hcall : ∀ kind, op = .call kind → wpEnd (prepareCall kind m.callStipend) P f)
    (hcreate : ∀ kind, op = .create kind → wpEnd (prepareCreate kind) P f) :
    wpEnd (locateFn m calls op) P f := by
  cases op with
  | call kind =>
    refine wp_bind.mpr (((hcall kind rfl).and (wp.self _ f)).mono ?_ (fun _ _ h => h.1))
    rintro (st | c) f1 ⟨hP, hrun⟩
    · exact .pure hP
    · simp only [openedBy, hrun] at h
      cases h
  | create kind =>
    refine wp_bind.mpr (((hcreate kind rfl).and (wp.self _ f)).mono ?_ (fun _ _ h => h.1))
    rintro (st | c) f1 ⟨hP, hrun⟩
    · exact .pure hP
    · simp only [openedBy, hrun] at h
      cases h
  | _ => exact hlocal rfl

end Opened

def Frame.opens (m : Machine) (f : Frame) : Option Nested :=
  (f.charged m).bind fun (op, f1) => openedBy m op f1

def Frame.ticks (m : Machine) (f : Frame) : Nat :=
  match f.charged m with
  | some (op, _) => op.ticks
  | none => 0

section Turn

variable {m : Machine} {calls : Calls} {f f1 : Frame} {op : Op}

lemma getOPCode_apply (f : Frame) :
    getOPCode f.pc f = .ok f.opcode f ∨ ∃ e, getOPCode f.pc f = .err e f := by
  have hwp := wp_getOPCode f
  cases h : getOPCode f.pc f with
  | ok b f' =>
    obtain ⟨rfl, rfl⟩ := hwp.of_ok h
    exact .inl rfl
  | err e f' =>
    obtain rfl := hwp.of_err h
    exact .inr ⟨e, rfl⟩
  | diverge => exact absurd h (ne_diverge f)

lemma charged_eq (h : f.charged m = some (op, f1)) :
    getOPCode f.pc f = .ok f.opcode f ∧ m.cfg.locateOpCode f.opcode = some op ∧
      charge m op f = .ok none f1 := by
  unfold Frame.charged at h
  split at h
  · next opCode f0 hget =>
    obtain ⟨rfl, rfl⟩ : opCode = f.opcode ∧ f0 = f := (wp_getOPCode f).of_ok hget
    split at h
    · cases h
    next op' hop =>
    split at h
    · next f1' hrun =>
      cases h
      exact ⟨hget, hop, hrun⟩
    · cases h
  · cases h

end Turn

end GrapeDag
