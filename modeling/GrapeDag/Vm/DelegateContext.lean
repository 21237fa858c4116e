/-
WHAT A DELEGATE CALL INHERITS.

A nesting is the stack of frames that are running at one moment: each was entered by the
instruction that the frame under it is executing, the lowest one by the message. `asDelegate`
takes the caller and the value of a delegated frame from the caller REFERENCE of the issuing
frame, not from the issuing frame itself.

Main result: `delegate_context_iff`.
-/
import GrapeDag.Vm.Transfers

namespace GrapeDag

open Imperative GrapeDag.Frame Prog

/-! ## Contexts -/

/-- What `CALLER`, `CALLVALUE` and `ADDRESS` read: `caller()`, `value()` and `address()` of the
contract. -/
structure CallContext where
  caller : Address
  value : Int
  address : Address
  deriving Repr, DecidableEq

def Contract.context (c : Contract) : CallContext := ⟨c.callerAddr, c.value, c.self⟩

/-- The context `asDelegate` builds from an issuing contract. -/
def Contract.inherited (c : Contract) : CallContext := ⟨c.caller.address, c.caller.value, c.self⟩

variable {f f' g : Frame} {a : CallArgs} {c : Contract} {m : Machine} {w : World}
  {step : Java Frame (Option FnResult)} {n : Nat} {amount : Int} {sender : Address}

lemma SameContract.context (h : SameContract f f') :
    f'.contract.context = f.contract.context := by rw [h]; rfl

lemma SameContract.caller (h : SameContract f f') : f'.contract.caller = f.contract.caller := by rw [h]

lemma callContract_code {code : Bytes} (h : callContract a code = .ok c) : c.code = code := by
  unfold callContract Contract.asDelegate at h
  repeat' split at h
  all_goals cases h
  all_goals rfl

lemma callContract_delegate {code : Bytes} {issuer : Contract} (h : callContract a code = .ok c)
    (hkind : a.kind = .delegateCall) (hcaller : a.caller = issuer.toRef) :
    c.context = issuer.inherited := by
  unfold callContract at h
  rw [hkind] at h
  simp only [Contract.new, hcaller] at h
  cases h
  rfl

/-! ## The callee of a frame -/

/-- `executeCall` up to the interpreter: the contract that is run, and the world it is run in.
Nothing is run for a refused call, a precompile, or an address without code. -/
def openCall (m : Machine) (a : CallArgs) (w : World) : Option (Contract × World) :=
  match refusal m a.caller.address a.amount w with
  | some _ => none
  | none =>
      match enterCall m a w.checkpointed with
      | .ok false w =>
          let data := w.getContractCode a.contractAddress
          if isPrecompiled m.cfg a.contractAddress ∨ data.length = 0 then none
          else
            match callContract a data with
            | .ok c => some ({ c with input := some a.input }, w.entered (a.kind = .staticCall))
            | .error _ => none
      | _ => none

def Frame.calleeOf (m : Machine) (kind : CallKind) (f : Frame) : Option Frame :=
  match charge m (.call kind) f with
  | .ok none f1 =>
      match prepareCall kind m.callStipend f1 with
      | .ok (.ok p) f2 =>
          (openCall m ⟨kind, f2.contract.toRef, p.toAddr, p.args, p.gasLimit,
            p.value.bigIntegerValue⟩ f2.world).map fun cw => Frame.start cw.1 cw.2
      | _ => none
  | _ => none

def Frame.callee (m : Machine) (f : Frame) : Option Frame :=
  match getOPCode f.pc f with
  | .ok b _ =>
      match m.cfg.locateOpCode b with
      | some (.call kind) => f.calleeOf m kind
      | _ => none
  | _ => none

lemma Frame.callee_eq_some (h : f.callee m = some g) :
    ∃ kind, getOPCode f.pc f = .ok f.opcode f ∧ f.currentOp m = some (.call kind) ∧
      f.calleeOf m kind = some g := by
  unfold callee at h
  split at h
  · rename_i b f' hget
    obtain ⟨rfl, rfl⟩ := (wp_getOPCode f).of_ok hget
    split at h
    · rename_i kind hop
      exact ⟨kind, hget, hop, h⟩
    · cases h
  · cases h

lemma Frame.calleeOf_eq_some {kind : CallKind} (h : f.calleeOf m kind = some g) :
    ∃ f1 p f2 c w, charge m (.call kind) f = .ok none f1 ∧
      prepareCall kind m.callStipend f1 = .ok (.ok p) f2 ∧
      openCall m ⟨kind, f2.contract.toRef, p.toAddr, p.args, p.gasLimit,
        p.value.bigIntegerValue⟩ f2.world = some (c, w) ∧ g = start c w := by
  unfold calleeOf at h
  split at h
  · rename_i f1 hcharge
    split at h
    · rename_i p f2 hprep
      obtain ⟨⟨c, w⟩, hopen, rfl⟩ := Option.map_eq_some_iff.mp h
      exact ⟨f1, p, f2, c, w, hcharge, hprep, hopen, rfl⟩
    · cases h
  · cases h

/-- `g` was entered from `f`. -/
structure Entered (m : Machine) (f g : Frame) : Prop where
  caller : g.contract.caller = f.contract.toRef
  delegated : f.currentOp m = some (.call .delegateCall) → g.contract.context = f.contract.inherited

lemma openCall_eq_some {w' : World} (h : openCall m a w = some (c, w')) :
    ∃ c0 w1, refusal m a.caller.address a.amount w = none ∧
      enterCall m a w.checkpointed = .ok false w1 ∧
      ¬ isPrecompiled m.cfg a.contractAddress = true ∧
      (w1.getContractCode a.contractAddress).length ≠ 0 ∧
      callContract a (w1.getContractCode a.contractAddress) = .ok c0 ∧
      c = { c0 with input := some a.input } ∧ w' = w1.entered (a.kind = .staticCall) := by
  unfold openCall at h
  split at h
  · cases h
  rename_i hrefusal
  split at h
  · rename_i w1 henter
    simp only at h
    split at h
    · cases h
    rename_i hcode
    rw [not_or] at hcode
    split at h
    · rename_i c0 hc
      cases h
      exact ⟨c0, w1, hrefusal, henter, hcode.1, hcode.2, hc, rfl, rfl⟩
    · cases h
  · cases h

lemma Frame.callee_entered (h : f.callee m = some g) : Entered m f g := by
  obtain ⟨kind, -, hop, hcallee⟩ := callee_eq_some h
  obtain ⟨f1, p, f2, c, w, hcharge, hprep, hopen, rfl⟩ := calleeOf_eq_some hcallee
  obtain ⟨c0, w1, -, -, -, -, hc, rfl, rfl⟩ := openCall_eq_some hopen
  -- neither the fee nor the operands change more of the contract than its gas
  have hquiet : Quiet f f2 := (((still_charge m (.call kind)).wp f).of_ok hcharge).trans
      ((wp_prepareCall kind m.callStipend f1).of_ok hprep).1
  have href : f2.contract.toRef = f.contract.toRef := hquiet.contract.toRef
  refine ⟨(callContract_ref hc).trans href, fun hdelegate => ?_⟩
  rw [hop] at hdelegate
  cases hdelegate
  have hcontext : c0.context = f.contract.inherited := callContract_delegate hc rfl href
  exact hcontext

lemma run_diverges {fuel : Nat} {input : Option Bytes} {readOnly : Bool} (hcode : c.code.length ≠ 0)
    (hloop : mainLoop step fuel (start { c with input := input } (w.entered readOnly))
      = .diverge) : run step fuel c input readOnly w = .diverge := by
  have hframe : runCode step fuel c input (w.entered readOnly) = .diverge := by
    simp only [runCode, if_neg hcode, catching, inFrame, hloop]
  have hrun : run step fuel c input readOnly w = ensuring (runCode step fuel c input)
      (leaveRun (readOnly && !w.readOnly)) (w.entered readOnly) := by
    cases hro : w.readOnly <;> cases readOnly <;>
      simp [run, World.enter, World.clearReturnData, World.setReturnData, World.entered, hro, bind_apply]
  rw [hrun]
  simp only [ensuring, hframe]

lemma executeCall_runs {w' : World} {fuel : Nat} (hopen : openCall m a w = some (c, w'))
    (hloop : mainLoop step fuel (start c w') = .diverge) :
    executeCall m (run step fuel) a w = .diverge := by
  obtain ⟨c0, w1, hrefusal, henter, hplain, hcode, hc, rfl, rfl⟩ := openCall_eq_some hopen
  have hbody : callBody m (run step fuel) a w1 = .diverge := by
    unfold callBody
    rw [if_neg hplain, gets_bind, if_neg hcode, liftM_bind hc]
    apply bind_of_diverge
    exact catching_of_diverge (run_diverges (callContract_code hc ▸ hcode) hloop)
  unfold executeCall
  rw [gets_bind, hrefusal]
  show (World.checkpoint >>= _) w = _
  rw [bind_of_ok (show World.checkpoint w = .ok () w.checkpointed from rfl), bind_of_ok henter]
  exact bind_of_diverge hbody

/-- The interpreter runs the callee: if its loop does not end, the turn does not either. -/
lemma Frame.callee_runs (h : f.callee m = some g)
    (hloop : mainLoop (turn m (vm m n)) n g = .diverge) : turn m (vm m (n + 1)) f = .diverge := by
  obtain ⟨kind, hget, hop, hcallee⟩ := callee_eq_some h
  obtain ⟨f1, p, f2, c, w, hcharge, hprep, hopen, rfl⟩ := calleeOf_eq_some hcallee
  have hstep : runStep m (vm m (n + 1)) f.opcode f = .diverge := by
    rw [runStep_of_prepared hop hcharge hprep]
    apply bind_of_diverge
    unfold onWorld
    simp only [zoom]
    rw [show (vm m (n + 1)).executeCall _ f2.world = .diverge from executeCall_runs hopen hloop]
  unfold turn
  rw [gets_bind, bind_of_ok hget]
  exact bind_of_diverge hstep

/-! ## Nestings -/

/-- The stacks of running frames, innermost first, of a message of `sender` that carries
`amount`. A frame of the stack stands at the instruction that entered the frame above it. -/
inductive Nesting (m : Machine) (sender : Address) (amount : Int) : List Frame → Prop
  | message {a : CallArgs} {w w' : World} {c : Contract}
      (ha : a.kind = .call ∧ a.caller = .account sender amount ∧ a.amount = amount)
      (hopen : openCall m a w = some (c, w')) : Nesting m sender amount [Frame.start c w']
  | publish (x : Address) (gas : Int) (code : Bytes) (w : World) : Nesting m sender amount
        [Frame.start (.new (.account sender amount) x amount gas code) w]
  | turn {n : Nat} {f f' : Frame} {outer : List Frame} (h : Nesting m sender amount (f :: outer))
      (hturn : GrapeDag.turn m (vm m n) f = .ok none f') : Nesting m sender amount (f' :: outer)
  | call {f g : Frame} {outer : List Frame} (h : Nesting m sender amount (f :: outer))
      (hcallee : f.callee m = some g) : Nesting m sender amount (g :: f :: outer)
  | create {kind : CreateKind} {f : Frame} {outer : List Frame}
      (h : Nesting m sender amount (f :: outer)) (hop : f.currentOp m = some (.create kind))
      (x : Address) (value gas : Int) (code : Bytes) (w : World) :
      Nesting m sender amount (Frame.start (.new f.contract.toRef x value gas code) w :: f :: outer)

/-- Who entered the frame on top of these: the frame under it, or the sender. -/
def entrant (sender : Address) (amount : Int) : List Frame → ContractRef
  | [] => .account sender amount
  | f :: _ => f.contract.toRef

/-- Each frame was entered from the next one out. -/
def Links (m : Machine) (sender : Address) (amount : Int) : List Frame → Prop
  | [] => True
  | g :: outer =>
      g.contract.caller = entrant sender amount outer ∧
      (∀ f ∈ outer.head?, f.currentOp m = some (.call .delegateCall) →
        g.contract.context = f.contract.inherited) ∧
      Links m sender amount outer

lemma turn_sameContract (m : Machine) (n : Nat) (f : Frame) :
    wpEnd (turn m (vm m n)) (SameContract f) f := by
  refine TurnInto.wp_turn ⟨?_, ?_, ?_, ?_⟩
  · exact fun f' hq => ⟨hq.contract, hq.contract⟩
  · intro op f' _ hw
    obtain ⟨w1, w2, _, _, ho⟩ := hw.write
    exact ⟨ho.contract, ho.contract⟩
  · exact fun a w _ _ _ => .of_forall (fun _ _ _ ho => ⟨ho.contract, ho.contract⟩)
      (fun _ _ _ ho => ho.contract)
  · exact fun a w _ _ _ => .of_forall (fun _ _ _ ho => ⟨ho.contract, ho.contract⟩)
      (fun _ _ _ ho => ho.contract)

lemma Nesting.links {stack : List Frame} (h : Nesting m sender amount stack) :
    Links m sender amount stack := by
  induction h with
  | message ha hopen =>
    obtain ⟨c0, w1, -, -, -, -, hc, rfl, rfl⟩ := openCall_eq_some hopen
    exact ⟨(callContract_ref hc).trans ha.2.1, by simp, trivial⟩
  | publish x gas code w => exact ⟨rfl, by simp, trivial⟩
  | turn _ hturn ih =>
    have hsame := (turn_sameContract m _ _).of_ok hturn
    exact ⟨hsame.caller.trans ih.1, fun f hf hop => hsame.context.trans (ih.2.1 f hf hop), ih.2.2⟩
  | call _ hcallee ih =>
    have hentered := callee_entered hcallee
    refine ⟨hentered.caller, ?_, ih⟩
    intro f hf hop
    cases hf
    exact hentered.delegated hop
  | create _ hop x value gas code w ih =>
    refine ⟨rfl, ?_, ih⟩
    intro f hf hdelegate
    cases hf
    rw [hop] at hdelegate
    cases hdelegate

/-- **The context of a delegate call.** In every nesting, a frame entered by `DELEGATECALL` sees
the caller, value and address of the frame that issued it exactly when whoever entered the issuing
frame has that frame's caller as its address, and that frame's value as its own. -/
theorem delegate_context_iff {m : Machine} {sender : Address} {amount : Int} {g f : Frame}
    {outer : List Frame} (h : Nesting m sender amount (g :: f :: outer))
    (hop : f.currentOp m = some (.call .delegateCall)) :
    g.contract.context = f.contract.context ↔
      (entrant sender amount outer).address = f.contract.callerAddr ∧
      (entrant sender amount outer).value = f.contract.value := by
  obtain ⟨-, hinherited, hcaller, -⟩ := h.links
  rw [hinherited f rfl hop, ← hcaller]
  unfold Contract.inherited Contract.context
  simp only [CallContext.mk.injEq, and_true]

/-! ## Nestings that are computed -/

def dive (m : Machine) (n : Nat) : List Nat → List Frame → Option (List Frame)
  | k :: turns, f :: outer => do
      let f' ← runTurns m n (fun _ => true) k f
      let g ← f'.callee m
      dive m n turns (g :: f' :: outer)
  | _, stack => some stack

lemma Nesting.turns {outer : List Frame} :
    ∀ {k : Nat} {f : Frame}, Nesting m sender amount (f :: outer) →
      runTurns m n (fun _ => true) k f = some f' → Nesting m sender amount (f' :: outer) := by
  intro k
  induction k with
  | zero =>
    intro f h hrun
    cases hrun
    exact h
  | succ k ih =>
    intro f h hrun
    unfold runTurns at hrun
    rw [if_pos rfl] at hrun
    split at hrun
    · rename_i f1 hturn
      exact ih (h.turn hturn) hrun
    · cases hrun

lemma Nesting.dive {stack' : List Frame} :
    ∀ {turns : List Nat} {stack : List Frame}, Nesting m sender amount stack →
      GrapeDag.dive m n turns stack = some stack' → Nesting m sender amount stack' := by
  intro turns
  induction turns with
  | nil =>
    intro stack h hdive
    cases hdive
    exact h
  | cons k turns ih =>
    intro stack h hdive
    cases stack with
    | nil =>
      cases hdive
      exact h
    | cons f outer =>
      simp only [GrapeDag.dive, Option.bind_eq_bind, Option.bind_eq_some_iff] at hdive
      obtain ⟨f', hturns, g, hcallee, hdive⟩ := hdive
      exact ih ((h.turns hturns).call hcallee) hdive

def messageDives (amount : Int) (turns : List Nat) (w : World)
    (test : Frame → Frame → List Frame → Bool) : Bool :=
  match openCall .sample ⟨.call, .account 1 amount, 500, [], 100000, amount⟩ w with
  | some (c, w') =>
      match dive .sample 20 turns [Frame.start c w'] with
      | some (g :: f :: outer) => test g f outer
      | _ => false
  | none => false

lemma Nesting.of_messageDives {P : Frame → Frame → List Frame → Prop}
    [∀ g f outer, Decidable (P g f outer)] (turns : List Nat) (w : World)
    (h : messageDives amount turns w (fun g f outer => decide (P g f outer)) = true) :
    ∃ g f outer, Nesting .sample 1 amount (g :: f :: outer) ∧ P g f outer := by
  unfold messageDives at h
  split at h
  · rename_i c w' hopen
    split at h
    · rename_i g f outer hdive
      exact ⟨g, f, outer, (Nesting.message ⟨rfl, rfl, rfl⟩ hopen).dive hdive, of_decide_eq_true h⟩
    · cases h
  · cases h

/-- Delegate to an address below `2^16`: `PUSH1 0` four times, `PUSH2`, `PUSH2 5000`,
`DELEGATECALL`, `STOP`. -/
def delegateCode (high low : UInt8) : Bytes :=
  [0x60, 0, 0x60, 0, 0x60, 0, 0x60, 0, 0x61, high, low, 0x61, 0x13, 0x88, 0xf4, 0]

def World.sampleDelegating (code : Bytes) : World :=
  .start (.holding [(1, .holding 100 []), (500, .holding 50 code),
    (600, .holding 0 (delegateCode 0x02 0xbc)), (700, .holding 0 (delegateCode 0x03 0x20)),
    (800, .holding 0 [0x34, 0])])

/-- The contract at address 500 pays 5 to the one at address 600. The code that 600 delegates to
sees the value 0, that of the frame of 500; the code delegated to from there sees the caller 600
instead of 500. -/
theorem delegate_loses_context : (∃ g f outer, Nesting .sample 1 0 (g :: f :: outer) ∧
      f.currentOp .sample = some (.call .delegateCall) ∧
      f.contract.context = ⟨500, 5, 600⟩ ∧ g.contract.context = ⟨500, 0, 600⟩) ∧
    (∃ g f outer, Nesting .sample 1 0 (g :: f :: outer) ∧
      f.currentOp .sample = some (.call .delegateCall) ∧
      f.contract.context = ⟨500, 0, 600⟩ ∧ g.contract.context = ⟨600, 5, 600⟩) := by
  constructor
  · exact Nesting.of_messageDives [7, 6] (.sampleDelegating (payCode 5)) (by decide +kernel)
  · exact Nesting.of_messageDives [7, 6, 6] (.sampleDelegating (payCode 5)) (by decide +kernel)

theorem delegate_keeps_context : ∃ g f outer, Nesting .sample 1 5 (g :: f :: outer) ∧
      f.contract.context = ⟨1, 5, 500⟩ ∧ g.contract.context = f.contract.context := by
  obtain ⟨g, f, outer, h, hop, hcontext, hmeets⟩ := @Nesting.of_messageDives 5 (fun _ f outer =>
      f.currentOp .sample = some (.call .delegateCall) ∧ f.contract.context = ⟨1, 5, 500⟩ ∧
        (entrant 1 5 outer).address = f.contract.callerAddr ∧
        (entrant 1 5 outer).value = f.contract.value)
    _ [6] (.sampleDelegating (delegateCode 0x02 0xbc)) (by decide +kernel)
  exact ⟨g, f, outer, h, hcontext, (delegate_context_iff h hop).mpr hmeets⟩

end GrapeDag
