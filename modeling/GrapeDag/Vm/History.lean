/-
THE HISTORY OF A FRAME.

Every run of a frame, whatever code it executes and however it ends, is a HISTORY: a sequence of
primitive steps in which checkpointed sections are committed or reverted. `chain` lists the
addresses that are executing, innermost first. An invariant of all runs is proved by induction
on `Hist`, with one case per primitive step.

Main result: `vm_history`.
-/
import GrapeDag.Vm.Step

namespace GrapeDag

open Imperative GrapeDag.Frame Prog World

/-! ## Worlds around a run -/

variable {Q : Unit → World → Prop} {E : JavaException → World → Prop}

namespace World

/-- After `checkpoint`. -/
def checkpointed (w : World) : World := { w with storage := w.storage.checkpoint }

/-- What the code of a frame finds: one level deeper, perhaps in static mode. -/
def entered (readOnly : Bool) (w : World) : World :=
  { w with depth := w.depth + 1, readOnly := w.readOnly || readOnly, returnData := some [] }

/-- What the `finally` block of `run` does, once the depth is positive. -/
def left (resetReadonly : Bool) (w : World) : World :=
  { w with depth := w.depth - 1, readOnly := if resetReadonly then false else w.readOnly }

/-- After a write of an account. -/
def putAccount (a : Address) (account : StoredAccount) (w : World) : World :=
  { w with storage := w.storage.putAccount a account }

lemma getAccount_putAccount (w : World) (a x : Address) (account : StoredAccount) :
    (w.putAccount a account).getAccount x = if x = a then some account else w.getAccount x :=
  Storage.getAccount_putAccount ..

lemma getBalance_putAccount (w : World) (a x : Address) (account : StoredAccount) :
    (w.putAccount a account).getBalance x = if x = a then account.balance else w.getBalance x := by
  unfold World.getBalance
  rw [getAccount_putAccount]
  by_cases h : x = a
  · rw [if_pos h, if_pos h]
  · rw [if_neg h, if_neg h]

variable {w : World} {a : Address} {account : StoredAccount}

lemma getBalance_putBlank (h : w.getAccount a = none) (x : Address) :
    (w.putAccount a .blank).getBalance x = w.getBalance x := by
  rw [getBalance_putAccount]
  by_cases hx : x = a
  · rw [if_pos hx, hx]
    unfold World.getBalance
    rw [h]
    rfl
  · rw [if_neg hx]

lemma getBalance_eq (h : w.getAccount a = some account) : w.getBalance a = account.balance := by
  unfold World.getBalance
  rw [h]

lemma getContractCode_putAccount (w : World) (a x : Address) (account : StoredAccount) :
    (w.putAccount a account).getContractCode x = if x = a then account.code else w.getContractCode x := by
  unfold getContractCode
  rw [getAccount_putAccount]
  by_cases h : x = a
  · rw [if_pos h, if_pos h]
  · rw [if_neg h, if_neg h]

lemma getContractCode_eq (h : w.getAccount a = some account) : w.getContractCode a = account.code := by
  unfold getContractCode
  rw [h]

lemma updateAccount_apply (h : w.getAccount a = some account) (f : StoredAccount → StoredAccount) :
    rpc (Storage.updateAccount a f) w = .ok () (w.putAccount a (f account)) := by
  unfold rpc
  rw [Storage.updateAccount_ok h f]
  rfl

lemma updateAccount_missing (h : w.getAccount a = none) (f : StoredAccount → StoredAccount) :
    rpc (Storage.updateAccount a f) w = .err .statusRuntime w := by
  have hupdate : Storage.updateAccount a f w.storage = .err .error w.storage := by
    unfold Storage.updateAccount
    rw [Prog.bind_apply, Prog.gets_apply]
    simp only [show w.storage.getAccount a = none from h]
    rfl
  unfold rpc
  rw [hupdate]

lemma wp_setNonce {nonce : Int}
    (hmissing : w.getAccount a = none → Q () w) (hset : ∀ account, w.getAccount a = some account →
      Q () (w.putAccount a { account with nonce := wrap64 nonce })) :
    wp (setNonce a nonce) Q E w := by
  unfold setNonce Storage.setNonce
  rw [wp_rpcLogged, Storage.wp_updateAccount]
  exact ⟨hmissing, hset⟩

end World

/-! ## Primitive steps -/

/-- What is known when a create frame writes its target: the guard held at the entry `w0` of the
frame, and only the caller's nonce has changed since. -/
structure Fresh (m : Machine) (g : Guard) (chain : List Address) (a : CreateArgs)
    (w0 w : World) : Prop where
  guard : g.create a w0 = true
  caller : a.caller.addresses = chain
  writable : w.readOnly = false
  nonce : w.getNonce (createTarget m a w0) = 0
  nonces : ∀ x, x ≠ a.caller.address → w.getNonce x = w0.getNonce x
  code : ∀ x, w.getContractCode x = w0.getContractCode x
  balance : ∀ x, w.getBalance x = w0.getBalance x
  funds : a.amount ≠ 0 → a.amount ≤ w0.getBalance a.caller.address

/-- The value has moved, between accounts that exist. -/
structure Transferred (source target : Address) (value : Int) (w w' : World) : Prop where
  moved : ∃ s t, w.getAccount source = some s ∧
    (w.putAccount source { s with balance := s.balance - value }).getAccount target = some t ∧
    w' = (w.putAccount source { s with balance := s.balance - value }).putAccount target
      { t with balance := t.balance + value }

/-- The frame whose value a transfer moves: it was entered under the guard, in a world `w0` where
the source had the funds, and no balance has changed since but for the target of a create. -/
inductive Paying (m : Machine) (g : Guard) (source target : Address) (value : Int) (w : World) :
    Prop
  | call (a : CallArgs) (w0 : World) (hg : g.call a w0 = true)
      (hsource : a.caller.address = source) (hvalue : a.amount = value)
      (hfunds : value ≤ w0.getBalance source) (hbalance : ∀ x, w.getBalance x = w0.getBalance x)
  | create (a : CreateArgs) (w0 : World) (hg : g.create a w0 = true)
      (hsource : a.caller.address = source) (htarget : createTarget m a w0 = target)
      (hvalue : a.amount = value) (hfunds : value ≤ w0.getBalance source)
      (hbalance : ∀ x, w.getBalance x = if x = target then 0 else w0.getBalance x)

/-- The primitive steps. -/
inductive Prim (m : Machine) (g : Guard) (chain : List Address) : World → World → Prop
  | same {w w' : World} (h : World.Same w w') : Prim m g chain w w'
  | wrote {f : Frame} {op : Op} {w w' : World} (hg : g.instruction f = true)
      (hop : f.currentOp m = some op) (hchain : f.contract.toRef.addresses = chain)
      (hro : f.world.readOnly = false) (hs : World.Same f.world w)
      (hw : Write f.contract.self op w w') : Prim m g chain w w'
  /-- a `CALL` creates the missing account it calls -/
  | touch {a : CallArgs} {w : World} (hg : ∃ w0 : World, w = w0.checkpointed ∧ g.call a w0 = true)
      (hkind : a.kind = .call) (habs : w.getAccount a.contractAddress = none)
      (hpre : isPrecompiled m.cfg a.contractAddress = true ∨ a.amount ≠ 0) :
      Prim m g chain w (w.putAccount a.contractAddress .blank)
  /-- the value of a call or create moves -/
  | transfer {source target : Address} {value : Int} {w w' : World}
      (hro : w.readOnly = false) (hpay : Paying m g source target value w)
      (h : Transferred source target value w w') : Prim m g chain w w'
  /-- a create raises the nonce of its caller, which does not overflow -/
  | nonce {a : CreateArgs} {w : World} {account : StoredAccount} (hg : g.create a w = true)
      (hcaller : a.caller.addresses = chain) (hro : w.readOnly = false)
      (h : w.getAccount a.caller.address = some account)
      (hfits : IsLong (wrap64 account.nonce + 1)) :
      Prim m g chain w (w.putAccount a.caller.address
        { account with nonce := wrap64 (wrap64 account.nonce + 1) })
  /-- a create overwrites the account at its target -/
  | created {a : CreateArgs} {w0 w : World} (h : Fresh m g chain a w0 w) :
      Prim m g chain w (w.putAccount (createTarget m a w0) .blank)
  /-- logs are saved -/
  | logged {w : World} {s : Storage} (htables : s.tables = w.storage.tables)
      (hmods : s.modifications = w.storage.modifications)
      (hmarks : s.checkPoints = w.storage.checkPoints) :
      Prim m g chain w { w with storage := s }

variable {w : World} {input : Option Bytes}

lemma Fresh.paying {m : Machine} {g : Guard} {chain : List Address} {a : CreateArgs} {w0 : World}
    (h : Fresh m g chain a w0 w) (hamount : a.amount ≠ 0) :
    Paying m g a.caller.address (createTarget m a w0) a.amount
      (w.putAccount (createTarget m a w0) .blank) := by
  refine .create a w0 h.guard rfl rfl rfl (h.funds hamount) fun x => ?_
  rw [getBalance_putAccount, h.balance]
  rfl

/-! ## Histories -/

/-- The target of a create has been paid. -/
def Endowed (a : CreateArgs) (x : Address) (w w' : World) : Prop :=
  (a.amount = 0 ∧ w' = w) ∨ (a.amount ≠ 0 ∧ Transferred a.caller.address x a.amount w w')

/-- The histories; with the flag, all sections that were opened are closed again. -/
inductive Hist (m : Machine) (g : Guard) : List Address → Bool → World → World → Prop
  | prim {chain : List Address} {b : Bool} {w w' : World} (h : Prim m g chain w w') :
      Hist m g chain b w w'
  | trans {chain : List Address} {b : Bool} {w w1 w2 : World} (h1 : Hist m g chain b w w1)
      (h2 : Hist m g chain b w1 w2) : Hist m g chain b w w2
  | weaken {chain : List Address} {w w' : World} (h : Hist m g chain true w w') :
      Hist m g chain false w w'
  | opened {chain : List Address} {w : World} : Hist m g chain false w w.checkpointed
  | committed {chain : List Address} {b : Bool} {w w1 : World} {s : Storage}
      (h : Hist m g chain b w.checkpointed w1) (hc : Storage.commit w1.storage = .ok () s) :
      Hist m g chain b w { w1 with storage := s }
  | reverted {chain : List Address} {b : Bool} {w w1 : World} {s : Storage}
      (h : Hist m g chain b w.checkpointed w1) (hr : Storage.revert w1.storage = .ok () s) :
      Hist m g chain b w { w1 with storage := s }
  /-- a run of the interpreter at the address `self` -/
  | ran {chain : List Address} {b : Bool} {w w1 : World} (self : Address) (readOnly : Bool)
      (h : Hist m g (self :: chain) b (w.entered readOnly) w1) :
      Hist m g chain b w (w1.left (readOnly && !w.readOnly))
  /-- a create frame whose code is stored -/
  | deployed {chain : List Address} {b : Bool} {a : CreateArgs} {w0 w w1 w2 : World}
      {account : StoredAccount} (code : Bytes) (hfresh : Fresh m g chain a w0 w)
      (hpaid : Endowed a (createTarget m a w0) (w.putAccount (createTarget m a w0) .blank) w1)
      (h : Hist m g (createTarget m a w0 :: chain) b (w1.entered false) w2)
      (hacc : w2.getAccount (createTarget m a w0) = some account) :
      Hist m g chain b w ((w2.left false).putAccount (createTarget m a w0)
        { account with code := code, codeHash := Storage.digest m.crypto.keccak256 code })

namespace Hist

variable {m : Machine} {g : Guard} {chain : List Address} {b : Bool}

variable {w w' : World}

lemma of_same (h : World.Same w w') : Hist m g chain b w w' := .prim (.same h)

lemma refl (w : World) : Hist m g chain b w w := of_same (.refl w)

lemma toOpen (h : Hist m g chain b w w') : Hist m g chain false w w' := by
  cases b with
  | true => exact .weaken h
  | false => exact h

lemma open_after {w1 : World} (h : Hist m g chain b w.checkpointed w1) :
    Hist m g chain false w w1 := .trans .opened h.toOpen

lemma settled (h : Hist m g chain b w w') : w'.depth = w.depth ∧ w'.readOnly = w.readOnly := by
  induction h with
  | prim h =>
    cases h with
    | same h => exact ⟨h.depth, h.readOnly⟩
    | wrote _ _ _ _ _ hw => cases hw <;> exact ⟨rfl, rfl⟩
    | transfer _ _ h => obtain ⟨s, t, _, _, rfl⟩ := h.moved; exact ⟨rfl, rfl⟩
    | _ => exact ⟨rfl, rfl⟩
  | trans _ _ ih1 ih2 => exact ⟨ih2.1.trans ih1.1, ih2.2.trans ih1.2⟩
  | weaken _ ih => exact ih
  | opened => exact ⟨rfl, rfl⟩
  | committed _ _ ih | reverted _ _ ih => exact ih
  | @ran _ _ w w1 self readOnly _ ih =>
    refine ⟨by show w1.depth - 1 = _; rw [ih.1]; rfl, ?_⟩
    show (if (readOnly && !w.readOnly) = true then false else w1.readOnly) = w.readOnly
    rw [ih.2]
    show (if _ then false else (w.readOnly || readOnly)) = w.readOnly
    cases w.readOnly <;> cases readOnly <;> rfl
  | deployed _ hfresh hpaid _ _ ih =>
    have hw1 : ∀ {a x w w1}, Endowed a x w w1 → w1.depth = w.depth ∧ w1.readOnly = w.readOnly := by
      rintro a x w w1 (⟨_, rfl⟩ | ⟨_, h⟩)
      · exact ⟨rfl, rfl⟩
      · obtain ⟨s, t, _, _, rfl⟩ := h.moved; exact ⟨rfl, rfl⟩
    obtain ⟨hd, hro⟩ := hw1 hpaid
    refine ⟨?_, ?_⟩
    · show (left false _).depth = _
      simp only [left, ih.1, entered, hd]
      rfl
    · show (left false _).readOnly = _
      simp only [left, ih.2, entered, hro]
      exact Bool.or_false _

end Hist

/-! ## Runs of the interpreter -/

lemma wp_leaveRun (reset : Bool)
    (hpos : 0 < w.depth) (hQ : Q () (w.left reset)) : wp (leaveRun reset) Q E w := by
  unfold leaveRun leave
  rw [wp_bind, wp_bind, wp_gets]
  refine .ite (fun h => absurd h (Nat.pos_iff_ne_zero.mp hpos)) fun _ => ?_
  rw [wp_modify]
  cases reset with
  | true => rw [if_pos rfl, wp_modify]; exact hQ
  | false => rw [if_neg Bool.false_ne_true, wp_pure]; exact hQ

variable {contract : Contract}

/-- The rule for `run`. `I` is an invariant of the main loop and `X` holds where a turn throws;
the `finally` block finds the depth it entered with. -/
theorem wp_run {step : Java Frame (Option FnResult)} {fuel : Nat}
    {readOnly : Bool} {I X : Frame → Prop}
    (hstart : I (Frame.start { contract with input := input } (w.entered readOnly)))
    (hturn : ∀ f, I f → wp step (fun _ f' => I f') (fun _ f' => X f') f)
    (hI : ∀ f, I f → 0 < f.world.depth) (hX : ∀ f, X f → 0 < f.world.depth) :
    wp (run step fuel contract input readOnly)
      (fun r w' => ∃ f, I f ∧ r.2.gas = f.contract.gas ∧ w' = f.world.left (readOnly && !w.readOnly))
      (fun e w' => e = .interpreter .internalError ∧
        ∃ f, X f ∧ w' = f.world.left (readOnly && !w.readOnly)) w := by
  have hcode : wp (runCode step fuel contract input)
      (fun r w' => ∃ f, I f ∧ r.2.gas = f.contract.gas ∧ w' = f.world)
      (fun e w' => e = .interpreter .internalError ∧ ∃ f, X f ∧ w' = f.world)
      (w.entered readOnly) := by
    unfold runCode
    refine .ite (fun _ => .pure ⟨_, hstart, rfl, rfl⟩) fun _ => ?_
    rw [wp_catching, wp_inFrame]
    unfold mainLoop
    rw [wp_bind]
    refine (wp_loop (Q := fun _ f => I f) (E := fun _ f => X f) (I := I) ?_ fuel _ hstart).mono ?_ ?_
    · intro f hf
      refine (hturn f hf).post ?_
      intro r f' h'
      cases r <;> exact h'
    · exact fun rc f hf => .pure ⟨f, hf, rfl, rfl⟩
    · exact fun _ f hf => (wp_raise _).mpr ⟨rfl, f, hf, rfl⟩
  unfold run enter
  rw [wp_bind, wp_modify, wp_bind, wp_gets]
  have hrest : wp (do
      Prog.modify fun w : World => { w with returnData := some [] }
      Prog.ensuring (runCode step fuel contract input) (leaveRun (readOnly && !w.readOnly)))
      (fun r w' => ∃ f, I f ∧ r.2.gas = f.contract.gas ∧ w' = f.world.left (readOnly && !w.readOnly))
      (fun e w' => e = .interpreter .internalError ∧ ∃ f, X f ∧ w' = f.world.left (readOnly && !w.readOnly))
      { w with depth := w.depth + 1, readOnly := w.readOnly || readOnly } := by
    rw [wp_bind, wp_modify, wp_ensuring]
    refine hcode.mono ?_ ?_
    · rintro r _ ⟨f, hf, hg, rfl⟩
      exact wp_leaveRun _ (hI f hf) ⟨f, hf, hg, rfl⟩
    · rintro e _ ⟨he, f, hf, rfl⟩
      exact wp_leaveRun _ (hX f hf) ⟨he, f, hf, rfl⟩
  -- the flag is set only when it has to be reset
  refine .ite (fun h => ?_) fun h => ?_
  · have hflag : (w.readOnly || readOnly) = true := by
      revert h; cases w.readOnly <;> cases readOnly <;> simp
    rw [hflag] at hrest
    rw [wp_bind, wp_modify]
    exact hrest
  · have hflag : (w.readOnly || readOnly) = w.readOnly := by
      revert h; cases w.readOnly <;> cases readOnly <;> simp
    rw [hflag] at hrest
    exact hrest

lemma wp_runContract {run : Runner} {readOnly : Bool}
    {Q : FnResult × Contract → World → Prop} {E : World → Prop}
    (h : wp (run contract input readOnly) Q (fun _ w' => E w') w) :
    wp (runContract run contract input readOnly) Q (fun _ w' => E w') w := by
  unfold runContract
  rw [wp_catching]
  refine h.mono (fun _ _ h => h) fun e w' h' => ?_
  cases e <;> exact (wp_raise _).mpr h'

section

variable {m : Machine} {g : Guard} {b : Bool} {calls : Calls}

/-- What a failed frame leaves: it was refused, or its section was reverted. -/
inductive RolledBack (m : Machine) (g : Guard) (chain : List Address) (b : Bool) (w : World) :
    World → Prop
  | refused : RolledBack m g chain b w w
  | reverted {w1 : World} {s : Storage} (h : Hist m g chain b w.checkpointed w1)
      (hr : Storage.revert w1.storage = .ok () s) :
      RolledBack m g chain b w { w1 with storage := s }

/-- The only change a create frame makes outside its checkpoint. -/
def NonceRaised (a : CreateArgs) (w w' : World) : Prop :=
  w' = w ∨ ∃ account, w.getAccount a.caller.address = some account ∧
    w' = w.putAccount a.caller.address
      { account with nonce := wrap64 (w.getNonce a.caller.address + 1) }

/-- From `w1` on, the program completes a history that began at `w`. -/
abbrev Completes (m : Machine) (g : Guard) (chain : List Address) (b : Bool) (w : World) {α : Type}
    (p : Java World α) (w1 : World) : Prop :=
  wp p (fun _ w' => Hist m g chain b w w') (fun _ w' => Hist m g chain false w w') w1

/-- From `w1` on, the program completes a frame that began at `w`. -/
abbrev Closes (m : Machine) (g : Guard) (chain : List Address) (b : Bool) (w : World)
    (p : Java World VmResult) (w1 : World) : Prop :=
  wp p (fun r w' => Hist m g chain b w w' ∧ (r.hasError = true → RolledBack m g chain b w w'))
    (fun _ w' => Hist m g chain false w w') w1

/-- The calls and creates are histories, and failed ones are rolled back. -/
structure Recorded (m : Machine) (g : Guard) (b : Bool) (calls : Calls) : Prop where
  executeCall : ∀ (a : CallArgs) (w : World), (w.readOnly = true → a.kind = .call → a.amount = 0) →
    Closes m g a.caller.addresses b w (calls.executeCall a) w
  create : ∀ (a : CreateArgs) (w : World), w.readOnly = false → wp (calls.create a)
      (fun r w' => Hist m g a.caller.addresses b w w' ∧
        (r.hasError = true → ∃ w1, NonceRaised a w w1 ∧ RolledBack m g a.caller.addresses b w1 w'))
      (fun _ w' => Hist m g a.caller.addresses false w w') w

variable {w w' w0 w1 : World} {chain : List Address} {account : StoredAccount} {a : CreateArgs}

lemma Recorded.turnInto (h : Recorded m g b calls) {f : Frame} (hg : g.instruction f = true)
    (hf : Hist m g f.contract.toRef.addresses b w0 f.world) :
    TurnInto m calls f
      (fun f' => SameContract f f' ∧ Hist m g f.contract.toRef.addresses b w0 f'.world)
      (fun f' => Hist m g f.contract.toRef.addresses false w0 f'.world) := by
  have hover : ∀ {w' f'}, Hist m g f.contract.toRef.addresses b f.world w' → Over f w' f' →
      (SameContract f f' ∧ Hist m g f.contract.toRef.addresses b w0 f'.world) ∧
        Hist m g f.contract.toRef.addresses false w0 f'.world := by
    intro w' f' hw' ho
    have hall := (hf.trans hw').trans (.of_same ho.world)
    exact ⟨⟨ho.contract, hall⟩, hall.toOpen⟩
  have hthrown : ∀ {w' f'}, Hist m g f.contract.toRef.addresses false f.world w' → Over f w' f' →
      Hist m g f.contract.toRef.addresses false w0 f'.world :=
    fun hw' ho => (hf.toOpen.trans hw').trans (.of_same ho.world)
  refine ⟨?_, ?_, ?_, ?_⟩
  · intro f' hq
    exact hover (.refl _) ⟨hq.contract, hq.world⟩
  · intro op f' hop hw
    obtain ⟨w1, w2, hs, hwrite, ho⟩ := hw.write
    exact hover (.trans (.of_same hs) (.prim (.wrote hg hop rfl hw.writable hs hwrite))) ho
  · intro a w _ ha hs
    have hcall := h.executeCall a w fun hro => ha.amount_of_readOnly (hs.readOnly.symm.trans hro)
    rw [ha.caller] at hcall
    refine hcall.mono ?_ ?_
    · exact fun _ _ hw' f' ho => hover (.trans (.of_same hs) hw'.1) ho
    · exact fun _ _ hw' f' ho => hthrown (.trans (.of_same hs) hw') ho
  · intro a w _ ha hs
    have hcreate := h.create a w (hs.readOnly.trans ha.writable)
    rw [ha.caller] at hcreate
    refine hcreate.mono ?_ ?_
    · exact fun _ _ hw' f' ho => hover (.trans (.of_same hs) hw'.1) ho
    · exact fun _ _ hw' f' ho => hthrown (.trans (.of_same hs) hw') ho

lemma Recorded.wp_run (h : Recorded m g b calls) (fuel : Nat) (contract : Contract)
    (input : Option Bytes) (readOnly : Bool) (w : World) :
    wp (run (g.turn m calls) fuel contract input readOnly)
      (fun _ w' => ∃ w1, Hist m g contract.toRef.addresses b (w.entered readOnly) w1 ∧
        w' = w1.left (readOnly && !w.readOnly))
      (fun _ w' => ∃ w1, Hist m g contract.toRef.addresses false (w.entered readOnly) w1 ∧
        w' = w1.left (readOnly && !w.readOnly)) w := by
  have hdepth : ∀ {b w1}, Hist m g contract.toRef.addresses b (w.entered readOnly) w1 →
      0 < w1.depth := fun h => by rw [h.settled.1]; exact Nat.succ_pos _
  refine (GrapeDag.wp_run
    (I := fun f => SameContract (Frame.start { contract with input := input } (w.entered readOnly)) f ∧
      Hist m g contract.toRef.addresses b (w.entered readOnly) f.world)
    (X := fun f => Hist m g contract.toRef.addresses false (w.entered readOnly) f.world)
    ⟨.refl _, .refl _⟩ ?_ (fun f hf => hdepth hf.2) (fun f hf => hdepth hf)).mono ?_ ?_
  · rintro f ⟨hsame, hf⟩
    refine Guard.wp_step fun hg => ?_
    have hchain : f.contract.toRef.addresses = contract.toRef.addresses :=
      congrArg ContractRef.addresses hsame.toRef
    have hturn := h.turnInto hg (hchain ▸ hf)
    rw [hchain] at hturn
    exact hturn.wp_turn.post (fun _ f' h' => ⟨hsame.trans h'.1, h'.2⟩)
  · rintro r _ ⟨f, hf, _, rfl⟩
    exact ⟨f.world, hf.2, rfl⟩
  · rintro e _ ⟨_, f, hf, rfl⟩
    exact ⟨f.world, hf, rfl⟩

/-! ## Call frames -/

lemma Recorded.wp_runContract (h : Recorded m g b calls) (fuel : Nat)
    (hchain : contract.toRef.addresses = contract.self :: chain) (input : Option Bytes)
    (readOnly : Bool) (w : World) :
    wp (runContract (run (g.turn m calls) fuel) contract input readOnly)
      (fun _ w' => ∃ w1, Hist m g (contract.self :: chain) b (w.entered readOnly) w1 ∧
        w' = w1.left (readOnly && !w.readOnly))
      (fun _ w' => Hist m g chain false w w') w := by
  have hrun := h.wp_run fuel contract input readOnly w
  rw [hchain] at hrun
  refine GrapeDag.wp_runContract (hrun.mono (fun _ _ h' => h') ?_)
  rintro _ _ ⟨w1, hw1, rfl⟩
  exact .ran contract.self readOnly hw1

lemma callContract_ref {a : CallArgs} {code : Bytes} {c : Contract}
    (h : callContract a code = .ok c) : c.caller = a.caller := by
  unfold callContract at h
  cases hk : a.kind with
  | call | callCode | staticCall => rw [hk] at h; cases h; rfl
  | delegateCall =>
    rw [hk] at h
    unfold Contract.asDelegate at h
    cases hc : a.caller with
    | account x v => simp [Contract.new, hc] at h
    | contract x v parent =>
      simp only [Contract.new, hc] at h
      cases h
      rfl

lemma callContract_caller {a : CallArgs} {code : Bytes} {c : Contract}
    (h : callContract a code = .ok c) : c.toRef.addresses = c.self :: a.caller.addresses := by
  show c.self :: c.caller.addresses = _
  rw [callContract_ref h]

lemma same_frameLog (st : VmStatus) : Keeps World.Same (frameLog st) := .ite (.pure _) (.gets _)

lemma wp_saveLog_of {P : World → Prop} (txHash : Bytes) (logs : List Log) (w : World)
    (h : ∀ s : Storage, s.tables = w.storage.tables →
      s.modifications = w.storage.modifications → s.checkPoints = w.storage.checkPoints →
      P { w with storage := s }) :
    wpEnd (saveLog txHash logs) P w := by
  have hput : wpEnd (rpcLogged (Storage.putLogs txHash logs)) P w := by
    rw [wpEnd, wp_rpcLogged]
    exact ((Storage.logsOnly_putLogs txHash logs).wp w.storage).mono
      (fun _ s hs => h s hs.tables hs.modifications hs.checkPoints)
      (fun _ s hs => h s hs.tables hs.modifications hs.checkPoints)
  unfold saveLog
  refine .ite (fun _ => ?_) fun _ => hput
  rw [wp_bind, wp_raise]
  exact h w.storage rfl rfl rfl

lemma wp_saveLog (txHash : Bytes) (logs : List Log) (w : World) :
    wpEnd (saveLog txHash logs) (Hist m g chain b w) w :=
  wp_saveLog_of txHash logs w fun _ htables hmods hmarks => .prim (.logged htables hmods hmarks)

/-- The rule for the end of a frame, which reverts, or saves its logs and commits. -/
lemma wp_end_of {r : VmResult} {Q : VmResult → World → Prop} (hfailed : r.hasError = true →
      wp revert (fun _ => Q (if r.status = .revert then r else { r with gas := 0 })) E w)
    (hdone : r.hasError = false →
      wp (if r.eventLog.length > 0 then saveLog m.txHash r.eventLog else pure ())
        (fun _ => wp commit (fun _ => Q r) E) E w) : wp (endStateTransaction m r) Q E w := by
  have hcommit : ∀ {w1}, wp commit (fun _ => Q r) E w1 → wp (do commit; return r) Q E w1 :=
    fun h => wp_bind.mpr (h.post fun _ _ hQ => .pure hQ)
  unfold endStateTransaction
  refine .ite (fun h => wp_bind.mpr ((hfailed h).post fun _ _ hQ => .pure hQ)) fun h => ?_
  have hsaved := wp_ite.mp (hdone (Bool.eq_false_iff.mpr h))
  refine .ite (fun hlogs => wp_bind.mpr ((hsaved.1 hlogs).post fun _ _ => hcommit)) fun hnone => ?_
  exact hcommit ((wp_pure ()).mp (hsaved.2 hnone))

lemma wp_endStateTransaction (r : VmResult) (h : Hist m g chain b w.checkpointed w1) :
    Closes m g chain b w (endStateTransaction m r) w1 := by
  refine wp_end_of (fun _ => ?_) fun hok => ?_
  · unfold revert
    rw [wp_rpc, wp_iff]
    refine ⟨fun _ s hr => ⟨.reverted h hr, fun _ => .reverted h hr⟩, fun e s he => ?_⟩
    rw [Storage.eq_of_revert_err he]
    exact h.open_after
  · have hsaved : wpEnd (if r.eventLog.length > 0 then saveLog m.txHash r.eventLog else pure ())
        (Hist m g chain b w.checkpointed) w1 :=
      .ite (fun _ => (wp_saveLog _ _ w1).mono (fun _ _ => h.trans) fun _ _ => h.trans) fun _ => .pure h
    refine hsaved.mono (fun _ w2 h2 => ?_) fun _ _ h2 => h2.open_after
    unfold commit
    rw [wp_rpc, wp_iff]
    refine ⟨fun _ s hc => ⟨.committed h2 hc, fun he => ?_⟩, fun e s he => ?_⟩
    · rw [hok] at he
      cases he
    · rw [Storage.eq_of_commit_err he]
      exact h2.open_after

lemma wp_transfer {source target : Address} {value : Int} (htarget : w.getAccount target ≠ none)
    (hmoved : ∀ w', Transferred source target value w w' → Q () w')
    (hmissing : w.getAccount source = none → E .statusRuntime w) :
    wp (transfer source target value) Q E w := by
  unfold transfer subBalance addBalance Storage.subBalance Storage.addBalance
  rw [wp_bind, wp_rpc, Storage.wp_updateAccount]
  refine ⟨hmissing, fun s hs => ?_⟩
  rw [wp_rpc, Storage.wp_updateAccount]
  refine ⟨fun hnone => absurd hnone ?_, fun t ht => hmoved _ ⟨s, t, hs, ht, rfl⟩⟩
  rw [Storage.getAccount_putAccount]
  by_cases h : target = source
  · rw [if_pos h]; exact Option.some_ne_none _
  · rw [if_neg h]; exact htarget

/-- The call that returns immediately and leaves its checkpoint open. -/
def leaks (m : Machine) (a : CallArgs) (w : World) : Bool :=
  a.kind = .call ∧ (w.getAccount a.contractAddress).isNone ∧
    !isPrecompiled m.cfg a.contractAddress ∧ a.amount = 0

lemma wp_enterCall {a : CallArgs} (hg : g.call a w = true)
    (hfunds : a.amount ≠ 0 → a.amount ≤ w.getBalance a.caller.address)
    (hlegal : w.readOnly = true → a.kind = .call → a.amount = 0) :
    wp (enterCall m a) (fun early w' => if early then w' = w.checkpointed ∧ leaks m a w = true
        else Hist m g a.caller.addresses b w.checkpointed w')
      (fun _ w' => Hist m g a.caller.addresses b w.checkpointed w') w.checkpointed := by
  unfold enterCall
  refine .ite (fun _ => .pure (.refl _)) fun hk => ?_
  have hkind : a.kind = .call := not_not.mp hk
  -- the value moves to an account that exists by now
  have hpay : ∀ w1, Hist m g a.caller.addresses b w.checkpointed w1 →
      (∀ x, w1.getBalance x = w.getBalance x) → w1.getAccount a.contractAddress ≠ none →
      wp (if a.amount ≠ 0 then do
          transfer a.caller.address a.contractAddress a.amount
          pure false
        else pure false : Java World Bool)
        (fun early w' => if early then w' = w.checkpointed ∧ leaks m a w = true
          else Hist m g a.caller.addresses b w.checkpointed w')
        (fun _ w' => Hist m g a.caller.addresses b w.checkpointed w') w1 := by
    intro w1 h1 hbal hacc
    refine .ite (fun hamount => ?_) fun _ => .pure h1
    rw [wp_bind]
    refine wp_transfer hacc (fun w2 hw2 => .pure (h1.trans (.prim ?_))) (fun _ => h1)
    refine .transfer ?_ (.call a w hg rfl rfl (hfunds hamount) hbal) hw2
    rw [h1.settled.2]
    exact Bool.eq_false_iff.mpr fun hro => hamount (hlegal hro hkind)
  rw [wp_bind, wp_gets]
  refine .ite (fun habs => ?_) fun hex => hpay _ (.refl _) (fun _ => rfl) fun hnone => hex ?_
  · have hnone : w.checkpointed.getAccount a.contractAddress = none := by
      simpa [isAccountExists] using habs
    refine .ite (fun hleak => .pure ?_) fun hstay => ?_
    · refine ⟨rfl, decide_eq_true ⟨hkind, ?_, hleak.1, hleak.2⟩⟩
      rw [show w.getAccount a.contractAddress = none from hnone]
      rfl
    unfold createAccount Storage.createAccount
    rw [wp_bind, wp_rpc, wp_modify]
    refine hpay _ (.prim (.touch ⟨w, rfl, hg⟩ hkind hnone ?_)) ?_ ?_
    · by_contra hno
      rw [not_or] at hno
      exact hstay ⟨by simpa using hno.1, not_not.mp hno.2⟩
    · exact getBalance_putBlank hnone
    · show (Storage.putAccount _ _ _).getAccount _ ≠ none
      rw [Storage.getAccount_putAccount, if_pos rfl]
      exact Option.some_ne_none _
  · simp [isAccountExists, hnone]

lemma Recorded.wp_callBody (h : Recorded m g b calls) (fuel : Nat) (a : CallArgs) (w : World) :
    Completes m g a.caller.addresses b w (callBody m (run (g.turn m calls) fuel) a) w := by
  unfold callBody
  refine .ite (fun _ => ?_) fun _ => ?_
  · -- precompiles touch no state
    refine ((?_ : Keeps World.Same _).wp w).mono (fun _ _ hs => .of_same hs) (fun _ _ hs => .of_same hs)
    exact .bind (.liftM _) fun _ => .bind (.liftM _) fun _ => .pure _
  rw [wp_bind, wp_gets]
  refine .ite (fun _ => .pure (.refl w)) fun _ => ?_
  rw [wp_bind, wp_liftM]
  refine ⟨fun c hc => ?_, fun _ _ => .refl w⟩
  rw [wp_bind]
  refine (h.wp_runContract fuel (callContract_caller hc) _ _ w).post ?_
  rintro ⟨rc, c'⟩ _ ⟨w1, hw1, rfl⟩
  rw [wp_bind]
  have hran := Hist.ran c.self _ hw1
  refine ((same_frameLog rc.status).wp _).mono ?_ ?_
  · exact fun _ _ hs => .pure (hran.trans (.of_same hs))
  · exact fun _ _ hs => (hran.trans (.of_same hs)).toOpen

lemma Recorded.wp_executeCall (h : Recorded m g b calls) (fuel : Nat) {a : CallArgs}
    (hg : g.call a w = true) (hleak : b = true → leaks m a w = false)
    (hlegal : w.readOnly = true → a.kind = .call → a.amount = 0) :
    Closes m g a.caller.addresses b w (GrapeDag.executeCall m (run (g.turn m calls) fuel) a) w := by
  rw [Closes, GrapeDag.executeCall, wp_bind, wp_gets]
  cases hr : refusal m a.caller.address a.amount w with
  | some st => exact .pure ⟨.refl w, fun _ => .refused⟩
  | none =>
  unfold checkpoint
  rw [wp_bind, wp_rpc, wp_modify, wp_bind]
  refine (wp_enterCall (b := b) hg (refusal_eq_none.mp hr).2 hlegal).mono ?_ (fun _ _ h' => h'.open_after)
  intro early w1 h1
  cases early with
  | true =>
    obtain ⟨rfl, hl⟩ := h1
    refine .pure ⟨?_, nofun⟩
    cases b with
    | true => exact absurd hl (Bool.eq_false_iff.mp (hleak rfl))
    | false => exact .opened
  | false =>
    rw [if_neg Bool.false_ne_true, wp_bind]
    refine (h.wp_callBody fuel a w1).mono ?_ ?_
    · exact fun r w2 h2 => wp_endStateTransaction r (h1.trans h2)
    · exact fun _ _ h2 => (h1.toOpen.trans h2).open_after

/-! ## Create frames -/

lemma isLong_raised (h : ¬ wrap64 (wrap64 account.nonce + 1) < wrap64 account.nonce) :
    IsLong (wrap64 account.nonce + 1) := by
  obtain ⟨hlo, hhi⟩ := isLong_wrap64 account.nonce
  by_contra hout
  have hmax : wrap64 account.nonce + 1 = 2 ^ 63 := by
    omega
  rw [hmax] at h
  have hwrapped : wrap64 (2 ^ 63) = -2 ^ 63 := by decide
  omega

lemma NonceRaised.hist (h : NonceRaised a w w') (hg : g.create a w = true)
    (hro : w.readOnly = false)
    (hfits : ¬ wrap64 (w.getNonce a.caller.address + 1) < w.getNonce a.caller.address) :
    Hist m g a.caller.addresses b w w' := by
  rcases h with rfl | ⟨account, hacc, rfl⟩
  · exact .refl _
  · have hnonce : w.getNonce a.caller.address = wrap64 account.nonce := by
      unfold getNonce
      rw [hacc]
    rw [hnonce] at hfits ⊢
    exact .prim (.nonce hg rfl hro hacc (isLong_raised hfits))

lemma NonceRaised.readOnly (h : NonceRaised a w w') : w'.readOnly = w.readOnly := by
  rcases h with rfl | ⟨account, hacc, rfl⟩ <;> rfl

lemma NonceRaised.reads (h : NonceRaised a w w') (x : Address) :
    w'.getContractCode x = w.getContractCode x ∧ w'.getBalance x = w.getBalance x := by
  rcases h with rfl | ⟨account, hacc, rfl⟩
  · exact ⟨rfl, rfl⟩
  · unfold getContractCode World.getBalance
    rw [getAccount_putAccount]
    by_cases hx : x = a.caller.address
    · rw [if_pos hx, hx, hacc]; exact ⟨rfl, rfl⟩
    · rw [if_neg hx]; exact ⟨rfl, rfl⟩

lemma NonceRaised.nonces (h : NonceRaised a w w') (x : Address) (hx : x ≠ a.caller.address) :
    w'.getNonce x = w.getNonce x := by
  rcases h with rfl | ⟨account, hacc, rfl⟩
  · rfl
  · unfold getNonce
    rw [getAccount_putAccount, if_neg hx]

lemma NonceRaised.fresh (h : NonceRaised a w w1) (hg : g.create a w = true)
    (hro : w.readOnly = false) (hfunds : refusal m a.caller.address a.amount w = none)
    (hnonce : w1.getNonce (createTarget m a w) = 0) :
    Fresh m g a.caller.addresses a w w1.checkpointed where
  guard := hg
  caller := rfl
  writable := h.readOnly.trans hro
  nonce := hnonce
  nonces := h.nonces
  code := fun x => (h.reads x).1
  balance := fun x => (h.reads x).2
  funds := (refusal_eq_none.mp hfunds).2

lemma wp_raiseNonce (a : CreateArgs) (w : World) :
    wp (setNonce a.caller.address (w.getNonce a.caller.address + 1))
      (fun _ w' => NonceRaised a w w') (fun _ _ => False) w :=
  wp_setNonce (fun _ => .inl rfl) fun account hacc => .inr ⟨account, hacc, rfl⟩

lemma wp_storeCode (x : Address) (rc : FnResult) (gas : Int) (w : World) : wp (storeCode m x rc gas)
      (fun _ w' => w' = w ∨ ∃ account code, w.getAccount x = some account ∧
        w' = w.putAccount x { account with code := code, codeHash := Storage.digest m.crypto.keccak256 code })
      (fun _ w' => w' = w) w := by
  unfold storeCode
  refine .ite (fun _ => .pure (.inl rfl)) fun _ => ?_
  cases rc.output with
  | none => exact (wp_raise _).mpr rfl
  | some output =>
    simp only [wp_ite, wp_bind, wp_liftM, wp_pure]
    refine ⟨fun _ => .inl trivial, fun _ => ⟨fun _ => .inl trivial,
      fun _ => ⟨fun _ _ => ⟨fun _ => .inl trivial, fun _ => ?_⟩, fun _ _ => trivial⟩⟩⟩
    unfold putContractCode Storage.putContractCode
    rw [wp_rpc, Storage.wp_updateAccount]
    exact ⟨fun _ => rfl, fun account hacc => .inr ⟨account, output, hacc, rfl⟩⟩

lemma wp_enterCreate (a : CreateArgs) (x : Address) (w : World) :
    wp (enterCreate a x) (fun _ w' => Endowed a x (w.putAccount x .blank) w')
      (fun _ w' => w' = w.putAccount x .blank) w := by
  unfold enterCreate createAccount Storage.createAccount
  rw [wp_bind, wp_rpc, wp_modify]
  refine .ite (fun hamount => ?_) fun hzero => .pure (.inl ⟨not_not.mp hzero, rfl⟩)
  refine wp_transfer ?_ (fun w1 hmoved => .inr ⟨hamount, hmoved⟩) (fun _ => rfl)
  show (Storage.putAccount _ _ _).getAccount _ ≠ none
  rw [Storage.getAccount_putAccount, if_pos rfl]
  exact Option.some_ne_none _

lemma Recorded.wp_createCode (h : Recorded m g b calls) (fuel : Nat)
    (hfresh : Fresh m g a.caller.addresses a w0 w)
    (hpaid : Endowed a (createTarget m a w0) (w.putAccount (createTarget m a w0) .blank) w1)
    (hto : ∀ {b}, Hist m g a.caller.addresses b w w1) :
    wp (runContract (run (g.turn m calls) fuel)
        (.new a.caller (createTarget m a w0) a.amount a.gas a.code) none false)
      (fun r => Completes m g a.caller.addresses b w (storeCode m (createTarget m a w0) r.1 r.2.gas))
      (fun _ w2 => Hist m g a.caller.addresses false w w2) w1 := by
  have hchain : (Contract.new a.caller (createTarget m a w0) a.amount a.gas a.code).toRef.addresses
      = createTarget m a w0 :: a.caller.addresses := rfl
  refine (h.wp_runContract fuel hchain none false w1).mono ?_ (fun _ _ h' => hto.trans h')
  rintro r _ ⟨w2, hw2, rfl⟩
  refine (wp_storeCode _ r.1 r.2.gas _).mono ?_ ?_
  · -- the code is stored by the `deployed` step, or nothing is
    rintro _ w3 (rfl | ⟨account, code, hacc, rfl⟩)
    · exact hto.trans (.ran _ false hw2)
    · exact .deployed code hfresh hpaid hw2 hacc
  · rintro _ _ rfl
    exact hto.trans (Hist.ran _ false hw2).toOpen

lemma Recorded.wp_createBody (h : Recorded m g b calls) (fuel : Nat)
    (hfresh : Fresh m g a.caller.addresses a w0 w) :
    Completes m g a.caller.addresses b w
      (createBody m (run (g.turn m calls) fuel) a (createTarget m a w0)) w := by
  have hcreated : ∀ {b}, Hist m g a.caller.addresses b w
      (w.putAccount (createTarget m a w0) .blank) := .prim (.created hfresh)
  rw [Completes, createBody, wp_bind]
  refine (wp_enterCreate a _ w).mono (fun _ w1 hpaid => ?_) ?_
  · have hto : ∀ {b}, Hist m g a.caller.addresses b w w1 := by
      intro b
      rcases hpaid with ⟨_, rfl⟩ | ⟨hamount, hmoved⟩
      · exact hcreated
      · exact hcreated.trans (.prim (.transfer hfresh.writable (hfresh.paying hamount) hmoved))
    refine wp_bind.mpr ((h.wp_createCode fuel hfresh hpaid hto).post ?_)
    intro r w2 h2
    refine wp_bind.mpr (h2.post ?_)
    intro r w3 h3
    refine wp_bind.mpr (((same_frameLog r.1.status).wp w3).mono ?_ ?_)
    · exact fun _ _ hs => .pure (h3.trans (.of_same hs))
    · exact fun _ _ hs => (h3.trans (.of_same hs)).toOpen
  · rintro _ _ rfl
    exact hcreated

lemma Recorded.wp_createRaised (h : Recorded m g b calls) (fuel : Nat) (hg : g.create a w = true)
    (hro : w.readOnly = false) (hfunds : refusal m a.caller.address a.amount w = none)
    (hw1 : NonceRaised a w w1) :
    Closes m g a.caller.addresses b w1 (do
      let w' ← Prog.gets id
      if getNonce w' (createTarget m a w) ≠ 0 ∨
          w'.getContractCodeHash (createTarget m a w) ≠ keccak256Null then
        return VmResult.error .contractAddressCollision a.gas (createTarget m a w)
      checkpoint
      let result ← createBody m (run (g.turn m calls) fuel) a (createTarget m a w)
      endStateTransaction m result) w1 := by
  rw [Closes, wp_bind, wp_gets]
  refine .ite (fun _ => .pure ⟨.refl _, fun _ => .refused⟩) fun hfree => ?_
  have hfresh : Fresh m g a.caller.addresses a w w1.checkpointed :=
    hw1.fresh hg hro hfunds (not_not.mp (not_or.mp hfree).1)
  unfold checkpoint
  rw [wp_bind, wp_rpc, wp_modify, wp_bind]
  refine (h.wp_createBody fuel hfresh).mono ?_ (fun _ _ h' => h'.open_after)
  exact fun r w2 hw2 => wp_endStateTransaction r hw2

/-- A create frame is a history, and a failed one changes no more than the nonce of its caller
outside its section. -/
theorem Recorded.wp_create (h : Recorded m g b calls) (fuel : Nat) (hg : g.create a w = true)
    (hro : w.readOnly = false) :
    wp (GrapeDag.create m (run (g.turn m calls) fuel) a)
      (fun r w' => Hist m g a.caller.addresses b w w' ∧
        (r.hasError = true → ∃ w1, NonceRaised a w w1 ∧ RolledBack m g a.caller.addresses b w1 w'))
      (fun _ w' => Hist m g a.caller.addresses false w w') w := by
  have hrefused : ∀ r : VmResult, wp (pure r : Java World VmResult)
      (fun r w' => Hist m g a.caller.addresses b w w' ∧
        (r.hasError = true → ∃ w1, NonceRaised a w w1 ∧ RolledBack m g a.caller.addresses b w1 w'))
      (fun _ w' => Hist m g a.caller.addresses false w w') w :=
    fun r => .pure ⟨.refl w, fun _ => ⟨w, .inl rfl, .refused⟩⟩
  unfold GrapeDag.create
  rw [wp_bind, wp_gets]
  cases hr : refusal m a.caller.address a.amount w with
  | some st =>
    simp only [id, hr]
    exact hrefused _
  | none =>
  simp only [id, hr]
  refine .ite (fun _ => hrefused _) fun hfits => ?_
  rw [wp_bind]
  refine (wp_raiseNonce a w).mono ?_ (fun _ _ hf => hf.elim)
  intro _ w1 hw1
  have hraised : ∀ {b}, Hist m g a.caller.addresses b w w1 := hw1.hist hg hro hfits
  refine (h.wp_createRaised fuel hg hro hr hw1).mono ?_ (fun _ _ h' => hraised.trans h')
  exact fun _ _ h' => ⟨hraised.trans h'.1, fun he => ⟨w1, hw1, h'.2 he⟩⟩

lemma Recorded.wp_create_of_account (h : Recorded m g b calls) (fuel : Nat)
    (hg : g.create a w = true) (hro : w.readOnly = false)
    (hfunds : refusal m a.caller.address a.amount w = none)
    (hacc : w.getAccount a.caller.address = some account)
    (hfits : IsLong (wrap64 account.nonce + 1)) :
    wp (GrapeDag.create m (run (g.turn m calls) fuel) a)
      (fun _ w' => Hist m g a.caller.addresses b (w.putAccount a.caller.address
        { account with nonce := wrap64 (wrap64 account.nonce + 1) }) w')
      (fun _ w' => Hist m g a.caller.addresses false (w.putAccount a.caller.address
        { account with nonce := wrap64 (wrap64 account.nonce + 1) }) w') w := by
  have hnonce : w.getNonce a.caller.address = wrap64 account.nonce := by
    unfold getNonce
    rw [hacc]
  unfold GrapeDag.create
  rw [wp_bind, wp_gets]
  simp only [id, hfunds]
  refine .ite (fun hover => ?_) fun _ => ?_
  · rw [hnonce, wrap64_of_isLong hfits] at hover
    omega
  rw [wp_bind]
  refine wp_setNonce (fun hnone => ?_) fun account' hacc' => ?_
  · rw [hacc] at hnone
    cases hnone
  · obtain rfl := Option.some.inj (hacc.symm.trans hacc')
    have hw1 : NonceRaised a w _ := .inr ⟨account, hacc, rfl⟩
    have hrest := h.wp_createRaised fuel hg hro hfunds hw1
    rw [hnonce] at hrest ⊢
    exact hrest.post (fun _ _ h' => h'.1)

/-! ## All frames -/

/-- THE HISTORY THEOREM. Every frame of the guarded VM, however deep, is a history. -/
theorem vm_history (hb : b = true → ∀ a w, g.call a w = true → leaks m a w = false) (n : Nat) :
    Recorded m g b (vmGuarded m g n) := by
  refine vm_rule ⟨fun _ _ _ => wp_diverging.mpr trivial, fun _ _ _ => wp_diverging.mpr trivial⟩ ?_ n
  intro calls fuel h
  refine ⟨fun a w hlegal => ?_, fun a w hro => ?_⟩
  · exact Guard.wp_step fun hg => h.wp_executeCall fuel hg (fun hbt => hb hbt a w hg) hlegal
  · exact Guard.wp_step fun hg => h.wp_create fuel hg hro

/-- With leaks allowed, no condition on calls is left. -/
lemma vm_recorded (n : Nat) : Recorded m g false (vmGuarded m g n) := vm_history (fun h => by cases h) n

end

end GrapeDag
