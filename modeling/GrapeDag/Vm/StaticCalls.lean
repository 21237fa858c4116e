/-
A STATIC CALL CHANGES NOTHING.

The protection is one mutable flag of the interpreter, set by the outermost static frame, and a
check of it in each writing instruction. What is left to a read-only run is one write: a `CALL`
without value to a precompile whose account does not exist creates that account, with no
balance, no nonce and no code. Logs of earlier frames are saved again by a static frame that
succeeds.

Main result: `static_call_isolated`.
-/
import GrapeDag.State.Operations
import GrapeDag.Vm.Invariants

namespace GrapeDag

open Imperative GrapeDag.Frame Prog World

/-! ## Stores without a visible difference -/

/-- The accounts and slots of `o0`, where an account that was missing may have been created
blank. -/
structure Undisturbed (o0 o : Observed) : Prop where
  account : ∀ a, o.account a = o0.account a ∨ (o0.account a = none ∧ o.account a = some .blank)
  slot : ∀ a k, o.slot a k = o0.slot a k

variable {w w' : World}

namespace Undisturbed

variable {o0 o : Observed}

lemma refl (o : Observed) : Undisturbed o o := ⟨fun _ => .inl rfl, fun _ _ => rfl⟩

lemma touch {a : Address} (h : Undisturbed o0 w.observed)
    (habs : w.getAccount a = none) : Undisturbed o0 (w.putAccount a .blank).observed := by
  refine ⟨fun x => ?_,
    fun x k => (Storage.rawValue_putAccount w.storage a x .blank k).trans (h.slot x k)⟩
  show (w.putAccount a .blank).getAccount x = _ ∨ (_ ∧ (w.putAccount a .blank).getAccount x = _)
  rw [getAccount_putAccount]
  by_cases hx : x = a
  · -- a missing account was missing at the start
    rw [if_pos hx]
    right
    refine ⟨?_, rfl⟩
    rcases h.account x with hsame | ⟨hnone, _⟩
    · rw [← hsame, hx]
      exact habs
    · exact hnone
  · rw [if_neg hx]
    exact h.account x

lemma read (h : Undisturbed w.observed w'.observed) {α : Type}
    (missing : α) (field : StoredAccount → α) (hblank : field .blank = missing) (x : Address) :
    (match w'.getAccount x with | none => missing | some account => field account)
      = match w.getAccount x with | none => missing | some account => field account := by
  have hx : w'.getAccount x = w.getAccount x ∨
      (w.getAccount x = none ∧ w'.getAccount x = some .blank) := h.account x
  rcases hx with hsame | ⟨hnone, hblanked⟩
  · rw [hsame]
  · rw [hnone, hblanked]
    exact hblank

lemma getValue (h : Undisturbed w.observed w'.observed)
    (hclean : w.observed.Clean) (a : Address) (k : Word) :
    w'.storage.getValue a k = w.storage.getValue a k := by
  have hslot : Storage.rawValue w'.storage.mappings a k = Storage.rawValue w.storage.mappings a k :=
    h.slot a k
  have ha : w'.storage.getAccount a = w.storage.getAccount a ∨
      (w.storage.getAccount a = none ∧ w'.storage.getAccount a = some .blank) := h.account a
  unfold Storage.getValue
  rcases ha with hsame | ⟨hnone, hblanked⟩
  · rw [hsame, hslot]
  · rw [hnone, hblanked]
    exact hslot.trans (hclean a k hnone)

end Undisturbed

/-! ## Read-only histories -/

/-- A step from `w` to `w'` that leaves the store undisturbed against `o0`, now and wherever a later
revert may lead, writes neither transient storage nor a log, and leaves the flag. -/
structure Frozen (o0 : Observed) (w w' : World) : Prop where
  store : Storage.Upholds (Undisturbed o0) w.storage w'.storage
  transient : w'.transientStorage = w.transientStorage
  eventLog : w'.eventLog = w.eventLog
  readOnly : w'.readOnly = w.readOnly

namespace Frozen

variable {o0 : Observed} {w w1 w2 : World}

lemma now (h : Frozen o0 w w1) : Undisturbed o0 w1.observed := h.store.now

lemma trans (h1 : Frozen o0 w w1) (h2 : Frozen o0 w1 w2) : Frozen o0 w w2 :=
  ⟨h1.store.trans h2.store, h2.transient.trans h1.transient, h2.eventLog.trans h1.eventLog,
    h2.readOnly.trans h1.readOnly⟩

lemma of_wrote (h : World.Wrote w w1) (hnow : Undisturbed o0 w1.observed)
    (htransient : w1.transientStorage = w.transientStorage)
    (hlog : w1.eventLog = w.eventLog) (hflag : w1.readOnly = w.readOnly) : Frozen o0 w w1 :=
  ⟨Storage.upholds_of_grows h.grows h.marks hnow, htransient, hlog, hflag⟩

lemma of_same (h : World.Same w w1) (hw : Undisturbed o0 w.observed) : Frozen o0 w w1 := by
  refine of_wrote (.of_storage_eq h.storage) ?_ h.transientStorage h.eventLog h.readOnly
  show Undisturbed o0 w1.storage.observed
  rw [h.storage]
  exact hw

lemma checkpoint (hw : Undisturbed o0 w.observed) : Frozen o0 w w.checkpointed :=
  ⟨Storage.upholds_checkpoint hw, rfl, rfl, rfl⟩

lemma commit {s : Storage} (h : Frozen o0 w.checkpointed w1) (hw : Undisturbed o0 w.observed)
    (hc : Storage.commit w1.storage = .ok () s) : Frozen o0 w { w1 with storage := s } :=
  ⟨Storage.upholds_of_commit h.store hw hc, h.transient, h.eventLog, h.readOnly⟩

lemma revert {s : Storage} (h : Frozen o0 w.checkpointed w1) (hw : Undisturbed o0 w.observed)
    (hr : Storage.revert w1.storage = .ok () s) : Frozen o0 w { w1 with storage := s } :=
  ⟨Storage.upholds_of_revert h.store hw hr, h.transient, h.eventLog, h.readOnly⟩

end Frozen

variable {a : CallArgs}

section

variable {m : Machine} {g : Guard} {chain : List Address} {b : Bool} {o0 : Observed}

lemma Prim.frozen (h : Prim m g chain w w') (hro : w.readOnly = true)
    (hw : Undisturbed o0 w.observed) : Frozen o0 w w' := by
  have hgrows := h.grows
  cases h with
  | same hs => exact .of_same hs hw
  | wrote _ _ _ hwritable hs _ =>
    rw [← hs.readOnly, hro] at hwritable
    cases hwritable
  | touch _ _ habs => exact .of_wrote hgrows (hw.touch habs) rfl rfl rfl
  | transfer hwritable | nonce _ _ hwritable =>
    rw [hro] at hwritable
    cases hwritable
  | created hfresh =>
    have hwritable := hfresh.writable
    rw [hro] at hwritable
    cases hwritable
  | @logged _ s htables =>
    refine .of_wrote hgrows ?_ rfl rfl rfl
    show Undisturbed o0 (Storage.observe s.tables)
    rw [htables]
    exact hw

lemma Hist.frozen (h : Hist m g chain b w w') (hro : w.readOnly = true)
    (hw : Undisturbed o0 w.observed) : Frozen o0 w w' := by
  induction h with
  | prim h => exact h.frozen hro hw
  | trans h1 _ ih1 ih2 =>
    -- the flag is still set in the middle
    have hfirst := ih1 hro hw
    exact hfirst.trans (ih2 (h1.settled.2.trans hro) hfirst.now)
  | weaken _ ih => exact ih hro hw
  | opened => exact .checkpoint hw
  | committed _ hc ih => exact (ih hro hw).commit hw hc
  | reverted _ hr ih => exact (ih hro hw).revert hw hr
  | @ran _ _ w w1 self readOnly h ih =>
    have hflag : (w.entered readOnly).readOnly = true := by
      show (w.readOnly || readOnly) = true
      rw [hro, Bool.true_or]
    have hrun := ih hflag hw
    exact ⟨hrun.store, hrun.transient, hrun.eventLog, (Hist.ran self readOnly h).settled.2⟩
  | deployed _ hfresh =>
    have hwritable := hfresh.writable
    rw [hro] at hwritable
    cases hwritable

/-! ## Static call frames -/

lemma frozen_endStateTransaction {w1 : World} (r : VmResult)
    (h : Frozen o0 w.checkpointed w1) (hw : Undisturbed o0 w.observed) :
    wpEnd (endStateTransaction m r) (Frozen o0 w) w1 := by
  have hopen : ∀ {w2 : World}, Frozen o0 w.checkpointed w2 → Frozen o0 w w2 :=
    fun h2 => (Frozen.checkpoint hw).trans h2
  refine wp_end_of (fun _ => ?_) fun _ => ?_
  · unfold revert
    rw [wp_rpc, wp_iff]
    refine ⟨fun _ s hr => h.revert hw hr, fun e s he => ?_⟩
    rw [Storage.eq_of_revert_err he]
    exact hopen h
  · have hsaved : wpEnd (if r.eventLog.length > 0 then saveLog m.txHash r.eventLog else pure ())
        (Frozen o0 w.checkpointed) w1 := by
      refine .ite (fun _ => wp_saveLog_of _ _ w1 fun s htables hmods hmarks => ?_) fun _ => .pure h
      have hprim : Prim m .any [] w1 { w1 with storage := s } := .logged htables hmods hmarks
      refine h.trans (.of_wrote hprim.grows ?_ rfl rfl rfl)
      show Undisturbed o0 (Storage.observe s.tables)
      rw [htables]
      exact h.now
    refine hsaved.mono (fun _ w2 h2 => ?_) fun _ _ h2 => hopen h2
    unfold commit
    rw [wp_rpc, wp_iff]
    refine ⟨fun _ s hc => h2.commit hw hc, fun e s he => ?_⟩
    rw [Storage.eq_of_commit_err he]
    exact hopen h2

variable {calls : Calls}

lemma Recorded.frozen_run (h : Recorded m g b calls) (fuel : Nat) (contract : Contract)
    (input : Option Bytes) {readOnly : Bool} (hro : (w.readOnly || readOnly) = true)
    (hw : Undisturbed o0 w.observed) :
    wpEnd (run (g.turn m calls) fuel contract input readOnly) (Frozen o0 w) w := by
  have hleft : ∀ {b w1}, Hist m g contract.toRef.addresses b (w.entered readOnly) w1 →
      Frozen o0 w (w1.left (readOnly && !w.readOnly)) := by
    intro b w1 hist
    have hrun : Frozen o0 (w.entered readOnly) w1 := hist.frozen hro hw
    exact ⟨hrun.store, hrun.transient, hrun.eventLog, (Hist.ran contract.self readOnly hist).settled.2⟩
  refine (h.wp_run fuel contract input readOnly w).mono ?_ ?_
  · rintro _ _ ⟨w1, hist, rfl⟩
    exact hleft hist
  · rintro _ _ ⟨w1, hist, rfl⟩
    exact hleft hist

lemma Recorded.frozen_callBody (h : Recorded m g b calls) (fuel : Nat)
    (hkind : a.kind = .staticCall) (hw : Undisturbed o0 w.observed) :
    wpEnd (callBody m (run (g.turn m calls) fuel) a) (Frozen o0 w) w := by
  have hsame : ∀ {w1 w2 : World}, Frozen o0 w w1 → World.Same w1 w2 → Frozen o0 w w2 :=
    fun h1 hs => h1.trans (.of_same hs h1.now)
  have hstart : Frozen o0 w w := .of_same (.refl w) hw
  unfold callBody
  refine .ite (fun _ => ?_) fun _ => ?_
  · refine ((?_ : Keeps World.Same _).wp w).mono (fun _ _ hs => hsame hstart hs)
      (fun _ _ hs => hsame hstart hs)
    exact .bind (.liftM _) fun _ => .bind (.liftM _) fun _ => .pure _
  rw [wp_bind, wp_gets]
  refine .ite (fun _ => .pure hstart) fun _ => ?_
  rw [wp_bind, wp_liftM]
  refine ⟨fun c _ => ?_, fun _ _ => hstart⟩
  have hflag : (w.readOnly || decide (a.kind = .staticCall)) = true := by
    rw [hkind]
    exact Bool.or_true _
  rw [wp_bind]
  refine (GrapeDag.wp_runContract (h.frozen_run fuel c (some a.input) hflag hw)).post ?_
  rintro ⟨rc, c'⟩ w1 h1
  rw [wp_bind]
  exact ((same_frameLog rc.status).wp w1).mono (fun _ _ hs => .pure (hsame h1 hs))
    (fun _ _ hs => hsame h1 hs)

lemma Recorded.frozen_staticCall (h : Recorded m g b calls) (fuel : Nat)
    (hkind : a.kind = .staticCall) (hw : Undisturbed o0 w.observed) :
    wpEnd (GrapeDag.executeCall m (run (g.turn m calls) fuel) a) (Frozen o0 w) w := by
  unfold GrapeDag.executeCall
  rw [wpEnd, wp_bind, wp_gets]
  cases refusal m a.caller.address a.amount w with
  | some st => exact .pure (.of_same (.refl w) hw)
  | none =>
    have henter : enterCall m a = (pure false : Java World Bool) := by
      unfold enterCall
      rw [hkind]
      exact if_pos (by decide)
    rw [henter]
    unfold checkpoint
    rw [wp_bind, wp_rpc, wp_modify, wp_bind, wp_pure, if_neg Bool.false_ne_true, wp_bind]
    have hopened : Undisturbed o0 w.checkpointed.observed := hw
    refine (h.frozen_callBody fuel hkind hopened).mono ?_ ?_
    · exact fun r w1 h1 => frozen_endStateTransaction r h1 hw
    · exact fun _ _ h1 => (Frozen.checkpoint hw).trans h1

end

/-! ## Isolation -/

/-- Nothing that can be read has changed: balance, nonce and code of every address, where a
missing account has none of them, every slot of persistent and transient storage, the logs emitted
so far and the read-only flag. `getValue` also asks whether the account exists, so it needs that
missing accounts have no slots, as in every store that started empty. -/
structure Isolated (w w' : World) : Prop where
  balance : ∀ x, w'.getBalance x = w.getBalance x
  nonce : ∀ x, w'.getNonce x = w.getNonce x
  code : ∀ x, w'.getContractCode x = w.getContractCode x
  slot : ∀ x k, Storage.rawValue w'.storage.mappings x k = Storage.rawValue w.storage.mappings x k
  value : w.observed.Clean → ∀ x k, w'.storage.getValue x k = w.storage.getValue x k
  transient : w'.transientStorage = w.transientStorage
  eventLog : w'.eventLog = w.eventLog
  readOnly : w'.readOnly = w.readOnly

lemma Frozen.isolated (h : Frozen w.observed w w') : Isolated w w' where
  balance := h.now.read 0 StoredAccount.balance rfl
  nonce := h.now.read 0 (fun account => wrap64 account.nonce) rfl
  code := h.now.read [] StoredAccount.code rfl
  slot := h.now.slot
  value := h.now.getValue
  transient := h.transient
  eventLog := h.eventLog
  readOnly := h.readOnly

lemma recorded_vm (m : Machine) (n : Nat) : Recorded m .any false (vm m n) := by
  have hrec : Recorded m .any false (vmGuarded m .any n) := vm_recorded n
  rwa [vmGuarded_any] at hrec

lemma isolated_turn (m : Machine) (n : Nat) {f f' : Frame} (hro : f.world.readOnly = true)
    (h : (turn m (vm m n) f).state? = some f') : Isolated f.world f'.world := by
  have hturn := ((recorded_vm m n).turnInto rfl (.refl f.world)).wp_turn
  have hist : Hist m .any f.contract.toRef.addresses false f.world f'.world :=
    (hturn.post (fun _ _ h' => h'.2)).of_state? h
  exact (hist.frozen hro (.refl _)).isolated

lemma isolated_run (m : Machine) (n fuel : Nat) {contract : Contract} {input : Option Bytes}
    {readOnly : Bool} (hro : (w.readOnly || readOnly) = true)
    (h : (run (turn m (vm m n)) fuel contract input readOnly w).state? = some w') :
    Isolated w w' := by
  have hrun := (recorded_vm m n).frozen_run fuel contract input hro (.refl w.observed)
  exact (hrun.of_state? h).isolated

lemma isolated_staticCall (m : Machine) {n : Nat}
    (hkind : a.kind = .staticCall) (h : ((vm m n).executeCall a w).state? = some w') :
    Isolated w w' := by
  cases n with
  | zero => cases h
  | succ n =>
    have hcall := (recorded_vm m n).frozen_staticCall n hkind (.refl w.observed)
    exact (hcall.of_state? h).isolated

lemma isolated_nestedCall (m : Machine) {n : Nat}
    (hro : w.readOnly = true) (hlegal : a.kind = .call → a.amount = 0)
    (h : ((vm m n).executeCall a w).state? = some w') : Isolated w w' := by
  have hcall := (recorded_vm m n).executeCall a w fun _ => hlegal
  have hist := (hcall.post (fun _ _ h' => h'.1)).of_state? h
  exact (hist.frozen hro (.refl _)).isolated

/-- **STATIC CALLS ARE ISOLATED**, by whatever status or exception they end: every run of code in
read-only mode and every static call frame, and inside of them every instruction and every call, at
any depth. -/
theorem static_call_isolated (m : Machine) (n : Nat) :
    (∀ fuel contract input readOnly w w', (w.readOnly || readOnly) = true →
      (run (turn m (vm m n)) fuel contract input readOnly w).state? = some w' → Isolated w w') ∧
    (∀ (a : CallArgs) w w',
      a.kind = .staticCall ∨ (w.readOnly = true ∧ (a.kind = .call → a.amount = 0)) →
      ((vm m n).executeCall a w).state? = some w' → Isolated w w') ∧
    (∀ f f' : Frame, f.world.readOnly = true → (turn m (vm m n) f).state? = some f' →
      Isolated f.world f'.world) := by
  refine ⟨?_, ?_, ?_⟩
  · intro fuel contract input readOnly w w' hro hrun
    exact isolated_run m n fuel hro hrun
  · intro a w w' hstatic hrun
    rcases hstatic with hkind | ⟨hro, hlegal⟩
    · exact isolated_staticCall m hkind hrun
    · exact isolated_nestedCall m hro hlegal hrun
  · intro f f' hro hturn
    exact isolated_turn m n hro hturn

/-- `CALL` the precompile at address 4 without a value. -/
def touchingCode : Bytes := [0x60, 0, 0x60, 0, 0x60, 0, 0x60, 0, 0x60, 0, 0x60, 4, 0x61, 0xff, 0xff, 0xf1, 0]

def writingCode : Bytes := [0x60, 1, 0x60, 0, 0x55]

def Frame.sampleReadOnly : Frame := { Frame.sample [0x55] 100000 with
    stack := [0, 1]
    world := { World.sampleWith 0 [] with readOnly := true } }

theorem static_call_touches :
    (∃ w', ((vm .sample 20).executeCall ⟨.staticCall, .account 1 0, 500, [], 100000, 0⟩
        (.sampleWith 0 touchingCode)).state? = some w' ∧
      (w'.getAccount 4).isSome = true ∧ Isolated (.sampleWith 0 touchingCode) w') ∧
    (∃ w', (run (turn .sample (vm .sample 20)) 20 (.new (.account 1 0) 500 0 100000 writingCode)
        none true (.sampleWith 0 writingCode)).state? = some w' ∧
      Isolated (.sampleWith 0 writingCode) w') ∧
    ∃ f', (turn .sample (vm .sample 20) .sampleReadOnly).state? = some f' ∧
      Isolated Frame.sampleReadOnly.world f'.world := by
  refine ⟨?_, ?_, ?_⟩
  · have hrun : (((vm .sample 20).executeCall ⟨.staticCall, .account 1 0, 500, [], 100000, 0⟩
        (.sampleWith 0 touchingCode)).state?.map fun w' => (w'.getAccount 4).isSome)
        = some true := by decide +kernel
    obtain ⟨w', hw', htouched⟩ := Option.map_eq_some_iff.mp hrun
    exact ⟨w', hw', htouched, (static_call_isolated .sample 20).2.1 _ _ _ (.inl rfl) hw'⟩
  · have hrun : (run (turn .sample (vm .sample 20)) 20
        (.new (.account 1 0) 500 0 100000 writingCode) none true
        (.sampleWith 0 writingCode)).state?.isSome = true := by decide +kernel
    obtain ⟨w', hw'⟩ := Option.isSome_iff_exists.mp hrun
    exact ⟨w', hw', (static_call_isolated .sample 20).1 _ _ _ _ _ _ rfl hw'⟩
  · have hrun : (turn .sample (vm .sample 20) .sampleReadOnly).state?.isSome = true := by
      decide +kernel
    obtain ⟨f', hf'⟩ := Option.isSome_iff_exists.mp hrun
    exact ⟨f', hf', (static_call_isolated .sample 20).2.2 _ _ rfl hf'⟩

end GrapeDag
