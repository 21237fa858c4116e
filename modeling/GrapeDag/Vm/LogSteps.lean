/-
STEPS THAT SAVE NO LOG.

The turns of the interpreter, and the parts of a frame before and after its code: none of them
saves a log, except the end of a frame that hands logs on.
-/
import GrapeDag.State.StoredLogs
import GrapeDag.Vm.StaticCalls
import GrapeDag.Vm.Termination

namespace GrapeDag

open Imperative GrapeDag.Frame Prog World

/-! ## A turn, by the frame it opens -/

section Turn

variable {m : Machine} {calls : Calls} {f f1 : Frame} {op : Op}

lemma wp_turn_of_charged {P E : Frame → Prop} (h : f.charged m = some (op, f1))
    (hfn : wp (locateFn m calls op) (fun _ f' => ∀ f'', Quiet f' f'' → P f'') (fun _ f' => E f') f1) :
    wp (turn m calls) (fun _ f' => P f') (fun _ f' => E f') f := by
  obtain ⟨hget, hop, hrun⟩ := charged_eq h
  refine wp_turn_of (fun e herr => by rw [hget] at herr; cases herr) fun _ => ?_
  refine .of_apply_eq (runStep_of_paid hop hrun) (hfn.post (fun rc f' hf' => ?_))
  exact ⟨fun _ => hf' f' (Quiet.refl f'), fun _ => hf' _ (Pcwise.pc f' _)⟩

lemma turn_unopened (h : f.opens m = none) : turn m calls f = turn m .diverging f := by
  have hends : turn m Calls.diverging f ≠ .diverge := by
    refine turn_ends fun x hx => ?_
    rw [h] at hx
    cases hx
  exact ((turn_below m (.diverging calls)).eq_of_ne_diverge hends).symm

lemma wp_finish_opened {P E : Frame → Prop} {q : Java World VmResult}
    {k : VmResult → Java Frame FnResult} (h : Quiet f f1) (hk : ∀ r, Still (k r))
    (hq : wp q (fun _ w' => ∀ f', Over f w' f' → P f' ∧ E f')
      (fun _ w' => ∀ f', Over f w' f' → E f') f1.world) :
    wp (onWorld q >>= k) (fun _ f' => ∀ f'', Quiet f' f'' → P f'') (fun _ f' => E f') f1 := by
  rw [wp_bind, wp_onWorld]
  refine hq.mono (fun r w' hr => ?_) (fun _ w' hr => hr _ ⟨h.contract, .refl w'⟩)
  refine ((hk r).wp _).mono ?_ ?_
  · intro _ f' h' f'' h''
    have hcontract := h.contract.trans (h'.contract.trans h''.contract)
    exact (hr f'' ⟨hcontract, h'.world.trans h''.world⟩).1
  · exact fun _ f' h' => (hr f' ⟨h.contract.trans h'.contract, h'.world⟩).2

lemma wp_turn_opened {x : Nested} {P E : Frame → Prop} (h : f.opens m = some x)
    (hrun : x.Legal → World.Same f.world x.world →
      wp (x.program calls) (fun _ w' => ∀ f', Over f w' f' → P f' ∧ E f')
        (fun _ w' => ∀ f', Over f w' f' → E f') x.world) :
    wp (turn m calls) (fun _ f' => P f') (fun _ f' => E f') f := by
  obtain ⟨⟨op, f1⟩, hcharged, hopened⟩ := Option.bind_eq_some_iff.mp h
  obtain ⟨f2, finish, hopening⟩ := exists_opening (hopened : openedBy m op f1 = some x)
  have hquiet : Quiet f f2 := (((still_charge m op).wp f).of_ok (charged_eq hcharged).2.2).trans
    (hopening.before Quiet)
  refine wp_turn_of_charged hcharged (.of_apply_eq (hopening.run calls) ?_)
  refine wp_finish_opened hquiet (hopening.after Quiet) ?_
  rw [← hopening.world]
  exact hrun hopening.legal (hopening.world ▸ hquiet.world)

end Turn

/-! ## Steps that save no log -/

/-- No log was added or filed. -/
structure Silent (L : Address → List StoredLog) (w w' : World) : Prop where
  files : w.storage.Files L → w'.storage.Files L
  eventLog : w'.eventLog = w.eventLog
  depth : w'.depth = w.depth

lemma Silent.trans {L : Address → List StoredLog} {w w1 w2 : World} (h : Silent L w w1)
    (h' : Silent L w1 w2) : Silent L w w2 :=
  ⟨h'.files ∘ h.files, h'.eventLog.trans h.eventLog, h'.depth.trans h.depth⟩

instance (L : Address → List StoredLog) : IsPreorder World (Silent L) where
  refl _ := ⟨id, rfl, rfl⟩
  trans _ _ _ h h' := h.trans h'

section Steps

variable {L : Address → List StoredLog}

lemma Silent.of_same {w w' : World} (h : World.Same w w') : Silent L w w' := by
  refine ⟨fun hw => ?_, h.eventLog, h.depth⟩
  rw [h.storage]
  exact hw

lemma silent_rpc {α : Type} {p : Go Storage α} (h : ∀ s : Storage, s.Files L →
    wpEnd p (fun s' => s'.Files L) s) :
    Keeps (Silent L) (rpc p) := by
  refine ⟨fun w => ?_⟩
  rw [wp_rpc]
  by_cases hw : w.storage.Files L
  · exact (h _ hw).mono (fun _ _ h' => ⟨fun _ => h', rfl, rfl⟩) (fun _ _ h' => ⟨fun _ => h', rfl, rfl⟩)
  · exact .of_forall (fun _ _ => ⟨fun hf => absurd hf hw, rfl, rfl⟩)
      (fun _ _ => ⟨fun hf => absurd hf hw, rfl, rfl⟩)

lemma silent_modify {g : Storage → Storage} (h : ∀ s : Storage, s.Files L → (g s).Files L) :
    Keeps (Silent L) (rpc (.modify g)) :=
  silent_rpc fun s hs => (wp_modify g).mpr (h s hs)

lemma silent_update (a : Address) (g : StoredAccount → StoredAccount) :
    Keeps (Silent L) (rpc (Storage.updateAccount a g)) := by
  refine silent_rpc fun s hs => ?_
  rw [wpEnd, Storage.wp_updateAccount]
  exact ⟨fun _ => hs, fun account _ => hs.putAccount a (g account)⟩

instance : Entrywise (Silent L) where
  checkpoint := silent_modify fun _ hs => ⟨hs.logs, hs.fresh⟩
  createAccount a := silent_modify fun _ hs => hs.putAccount a .blank
  setNonce a _ := keeps_rpcLogged (silent_update a _)
  transfer source target _ := .bind (silent_update source _) fun _ => silent_update target _

lemma silent_end (m : Machine) {r : VmResult} (h : r.eventLog = []) :
    Keeps (Silent L) (endStateTransaction m r) := by
  have hcommit : Keeps (Silent L) (do commit; return r) :=
    .bind (silent_rpc fun _ hs => hs.commit) fun _ => .pure _
  refine .ite (.bind (silent_rpc fun _ hs => hs.revert) fun _ => .pure _) ?_
  rw [h]
  exact hcommit

end Steps

/-! ## The entry and the exit of a frame -/

/-- Code that is found at `x` was there before, and marks stay. -/
structure Enters (x : Address) (w w' : World) : Prop where
  code : w'.getContractCode x ≠ [] → w.getContractCode x ≠ []
  marks : w.storage.checkPoints ≠ [] → w'.storage.checkPoints ≠ []

instance (x : Address) : IsPreorder World (Enters x) where
  refl _ := ⟨id, id⟩
  trans _ _ _ h h' := ⟨h.code ∘ h'.code, h'.marks ∘ h.marks⟩

section Entry

variable {x : Address}

lemma enters_update (a : Address) {g : StoredAccount → StoredAccount}
    (hg : ∀ account, (g account).code = account.code) :
    Keeps (Enters x) (rpc (Storage.updateAccount a g)) := by
  refine ⟨fun w => ?_⟩
  rw [wp_rpc, Storage.wp_updateAccount]
  refine ⟨fun _ => ⟨id, id⟩, fun account hacc => ⟨fun hcode => ?_, id⟩⟩
  have hcode : (w.putAccount a (g account)).getContractCode x ≠ [] := hcode
  rw [getContractCode_putAccount] at hcode
  by_cases hx : x = a
  · rw [if_pos hx, hg, ← getContractCode_eq hacc] at hcode
    rwa [hx]
  · rwa [if_neg hx] at hcode

instance : Entrywise (Enters x) where
  checkpoint := by
    refine ⟨fun w => ?_⟩
    unfold World.checkpoint
    rw [World.wp_rpc, wp_modify]
    exact ⟨id, fun _ => List.cons_ne_nil _ _⟩
  createAccount a := by
    refine ⟨fun w => ?_⟩
    unfold World.createAccount Storage.createAccount
    rw [World.wp_rpc, wp_modify]
    refine ⟨fun hcode => ?_, id⟩
    have hcode : (w.putAccount a .blank).getContractCode x ≠ [] := hcode
    rw [World.getContractCode_putAccount] at hcode
    by_cases hx : x = a
    · rw [if_pos hx] at hcode
      exact absurd rfl hcode
    · rwa [if_neg hx] at hcode
  setNonce a _ := keeps_rpcLogged (enters_update a fun _ => rfl)
  transfer source target _ :=
    .bind (enters_update source fun _ => rfl) fun _ => enters_update target fun _ => rfl

def Nested.runsCode (m : Machine) : Nested → Bool
  | .call a w => refusal m a.caller.address a.amount w = none ∧
      !isPrecompiled m.cfg a.contractAddress ∧ w.getContractCode a.contractAddress ≠ []
  | .create a w => refusal m a.caller.address a.amount w = none

/-- The code runs on the account of its own address. -/
def Nested.Owned : Nested → Prop
  | .call a _ => a.kind = .call
  | .create _ _ => True

/-- The code runs, over a checkpoint to go back to. -/
structure Begins (m : Machine) (x : Nested) (c : Contract) (w : World) : Prop where
  runs : x.runsCode m = true
  marked : w.storage.checkPoints ≠ []
  owned : x.Owned → w.getAccount c.self ≠ none

lemma Endowed.exists_target {a : CreateArgs} {y : Address} {w w' : World}
    (h : Endowed a y (w.putAccount y .blank) w') :
    w'.getAccount y ≠ none ∧ w'.storage.checkPoints = w.storage.checkPoints := by
  have hblank : (w.putAccount y .blank).getAccount y = some .blank := by
    rw [getAccount_putAccount, if_pos rfl]
  rcases h with ⟨_, rfl⟩ | ⟨_, hmoved⟩
  · rw [hblank]
    exact ⟨Option.some_ne_none _, rfl⟩
  · obtain ⟨s, t, _, _, rfl⟩ := hmoved.moved
    rw [getAccount_putAccount, if_pos rfl]
    exact ⟨Option.some_ne_none _, rfl⟩

lemma begins_entry (m : Machine) (x : Nested) : wpRet (x.entry m) (fun e w1 =>
      match e with
      | .done _ => True
      | .ended r => r.eventLog = []
      | .code c => Begins m x c w1) x.world := by
  cases x with
  | call a w =>
    refine wp_callEntry_of (fun _ _ => trivial) fun hr => ?_
    refine ((keeps_enterCall m a : Keeps (Enters a.contractAddress) _).wp _).returned fun _ w1 h1 => ?_
    refine ⟨trivial, rfl, fun _ _ _ => rfl, fun c hpre hfound hc => ?_⟩
    refine ⟨decide_eq_true ⟨hr, by rw [hpre]; rfl, h1.code hfound⟩,
      h1.marks (List.cons_ne_nil _ _), fun hkind hnone => hfound ?_⟩
    -- the code runs at the address it was found at
    have hself : c.self = a.contractAddress := by
      unfold callContract at hc
      rw [hkind] at hc
      cases hc
      rfl
    unfold getContractCode
    rw [← hself, hnone]
  | create a w =>
    refine wp_createEntry_of (fun _ _ _ _ => trivial) fun hr w1 _ => ?_
    refine (wp_enterCreate a (createTarget m a w) _).returned fun _ w2 h2 => ?_
    obtain ⟨hacc, hmarks⟩ := h2.exists_target
    refine ⟨decide_eq_true hr, ?_, fun _ => hacc⟩
    rw [hmarks]
    exact List.cons_ne_nil _ _

lemma wp_frameLog (st : VmStatus) (w : World) :
    wp (frameLog st) (fun logs w' => w' = w ∧ logs = if st.isFailure then [] else w.eventLog)
      (fun _ _ => False) w := by
  unfold frameLog
  refine .ite (fun hfail => .pure ⟨rfl, ?_⟩) fun hok => (wp_gets _).mpr ⟨rfl, ?_⟩
  · rw [if_pos hfail]
  · rw [if_neg hok]

lemma wp_exit {L : Address → List StoredLog} (m : Machine) (x : Nested) (c : Contract)
    (rc : FnResult) (c' : Contract) (w : World) :
    wp (x.exit m c rc c')
      (fun r w' => Silent L w w' ∧ r.eventLog = if r.hasError then [] else w'.eventLog)
      (fun _ w' => Silent L w w') w := by
  cases x with
  | call a w0 =>
    show wp (callExit a rc c') _ _ w
    unfold callExit
    rw [wp_bind]
    refine (wp_frameLog rc.status w).mono ?_ (fun _ _ hf => hf.elim)
    rintro logs _ ⟨rfl, hlogs⟩
    exact .pure ⟨⟨id, rfl, rfl⟩, hlogs⟩
  | create a w0 =>
    show wp (createExit m c.self rc c') _ _ w
    refine Keeps.wp_bind (keeps_storeCode m (fun _ => silent_update _ _) rc c'.gas) (fun _ _ h => h)
      fun r w1 h1 => ?_
    rw [wp_bind]
    refine (wp_frameLog r.1.status w1).mono ?_ (fun _ _ hf => hf.elim)
    rintro logs _ ⟨rfl, hlogs⟩
    exact .pure ⟨h1, hlogs⟩

end Entry

/-! ## What outlasts a run -/

section Stands

variable {m : Machine}

/-- The account at `y` and the open checkpoints stay. -/
structure Stands (y : Address) (w w' : World) : Prop where
  account : w.getAccount y ≠ none → w'.getAccount y ≠ none
  marks : w.storage.checkPoints ≠ [] → w'.storage.checkPoints ≠ []

lemma Stands.putAccount (y : Address) (w : World) (a : Address) (account : StoredAccount) :
    Stands y w (w.putAccount a account) := by
  refine ⟨fun hacc => ?_, id⟩
  rw [getAccount_putAccount]
  by_cases hy : y = a
  · rw [if_pos hy]
    exact Option.some_ne_none _
  · rw [if_neg hy]
    exact hacc

lemma Hist.stands {g : Guard} {chain : List Address} {b : Bool} {w w' : World}
    (h : Hist m g chain b w w') (y : Address) : Stands y w w' := by
  have hstable : StableAccounts m g (fun _ => True) (fun acc => acc y ≠ none) := by
    have hput : ∀ (w : World) a account, w.getAccount y ≠ none →
        (w.putAccount a account).getAccount y ≠ none :=
      fun w a account => (Stands.putAccount y w a account).account
    refine ⟨fun _ => trivial, ?_, ?_, ?_, ?_, ?_, ?_⟩
    · exact fun _ _ _ _ _ => hput _ _ _
    · exact fun _ => hput _ _ _
    · intro source target value w w' _ hmoved hacc
      obtain ⟨s, t, _, _, rfl⟩ := hmoved.moved
      exact hput _ _ _ (hput _ _ _ hacc)
    · exact fun _ _ _ _ _ => hput _ _ _
    · exact fun _ _ => hput _ _ _
    · exact fun _ _ _ _ _ _ => hput _ _ _
  refine ⟨h.keeps hstable.stable trivial, fun hmarks => ?_⟩
  obtain ⟨extra, heq, _⟩ := h.grows.marks_eq
  have heq : w'.storage.checkPoints = extra ++ w.storage.checkPoints := heq
  rw [heq]
  exact fun hnil => hmarks (List.append_eq_nil_iff.mp hnil).2

lemma stands_run (y : Address) (n fuel : Nat) (c : Contract) (input : Option Bytes)
    (readOnly : Bool) (w : World) :
    wpRet (runContract (run (turn m (vm m n)) fuel) c input readOnly)
      (fun _ w' => Stands y w w') w := by
  have hrun := (recorded_vm m n).wp_run fuel c input readOnly w
  refine GrapeDag.wp_runContract (hrun.returned ?_)
  rintro _ _ ⟨w1, hist, rfl⟩
  have hstands := hist.stands y
  exact ⟨hstands.account, hstands.marks⟩

lemma stands_exit (y : Address) (x : Nested) (c : Contract) (rc : FnResult) (c' : Contract)
    (w : World) :
    wpRet (x.exit m c rc c') (fun _ w' => Stands y w w') w := by
  have hlog : ∀ (st : VmStatus) (w1 : World), Stands y w w1 → ∀ k : List Log → VmResult,
      wpRet (do let logs ← frameLog st; return k logs) (fun _ w' => Stands y w w') w1 := by
    intro st w1 h1 k
    rw [wpRet, wp_bind]
    refine (wp_frameLog st w1).returned ?_
    rintro logs _ ⟨rfl, _⟩
    exact .pure h1
  cases x with
  | call a w0 => exact hlog _ w ⟨id, id⟩ _
  | create a w0 =>
    show wp (createExit m c.self rc c') _ _ w
    unfold createExit
    rw [wp_bind]
    refine (wp_storeCode c.self rc c'.gas w).returned (fun r w1 h1 => ?_)
    refine hlog _ w1 ?_ _
    rcases h1 with rfl | ⟨account, code, _, rfl⟩
    · exact ⟨id, id⟩
    · exact .putAccount _ _ _ _

end Stands

end GrapeDag
