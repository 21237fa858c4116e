/-
THE RESULT OF A CREATE.

`CREATE` and `CREATE2` push the address of the new contract, or zero. Two ends are told wrong:
a frame that could not pay for its code is reverted, but its address is pushed; and init code
that ends without output throws where its length is looked at, which ends the caller, as does
every exception inside the create frame.

Main result: `create_told_iff`.
-/
import GrapeDag.Vm.LogSteps
import GrapeDag.Vm.MemoryPaid

namespace GrapeDag

open Imperative GrapeDag.Frame Prog World

/-! ## Creates -/

/-- The create frame up to the end of its init code: the contract, its result, and the contract it
leaves; `none` for a create that is refused before. -/
def initRun (m : Machine) (run : Runner) (a : CreateArgs) :
    Java World (Option (Contract × FnResult × Contract)) := do
  match ← createEntry m a with
  | .code contract =>
      let (rc, left) ← runContract run contract none false
      return some (contract, rc, left)
  -- a create frame is refused before its checkpoint, so `ended` does not occur
  | .done _ | .ended _ => return none

/-- Block numbers of logs fit `long`. -/
def LogsFit (w : World) : Prop := ∀ l ∈ w.eventLog, IsLong l.block

/-- The end of init code with `gas` left, in world `w`, for a contract at `target`: a failure, an
output that may not be stored, or an output that is paid for. -/
def InitFits (m : Machine) (price : Int) (target : Address) (rc : FnResult) (gas : Int) (w : World) :
    Prop :=
  if rc.hasError then rc.status = .codestoreOutOfGas → target = 0
  else ∃ output, rc.output = some output ∧
    (m.cfg.maxCodeSize < output.length ∨ output.head? = some 0xEF ∨ (gas < price ∧ target = 0) ∨
      (price ≤ gas ∧ target ≠ 0 ∧ LogsFit w))

/-- The create is refused, or its init code comes to an end that is told right. -/
def CreateEndsWell (m : Machine) (run : Runner) (price : Int) (a : CreateArgs) (w : World) : Prop :=
  (∃ w', initRun m run a w = .ok none w') ∨
    ∃ contract rc left w', initRun m run a w = .ok (some (contract, rc, left)) w' ∧
      InitFits m price contract.self rc left.gas w'

def CreateSucceeds (calls : Calls) (a : CreateArgs) (w : World) : Prop :=
  ∃ result w', calls.create a w = .ok result w' ∧ result.hasError = false

/-- The init code runs to its end with this output. -/
def InitReturns (m : Machine) (run : Runner) (a : CreateArgs) (w : World) (output : Bytes) : Prop :=
  ∃ contract rc left w', initRun m run a w = .ok (some (contract, rc, left)) w' ∧ rc.output = some output

/-- A create instruction of frame `f` has been paid for, and is about to enter the create frame in
frame `f2`. -/
def CreateStarts (m : Machine) (kind : CreateKind) (f : Frame) (a : CreateArgs) (f2 : Frame) : Prop :=
  ∃ f1 c, charge m (.create kind) f = .ok none f1 ∧ prepareCreate kind f1 = .ok (.ok c) f2 ∧
    a = ⟨kind, f2.contract.toRef, c.code, c.gas, c.value, c.salt⟩

/-- The caller goes on with a word that is not zero exactly when the create succeeded, and then it
is the address at which the output of the init code is stored. -/
def Told (m : Machine) (run : Runner) (calls : Calls) (opcode : UInt8) (f : Frame) (a : CreateArgs)
    (f2 : Frame) : Prop :=
  ∃ f' x word, runStep m calls opcode f = .ok ⟨.success, x⟩ f' ∧ f'.stack = word :: f2.stack ∧
    (word ≠ 0 ↔ CreateSucceeds calls a f2.world) ∧
    (CreateSucceeds calls a f2.world → ∃ address output, word = Address.toWord address ∧
      InitReturns m run a f2.world output ∧ f'.world.getContractCode address = output)

/-! ## The word that is pushed -/

def createdWord (result : VmResult) : Word :=
  if result.hasError ∧ result.status ≠ .codestoreOutOfGas then 0
  else (result.contract.map Address.toWord).getD 0

lemma Address.toWord_eq_zero {x : Address} : Address.toWord x = 0 ↔ x = 0 := by
  constructor
  · intro h
    have hnat := congrArg BitVec.toNat h
    exact BitVec.eq_of_toNat_eq hnat
  · rintro rfl
    rfl

lemma finishCreate_apply {result : VmResult} {g : Frame} (hroom : g.stack.length < 1024) :
    ∃ x f', finishCreate result g = .ok ⟨.success, x⟩ f' ∧
      f'.stack = createdWord result :: g.stack ∧
      ∀ y, f'.world.getContractCode y = g.world.getContractCode y := by
  have hpush := @push_apply g (createdWord result) hroom
  unfold createdWord at hpush
  unfold finishCreate
  rw [bind_of_ok hpush]
  by_cases hrevert : result.hasError = true ∧ result.status = .revert
  · rw [if_pos hrevert]
    exact ⟨_, _, rfl, rfl, fun _ => rfl⟩
  · rw [if_neg hrevert]
    exact ⟨_, _, rfl, rfl, fun _ => rfl⟩

/-- The stack does not grow. -/
def Lowers (f f' : Frame) : Prop := f'.stack.length ≤ f.stack.length

instance : Memwise Lowers where
  refl f := le_refl f.stack.length
  trans _ _ _ h1 h2 := Nat.le_trans h2 h1
  memory f _ := le_refl f.stack.length

instance : Gaswise Lowers where
  gas f _ := le_refl f.stack.length

instance : Keeps Lowers pop := by
  refine ⟨fun f => wp_pop.mpr ⟨fun _ => le_refl f.stack.length, fun w rest hw => ?_⟩⟩
  show rest.length ≤ f.stack.length
  rw [hw]
  exact Nat.le_succ _

set_option synthInstance.maxSize 1000 in
lemma wp_prepareCreate_stack (kind : CreateKind) (f : Frame) :
    wpRet (prepareCreate kind) (fun r f' => ∀ c, r = .ok c → f'.stack.length < f.stack.length) f := by
  unfold prepareCreate
  rw [wpRet, wp_bind, wp_gets]
  refine .ite (fun _ => .pure fun _ h => by cases h) fun _ => ?_
  rw [wp_bind, wp_pop]
  refine ⟨fun _ => trivial, fun w rest hw => ?_⟩
  have hkept : ∀ {p : Java Frame (Except VmStatus PreparedCreate)}, Keeps Lowers p →
      wpRet p (fun r f' => ∀ c, r = .ok c → f'.stack.length < f.stack.length)
        { f with stack := rest } := by
    intro p hp
    refine (hp.wp _).returned (fun r f' hlow c _ => ?_)
    have hlow : f'.stack.length ≤ rest.length := hlow
    rw [hw, List.length_cons]
    omega
  apply hkept
  cases kind <;> dsimp only <;> infer_instance

section Starts

variable {m : Machine} {run : Runner} {calls : Calls} {kind : CreateKind} {opcode : UInt8} {f f2 : Frame}
  {a : CreateArgs}

lemma CreateStarts.run_eq (h : CreateStarts m kind f a f2)
    (hop : m.cfg.locateOpCode opcode = some (.create kind)) :
    runStep m calls opcode f = (onWorld (calls.create a) >>= finishCreate) f2 := by
  obtain ⟨f1, c, hcharge, hprepare, rfl⟩ := h
  rw [runStep_of_paid hop hcharge]
  show makeCreateFunction calls kind f1 = _
  unfold makeCreateFunction
  rw [bind_of_ok hprepare]
  rfl

lemma CreateStarts.room (h : CreateStarts m kind f a f2) (hlen : f.stack.length ≤ 1024) :
    f2.stack.length < 1024 := by
  obtain ⟨f1, c, hcharge, hprepare, -⟩ := h
  have hstack : f1.stack = f.stack := ((wp_charge_areas f (.create kind)).of_ok hcharge).1.stack
  have hless := (wp_prepareCreate_stack kind f1).of_ok hprepare c rfl
  rw [hstack] at hless
  omega

lemma told_iff_of_ok (h : CreateStarts m kind f a f2) (hlen : f.stack.length ≤ 1024)
    (hop : m.cfg.locateOpCode opcode = some (.create kind)) {result : VmResult} {w : World}
    (hcreate : calls.create a f2.world = .ok result w) :
    Told m run calls opcode f a f2 ↔ (createdWord result ≠ 0 ↔ result.hasError = false) ∧
      (result.hasError = false → ∃ address output, createdWord result = Address.toWord address ∧
        InitReturns m run a f2.world output ∧ w.getContractCode address = output) := by
  have hcall : onWorld (calls.create a) f2 = .ok result { f2 with world := w } := zoom_of_ok hcreate
  obtain ⟨x, f', hfinish, hstack, hcode⟩ := @finishCreate_apply result { f2 with world := w } (h.room hlen)
  have hrun : runStep m calls opcode f = .ok ⟨.success, x⟩ f' := by
    rw [h.run_eq hop, bind_of_ok hcall, hfinish]
  have hsucceeds : CreateSucceeds calls a f2.world ↔ result.hasError = false := by
    constructor
    · rintro ⟨result', w', hcreate', hok⟩
      rw [hcreate] at hcreate'
      cases hcreate'
      exact hok
    · exact fun hok => ⟨result, w, hcreate, hok⟩
  unfold Told
  rw [hsucceeds]
  constructor
  · -- the step is deterministic: the frame and the word are those computed here
    rintro ⟨f'', x', word, hrun', hstack', hword, hstored⟩
    rw [hrun] at hrun'
    cases hrun'
    obtain ⟨rfl, -⟩ := List.cons.inj (hstack.symm.trans hstack')
    refine ⟨hword, fun hok => ?_⟩
    obtain ⟨address, output, haddress, hreturns, houtput⟩ := hstored hok
    exact ⟨address, output, haddress, hreturns, (hcode address).symm.trans houtput⟩
  · rintro ⟨hword, hstored⟩
    refine ⟨f', x, _, hrun, hstack, hword, fun hok => ?_⟩
    obtain ⟨address, output, haddress, hreturns, houtput⟩ := hstored hok
    exact ⟨address, output, haddress, hreturns, (hcode address).trans houtput⟩

lemma not_told (h : CreateStarts m kind f a f2)
    (hop : m.cfg.locateOpCode opcode = some (.create kind))
    (hcreate : ∀ result w, calls.create a f2.world ≠ .ok result w) :
    ¬ Told m run calls opcode f a f2 := by
  rintro ⟨f', x, word, hrun, -⟩
  rw [h.run_eq hop] at hrun
  obtain ⟨result, g, hcall, -⟩ := bind_eq_ok.mp hrun
  cases hinner : calls.create a f2.world with
  | ok result' w => exact hcreate result' w hinner
  | err e w =>
    have herr : onWorld (calls.create a) f2 = .err e { f2 with world := w } := zoom_of_err hinner
    rw [herr] at hcall
    cases hcall
  | diverge =>
    have hdiverge : onWorld (calls.create a) f2 = .diverge := by
      unfold onWorld Prog.zoom
      rw [hinner]
    rw [hdiverge] at hcall
    cases hcall

end Starts

/-! ## The init code -/

/-- There is a checkpoint that a revert can go back to. -/
def World.Marked (w : World) : Prop :=
  ∃ c rest, w.storage.checkPoints = c :: rest ∧ c ≤ w.storage.modifications.length

namespace World.Marked

variable {w w' : World}

lemma of_grows (h : w.Marked) (hgrows : w.storage.Grows w'.storage) : w'.Marked := by
  obtain ⟨c, rest, hmarks, hle⟩ := h
  obtain ⟨extra, heq, -, hbounds⟩ := hgrows.marks_eq
  have heq : w'.storage.checkPoints = extra ++ w.storage.checkPoints := heq
  have hlength : w.storage.modifications.length ≤ w'.storage.modifications.length := hgrows.length_le
  rw [hmarks] at heq
  -- the newest checkpoint is the old one, or one that was set since and is within the undo log
  cases extra with
  | nil => exact ⟨c, rest, heq, hle.trans hlength⟩
  | cons d extra => exact ⟨d, extra ++ c :: rest, heq, (hbounds d List.mem_cons_self).2⟩

lemma revert (h : w.Marked) : ∃ w', revert w = .ok () w' := by
  obtain ⟨c, rest, hmarks, hle⟩ := h
  unfold World.revert World.rpc
  rw [Storage.revert_ok hmarks hle]
  exact ⟨_, rfl⟩

lemma commit (h : w.Marked) :
    ∃ w', commit w = .ok () w' ∧ ∀ y, w'.getContractCode y = w.getContractCode y := by
  obtain ⟨c, rest, hmarks, -⟩ := h
  unfold World.commit World.rpc
  rw [Storage.commit_ok hmarks]
  exact ⟨_, rfl, fun _ => rfl⟩

end World.Marked

lemma Endowed.marked {a : CreateArgs} {y : Address} {w w' : World}
    (h : Endowed a y (w.checkpointed.putAccount y .blank) w') : w'.Marked := by
  obtain ⟨-, hmarks⟩ := h.exists_target
  refine ⟨w.storage.modifications.length, w.storage.checkPoints, hmarks, ?_⟩
  rcases h with ⟨-, rfl⟩ | ⟨-, hmoved⟩
  · exact Nat.le_succ _
  · obtain ⟨s, t, -, -, rfl⟩ := hmoved.moved
    exact Nat.le_add_right _ 3

/-- The entry of a create frame: a refusal is an error, and the init code starts under a
checkpoint, with an account of its own. -/
theorem wp_createEntry (m : Machine) (a : CreateArgs) (w : World) :
    wpRet (createEntry m a) (fun e w1 =>
      (∀ r, e = .done r → r.hasError = true ∧ r.status ≠ .codestoreOutOfGas) ∧
      (∀ r, e ≠ .ended r) ∧
      ∀ c, e = .code c → w1.Marked ∧ w1.getAccount c.self ≠ none) w := by
  refine wp_createEntry_of (fun st w1 hfails hother => ⟨fun r hr => ?_, nofun, nofun⟩) fun _ w1 _ => ?_
  · cases hr
    exact ⟨hfails, hother⟩
  · refine (wp_enterCreate a (createTarget m a w) _).returned fun _ w2 h2 => ⟨nofun, nofun, fun c hc => ?_⟩
    -- only here the frame has a checkpoint of its own
    cases hc
    exact ⟨Endowed.marked h2, h2.exists_target.1⟩

lemma wp_initCode (m : Machine) (n fuel : Nat) (c : Contract) (w : World) :
    wpRet (runContract (run (turn m (vm m n)) fuel) c none false)
      (fun _ w' => (w.Marked → w'.Marked) ∧
        (w.getAccount c.self ≠ none → w'.getAccount c.self ≠ none)) w := by
  have hrun := (recorded_vm m n).wp_run fuel c none false w
  have hmarked : wpRet (runContract (run (turn m (vm m n)) fuel) c none false)
      (fun _ w' => w.Marked → w'.Marked) w := by
    refine GrapeDag.wp_runContract (hrun.returned ?_)
    rintro _ _ ⟨w1, hist, rfl⟩ hw
    exact (World.Marked.of_grows hw hist.grows : (w1.left _).Marked)
  exact (hmarked.and (stands_run c.self n fuel c none false w)).returned
    fun _ _ h => ⟨h.1, h.2.account⟩

variable {r : VmResult}

section Init

variable {m : Machine} {run : Runner} {a : CreateArgs} {w w' : World}

lemma create_refused (h : initRun m run a w = .ok none w') :
    ∃ r, create m run a w = .ok r w' ∧ r.hasError = true ∧ r.status ≠ .codestoreOutOfGas := by
  obtain ⟨e, w1, hentry, hrest⟩ := bind_eq_ok.mp h
  obtain ⟨hdone, hended, -⟩ := (wp_createEntry m a w).of_ok hentry
  cases e with
  | done r =>
    cases hrest
    refine ⟨r, ?_, hdone r rfl⟩
    rw [create_eq]
    unfold framed
    rw [bind_of_ok hentry]
    rfl
  | ended r => exact absurd rfl (hended r)
  | code c =>
    obtain ⟨_, _, _, hnone⟩ := bind_eq_ok.mp hrest
    cases hnone

lemma initRun_eq_some {c left : Contract} {rc : FnResult}
    (h : initRun m run a w = .ok (some (c, rc, left)) w') :
    ∃ w1, createEntry m a w = .ok (.code c) w1 ∧ runContract run c none false w1 = .ok (rc, left) w' := by
  obtain ⟨e, w1, hentry, hrest⟩ := bind_eq_ok.mp h
  cases e with
  | done r | ended r => cases hrest
  | code c' =>
    obtain ⟨⟨rc', left'⟩, w2, hrun, hsome⟩ := bind_eq_ok.mp hrest
    cases hsome
    exact ⟨w1, hentry, hrun⟩

lemma create_of_initRun {c left : Contract} {rc : FnResult}
    (h : initRun m run a w = .ok (some (c, rc, left)) w') :
    create m run a w = (createExit m c.self rc left >>= endStateTransaction m) w' := by
  obtain ⟨w1, hentry, hrun⟩ := initRun_eq_some h
  rw [create_eq]
  unfold framed
  rw [bind_of_ok hentry]
  show (runContract run c none false >>= _) w1 = _
  rw [bind_of_ok hrun]

lemma initRun_of_create (h : create m run a w = .ok r w') :
    ∃ x w2, initRun m run a w = .ok x w2 := by
  rw [create_eq] at h
  obtain ⟨e, w1, hentry, hrest⟩ := bind_eq_ok.mp h
  unfold initRun
  rw [bind_of_ok hentry]
  cases e with
  | done r | ended r => exact ⟨_, _, rfl⟩
  | code c =>
    obtain ⟨⟨rc, left⟩, w2, hrun, -⟩ := bind_eq_ok.mp hrest
    show ∃ x w2, (runContract run c none false >>= _) w1 = .ok x w2
    rw [bind_of_ok hrun]
    exact ⟨_, _, rfl⟩

end Init

/-! ## The end of the frame -/

section Close

variable {m : Machine} {x : Address} {rc rc' : FnResult} {c : Contract} {gas : Int} {w w3 : World}

lemma createExit_eq (hstore : storeCode m x rc c.gas w = .ok (rc', gas) w3) : createExit m x rc c w
      = .ok ⟨rc'.status, gas, if rc'.hasError then [] else w3.eventLog, rc'.output, some x⟩ w3 := by
  have hlog : frameLog rc'.status w3 = .ok (if rc'.hasError then [] else w3.eventLog) w3 := by
    unfold frameLog FnResult.hasError
    split <;> rfl
  unfold createExit
  rw [bind_of_ok hstore]
  show (frameLog rc'.status >>= _) w3 = _
  rw [bind_of_ok hlog]
  rfl

lemma endStateTransaction_failed (herr : r.hasError = true) (hmarked : w.Marked) :
    ∃ r' w', endStateTransaction m r w = .ok r' w' ∧ r'.status = r.status ∧ r'.contract = r.contract := by
  obtain ⟨w', hrevert⟩ := hmarked.revert
  unfold endStateTransaction
  rw [if_pos herr, bind_of_ok hrevert]
  refine ⟨_, w', rfl, ?_, ?_⟩ <;> split <;> rfl

lemma saveLog_of_fit (hlogs : LogsFit w) (hmarked : w.Marked) (txHash : Bytes) :
    ∃ w', saveLog txHash w.eventLog w = .ok () w' ∧ w'.Marked ∧
      ∀ y, w'.getContractCode y = w.getContractCode y := by
  have hany : (w.eventLog.any fun l => decide ¬ IsLong l.block) = false := by
    rw [List.any_eq_false]
    intro l hl
    simpa using hlogs l hl
  have hput : wp (rpcLogged (Storage.putLogs txHash w.eventLog))
      (fun _ w' => w'.Marked ∧ ∀ y, w'.getContractCode y = w.getContractCode y)
      (fun _ _ => False) w := by
    rw [wp_rpcLogged]
    have hkept : ∀ s, w.storage.LogsOnly s → World.Marked { w with storage := s } ∧
        ∀ y, getContractCode { w with storage := s } y = w.getContractCode y := by
      intro s hs
      obtain ⟨n, rest, hmarks, hle⟩ := hmarked
      refine ⟨⟨n, rest, hs.checkPoints.trans hmarks, ?_⟩, fun y => ?_⟩
      · show n ≤ s.modifications.length
        rw [hs.modifications]
        exact hle
      · have haccount : getAccount { w with storage := s } y = w.getAccount y :=
          congrArg (fun t => t.accounts.lookup y) hs.tables
        unfold getContractCode
        rw [haccount]
    exact ((Storage.logsOnly_putLogs txHash w.eventLog).wp w.storage).mono
      (fun _ s hs => hkept s hs) (fun _ s hs => hkept s hs)
  have hsave : wp (saveLog txHash w.eventLog)
      (fun _ w' => w'.Marked ∧ ∀ y, w'.getContractCode y = w.getContractCode y)
      (fun _ _ => False) w := by
    unfold saveLog
    rw [wp_ite]
    exact ⟨fun h => absurd h (by rw [hany]; decide), fun _ => hput⟩
  cases hrun : saveLog txHash w.eventLog w with
  | ok _ w' => exact ⟨w', rfl, hsave.of_ok hrun⟩
  | err e w' => exact (hsave.of_err hrun).elim
  | diverge => exact absurd hrun (ne_diverge w)

lemma endStateTransaction_saved (hok : r.hasError = false)
    (heq : r.eventLog = w.eventLog) (hlogs : LogsFit w) (hmarked : w.Marked) :
    ∃ w', endStateTransaction m r w = .ok r w' ∧ ∀ y, w'.getContractCode y = w.getContractCode y := by
  unfold endStateTransaction
  rw [if_neg (by rw [hok]; decide), heq]
  by_cases hlen : w.eventLog.length > 0
  · obtain ⟨w1, hsave, hmarked1, hcode1⟩ := saveLog_of_fit hlogs hmarked m.txHash
    obtain ⟨w2, hcommit, hcode2⟩ := hmarked1.commit
    rw [if_pos hlen, bind_of_ok hsave]
    dsimp only
    rw [bind_of_ok hcommit]
    exact ⟨w2, rfl, fun y => (hcode2 y).trans (hcode1 y)⟩
  · obtain ⟨w2, hcommit, hcode2⟩ := hmarked.commit
    rw [if_neg hlen]
    dsimp only
    rw [bind_of_ok hcommit]
    exact ⟨w2, rfl, hcode2⟩

lemma endStateTransaction_unsent (hok : r.hasError = false)
    (heq : r.eventLog = w.eventLog) (hlogs : ¬ LogsFit w) :
    ∃ e w', endStateTransaction m r w = .err e w' := by
  obtain ⟨l, hl, hblock⟩ : ∃ l ∈ w.eventLog, ¬ IsLong l.block := by
    simpa [LogsFit] using hlogs
  have hany : (w.eventLog.any fun l => decide ¬ IsLong l.block) = true :=
    List.any_eq_true.mpr ⟨l, hl, decide_eq_true hblock⟩
  have hsave : saveLog m.txHash w.eventLog w = .err .arithmetic w := by
    unfold saveLog
    rw [if_pos hany]
    rfl
  unfold endStateTransaction
  rw [if_neg (by rw [hok]; decide), heq, if_pos (List.length_pos_of_mem hl)]
  rw [bind_of_err hsave]
  exact ⟨_, _, rfl⟩

end Close

/-! ## The code of the contract -/

section Store

variable {m : Machine} {x : Address} {rc : FnResult} {gas price : Int} {w : World} {output : Bytes}

lemma storeCode_of_error (herr : rc.hasError = true) : storeCode m x rc gas w = .ok (rc, gas) w := by
  unfold storeCode
  rw [if_pos herr]
  rfl

lemma storeCode_without_output (hok : rc.hasError = false) (hnone : rc.output = none) :
    storeCode m x rc gas w = .err .nullPointer w := by
  unfold storeCode
  rw [if_neg (by rw [hok]; decide), hnone]
  rfl

lemma storeCode_unstored (hok : rc.hasError = false) (hsome : rc.output = some output)
    (hprice : m.cfg.lookForGasPrice .createData = .ok price)
    (hbad : m.cfg.maxCodeSize < output.length ∨ output.head? = some 0xEF ∨ gas < price) :
    ∃ rc', storeCode m x rc gas w = .ok (rc', gas) w ∧ rc'.hasError = true ∧
      (rc'.status = .codestoreOutOfGas ↔ ¬ m.cfg.maxCodeSize < output.length ∧ output.head? ≠ some 0xEF) := by
  unfold storeCode
  rw [if_neg (by rw [hok]; decide), hsome]
  dsimp only
  by_cases hlarge : m.cfg.maxCodeSize < output.length
  · rw [if_pos hlarge]
    exact ⟨_, rfl, rfl, by simp [hlarge]⟩
  rw [if_neg hlarge]
  by_cases hreserved : output.head? = some 0xEF
  · rw [if_pos hreserved]
    exact ⟨_, rfl, rfl, by simp [hreserved]⟩
  · have hunpaid : gas < price := (hbad.resolve_left hlarge).resolve_left hreserved
    rw [if_neg hreserved, liftM_bind hprice, if_pos hunpaid]
    exact ⟨_, rfl, rfl, by simp [hlarge, hreserved]⟩

lemma storeCode_stored (hok : rc.hasError = false) (hsome : rc.output = some output)
    (hprice : m.cfg.lookForGasPrice .createData = .ok price)
    (hshort : ¬ m.cfg.maxCodeSize < output.length) (hplain : output.head? ≠ some 0xEF)
    (hpaid : price ≤ gas) (hmarked : w.Marked) (haccount : w.getAccount x ≠ none) :
    ∃ gas' w', storeCode m x rc gas w = .ok (rc, gas') w' ∧ w'.Marked ∧
      w'.eventLog = w.eventLog ∧ w'.getContractCode x = output := by
  obtain ⟨account, haccount⟩ := Option.ne_none_iff_exists'.mp haccount
  have hput : putContractCode m.crypto x output w = .ok () (w.putAccount x
      { account with code := output, codeHash := Storage.digest m.crypto.keccak256 output }) := by
    unfold putContractCode rpc Storage.putContractCode
    rw [Storage.updateAccount_ok haccount]
    rfl
  unfold storeCode
  rw [if_neg (by rw [hok]; decide), hsome]
  dsimp only
  rw [if_neg hshort, if_neg hplain, liftM_bind hprice, if_neg (not_lt.mpr hpaid)]
  rw [bind_of_ok hput]
  refine ⟨_, _, rfl, ?_, rfl, ?_⟩
  · obtain ⟨n, rest, hmarks, hle⟩ := hmarked
    exact ⟨n, rest, hmarks, hle.trans (Nat.le_succ _)⟩
  · rw [getContractCode_putAccount, if_pos rfl]

end Store

/-! ## Which creates are told right -/

section Result

variable {m : Machine} {run : Runner} {calls : Calls} {kind : CreateKind} {opcode : UInt8} {f f2 : Frame}
  {a : CreateArgs} {result : VmResult} {w : World} {x : Address}

lemma told_iff_of_failed (h : CreateStarts m kind f a f2) (hlen : f.stack.length ≤ 1024)
    (hop : m.cfg.locateOpCode opcode = some (.create kind))
    (hcreate : calls.create a f2.world = .ok result w) (herr : result.hasError = true)
    (hcontract : result.contract = some x) :
    Told m run calls opcode f a f2 ↔ (result.status = .codestoreOutOfGas → x = 0) := by
  have hword : createdWord result = 0 ↔ (result.status = .codestoreOutOfGas → x = 0) := by
    unfold createdWord
    by_cases hstatus : result.status = .codestoreOutOfGas
    · rw [if_neg (fun hboth => hboth.2 hstatus), hcontract]
      exact Address.toWord_eq_zero.trans (by simp [hstatus])
    · simp [herr, hstatus]
  rw [told_iff_of_ok h hlen hop hcreate, ← hword, herr]
  simp

lemma told_iff_of_succeeded (h : CreateStarts m kind f a f2) (hlen : f.stack.length ≤ 1024)
    (hop : m.cfg.locateOpCode opcode = some (.create kind))
    (hcreate : calls.create a f2.world = .ok result w) (hok : result.hasError = false)
    (hcontract : result.contract = some x)
    (hcode : InitReturns m run a f2.world (w.getContractCode x)) :
    Told m run calls opcode f a f2 ↔ x ≠ 0 := by
  have hword : createdWord result = Address.toWord x := by
    unfold createdWord
    simp [hok, hcontract]
  rw [told_iff_of_ok h hlen hop hcreate, hword, ne_eq, Address.toWord_eq_zero]
  constructor
  · intro hboth
    exact hboth.1.mpr hok
  · intro hx
    exact ⟨⟨fun _ => hok, fun _ => hx⟩, fun _ => ⟨x, _, rfl, hcode, rfl⟩⟩

end Result

section Fits

variable {m : Machine} {price gas : Int} {x : Address} {rc : FnResult} {w : World} {output : Bytes}

lemma initFits_of_unstored (hok : rc.hasError = false) (hsome : rc.output = some output)
    (hbad : m.cfg.maxCodeSize < output.length ∨ output.head? = some 0xEF ∨ gas < price) :
    InitFits m price x rc gas w ↔
      (¬ m.cfg.maxCodeSize < output.length ∧ output.head? ≠ some 0xEF → x = 0) := by
  unfold InitFits
  rw [if_neg (by rw [hok]; decide), hsome]
  simp only [Option.some.injEq, exists_eq_left']
  constructor
  · rintro (hlarge | hreserved | ⟨-, hx⟩ | ⟨hpaid, -⟩) ⟨hshort, hplain⟩
    · exact absurd hlarge hshort
    · exact absurd hreserved hplain
    · exact hx
    · exact absurd hpaid (not_le.mpr ((hbad.resolve_left hshort).resolve_left hplain))
  · intro hx
    by_cases hlarge : m.cfg.maxCodeSize < output.length
    · exact .inl hlarge
    by_cases hreserved : output.head? = some 0xEF
    · exact .inr (.inl hreserved)
    have hunpaid : gas < price := (hbad.resolve_left hlarge).resolve_left hreserved
    exact .inr (.inr (.inl ⟨hunpaid, hx ⟨hlarge, hreserved⟩⟩))

lemma initFits_of_stored (hok : rc.hasError = false) (hsome : rc.output = some output)
    (hshort : ¬ m.cfg.maxCodeSize < output.length) (hplain : output.head? ≠ some 0xEF)
    (hpaid : price ≤ gas) : InitFits m price x rc gas w ↔ x ≠ 0 ∧ LogsFit w := by
  unfold InitFits
  rw [if_neg (by rw [hok]; decide), hsome]
  simp only [Option.some.injEq, exists_eq_left']
  constructor
  · rintro (hlarge | hreserved | ⟨hunpaid, -⟩ | ⟨-, hfits⟩)
    · exact absurd hlarge hshort
    · exact absurd hreserved hplain
    · exact absurd hunpaid (not_lt.mpr hpaid)
    · exact hfits
  · intro hfits
    exact .inr (.inr (.inr ⟨hpaid, hfits⟩))

end Fits

section Settle

variable {m : Machine} {n : Nat} {kind : CreateKind} {opcode : UInt8} {price gas : Int} {f f2 : Frame}
  {a : CreateArgs} {c left : Contract} {rc rc' : FnResult} {w2 w3 : World}

lemma told_iff_of_unstored (hop : m.cfg.locateOpCode opcode = some (.create kind))
    (h : CreateStarts m kind f a f2) (hlen : f.stack.length ≤ 1024)
    (hinit : initRun m (run (turn m (vm m n)) n) a f2.world = .ok (some (c, rc, left)) w2)
    (hstore : storeCode m c.self rc left.gas w2 = .ok (rc', gas) w2) (hmarked : w2.Marked)
    (herr : rc'.hasError = true) :
    Told m (run (turn m (vm m n)) n) (vm m (n + 1)) opcode f a f2 ↔
      (rc'.status = .codestoreOutOfGas → c.self = 0) := by
  obtain ⟨r, w', hend, hstatus, hcontract⟩ := @endStateTransaction_failed
    ⟨rc'.status, gas, if rc'.hasError then [] else w2.eventLog, rc'.output, some c.self⟩ m w2 herr hmarked
  have hcreate : (vm m (n + 1)).create a f2.world = .ok r w' := by
    refine (create_of_initRun hinit).trans ?_
    rw [bind_of_ok (createExit_eq hstore), hend]
  have herr' : r.hasError = true := by
    unfold VmResult.hasError
    rw [hstatus]
    exact herr
  rw [told_iff_of_failed h hlen hop hcreate herr' hcontract, hstatus]

lemma told_iff_of_stored (hop : m.cfg.locateOpCode opcode = some (.create kind))
    (h : CreateStarts m kind f a f2) (hlen : f.stack.length ≤ 1024)
    (hinit : initRun m (run (turn m (vm m n)) n) a f2.world = .ok (some (c, rc, left)) w2)
    (hstore : storeCode m c.self rc left.gas w2 = .ok (rc, gas) w3) (hmarked : w3.Marked)
    (hok : rc.hasError = false) (hcode : rc.output = some (w3.getContractCode c.self)) :
    Told m (run (turn m (vm m n)) n) (vm m (n + 1)) opcode f a f2 ↔ c.self ≠ 0 ∧ LogsFit w3 := by
  have hexit := createExit_eq hstore
  rw [hok, if_neg Bool.false_ne_true] at hexit
  have hcreate : (vm m (n + 1)).create a f2.world
      = endStateTransaction m ⟨rc.status, gas, w3.eventLog, rc.output, some c.self⟩ w3 := by
    refine (create_of_initRun hinit).trans ?_
    rw [bind_of_ok hexit]
  by_cases hlogs : LogsFit w3
  · obtain ⟨w', hend, hcode'⟩ := @endStateTransaction_saved
      ⟨rc.status, gas, w3.eventLog, rc.output, some c.self⟩ m w3 hok rfl hlogs hmarked
    have hreturns : InitReturns m (run (turn m (vm m n)) n) a f2.world (w'.getContractCode c.self) :=
      ⟨c, rc, left, w2, hinit, by rw [hcode', hcode]⟩
    rw [told_iff_of_succeeded h hlen hop (hcreate.trans hend) hok rfl hreturns]
    exact (and_iff_left hlogs).symm
  · obtain ⟨e, w', hend⟩ := @endStateTransaction_unsent
      ⟨rc.status, gas, w3.eventLog, rc.output, some c.self⟩ m w3 hok rfl hlogs
    refine iff_of_false (not_told h hop fun r w'' hreturned => ?_) (fun hboth => hlogs hboth.2)
    rw [hcreate, hend] at hreturned
    cases hreturned

lemma told_iff_initFits (hprice : m.cfg.lookForGasPrice .createData = .ok price)
    (hop : m.cfg.locateOpCode opcode = some (.create kind)) (h : CreateStarts m kind f a f2)
    (hlen : f.stack.length ≤ 1024)
    (hinit : initRun m (run (turn m (vm m n)) n) a f2.world = .ok (some (c, rc, left)) w2) :
    Told m (run (turn m (vm m n)) n) (vm m (n + 1)) opcode f a f2 ↔
      InitFits m price c.self rc left.gas w2 := by
  obtain ⟨w1, hentry, hrun⟩ := initRun_eq_some hinit
  obtain ⟨hmarked1, haccount1⟩ := ((wp_createEntry m a f2.world).of_ok hentry).2.2 c rfl
  obtain ⟨hmarked, haccount⟩ := (wp_initCode m n n c w1).of_ok hrun
  have hmarked := hmarked hmarked1
  cases hok : rc.hasError with
  | true =>
    -- the code check is skipped, and the status of the init code is handed on as it is
    rw [told_iff_of_unstored hop h hlen hinit (storeCode_of_error hok) hmarked hok]
    unfold InitFits
    rw [if_pos hok]
  | false =>
    cases hout : rc.output with
    | none =>
      -- `runResult.output().length` on a missing output
      have hthrows : createExit m c.self rc left w2 = .err .nullPointer w2 :=
        bind_of_err (storeCode_without_output hok hout)
      refine iff_of_false (not_told h hop fun r w' hreturned => ?_) ?_
      · rw [show (vm m (n + 1)).create a f2.world = _ from create_of_initRun hinit,
          bind_of_err hthrows] at hreturned
        cases hreturned
      · unfold InitFits
        rw [hok, hout]
        simp
    | some output =>
      by_cases hbad : m.cfg.maxCodeSize < output.length ∨ output.head? = some 0xEF ∨
          left.gas < price
      · obtain ⟨rc', hstore, herr', hstatus⟩ := storeCode_unstored hok hout hprice hbad
        rw [told_iff_of_unstored hop h hlen hinit hstore hmarked herr', hstatus,
          initFits_of_unstored hok hout hbad]
      obtain ⟨hshort, hrest⟩ := not_or.mp hbad
      obtain ⟨hplain, hpaid⟩ := not_or.mp hrest
      have hpaid : price ≤ left.gas := not_lt.mp hpaid
      obtain ⟨gas, w3, hstore, hmarked3, heq, hcode3⟩ := storeCode_stored hok hout hprice hshort
        hplain hpaid hmarked (haccount haccount1)
      rw [told_iff_of_stored hop h hlen hinit hstore hmarked3 hok (by rw [hout, hcode3]),
        initFits_of_stored hok hout hshort hplain hpaid]
      unfold LogsFit
      rw [heq]

end Settle

/-- **The result of a create.** `CREATE` and `CREATE2` push an address exactly when the create
frame succeeds, and go on with zero when it fails, if and only if the create is refused, or its init
code comes to one of the ends that are told right. -/
theorem create_told_iff {m : Machine} {n : Nat} {kind : CreateKind} {opcode : UInt8} {price : Int}
    {f f2 : Frame} {a : CreateArgs} (hprice : m.cfg.lookForGasPrice .createData = .ok price)
    (hop : m.cfg.locateOpCode opcode = some (.create kind)) (hstarts : CreateStarts m kind f a f2)
    (hlen : f.stack.length ≤ 1024) :
    Told m (run (turn m (vm m n)) n) (vm m (n + 1)) opcode f a f2 ↔
      CreateEndsWell m (run (turn m (vm m n)) n) price a f2.world := by
  unfold CreateEndsWell
  by_cases hends : ∃ x w2, initRun m (run (turn m (vm m n)) n) a f2.world = .ok x w2
  · obtain ⟨x, w2, hinit⟩ := hends
    rw [hinit]
    cases x with
    | none =>
      obtain ⟨r, hrefused, herr, hstatus⟩ := create_refused hinit
      have hcreate : (vm m (n + 1)).create a f2.world = .ok r w2 := hrefused
      have hword : createdWord r = 0 := if_pos ⟨herr, hstatus⟩
      refine iff_of_true ?_ (.inl ⟨w2, rfl⟩)
      rw [told_iff_of_ok hstarts hlen hop hcreate, hword, herr]
      simp
    | some triple =>
      obtain ⟨c, rc, left⟩ := triple
      rw [told_iff_initFits hprice hop hstarts hlen hinit]
      constructor
      · intro hfits
        exact .inr ⟨c, rc, left, w2, rfl, hfits⟩
      · rintro (⟨w', hnone⟩ | ⟨c', rc', left', w', hsome, hfits⟩)
        · cases hnone
        · cases hsome
          exact hfits
  · -- an exception inside of the create frame is not caught, and ends the caller
    refine iff_of_false (not_told hstarts hop fun r w' hcreate => ?_) ?_
    · exact hends (initRun_of_create hcreate)
    · rintro (⟨w', hnone⟩ | ⟨c, rc, left, w', hsome, -⟩)
      · exact hends ⟨_, _, hnone⟩
      · exact hends ⟨_, _, hsome⟩

instance {m : Machine} {kind : CreateKind} {f : Frame} {P : CreateArgs → Frame → Prop}
    [∀ a f2, Decidable (P a f2)] : Decidable (∃ a f2, CreateStarts m kind f a f2 ∧ P a f2) :=
  decidable_of_iff (∃ f1, charge m (.create kind) f = .ok none f1 ∧
      ∃ prepared f2, prepareCreate kind f1 = .ok prepared f2 ∧ ∃ c, prepared.toOption = some c ∧
        P ⟨kind, f2.contract.toRef, c.code, c.gas, c.value, c.salt⟩ f2) <| by
    constructor
    · rintro ⟨f1, hcharge, st | c, f2, hprepare, c', hc, hP⟩ <;> cases hc
      exact ⟨_, f2, ⟨f1, c, hcharge, hprepare, rfl⟩, hP⟩
    · rintro ⟨_, f2, ⟨f1, c, hcharge, hprepare, rfl⟩, hP⟩
      exact ⟨f1, hcharge, .ok c, f2, hprepare, c, rfl, hP⟩

instance (calls : Calls) (a : CreateArgs) (w : World) : Decidable (CreateSucceeds calls a w) :=
  inferInstanceAs (Decidable (∃ result w', calls.create a w = .ok result w' ∧ _ = false))

/-- `PUSH5 0x60006000f3; PUSH1 0; MSTORE; PUSH1 5; PUSH1 27; PUSH1 0; CREATE`: the init code `PUSH1
0; PUSH1 0; RETURN` returns the empty code. -/
def creatorCode : Bytes := [0x64, 0x60, 0, 0x60, 0, 0xF3, 0x60, 0, 0x52, 0x60, 5, 0x60, 27, 0x60, 0, 0xF0]

set_option synthInstance.maxSize 1000 in
theorem create_told :
    ∃ f a f2, Executes .sample (fun _ => True) f ∧ CreateStarts .sample .create f a f2 ∧
      Told .sample (run (turn .sample (vm .sample 10)) 10) (vm .sample 11) 0xF0 f a f2 := by
  obtain ⟨f, hf, hlen, a, f2, hstarts, r, w, hrun, hlogs, ⟨c, rc, left⟩, rfl, hok, hout, hpaid, hself⟩ :=
    @exists_executes_of (fun f => f.stack.length ≤ 1024 ∧
      ∃ a f2, CreateStarts .sample .create f a f2 ∧
      ∃ r w, initRun .sample (run (turn .sample (vm .sample 10)) 10) a f2.world = .ok r w ∧
        w.eventLog = [] ∧ ∃ t : Contract × FnResult × Contract, r = some t ∧
          t.2.1.hasError = false ∧ t.2.1.output = some [] ∧ 200 ≤ t.2.2.gas ∧ t.1.self ≠ 0)
      creatorCode 100000 1 6 (by decide) (by decide +kernel)
  have hfits : LogsFit w := by
    unfold LogsFit
    rw [hlogs]
    exact fun l hl => absurd hl List.not_mem_nil
  exact ⟨f, a, f2, hf, hstarts, (create_told_iff rfl rfl hstarts hlen).mpr (.inr ⟨c, rc, left, w, hrun,
    (initFits_of_stored hok hout (by decide) (by decide) hpaid).mpr ⟨hself, hfits⟩⟩)⟩

/-- `PUSH1 1; PUSH1 0; PUSH1 0; CREATE` runs the init code `STOP`, and the caller throws. And with
too little gas for the code the create fails, but its address is pushed. -/
theorem create_told_wrong :
    (∃ f a f2, Executes .sample (fun _ => True) f ∧ f.currentOp .sample = some (.create .create) ∧
      CreateStarts .sample .create f a f2 ∧ a.code = [0] ∧
      ∃ e f', runStep .sample (vm .sample 11) 0xF0 f = .err e f') ∧
    ∃ f a f2, Executes .sample (fun _ => True) f ∧ f.currentOp .sample = some (.create .create) ∧
      CreateStarts .sample .create f a f2 ∧ ¬ CreateSucceeds (vm .sample 11) a f2.world ∧
      ∃ f', runStep .sample (vm .sample 11) 0xF0 f = .ok ⟨.success, none⟩ f' ∧ f'.stack = [128000] := by
  constructor
  · obtain ⟨f, hf, hop, a, f2, h⟩ := @exists_executes_of
      (fun f => f.currentOp .sample = some (.create .create) ∧ ∃ a f2,
        CreateStarts .sample .create f a f2 ∧ a.code = [0] ∧
          ∃ e f', runStep .sample (vm .sample 11) 0xF0 f = .err e f')
      [0x60, 1, 0x60, 0, 0x60, 0, 0xF0] 100000 1 3 (by decide) (by decide +kernel)
    exact ⟨f, a, f2, hf, hop, h⟩
  · obtain ⟨f, hf, hop, a, f2, h⟩ := @exists_executes_of
      (fun f => f.currentOp .sample = some (.create .create) ∧ ∃ a f2,
        CreateStarts .sample .create f a f2 ∧ ¬ CreateSucceeds (vm .sample 11) a f2.world ∧
          ∃ f', runStep .sample (vm .sample 11) 0xF0 f = .ok ⟨.success, none⟩ f' ∧ f'.stack = [128000])
      creatorCode 32121 1 6 (by decide) (by decide +kernel)
    exact ⟨f, a, f2, hf, hop, h⟩

end GrapeDag
