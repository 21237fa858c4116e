/-
THE CONTRACT STAGE AND THE LEDGER.

While a pin is formed, the balances of the sites' wallets are copied to the state store,
contract transactions change accounts there, and the balances of all accounts in the diffs are
copied back. Only the wallets of the SITES are copied to the store: any other wallet that a
contract touches is copied back from whatever the store had for it.

Main result: `in_step_iff`.
-/
import GrapeDag.Dag.Contracts

namespace GrapeDag

open Imperative Folding Storage Prog WalletCache Outcome

/-! ## What the VM asks for, within a capture -/

namespace Storage

/-- The stores differ in their logs only. -/
def LogsApart (s s' : Storage) : Prop :=
  ∃ logs triggered, s' = { s with logs := logs, triggered := triggered }

instance : IsPreorder Storage LogsApart where
  refl s := ⟨s.logs, s.triggered, rfl⟩
  trans := by
    rintro s _ _ ⟨logs, triggered, rfl⟩ ⟨logs', triggered', rfl⟩
    exact ⟨logs', triggered', rfl⟩

lemma logsApart_putLogs (txHash : Bytes) (logs : List Log) :
    Prog.Keeps LogsApart (putLogs txHash logs) := by
  have hone : ∀ l, Prog.Keeps LogsApart (putLog txHash l) := by
    intro l
    refine Prog.Keeps.bind (Prog.Keeps.gets _) fun account => ?_
    cases account with
    | none => exact Prog.Keeps.raise _
    | some _ => exact Prog.Keeps.modify fun s => ⟨_, s.triggered, rfl⟩
  have heach : ∀ logs, Prog.Keeps LogsApart (putEach txHash logs) := by
    intro logs
    induction logs with
    | nil => exact Prog.Keeps.pure _
    | cons l ls ih => exact Prog.Keeps.bind (hone l) fun _ => ih
  cases logs with
  | nil => exact Prog.Keeps.raise _
  | cons l ls =>
    exact Prog.Keeps.bind (heach _) fun _ => Prog.Keeps.modify fun s => ⟨s.logs, _, rfl⟩

def balanceAt (s : Storage) (a : Address) : Int := ((s.getAccount a).map (·.balance)).getD 0

end Storage

lemma StoreOp.nested_add (ops : List StoreOp) (more : Nat) :
    ∀ depth, nested depth ops = true → nested (depth + more) ops = true := by
  induction ops with
  | nil =>
    intro depth _
    rfl
  | cons op ops ih =>
    intro depth h
    cases op with
    | putAccount address account => exact ih depth h
    | putValue address key value => exact ih depth h
    | checkpoint =>
      have hdepth : depth + more + 1 = depth + 1 + more := by omega
      show nested (depth + more + 1) ops = true
      rw [hdepth]
      exact ih (depth + 1) h
    | commit =>
      cases depth with
      | zero => simp [nested] at h
      | succ depth =>
        have hdepth : depth + 1 + more = depth + more + 1 := by omega
        rw [hdepth]
        exact ih depth h
    | revert =>
      cases depth with
      | zero => simp [nested] at h
      | succ depth =>
        have hdepth : depth + 1 + more = depth + more + 1 := by omega
        rw [hdepth]
        exact ih depth h

/-- Collecting diffs since `s0`. -/
def Capturing (s0 s : Storage) : Prop := ∃ depth, Captured s0 depth s ∧ AccountsComplete s0 s

lemma captured_applyAll {s0 : Storage} (txHash : Bytes) (ops : List ServerOp) :
    ∀ {depth : Nat} {s : Storage}, Captured s0 depth s → AccountsComplete s0 s →
      StoreOp.nested depth (ops.filterMap ServerOp.storeOp?) = true →
      Capturing s0 (ops.foldl (ServerOp.apply txHash) s) := by
  induction ops with
  | nil =>
    intro depth s h haccounts _
    exact ⟨depth, h, haccounts⟩
  | cons op ops ih =>
    intro depth s h haccounts hnested
    cases op with
    | store op =>
      have hcons : StoreOp.nested depth (op :: ops.filterMap ServerOp.storeOp?) = true := hnested
      obtain ⟨s', depth', hrun, h', hrest, hkept, -⟩ := captured_run h hcons
      rw [List.foldl_cons, ServerOp.apply_store (congrArg Outcome.state? hrun)]
      exact ih h' (hkept haccounts) hrest
    | saveLogs logs =>
      -- storing logs, completely or not, leaves the capture alone
      have hlogs : Storage.LogsApart s (ServerOp.apply txHash s (.saveLogs logs)) := by
        have hwp := (logsApart_putLogs txHash logs).wp s
        rw [ServerOp.apply]
        cases hput : putLogs txHash logs s with
        | ok a s' => exact hwp.of_ok hput
        | err e s' => exact hwp.of_err hput
        | diverge => exact refl_of Storage.LogsApart s
      obtain ⟨stored, triggered, heq⟩ := hlogs
      rw [List.foldl_cons, heq]
      exact ih ⟨h.collect, h.present, h.created, h.marks⟩ haccounts hnested

/-! ## The transactions of a stage -/

def ContractVm.storeAfterAll (vm : ContractVm) (header : PinTxHeader) (txs : List SmcTx)
    (s : Storage) : Storage :=
  txs.foldl (fun s tx => vm.storeAfter tx header s) s

lemma capturing_storeAfterAll {s0 s : Storage} (vm : ContractVm) (header : PinTxHeader)
    (txs : List SmcTx) (h : Capturing s0 s) : Capturing s0 (vm.storeAfterAll header txs s) := by
  refine txs.foldlRecOn (motive := Capturing s0) _ h fun s h tx _ => ?_
  obtain ⟨depth, hcaptured, haccounts⟩ := h
  have hnested := StoreOp.nested_add _ depth 0 (vm.nested tx header s.observed)
  rw [Nat.zero_add] at hnested
  exact captured_applyAll tx.execHash _ hcaptured haccounts hnested

lemma attempt_execute {vm : ContractVm} {tx : SmcTx} {header : PinTxHeader} {s s' : Storage}
    {r : Option ExecutionResult} (h : attempt (executeSMCTx vm tx header) s = .ok r s') :
    s' = vm.storeAfter tx header s := by
  unfold attempt executeSMCTx at h
  cases hresponse : vm.response tx header s.observed with
  | none =>
    rw [hresponse] at h
    exact ((ok.inj h).2).symm
  | some response =>
    rw [hresponse] at h
    dsimp only at h
    cases hread : readResponse tx.hash response with
    | ok result =>
      rw [hread] at h
      exact ((ok.inj h).2).symm
    | error e =>
      rw [hread] at h
      cases e with
      | error => exact ((ok.inj h).2).symm
      | panic => cases h

/-- The leader's loop leaves the store as the VM does, whether it keeps a transaction or drops
it. -/
theorem executeAll_store (env : NodeEnv) (header : PinTxHeader) (txs : List SmcTx) :
    ∀ {s s' : Storage} {done : List ExecutedSmcTx}, executeAll env header txs s = .ok done s' →
      s' = env.vm.storeAfterAll header txs s := by
  induction txs with
  | nil =>
    intro s s' done h
    exact ((ok.inj h).2).symm
  | cons tx txs ih =>
    intro s s' done h
    obtain ⟨r, s1, hone, hrest⟩ := bind_eq_ok.mp h
    show s' = env.vm.storeAfterAll header txs (env.vm.storeAfter tx header s)
    rw [← attempt_execute hone]
    cases r with
    | none => exact ih hrest
    | some result =>
      obtain ⟨receipt, s2, hreceipt, hrest⟩ := bind_eq_ok.mp hrest
      obtain ⟨-, rfl⟩ := ok.inj hreceipt
      obtain ⟨rest, s3, hloop, hend⟩ := bind_eq_ok.mp hrest
      obtain ⟨-, rfl⟩ := ok.inj hend
      exact ih hloop

/-! ## The stage -/

namespace Storage

lemma balanceAt_nonceIncr (s : Storage) (x a : Address) : (s.nonceIncr x).balanceAt a = s.balanceAt a := by
  unfold nonceIncr balanceAt
  rw [getAccount_putAccount]
  by_cases ha : a = x
  · subst ha
    rw [if_pos rfl]
    cases s.getAccount a <;> rfl
  · rw [if_neg ha]

lemma balanceAt_foldl_nonceIncr (ps : List Payment) (a : Address) (s : Storage) :
    (ps.foldl (fun s p => s.nonceIncr p.sender) s).balanceAt a = s.balanceAt a :=
  ps.foldlRecOn (motive := fun t : Storage => t.balanceAt a = s.balanceAt a) _ rfl fun t h p _ =>
    (balanceAt_nonceIncr t p.sender a).trans h

lemma capturing_foldl_nonceIncr {s0 s : Storage} (ps : List Payment) (h : Capturing s0 s) :
    Capturing s0 (ps.foldl (fun s p => s.nonceIncr p.sender) s) := by
  refine ps.foldlRecOn (motive := Capturing s0) _ h fun s h p _ => ?_
  obtain ⟨depth, hcaptured, haccounts⟩ := h
  refine ⟨depth, captured_putAccount hcaptured _ _, ?_⟩
  exact accounts_putAccount hcaptured.collect haccounts _ _

end Storage

namespace Ledger

/-- The store when the contract transactions begin: the balances of the sites are copied, and the
nonces of their Ethereum senders raised. -/
def stageStart (L : Ledger) (sites : List Payment) : Storage := noncesRaised (L.sitesPin sites) L.store

def stageEnd (L : Ledger) (env : NodeEnv) (ts : Int) (sites : List Payment) (txs : List SmcTx) :
    Storage :=
  env.vm.storeAfterAll (nextHeader L.pins ts) txs (L.stageStart sites)

variable {s : Storage} {sites : List Payment} {L L' : Ledger}

lemma capturing_noncesRaised (h : s.Idle) (pin : TxPin) :
    Capturing (s.syncBalances pin.balance) (noncesRaised pin s) := by
  obtain ⟨hcaptured, hcomplete⟩ := captured_start (idle_syncBalances h pin.balance)
    (capture_synced h pin.balance)
  exact capturing_foldl_nonceIncr _ ⟨0, hcaptured, hcomplete.accounts⟩

lemma balanceAt_noncesRaised (pin : TxPin) (s : Storage) (w : Address) :
    (noncesRaised pin s).balanceAt w = (s.syncBalances pin.balance).balanceAt w :=
  balanceAt_foldl_nonceIncr _ w _

lemma captureStage_ok {pin : TxPin} {smc : Go Storage Unit} {s' : Storage} {diffs : List Diff}
    (hidle : s.Idle) (h : captureStage pin smc s = .ok diffs s') :
    ∃ s2, smc (noncesRaised pin s) = .ok () s2 ∧ diffs = s2.toDiffSlice ∧
      s' = s2.resetCaptureStateStoreDiffs := by
  unfold captureStage at h
  rw [modify_bind, bind_of_ok (capture_synced hidle _)] at h
  cases hbody : capturing pin smc { s.syncBalances pin.balance with collectDiffs := true } with
  | ok got s2 =>
    rw [ensuring_of_ok hbody] at h
    obtain ⟨rfl, rfl⟩ := ok.inj h
    unfold capturing at hbody
    rw [modify_bind] at hbody
    obtain ⟨_, s3, hsmc, hget⟩ := bind_eq_ok.mp hbody
    unfold getStateStoreDiffs at hget
    split at hget
    · obtain ⟨rfl, rfl⟩ := ok.inj hget
      exact ⟨s3, hsmc, rfl, rfl⟩
    · cases hget
  | err e s2 | diverge =>
    unfold ensuring at h
    rw [hbody] at h
    cases h

/-- What forming a pin with contract transactions leaves. -/
structure Staged (L : Ledger) (sites : List Payment) (last : Storage) (L' : Ledger) : Prop where
  store : L'.store = last.resetCaptureStateStoreDiffs
  cache : L'.walletCache
    = last.toDiffSlice.foldl forgetDiff ((inOrder sites).foldl forgetSite L.walletCache)
  pins : L'.pins = L.pins ++ [{ L.sitesPin sites with
    diffs := last.toDiffSlice
    balance := last.toDiffSlice.foldl recordDiff (L.sitesPin sites).balance }]

lemma addContracts_ok {env : NodeEnv} {ts : Int} {txs : List SmcTx} (hidle : L.store.Idle)
    (h : addContracts env ts sites txs L = .ok () L') :
    Staged L sites (L.stageEnd env ts sites txs) L' := by
  unfold addContracts at h
  unfold add at h
  simp only [gets_bind, modify_bind] at h
  obtain ⟨pin, L1, hstage, hend⟩ := bind_eq_ok.mp h
  obtain ⟨-, rfl⟩ := ok.inj hend
  obtain ⟨diffs, L2, hzoom, hrest⟩ := bind_eq_ok.mp hstage
  obtain ⟨rfl, rfl⟩ := ok.inj hrest
  unfold zoom at hzoom
  split at hzoom
  · rename_i got s' hcapture
    obtain ⟨rfl, rfl⟩ := ok.inj hzoom
    obtain ⟨s2, hsmc, rfl, rfl⟩ := captureStage_ok hidle hcapture
    obtain ⟨done, s3, hloop, hreturn⟩ := bind_eq_ok.mp hsmc
    obtain ⟨-, rfl⟩ := ok.inj hreturn
    rw [executeAll_store env _ txs hloop]
    exact ⟨rfl, rfl, rfl⟩
  · cases hzoom
  · cases hzoom

/-! ## The balances after the pin -/

lemma effective_stage {last : Storage} (h : Staged L sites last L') (w : Address) :
    L'.effective w = match last.accountDiffs.lookup w with
      | some acc => (acc.balance.natAbs : Int)
      | none => if Touched sites w then ((L.effective w).natAbs : Int) else L.effective w := by
  show (get L'.walletCache w).getD ((getLatestBalance L'.pins w).getD 0) = _
  rw [h.cache, h.pins, getLatestBalance_concat, get_forgetDiffs, get_forgetSites, lookup_recordDiffs,
    balance_sitesPin, lastWrite_account (List.Perm.refl _)]
  cases last.accountDiffs.lookup w with
  | some acc => rfl
  | none =>
    by_cases hw : Touched sites w
    · simp [hw]
    · simp only [hw, if_false, Option.isSome_none, Bool.false_eq_true, Option.map_none]
      rfl

/-- The ledger is in step: every effective balance has changed by what the contract transactions
changed the account in the store by, from `start` to the store now. -/
def InStep (L : Ledger) (start : Storage) (L' : Ledger) : Prop :=
  ∀ w, L'.effective w = L.effective w + (L'.store.balanceAt w - start.balanceAt w)

/-- Ledger and store agree on every wallet that the stage writes (`last` is the store after it),
and no wallet of a site is in debt. A balance that a contract makes negative comes back without its
sign, which only a ledger that was wrong by twice as much makes good. -/
def Agreeing (L : Ledger) (sites : List Payment) (start last : Storage) : Prop :=
  ∀ w, if (last.accountDiffs.lookup w).isSome then
      (0 ≤ last.balanceAt w ∧ L.effective w = start.balanceAt w) ∨
        (last.balanceAt w < 0 ∧ L.effective w = start.balanceAt w - 2 * last.balanceAt w)
    else Touched sites w → 0 ≤ L.effective w

/-- **The contract stage keeps the ledger in step if and only if** ledger and store agreed on every
wallet that the stage writes. -/
theorem in_step_iff {env : NodeEnv} {ts : Int} {sites : List Payment} {txs : List SmcTx}
    {L L' : Ledger} (hidle : L.store.Idle) (hrun : addContracts env ts sites txs L = .ok () L') :
    InStep L (L.stageStart sites) L' ↔
      Agreeing L sites (L.stageStart sites) (L.stageEnd env ts sites txs) := by
  have hstaged := addContracts_ok hidle hrun
  obtain ⟨depth, -, haccounts⟩ : Capturing (L.store.syncBalances (L.sitesPin sites).balance)
      (L.stageEnd env ts sites txs) :=
    capturing_storeAfterAll env.vm _ txs (capturing_noncesRaised hidle _)
  have hstart : ∀ w, (L.stageStart sites).balanceAt w
      = (L.store.syncBalances (L.sitesPin sites).balance).balanceAt w :=
    balanceAt_noncesRaised _ L.store
  have hlast : ∀ w, L'.store.balanceAt w = (L.stageEnd env ts sites txs).balanceAt w := by
    intro w
    rw [hstaged.store]
    rfl
  refine forall_congr' fun w => ?_
  have heffective := effective_stage hstaged w
  have hread := haccounts w
  rw [heffective, hlast]
  cases hdiff : (L.stageEnd env ts sites txs).accountDiffs.lookup w with
  | some acc =>
    -- the wallet comes back from the store
    rw [hdiff] at hread
    have hbalance : (L.stageEnd env ts sites txs).balanceAt w = acc.balance := by
      unfold balanceAt
      rw [hread]
      rfl
    simp only [Option.isSome_some, if_true]
    omega
  | none =>
    -- the account is as it was when the capture began
    rw [hdiff] at hread
    have hbalance : (L.stageEnd env ts sites txs).balanceAt w = (L.stageStart sites).balanceAt w := by
      rw [hstart]
      unfold balanceAt
      rw [hread]
      rfl
    rw [hbalance]
    by_cases hw : Touched sites w
    · simp only [hw, if_true, Option.isSome_none, Bool.false_eq_true, if_false, true_implies]
      omega
    · simp [hw]

def tippingNode : NodeEnv := .inOrder ⟨fun _ _ o =>
      let payer := (o.account 500).getD .blank
      let payee := (o.account 501).getD .blank
      [.store (.putAccount 500 { payer with balance := payer.balance - 1 }),
        .store (.putAccount 501 { payee with balance := payee.balance + 1 })],
    fun _ _ _ => some ⟨[], [], 0, some 21000⟩, fun _ _ _ => rfl⟩

def sampleTwoPaid : Ledger := (((genesis 500 [] .new).addToDag firstPayment).2.addToDag secondPayment).2

/-- **An unconfirmed payment is lost**: 501 has received 10, which no pin has confirmed, when a
contract transaction sends it 1; the pin leaves it with 1. -/
theorem touched_wallet_loses_payment : sampleTwoPaid.effective 501 = 10 ∧
    ∃ L', addContracts tippingNode 0 [secondPayment] [⟨[1], [1], []⟩] sampleTwoPaid = .ok () L' ∧
      L'.effective 501 = 1 ∧ ¬ InStep sampleTwoPaid (sampleTwoPaid.stageStart [secondPayment]) L' := by
  refine ⟨by decide +kernel, ?_⟩
  obtain ⟨L', hok, hone, hne⟩ : ∃ L',
      addContracts tippingNode 0 [secondPayment] [⟨[1], [1], []⟩] sampleTwoPaid = .ok () L' ∧
      L'.effective 501 = 1 ∧ L'.effective 501 ≠ sampleTwoPaid.effective 501 +
        (L'.store.balanceAt 501 - (sampleTwoPaid.stageStart [secondPayment]).balanceAt 501) := by
    decide +kernel
  exact ⟨L', hok, hone, fun hstep => hne (hstep 501)⟩

theorem tipped_wallet_in_step :
    ∃ L', addContracts tippingNode 0 [firstPayment, secondPayment] [⟨[1], [1], []⟩] sampleTwoPaid
        = .ok () L' ∧
      InStep sampleTwoPaid (sampleTwoPaid.stageStart [firstPayment, secondPayment]) L' := by
  obtain ⟨_, L', hok⟩ : ∃ x L', addContracts tippingNode 0 [firstPayment, secondPayment]
      [⟨[1], [1], []⟩] sampleTwoPaid = .ok x L' := by decide +kernel
  have hkeys : (sampleTwoPaid.stageEnd tippingNode 0 [firstPayment, secondPayment]
      [⟨[1], [1], []⟩]).accountDiffs.keys = [501, 500] := by
    decide +kernel
  refine ⟨L', hok, (in_step_iff ⟨rfl, rfl, rfl⟩ hok).mpr fun w => ?_⟩
  split
  · rename_i hsome
    have hmem := AList.mem_keys.mp (AList.lookup_isSome.mp hsome)
    rw [hkeys] at hmem
    obtain rfl | rfl : w = 501 ∨ w = 500 := by simpa using hmem
    · left
      decide +kernel
    · left
      decide +kernel
  · rintro ⟨p, hp, htouch⟩
    obtain rfl | rfl : p = firstPayment ∨ p = secondPayment := by simpa using hp
    · rcases htouch with rfl | rfl
      · decide +kernel
      · decide +kernel
    · rcases htouch with rfl | rfl
      · decide +kernel
      · decide +kernel

end Ledger

end GrapeDag
