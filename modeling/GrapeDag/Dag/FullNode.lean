/-
LEADER AND FULL NODE RUN THE CONTRACT STAGE.

The leader takes balances from its live cache, raises the nonces of Ethereum senders and runs
all transactions it has; a full node takes them from its confirmed cache, raises no nonce, and
runs the transactions that the leader did not drop.

Main result: `full_node_agrees`.
-/
import GrapeDag.Dag.ContractStage
import GrapeDag.State.Twins

namespace GrapeDag

open Imperative Folding Storage Prog Ledger Outcome List Peer

/-! ## A deterministic VM on alike stores -/

lemma alike_applyAll (txHash : Bytes) (ops : List ServerOp) :
    ∀ {b b' s s' : Storage} {depth : Nat}, Twin b b' depth s s' →
      StoreOp.nested depth (ops.filterMap ServerOp.storeOp?) = true →
      Alike (ops.foldl (ServerOp.apply txHash) s) (ops.foldl (ServerOp.apply txHash) s') := by
  induction ops with
  | nil =>
    intro b b' s s' depth h _
    exact h.alike
  | cons op ops ih =>
    intro b b' s s' depth h hnested
    cases op with
    | store op =>
      obtain ⟨t, t', depth', hrun, hrun', htwin, hrest⟩ := twin_run h hnested
      rw [foldl_cons, foldl_cons, ServerOp.apply_store (congrArg Outcome.state? hrun),
        ServerOp.apply_store (congrArg Outcome.state? hrun')]
      exact ih htwin hrest
    | saveLogs logs =>
      obtain ⟨stored, stored', triggered, triggered', hstored, hput, hput'⟩ :=
        putLogs_alike txHash logs h.alike
      have htwin : Twin b b' depth { s with logs := stored, triggered := triggered }
          { s' with logs := stored', triggered := triggered' } :=
        ⟨⟨h.alike.account, h.alike.value, h.alike.mapped, hstored⟩, h.history⟩
      rw [foldl_cons, foldl_cons, ServerOp.apply_saveLogs hput, ServerOp.apply_saveLogs hput']
      exact ih htwin hnested

variable {s s' : Storage} {r : ExecutionResult} {env env' : NodeEnv} {sites : List Payment}

lemma alike_storeAfter (vm : ContractVm) (tx : SmcTx) (header : PinTxHeader) (h : Alike s s') :
    Alike (vm.storeAfter tx header s) (vm.storeAfter tx header s') := by
  unfold ContractVm.storeAfter
  rw [h.observed]
  exact alike_applyAll tx.execHash _ (twin_start h) (vm.nested tx header s.observed)

def ContractVm.result (vm : ContractVm) (tx : SmcTx) (header : PinTxHeader) (o : Observed) :
    GoPure ExecutionResult :=
  match vm.response tx header o with
  | none => throw .error
  | some response => readResponse tx.hash response

section

variable {vm : ContractVm} {tx : SmcTx} {header : PinTxHeader}

lemma executeSMCTx_eq : executeSMCTx vm tx header s =
    match vm.result tx header s.observed with
    | .ok r => .ok r (vm.storeAfter tx header s)
    | .error e => .err e (vm.storeAfter tx header s) := by
  unfold executeSMCTx ContractVm.result
  cases vm.response tx header s.observed <;> rfl

lemma executeSMCTx_ok (h : vm.result tx header s.observed = .ok r) :
    executeSMCTx vm tx header s = .ok r (vm.storeAfter tx header s) := by
  rw [executeSMCTx_eq, h]

lemma executeSMCTx_err {e : GoError} (h : vm.result tx header s.observed = .error e) :
    executeSMCTx vm tx header s = .err e (vm.storeAfter tx header s) := by
  rw [executeSMCTx_eq, h]

end

/-! ## Receipts of alike stores -/

lemma length_getLogsForTx (h : Alike s s') (hash : Bytes) :
    (getLogsForTx env' s' hash).length = (getLogsForTx env s hash).length := by
  have hentries : s'.logs.entries.Perm s.logs.entries := by
    refine lookup_ext s'.logs.nodupKeys s.logs.nodupKeys fun a l => ?_
    show l ∈ s'.logs.lookup a ↔ l ∈ s.logs.lookup a
    rw [h.logs a]
  have hwalks : (env'.walk s'.logs).Perm (env.walk s.logs) :=
    ((env'.walk_perm _).trans (hentries.map _)).trans (env.walk_perm _).symm
  exact (hwalks.flatten.filter _).length_eq

lemma compareLogs_passes (ls : List TxExecLog) :
    ∀ cs : List TxExecLog, (∀ l ∈ ls, l.data = []) → (∀ c ∈ cs, c.data = []) →
      ls.length ≤ cs.length → compareLogs ls cs = .ok () := by
  induction ls with
  | nil =>
    intro cs _ _ _
    rfl
  | cons l ls ih =>
    intro cs hls hcs hlen
    cases cs with
    | nil => simp at hlen
    | cons c cs =>
      have hdata : l.data = c.data := by
        rw [hls l (by simp), hcs c (by simp)]
      show (if l.data = c.data then compareLogs ls cs else throw .error) = .ok ()
      rw [if_pos hdata]
      refine ih cs (fun l' hl' => hls l' (by simp [hl'])) (fun c' hc' => hcs c' (by simp [hc'])) ?_
      simpa using hlen

lemma data_execResultToReceipt {l : TxExecLog} (h : l ∈ (execResultToReceipt env s r).logs) :
    l.data = [] := by
  obtain ⟨_, -, rfl⟩ := mem_map.mp h
  rfl

lemma compareReceipt_alike (h : Alike s s') (r : ExecutionResult) :
    compareReceipt (execResultToReceipt env' s' r) (execResultToReceipt env s r) = .ok () := by
  have hlength : (execResultToReceipt env' s' r).logs.length ≤ (execResultToReceipt env s r).logs.length := by
    simp only [execResultToReceipt, length_map]
    exact (length_getLogsForTx h r.hash).le
  have hfuel : (execResultToReceipt env' s' r).fuelUsed = (execResultToReceipt env s r).fuelUsed := rfl
  have hstatus : (execResultToReceipt env' s' r).status = (execResultToReceipt env s r).status := rfl
  have hmessage : (execResultToReceipt env' s' r).statusMessage
      = (execResultToReceipt env s r).statusMessage := rfl
  unfold compareReceipt
  rw [if_neg (not_not.mpr hfuel), if_neg (not_not.mpr hstatus), if_neg (not_not.mpr hmessage)]
  exact compareLogs_passes _ _ (fun _ hl => data_execResultToReceipt hl)
    (fun _ hc => data_execResultToReceipt hc) hlength

/-! ## The two loops -/

/-- Every transaction that the leader drops leaves the store as it was. -/
def Traceless (vm : ContractVm) (header : PinTxHeader) : List SmcTx → Storage → Prop
  | [], _ => True
  | tx :: txs, s =>
      (vm.result tx header s.observed = .error .error → Alike s (vm.storeAfter tx header s)) ∧
        Traceless vm header txs (vm.storeAfter tx header s)

/-- The node reproduces what the leader kept: all receipts pass, and the stores are alike at the
end. -/
theorem reexecute_alike (hvm : env'.vm = env.vm) (header : PinTxHeader) (txs : List SmcTx) :
    ∀ {s s' last : Storage} {done : List ExecutedSmcTx}, Alike s s' →
      Traceless env.vm header txs s → executeAll env header txs s = .ok done last →
      ∃ last', reexecute env' header done s' = .ok () last' ∧ Alike last last' := by
  induction txs with
  | nil =>
    intro s s' last done h _ hrun
    obtain ⟨rfl, rfl⟩ := ok.inj hrun
    exact ⟨s', rfl, h⟩
  | cons tx txs ih =>
    intro s s' last done h htrace hrun
    obtain ⟨hdropped, hrest⟩ := htrace
    unfold executeAll at hrun
    cases hresult : env.vm.result tx header s.observed with
    | ok r =>
      rw [bind_of_ok (attempt_of_ok (executeSMCTx_ok hresult))] at hrun
      dsimp only at hrun
      rw [gets_bind] at hrun
      obtain ⟨rest, s1, hloop, hend⟩ := bind_eq_ok.mp hrun
      obtain ⟨rfl, rfl⟩ := ok.inj hend
      have hafter := alike_storeAfter env.vm tx header h
      obtain ⟨last', hre, hlast⟩ := ih hafter hrest hloop
      refine ⟨last', ?_, hlast⟩
      unfold reexecute
      rw [hvm, bind_of_ok (executeSMCTx_ok (h.observed ▸ hresult)), gets_bind,
        liftM_bind (compareReceipt_alike hafter r)]
      exact hre
    | error e =>
      cases e with
      | error =>
        -- the leader drops the transaction, and the node never sees it
        rw [bind_of_ok (attempt_of_error (executeSMCTx_err hresult))] at hrun
        exact ih ((hdropped hresult).symm.trans h) hrest hrun
      | panic =>
        rw [bind_of_err (attempt_of_panic (executeSMCTx_err hresult))] at hrun
        cases hrun

/-! ## The stores that the stages start from -/

namespace Storage

lemma logs_putAccount (s : Storage) (x a : Address) (account : StoredAccount) :
    (s.putAccount x account).logs.lookup a
      = if a = x ∧ (s.mappings.lookup a).isSome = false then some [] else s.logs.lookup a := by
  show (if (s.mappings.lookup x).isSome then s.logs else s.logs.insert x []).lookup a = _
  by_cases hknown : (s.mappings.lookup x).isSome = true
  · rw [if_pos hknown, if_neg]
    rintro ⟨rfl, hnot⟩
    rw [hknown] at hnot
    cases hnot
  · rw [if_neg hknown, FinMap.lookup_insert_eq_ite]
    by_cases ha : a = x
    · subst ha
      rw [if_pos rfl, if_pos ⟨rfl, by simpa using hknown⟩]
    · rw [if_neg ha, if_neg (fun h => ha h.1)]

lemma logs_foldl_syncBalance (l : List (Sigma fun _ : Address => Nat)) (a : Address) :
    ∀ s : Storage, (l.foldl (fun s e => s.syncBalance e.1 e.2) s).logs.lookup a
      = if a ∈ l.map (·.1) ∧ (s.mappings.lookup a).isSome = false then some []
        else s.logs.lookup a := by
  induction l with
  | nil =>
    intro s
    simp
  | cons e l ih =>
    intro s
    obtain ⟨account, hsync⟩ : ∃ account, s.syncBalance e.1 e.2 = s.putAccount e.1 account := ⟨_, rfl⟩
    have hmapped := mapped_putAccount s e.1 a account
    rw [foldl_cons, ih, hsync, logs_putAccount]
    cases hknown : (s.mappings.lookup a).isSome with
    | true =>
      have hstays := hmapped.mpr (.inl hknown)
      simp [hstays]
    | false =>
      rw [hknown] at hmapped
      by_cases ha : a = e.1
      · subst ha
        simp
      have hnot : ((s.putAccount e.1 account).mappings.lookup a).isSome = false := by
        rw [Bool.eq_false_iff]
        intro hnow
        exact (hmapped.mp hnow).elim Bool.noConfusion ha
      have hmem : a ∈ (e :: l).map (·.1) ↔ a ∈ l.map (·.1) := by
        rw [map_cons, mem_cons]
        exact or_iff_right ha
      rw [if_neg (fun h : a = e.1 ∧ _ => ha h.1), hnot]
      simp only [hmem]

lemma logs_syncBalances (balances : FinMap Address Nat) (s : Storage) (a : Address) :
    (s.syncBalances balances).logs.lookup a
      = if (balances.lookup a).isSome = true ∧ (s.mappings.lookup a).isSome = false then some []
        else s.logs.lookup a := by
  unfold syncBalances
  rw [logs_foldl_syncBalance]
  have hkeys : a ∈ balances.entries.map (·.1) ↔ (balances.lookup a).isSome = true := AList.lookup_isSome.symm
  simp only [hkeys]

lemma tables_foldl_nonceIncr (ps : List Payment) (s : Storage)
    (h : ∀ p ∈ ps, (s.mappings.lookup p.sender).isSome = true) :
    (ps.foldl (fun s p => s.nonceIncr p.sender) s).mappings = s.mappings ∧
      (ps.foldl (fun s p => s.nonceIncr p.sender) s).logs = s.logs := by
  refine foldlRecOn (motive := fun t : Storage => t.mappings = s.mappings ∧ t.logs = s.logs) ps _ ⟨rfl, rfl⟩
    fun t ht p hp => ?_
  have hknown : (t.mappings.lookup p.sender).isSome = true := ht.1 ▸ h p hp
  exact ⟨(if_pos hknown).trans ht.1, (if_pos hknown).trans ht.2⟩

/-- The nonces of the senders are raised, whose accounts are there. -/
lemma getAccount_foldl_nonceIncr (ps : List Payment) (a : Address) :
    ∀ s : Storage, (s.getAccount a = none → ∀ p ∈ ps, p.sender ≠ a) →
      (ps.foldl (fun s p => s.nonceIncr p.sender) s).getAccount a
        = (s.getAccount a).map fun account =>
            { account with nonce := account.nonce + ps.countP (·.sender = a) } := by
  induction ps with
  | nil =>
    intro s _
    simp
  | cons p ps ih =>
    intro s h
    have hone : (s.nonceIncr p.sender).getAccount a = (s.getAccount a).map fun account =>
        { account with nonce := account.nonce + if p.sender = a then 1 else 0 } := by
      unfold nonceIncr
      rw [getAccount_putAccount]
      cases hacc : s.getAccount a with
      | none => simp [Ne.symm (h hacc p mem_cons_self)]
      | some account =>
        by_cases hp : p.sender = a
        · simp [hp, hacc]
        · simp [hp, Ne.symm hp]
    rw [foldl_cons, ih _ fun hnone q hq => ?_, hone, Option.map_map, countP_cons]
    · refine congrArg (Option.map · _) (funext fun account => ?_)
      simp [add_assoc, add_comm]
    · rw [hone, Option.map_eq_none_iff] at hnone
      exact h hnone q (mem_cons_of_mem p hq)

end Storage

def ethPayments (sites : List Payment) (a : Address) : Nat := (sites.filter (·.eth)).countP (·.sender = a)

namespace Ledger

variable (L : Ledger) (sites : List Payment)

lemma countP_sitesPin (a : Address) :
    ((L.sitesPin sites).nodes.filter (·.eth)).countP (·.sender = a) = ethPayments sites a := by
  rw [nodes_sitesPin]
  exact ((perm_insertionSort _ sites).filter _).countP_eq _

lemma isSome_balance_sender {p : Payment} (h : p ∈ (L.sitesPin sites).nodes) :
    ((L.sitesPin sites).balance.lookup p.sender).isSome = true := by
  rw [nodes_sitesPin, mem_inOrder] at h
  rw [balance_sitesPin, if_pos ⟨p, h, .inl rfl⟩]
  rfl

/-- The accounts that the leader's stage starts from: the synchronised ones, with the nonces
raised. -/
theorem getAccount_stageStart (a : Address) : (L.stageStart sites).getAccount a
      = ((L.store.syncBalances (L.sitesPin sites).balance).getAccount a).map fun account =>
          { account with nonce := account.nonce + ethPayments sites a } := by
  rw [← L.countP_sitesPin sites a]
  refine getAccount_foldl_nonceIncr _ a _ fun hsynced p hp hsender => ?_
  -- the account of a sender is there
  have hbalance := L.isSome_balance_sender sites (mem_of_mem_filter hp)
  rw [hsender] at hbalance
  obtain ⟨b, hb⟩ := Option.isSome_iff_exists.mp hbalance
  have hsynced : (L.store.syncBalances (L.sitesPin sites).balance).getAccount a = none := hsynced
  rw [getAccount_syncBalances, hb] at hsynced
  cases hsynced

lemma tables_stageStart : (L.stageStart sites).mappings
        = (L.store.syncBalances (L.sitesPin sites).balance).mappings ∧
      (L.stageStart sites).logs = (L.store.syncBalances (L.sitesPin sites).balance).logs := by
  refine tables_foldl_nonceIncr _ _ fun p hp => ?_
  refine (mappings_syncBalances _ _ _).1.mpr (.inr ?_)
  exact L.isSome_balance_sender sites (mem_of_mem_filter hp)

/-- The stages start from alike stores if they take the same balances and no nonce is raised. -/
theorem alike_starts {balances : FinMap Address Nat} (hnonces : ∀ a, ethPayments sites a = 0)
    (hbalances : ∀ w, balances.lookup w = (L.sitesPin sites).balance.lookup w) :
    Alike (L.stageStart sites) { L.store.syncBalances balances with collectDiffs := true } := by
  obtain ⟨hmappings, hlogs⟩ := L.tables_stageStart sites
  refine ⟨fun a => ?_, fun a k => ?_, fun a => ?_, fun a => ?_⟩
  · show (L.store.syncBalances balances).getAccount a = _
    rw [getAccount_stageStart, getAccount_syncBalances, getAccount_syncBalances, hbalances, hnonces]
    simp
  · show rawValue (L.store.syncBalances balances).mappings a k = _
    rw [hmappings, (mappings_syncBalances _ _ _).2, (mappings_syncBalances _ _ _).2]
  · show ((L.store.syncBalances balances).mappings.lookup a).isSome = true ↔ _
    rw [hmappings, (mappings_syncBalances _ _ _).1, (mappings_syncBalances _ _ _).1, hbalances]
  · show (L.store.syncBalances balances).logs.lookup a = _
    rw [hlogs, logs_syncBalances, logs_syncBalances, hbalances]

end Ledger

/-! ## The node's stage -/

lemma reexecute_store (env : NodeEnv) (header : PinTxHeader) (ts : List ExecutedSmcTx) :
    ∀ {s s' : Storage}, reexecute env header ts s = .ok () s' →
      s' = env.vm.storeAfterAll header (ts.map (·.tx)) s := by
  induction ts with
  | nil =>
    intro s s' h
    exact ((ok.inj h).2).symm
  | cons t ts ih =>
    intro s s' h
    obtain ⟨r, s1, hone, hrest⟩ := bind_eq_ok.mp h
    rw [gets_bind] at hrest
    obtain ⟨_, s2, hcompare, hloop⟩ := bind_eq_ok.mp hrest
    have hsame : s2 = s1 := by
      cases hx : compareReceipt (execResultToReceipt env s1 r) t.receipt with
      | ok u =>
        rw [liftM_of_ok hx] at hcompare
        exact ((ok.inj hcompare).2).symm
      | error e =>
        rw [liftM_of_error hx] at hcompare
        cases hcompare
    have hafter : s1 = env.vm.storeAfter t.tx header s := by
      rw [executeSMCTx_eq] at hone
      split at hone <;> cases hone
      rfl
    rw [hsame, hafter] at hloop
    exact ih hloop

lemma ServerOp.collectDiffs_apply (txHash : Bytes) (s : Storage) (op : ServerOp) :
    (op.apply txHash s).collectDiffs = s.collectDiffs := by
  cases op with
  | saveLogs logs =>
    obtain ⟨stored, -, triggered, -, -, hput, -⟩ := putLogs_alike txHash logs (Alike.refl s)
    rw [ServerOp.apply_saveLogs hput]
  | store op =>
    cases op with
    | putAccount x account => rfl
    | putValue x k v =>
      show (s.putValue x k v).collectDiffs = _
      unfold putValue
      split <;> rfl
    | checkpoint => rfl
    | commit =>
      show (((commit s).state?).getD s).collectDiffs = _
      rcases commit_cases s with ⟨h, -⟩ | ⟨c, rest, -, h⟩ <;> rw [h] <;> rfl
    | revert =>
      show (((revert s).state?).getD s).collectDiffs = _
      rcases revert_cases s with h | ⟨c, rest, -, -, h⟩ <;> rw [h]
      · rfl
      · exact collectDiffs_foldl_revertOne _ s

lemma ContractVm.collectDiffs_storeAfter (vm : ContractVm) (tx : SmcTx) (header : PinTxHeader)
    (s : Storage) : (vm.storeAfter tx header s).collectDiffs = s.collectDiffs := by
  refine foldlRecOn (motive := fun t : Storage => t.collectDiffs = s.collectDiffs) _ _ rfl fun t h op _ => ?_
  rw [ServerOp.collectDiffs_apply, h]

lemma ContractVm.collectDiffs_storeAfterAll (vm : ContractVm) (header : PinTxHeader)
    (txs : List SmcTx) (s : Storage) :
    (vm.storeAfterAll header txs s).collectDiffs = s.collectDiffs := by
  refine foldlRecOn (motive := fun t : Storage => t.collectDiffs = s.collectDiffs) txs _ rfl fun t h tx _ => ?_
  rw [vm.collectDiffs_storeAfter, h]

lemma Storage.collectDiffs_captured (h : captureStateStoreDiffs s = .ok () s') :
    s'.collectDiffs = true := by
  unfold captureStateStoreDiffs at h
  split at h
  · cases h
  · obtain ⟨-, rfl⟩ := ok.inj h
    rfl

section

variable {env : NodeEnv} {balances : FinMap Address Nat} {pin : ContractPin} {s : Peer} {start last : Storage}

lemma Peer.stage_of_reexecuted
    (hcapture : captureStateStoreDiffs (s.store.syncBalances balances) = .ok () start)
    (h : reexecute env (nextHeader s.pins pin.ts) pin.smcTxs start = .ok () last) :
    ∃ wc, runSmartContractStageFullNode env balances pin s
      = .ok () { s with store := last.resetCaptureStateStoreDiffs, walletCacheConfirmed := wc } := by
  have hcollect : last.collectDiffs = true := by
    rw [reexecute_store env _ _ h, ContractVm.collectDiffs_storeAfterAll]
    exact collectDiffs_captured hcapture
  have hbody : recapturing env (nextHeader s.pins pin.ts) pin.smcTxs start
      = .ok last.toDiffSlice last := (bind_of_ok h).trans (if_pos hcollect)
  have hstage : (do
      modify (syncBalances balances)
      captureStateStoreDiffs
      ensuring (recapturing env (nextHeader s.pins pin.ts) pin.smcTxs)
        (modify resetCaptureStateStoreDiffs) : Go Storage (List Diff)) s.store
      = .ok last.toDiffSlice last.resetCaptureStateStoreDiffs := by
    rw [modify_bind, bind_of_ok hcapture, ensuring_of_ok hbody]
    rfl
  refine ⟨last.toDiffSlice.foldl confirmDiff s.walletCacheConfirmed, ?_⟩
  unfold runSmartContractStageFullNode
  rw [gets_bind, bind_of_ok (zoom_of_ok hstage)]
  rfl

lemma Peer.stage_of_failed {e : GoError}
    (hcapture : captureStateStoreDiffs (s.store.syncBalances balances) = .ok () start)
    (h : reexecute env (nextHeader s.pins pin.ts) pin.smcTxs start = .err e last) :
    runSmartContractStageFullNode env balances pin s
      = .err e { s with store := last.resetCaptureStateStoreDiffs } := by
  have hbody : recapturing env (nextHeader s.pins pin.ts) pin.smcTxs start = .err e last := bind_of_err h
  unfold runSmartContractStageFullNode
  rw [gets_bind]
  refine bind_of_err (zoom_of_err ?_)
  rw [modify_bind, bind_of_ok hcapture]
  unfold ensuring
  rw [hbody]
  rfl

end

lemma Peer.replay_keeps {ps : List Payment} {balances balances' : FinMap Address Nat}
    {s s' : Peer} (h : replay ps balances s = .ok balances' s') :
    s'.store = s.store ∧ s'.pins = s.pins := by
  obtain ⟨-, rfl, -⟩ := replay_eq_ok h
  rw [payAll_eq]
  exact ⟨rfl, rfl⟩

/-! ## Agreement -/

/-- The pin that the leader forms over the sites and the transactions. -/
structure Formed (env : NodeEnv) (ts : Int) (sites : List Payment) (txs : List SmcTx)
    (L L' : Ledger) (pin : ContractPin) : Prop where
  leader : Ledger.addContracts env ts sites txs L = .ok () L'
  latest : L'.pins.getLast? = some pin.toTxPin
  time : pin.ts = ts
  executed : ∃ last, executeAll env (nextHeader L.pins ts) txs (L.stageStart sites)
    = .ok pin.smcTxs last

lemma Formed.nodes {ts : Int} {txs : List SmcTx} {L L' : Ledger} {pin : ContractPin}
    (h : Formed env ts sites txs L L' pin) (hidle : L.store.Idle) :
    pin.nodes = inOrder sites := by
  have hlatest := h.latest
  rw [(addContracts_ok hidle h.leader).pins, getLast?_concat] at hlatest
  rw [← Option.some.inj hlatest]
  exact L.nodes_sitesPin sites

/-- What leader and node have to agree on: the balances that they start from, no raised nonce, the
header, and no trace of what is dropped. -/
structure Matching (env : NodeEnv) (ts : Int) (sites : List Payment) (txs : List SmcTx)
    (L : Ledger) (pins : List TxPin) (balances : FinMap Address Nat) : Prop where
  nonces : ∀ a, ethPayments sites a = 0
  balances : ∀ w, balances.lookup w = (L.sitesPin sites).balance.lookup w
  header : txs = [] ∨ nextHeader pins ts = nextHeader L.pins ts
  dropped : Traceless env.vm (nextHeader L.pins ts) txs (L.stageStart sites)

/-- The node's stage ends, by a return or an error, with the accounts and slots of the leader's
store. -/
def SameStores (env : NodeEnv) (balances : FinMap Address Nat) (pin : ContractPin) (P : Peer)
    (L' : Ledger) : Prop :=
  ∃ P', (Peer.runSmartContractStageFullNode env balances pin P).state? = some P' ∧
    P'.store.observed = L'.store.observed

section

variable {env env' : NodeEnv} {ts : Int} {sites : List Payment} {txs : List SmcTx} {L L' : Ledger}
  {P P1 : Peer} {pin : ContractPin} {balances : FinMap Address Nat}

lemma same_stores_of_matching (hvm : env'.vm = env.vm) (hidle : L.store.Idle)
    (hstores : P1.store = L.store) (hformed : Formed env ts sites txs L L' pin)
    (hmatch : Matching env ts sites txs L P1.pins balances) :
    SameStores env' balances pin P1 L' := by
  obtain ⟨last, hleader⟩ := hformed.executed
  have hstart := L.alike_starts sites hmatch.nonces hmatch.balances
  obtain ⟨last', hre, halike⟩ := reexecute_alike hvm _ txs hstart hmatch.dropped hleader
  -- without transactions the header is not used
  have hnode : reexecute env' (nextHeader P1.pins pin.ts) pin.smcTxs
      { P1.store.syncBalances balances with collectDiffs := true } = .ok () last' := by
    rw [hstores, hformed.time]
    rcases hmatch.header with rfl | hheader
    · obtain ⟨hnone, -⟩ := ok.inj hleader
      rw [← hnone] at hre ⊢
      unfold reexecute at hre ⊢
      exact hre
    · rw [hheader]
      exact hre
  have hcapture := capture_synced (hstores ▸ hidle : P1.store.Idle) balances
  obtain ⟨wc, hstage⟩ := stage_of_reexecuted hcapture hnode
  refine ⟨_, by rw [hstage]; rfl, ?_⟩
  rw [(addContracts_ok hidle hformed.leader).store]
  have hend : last = L.stageEnd env ts sites txs := executeAll_store env _ txs hleader
  rw [hend] at halike
  exact halike.observed

lemma matching_of_same_stores (hidle : L.store.Idle) (hstores : P1.store = L.store)
    (hformed : Formed env ts sites [] L L' pin)
    (hreplay : replay pin.nodes ∅ P = .ok balances P1)
    (hsame : SameStores env' balances pin P1 L') :
    Matching env ts sites [] L P1.pins balances := by
  obtain ⟨last, hleader⟩ := hformed.executed
  obtain ⟨hnone, rfl⟩ := ok.inj hleader
  have hnode : reexecute env' (nextHeader P1.pins pin.ts) pin.smcTxs
      { P1.store.syncBalances balances with collectDiffs := true }
      = .ok () { P1.store.syncBalances balances with collectDiffs := true } := by
    rw [← hnone]
    rfl
  have hcapture := capture_synced (hstores ▸ hidle : P1.store.Idle) balances
  obtain ⟨wc, hstage⟩ := stage_of_reexecuted hcapture hnode
  obtain ⟨P', hstate, hobserved⟩ := hsame
  rw [hstage] at hstate
  obtain rfl := Option.some.inj hstate
  rw [(addContracts_ok hidle hformed.leader).store, hstores] at hobserved
  -- the two synchronised stores have the same accounts
  have haccount : ∀ a, (L.store.syncBalances balances).getAccount a = (L.stageStart sites).getAccount a :=
    fun a => congrFun (congrArg Observed.account hobserved) a
  have htouched : ∀ w, (balances.lookup w).isSome = true ↔ Touched sites w := by
    intro w
    rw [isSome_replayed hreplay, hformed.nodes hidle, touched_inOrder]
  have hboth : ∀ w, ethPayments sites w = 0 ∧
      balances.lookup w = (L.sitesPin sites).balance.lookup w := by
    intro w
    have hw := haccount w
    rw [L.getAccount_stageStart, getAccount_syncBalances, getAccount_syncBalances,
      L.balance_sitesPin] at hw
    by_cases htouch : Touched sites w
    · obtain ⟨b, hb⟩ := Option.isSome_iff_exists.mp ((htouched w).mpr htouch)
      rw [hb, if_pos htouch] at hw
      simp only [Option.map_some, Option.some_or, Option.some.injEq, StoredAccount.mk.injEq,
        Nat.cast_inj, and_true] at hw
      obtain ⟨hbalance, hnonce⟩ := hw
      rw [L.balance_sitesPin, if_pos htouch, hb, hbalance]
      exact ⟨by omega, rfl⟩
    · have hnot : balances.lookup w = none := by
        rw [← Option.not_isSome_iff_eq_none]
        exact fun hsome => htouch ((htouched w).mp hsome)
      have hzero : ethPayments sites w = 0 := by
        refine countP_eq_zero.mpr fun p hp => ?_
        simp only [decide_eq_true_eq]
        exact fun hsender => htouch ⟨p, mem_of_mem_filter hp, .inl hsender.symm⟩
      rw [L.balance_sitesPin, if_neg htouch, hnot, hzero]
      exact ⟨rfl, rfl⟩
  exact ⟨fun a => (hboth a).1, fun w => (hboth w).2, .inl rfl, trivial⟩

/-- **Leader and full node agree** after a pin if they start from the same balances, no nonce is
raised, their headers are the same and dropped transactions leave no trace. Without contract
transactions they agree only then. -/
theorem full_node_agrees (hvm : env'.vm = env.vm) (hidle : L.store.Idle)
    (hstores : P.store = L.store) (hformed : Formed env ts sites txs L L' pin)
    (hreplay : Peer.replay pin.nodes ∅ P = .ok balances P1) :
    (Matching env ts sites txs L P.pins balances → SameStores env' balances pin P1 L') ∧
    (txs = [] → SameStores env' balances pin P1 L' → Matching env ts sites txs L P.pins balances) := by
  have hkept := replay_keeps hreplay
  rw [← hkept.2]
  constructor
  · intro hmatch
    exact same_stores_of_matching hvm hidle (hkept.1.trans hstores) hformed hmatch
  · rintro rfl hsame
    exact matching_of_same_stores hidle (hkept.1.trans hstores) hformed hreplay hsame

end

/-! ## Samples -/

def Ledger.pinOf (L : Ledger) (env : NodeEnv) (ts : Int) (sites : List Payment) (txs : List SmcTx)
    (done : List ExecutedSmcTx) : ContractPin :=
  let diffs := (L.stageEnd env ts sites txs).toDiffSlice
  ⟨{ L.sitesPin sites with
      diffs := diffs, balance := diffs.foldl recordDiff (L.sitesPin sites).balance }, ts, done⟩

lemma Ledger.formed_pinOf {ts : Int} {txs : List SmcTx} {L L' : Ledger}
    {done : List ExecutedSmcTx} {last : Storage} (hidle : L.store.Idle)
    (hleader : addContracts env ts sites txs L = .ok () L')
    (hdone : executeAll env (nextHeader L.pins ts) txs (L.stageStart sites) = .ok done last) :
    Formed env ts sites txs L L' (L.pinOf env ts sites txs done) := by
  refine ⟨hleader, ?_, rfl, last, hdone⟩
  rw [(addContracts_ok hidle hleader).pins, getLast?_concat]
  rfl

def sampleSite (eth : Bool) : Payment := ⟨1, 1, [1], 500, 501, 10, eth⟩

def samplePaying (eth : Bool) : Ledger := ((Ledger.genesis 500 [] .new).addToDag (sampleSite eth)).2

/-- **The stores split over an Ethereum payment**: only the leader raises the sender's nonce. -/
theorem ethereum_payment_splits_stores :
    ∃ L' pin balances P1, Formed Ledger.tippingNode 0 [sampleSite true] [] (samplePaying true) L' pin ∧
      Peer.replay pin.nodes ∅ Peer.sampleGenesis = .ok balances P1 ∧
      Peer.sampleGenesis.store = (samplePaying true).store ∧
      (L'.store.getAccount 500).map (·.nonce) = some 1 ∧
      ¬ SameStores Ledger.tippingNode balances pin P1 L' := by
  have hidle : (samplePaying true).store.Idle := ⟨rfl, rfl, rfl⟩
  obtain ⟨L', hok, hnonce⟩ : ∃ L', addContracts tippingNode 0 [sampleSite true] []
      (samplePaying true) = .ok () L' ∧ (L'.store.getAccount 500).map (·.nonce) = some 1 := by
    decide +kernel
  have hdone : executeAll tippingNode (nextHeader (samplePaying true).pins 0) []
      ((samplePaying true).stageStart [sampleSite true])
      = .ok [] ((samplePaying true).stageStart [sampleSite true]) := rfl
  have hformed := formed_pinOf hidle hok hdone
  obtain ⟨balances, P1, hreplayed⟩ : ∃ balances P1,
      replay [sampleSite true] ∅ sampleGenesis = .ok balances P1 := by decide +kernel
  refine ⟨L', _, balances, P1, hformed, hreplayed, rfl, hnonce, fun hsame => ?_⟩
  have hmatch := matching_of_same_stores hidle (replay_keeps hreplayed).1 hformed hreplayed hsame
  exact absurd (hmatch.nonces 500) (by decide +kernel)

theorem tipped_stores_agree :
    ∃ L' pin balances P1, Formed Ledger.tippingNode 0 [sampleSite false] [⟨[2], [2], []⟩]
        (samplePaying false) L' pin ∧
      Peer.replay pin.nodes ∅ Peer.sampleGenesis = .ok balances P1 ∧
      SameStores Ledger.tippingNode balances pin P1 L' := by
  have hidle : (samplePaying false).store.Idle := ⟨rfl, rfl, rfl⟩
  obtain ⟨_, L', hok⟩ : ∃ x L', addContracts tippingNode 0 [sampleSite false]
      [⟨[2], [2], []⟩] (samplePaying false) = .ok x L' := by decide +kernel
  obtain ⟨done, last, hdone⟩ : ∃ done last, executeAll tippingNode
      (nextHeader (samplePaying false).pins 0) [⟨[2], [2], []⟩]
      ((samplePaying false).stageStart [sampleSite false]) = .ok done last := by decide +kernel
  have hformed := formed_pinOf hidle hok hdone
  obtain ⟨balances, P1, hreplayed, hentries⟩ : ∃ balances P1,
      replay [sampleSite false] ∅ sampleGenesis = .ok balances P1 ∧
      balances.entries = ((samplePaying false).sitesPin [sampleSite false]).balance.entries := by
    decide +kernel
  have hbalances : balances = ((samplePaying false).sitesPin [sampleSite false]).balance := AList.ext hentries
  refine ⟨L', _, balances, P1, hformed, hreplayed,
    (full_node_agrees rfl hidle rfl hformed hreplayed).1 ⟨?_, ?_, .inr rfl, ?_, trivial⟩⟩
  · intro a
    exact rfl
  · intro w
    rw [hbalances]
  · intro hdropped
    cases hdropped

end GrapeDag
