/-
THE LOGS IN A RECEIPT.

`Log.fromPb`, `putLogs` and `GetLogsForTx` of `src/vm/server.go`, `RunCall` and
`CurrentExecutingTx` of `src/vm/coms.go`, `execResultToReceipt` of `src/dag/pin.go`, `GetHash`
and `MarshalBinary` of `src/tx/txvX.go`. Logs are stored by contract, under the hash of the
`Txv1` in the request; the receipt lists those stored under `GetHash` of the transaction, in the
order of a Go map and without their data.

Main results: `recorded_receipts` and `receipt_logs_iff`.
-/
import GrapeDag.Dag.FullNode
import GrapeDag.Dag.Network
import GrapeDag.State.StoredLogs

namespace GrapeDag

open Imperative List Prog FinMap Storage StoredLog Transaction

/-! ## Stores -/

namespace Storage

/-- What every store is like: an account, also one in the undo log, has its mapping; logs are
stored where a mapping is, and under their contract. -/
structure Shelved (s : Storage) : Prop where
  accounts : ∀ a, s.getAccount a ≠ none → s.mappings.lookup a ≠ none
  undo : ∀ a account, Modification.account a (some account) ∈ s.modifications →
    s.mappings.lookup a ≠ none
  fresh : ∀ a, s.mappings.lookup a = none → s.logsOf a = []
  labelled : ∀ a, ∀ l ∈ s.logsOf a, l.log.contractAddress = a

lemma shelved_new : new.Shelved where
  accounts := fun _ h => absurd rfl h
  undo := nofun
  fresh := fun _ _ => rfl
  labelled := nofun

variable {s s' : Storage}

lemma Shelved.files (h : s.Shelved) : s.Files s.logsOf := ⟨fun _ => rfl, h.fresh⟩

lemma Shelved.of_files (h : s.Shelved) (hfiles : s'.Files s.logsOf)
    (haccounts : ∀ a, s'.getAccount a ≠ none → s'.mappings.lookup a ≠ none)
    (hundo : ∀ a account, Modification.account a (some account) ∈ s'.modifications →
      s'.mappings.lookup a ≠ none) :
    s'.Shelved ∧ s'.logsOf = s.logsOf := by
  have hlogs : s'.logsOf = s.logsOf := funext hfiles.logs
  refine ⟨⟨haccounts, hundo, fun a ha => ?_, fun a l hl => ?_⟩, hlogs⟩
  · rw [hlogs]
    exact hfiles.fresh a ha
  · rw [hlogs] at hl
    exact h.labelled a l hl

lemma lookup_mappings_putAccount (a : Address) (account : StoredAccount) (s : Storage)
    (x : Address) : (s.putAccount a account).mappings.lookup x ≠ none ↔
      x = a ∨ s.mappings.lookup x ≠ none := by
  simp only [Option.ne_none_iff_isSome, mapped_putAccount, or_comm]

lemma Shelved.putAccount (h : s.Shelved) (a : Address) (account : StoredAccount) :
    (s.putAccount a account).Shelved ∧ (s.putAccount a account).logsOf = s.logsOf := by
  refine h.of_files (h.files.putAccount a account) (fun x hx => ?_) fun x old hold => ?_
  · rw [lookup_mappings_putAccount]
    have hx' : (s.accounts.insert a account).lookup x ≠ none := hx
    rw [lookup_insert_eq_ite] at hx'
    by_cases hxa : x = a
    · exact Or.inl hxa
    · rw [if_neg hxa] at hx'
      exact Or.inr (h.accounts x hx')
  · rw [lookup_mappings_putAccount]
    rcases mem_cons.mp hold with heq | hold
    · exact Or.inl (Modification.account.inj heq).1
    · exact Or.inr (h.undo x old hold)

lemma lookup_setMapping (m : FinMap Address (FinMap Word Bytes)) (a : Address) (k : Word)
    (v : Bytes) (x : Address) : (setMapping m a k v).lookup x ≠ none ↔ x = a ∨ m.lookup x ≠ none := by
  simp only [Option.ne_none_iff_isSome, mapped_setMapping, or_comm]

lemma Shelved.putValue (h : s.Shelved) (a : Address) (k : Word) (v : Bytes) :
    (s.putValue a k v).Shelved ∧ (s.putValue a k v).logsOf = s.logsOf := by
  -- the account is created first if need be
  have hwrite : ∀ {t : Storage}, t.Shelved →
      Shelved { t with
        modifications := .mapping a k (rawValue t.mappings a k) :: t.modifications
        mappings := setMapping t.mappings a k v
        mappingDiffs :=
          if t.collectDiffs then t.mappingDiffs.insert (a, k) v else t.mappingDiffs } := by
    intro t ht
    refine ⟨fun x hx => ?_, fun x old hold => ?_, fun x hx => ?_, ht.labelled⟩
    · exact (lookup_setMapping t.mappings a k v x).mpr (Or.inr (ht.accounts x hx))
    · rcases mem_cons.mp hold with heq | hold
      · cases heq
      · exact (lookup_setMapping t.mappings a k v x).mpr (Or.inr (ht.undo x old hold))
    · by_contra hne
      have hmapped : t.mappings.lookup x ≠ none := fun hnone => hne (ht.fresh x hnone)
      exact (lookup_setMapping t.mappings a k v x).mpr (Or.inr hmapped) hx
  unfold Storage.putValue
  split
  · exact ⟨hwrite h, rfl⟩
  · obtain ⟨hblank, hlogs⟩ := h.putAccount a .blank
    exact ⟨hwrite hblank, hlogs⟩

lemma mapped_revertOne {e : Modification} (haccounts : ∀ a, s.getAccount a ≠ none →
      s.mappings.lookup a ≠ none)
    (he : ∀ a account, e = .account a (some account) → s.mappings.lookup a ≠ none) :
    (∀ a, (s.revertOne e).getAccount a ≠ none → (s.revertOne e).mappings.lookup a ≠ none) ∧
      ∀ a, s.mappings.lookup a ≠ none → (s.revertOne e).mappings.lookup a ≠ none := by
  cases e with
  | mapping a k v =>
    refine ⟨fun x hx => ?_, fun x hx => ?_⟩
    · exact (lookup_setMapping s.mappings a k v x).mpr (Or.inr (haccounts x hx))
    · exact (lookup_setMapping s.mappings a k v x).mpr (Or.inr hx)
  | account a old =>
    cases old with
    | none =>
      refine ⟨fun x hx => haccounts x fun hnone => hx ?_, fun x hx => hx⟩
      show (s.accounts.erase a).lookup x = none
      rw [lookup_erase_eq_ite]
      split
      · rfl
      · exact hnone
    | some account =>
      refine ⟨fun x hx => ?_, fun x hx => hx⟩
      have hx' : (s.accounts.insert a account).lookup x ≠ none := hx
      rw [lookup_insert_eq_ite] at hx'
      by_cases hxa : x = a
      · exact hxa ▸ he a account rfl
      · rw [if_neg hxa] at hx'
        exact haccounts x hx'

lemma mapped_foldl_revertOne (mods : List Modification)
    (haccounts : ∀ a, s.getAccount a ≠ none → s.mappings.lookup a ≠ none)
    (hmods : ∀ a account, Modification.account a (some account) ∈ mods → s.mappings.lookup a ≠ none) :
    (∀ a, (mods.foldl revertOne s).getAccount a ≠ none → (mods.foldl revertOne s).mappings.lookup a ≠ none) ∧
    ∀ a, s.mappings.lookup a ≠ none → (mods.foldl revertOne s).mappings.lookup a ≠ none := by
  refine mods.foldlRecOn (motive := fun t : Storage =>
    (∀ a, t.getAccount a ≠ none → t.mappings.lookup a ≠ none) ∧
      ∀ a, s.mappings.lookup a ≠ none → t.mappings.lookup a ≠ none) _ ⟨haccounts, fun _ h => h⟩ ?_
  intro t ht e he
  obtain ⟨hone, hgrow⟩ := mapped_revertOne ht.1 fun a account heq => ht.2 a (hmods a account (heq ▸ he))
  exact ⟨hone, fun a ha => hgrow a (ht.2 a ha)⟩

lemma Shelved.revert (h : s.Shelved) :
    wpEnd revert (fun s' => s'.Shelved ∧ s'.logsOf = s.logsOf) s := by
  refine wpEnd_revert ⟨h, rfl⟩ fun c rest => ?_
  have hfiles := Files.foldl_revertOne (s.modifications.take (s.modifications.length - c)) h.files
  obtain ⟨haccounts, hgrows⟩ := mapped_foldl_revertOne
    (s.modifications.take (s.modifications.length - c)) h.accounts
    fun a account hmem => h.undo a account (mem_of_mem_take hmem)
  exact h.of_files ⟨hfiles.logs, hfiles.fresh⟩ haccounts fun a account hmem =>
    hgrows a (h.undo a account (mem_of_mem_drop hmem))

/-- Step. No operation on accounts and slots touches the logs. -/
theorem Shelved.run (h : s.Shelved) (op : StoreOp) :
    wpEnd op.run (fun s' => s'.Shelved ∧ s'.logsOf = s.logsOf) s := by
  cases op with
  | putAccount a account => exact (wp_modify _).mpr (h.putAccount a account)
  | putValue a k v => exact (wp_modify _).mpr (h.putValue a k v)
  | checkpoint =>
    exact (wp_modify _).mpr ⟨⟨h.accounts, h.undo, h.fresh, h.labelled⟩, rfl⟩
  | revert => exact h.revert
  | commit =>
    exact wpEnd_commit ⟨h, rfl⟩ fun _ => ⟨⟨h.accounts, h.undo, h.fresh, h.labelled⟩, rfl⟩

lemma contractAddress_of_storable {l : Log} {logs : List Log} (h : l ∈ s.storable logs) :
    s.getAccount l.contractAddress ≠ none := by
  unfold storable at h
  have hknown := mem_takeWhile_imp h
  exact Option.isSome_iff_ne_none.mp hknown

theorem Shelved.putEach (txHash : Bytes) (logs : List Log) (h : s.Shelved) :
    wpEnd (putEach txHash logs) (fun s' => s'.Shelved ∧
      ∀ a, s'.logsOf a = s.logsOf a ++ filed txHash (s.storable logs) a) s := by
  obtain ⟨stored, hstored, hrun⟩ := putEach_apply txHash logs s
  have hshelved : Shelved { s with logs := stored } := by
    refine ⟨h.accounts, h.undo, fun a ha => ?_, fun a l hl => ?_⟩
    · -- a known contract has a mapping
      refine (hstored a).trans ?_
      rw [h.fresh a ha, nil_append, filed, map_eq_nil_iff, filter_eq_nil_iff]
      intro l hl heq
      exact h.accounts _ (contractAddress_of_storable hl) (of_decide_eq_true heq ▸ ha)
    · have hl : l ∈ stored.getD a [] := hl
      rw [hstored] at hl
      rcases mem_append.mp hl with hold | hnew
      · exact h.labelled a l hold
      · simp only [filed, mem_map, mem_filter] at hnew
        obtain ⟨l0, ⟨_, hla⟩, rfl⟩ := hnew
        exact of_decide_eq_true hla
  unfold wpEnd wp
  rw [hrun]
  split_ifs <;> exact ⟨hshelved, hstored⟩

lemma Shelved.putLogs (h : s.Shelved) (txHash : Bytes) (logs : List Log) :
    wpEnd (putLogs txHash logs) (fun s' => s'.Shelved ∧
      ∀ a, s'.logsOf a = s.logsOf a ++ filed txHash (s.storable logs) a) s := by
  cases logs with
  | nil => exact (wp_raise _).mpr ⟨h, fun a => (append_nil _).symm⟩
  | cons l logs =>
    unfold Storage.putLogs
    rw [wpEnd, wp_bind]
    refine (h.putEach txHash (l :: logs)).mono (fun _ s' hs' => ?_) fun _ _ hs' => hs'
    rw [wp_modify]
    exact ⟨⟨hs'.1.accounts, hs'.1.undo, hs'.1.fresh, hs'.1.labelled⟩, hs'.2⟩

end Storage

/-! ## The two hashes of a transaction -/

/-- `EthTx.GetSenderPubKey`; a key that cannot be recovered panics. -/
def EthTx.getSenderPubKey (c : Crypto) (t : EthTx) : GoPure Bytes :=
  match t.recoveredKey c with
  | .ok key => .ok key
  | .error _ => .error .panic

/-- `MarshalBinary`, without the RLP encoding that only `EthTx` reads: the `Txv1` that
`UnmarshalBinary` of `RunCall` finds in the request. An Ethereum transaction has the current time.
-/
def Transaction.marshalBinary (c : Crypto) (now : Int) : Transaction → GoPure Txv1
  | .v1 t => .ok t
  | .eth t => do
      let chainType ← getChainType (.eth t)
      let senderPubk ← t.getSenderPubKey c
      let sender ← senderWallet c (.eth t)
      let signature ← t.encodeSignature
      return {
        txType := getTransactionType (.eth t)
        chainType := chainType
        senderPubk := senderPubk
        sender := natToBytes 20 sender.toNat
        recepient := (t.recipient.map fun a => natToBytes 20 a.toNat).getD []
        amount := bigBytes t.value
        nonce := t.nonce
        timestamp := now
        fuelLimit := bigBytes (getFuelLimit (.eth t)).natAbs
        fuelPrice := bigBytes t.gasPrice
        data := t.data
        signature := signature }

/-- What the contract stage reads of a transaction: the receipt is looked up under `GetHash`, the
logs are stored under the hash of what was sent to the VM. -/
def Transaction.smcTx (c : Crypto) (now : Int) (binary : Bytes) (tx : Transaction) : GoPure SmcTx := do
  let sent ← tx.marshalBinary c now
  return ⟨tx.getHash c, c.hash sent, binary⟩

lemma Transaction.smcTx_v1 (c : Crypto) (now : Int) (binary : Bytes) (t : Txv1) :
    (v1 t).smcTx c now binary = .ok ⟨c.hash t, c.hash t, binary⟩ := rfl

/-! ## What the VM saves -/

def ServerOp.saved (s : Storage) : ServerOp → List Log
  | .store _ => []
  | .saveLogs logs => s.storable logs

def savedLogs (txHash : Bytes) : List ServerOp → Storage → List Log
  | [], _ => []
  | op :: ops, s => op.saved s ++ savedLogs txHash ops (op.apply txHash s)

/-- The logs that the VM saves while it executes a transaction. -/
def ContractVm.saved (vm : ContractVm) (tx : SmcTx) (header : PinTxHeader) (s : Storage) : List Log :=
  savedLogs tx.execHash (vm.requests tx header s.observed) s

variable {s : Storage} {r : ExecutionResult}

theorem Storage.Shelved.apply (h : s.Shelved) (txHash : Bytes) (op : ServerOp) :
    (op.apply txHash s).Shelved ∧
      ∀ a, (op.apply txHash s).logsOf a = s.logsOf a ++ filed txHash (op.saved s) a := by
  have hkeep : s.Shelved ∧ ∀ a, s.logsOf a = s.logsOf a ++ filed txHash [] a :=
    ⟨h, fun a => (append_nil _).symm⟩
  cases op with
  | store op =>
    have hrun := h.run op
    cases hs : (op.run s).state? with
    | none =>
      rw [ServerOp.apply, hs]
      exact hkeep
    | some s' =>
      obtain ⟨hs', hlogs⟩ := hrun.of_state? hs
      rw [ServerOp.apply_store hs]
      refine ⟨hs', fun a => ?_⟩
      rw [hlogs]
      exact (append_nil _).symm
  | saveLogs logs =>
    have hput := h.putLogs txHash logs
    rw [ServerOp.apply]
    cases hrun : Storage.putLogs txHash logs s with
    | ok a s' => exact hput.of_ok hrun
    | err e s' => exact hput.of_err hrun
    | diverge => exact absurd hrun (Prog.ne_diverge s)

/-- Run. All requests: each log is stored with its contract, behind those of before. -/
theorem Storage.Shelved.applyAll (txHash : Bytes) (ops : List ServerOp) : ∀ {s : Storage},
    s.Shelved → (ops.foldl (ServerOp.apply txHash) s).Shelved ∧
      ∀ a, (ops.foldl (ServerOp.apply txHash) s).logsOf a =
        s.logsOf a ++ filed txHash (savedLogs txHash ops s) a := by
  induction ops with
  | nil => exact fun h => ⟨h, fun a => (append_nil _).symm⟩
  | cons op ops ih =>
    intro s h
    obtain ⟨hone, hlogs⟩ := h.apply txHash op
    obtain ⟨hall, hmore⟩ := ih hone
    refine ⟨hall, fun a => ?_⟩
    rw [foldl_cons, hmore a, hlogs a, savedLogs, append_assoc]
    congr 1
    rw [filed, filed, filed, ← map_append, ← filter_append]

lemma logsOf_storeAfter (vm : ContractVm) (tx : SmcTx) (header : PinTxHeader) (h : s.Shelved) :
    (vm.storeAfter tx header s).Shelved ∧
      ∀ a, (vm.storeAfter tx header s).logsOf a = s.logsOf a ++ filed tx.execHash (vm.saved tx header s) a :=
  h.applyAll tx.execHash _

/-! ## Walking the logs -/

def Storage.logsUnder (s : Storage) (hash : Bytes) (a : Address) : List StoredLog :=
  (s.logsOf a).filter (·.transactionHash = hash)

def StoredLog.listed (l : StoredLog) : TxExecLog := ⟨l.log.contractAddress, l.log.topics, []⟩

/-- The node that walks the logs of the contract `a` first. -/
def NodeEnv.startingWith (vm : ContractVm) (a : Address) : NodeEnv where
  vm := vm
  walk logs := (logs.lookup a).toList ++ FinMap.values (logs.erase a)
  walk_perm logs := (FinMap.perm_values_erase logs a).symm

lemma getLogsForTx_startingWith (vm : ContractVm) (hs : s.Shelved) (hash : Bytes) (a : Address) :
    ∃ others,
      getLogsForTx (NodeEnv.startingWith vm a) s hash = s.logsUnder hash a ++ others ∧
        ∀ l ∈ others, l.log.contractAddress ≠ a := by
  refine ⟨(values (s.logs.erase a)).flatten.filter (·.transactionHash = hash), ?_, ?_⟩
  · have hfirst : ((s.logs.lookup a).toList).flatten = s.logsOf a := by
      unfold logsOf FinMap.getD
      cases s.logs.lookup a with
      | none => rfl
      | some v => exact append_nil v
    show (((s.logs.lookup a).toList ++ values (s.logs.erase a)).flatten).filter _ = _
    rw [flatten_append, filter_append, hfirst]
    rfl
  · intro l hl
    obtain ⟨v, hv, hlv⟩ := mem_flatten.mp (mem_of_mem_filter hl)
    obtain ⟨b, hba, hb⟩ := mem_values_erase hv
    have hof : s.logsOf b = v := by
      unfold logsOf FinMap.getD
      rw [hb]
      rfl
    rw [hs.labelled b l (hof ▸ hlv)]
    exact hba

lemma getLogsForTx_of_single {hash : Bytes} {a : Address} (h : ∀ b ≠ a, s.logsUnder hash b = [])
    (env : NodeEnv) : getLogsForTx env s hash = s.logsUnder hash a := by
  have hothers : ∀ r ∈ (values (s.logs.erase a)).map
      (List.filter (·.transactionHash = hash)), r = [] := by
    intro r hr
    obtain ⟨v, hv, rfl⟩ := mem_map.mp hr
    obtain ⟨b, hba, hb⟩ := mem_values_erase hv
    have hunder := h b hba
    unfold logsUnder logsOf FinMap.getD at hunder
    rwa [hb] at hunder
  have hperm := ((env.walk_perm s.logs).trans (perm_values_erase s.logs a)).map
    (List.filter (·.transactionHash = hash))
  unfold getLogsForTx
  rw [filter_flatten]
  -- the walk is a permutation of the values, and all but that of `a` are filtered away
  cases ha : s.logs.lookup a with
  | none =>
    have hnone : s.logsUnder hash a = [] := by
      unfold logsUnder logsOf FinMap.getD
      rw [ha]
      rfl
    rw [ha] at hperm
    rw [hnone]
    exact flatten_eq_nil_iff.mpr fun r hr => hothers r (hperm.mem_iff.mp hr)
  | some v =>
    have hsome : s.logsUnder hash a = v.filter (·.transactionHash = hash) := by
      unfold logsUnder logsOf FinMap.getD
      rw [ha]
      rfl
    rw [ha] at hperm
    rw [hsome]
    exact flatten_eq_of_perm hperm hothers

/-- Every walk lists `target` if and only if one contract has all the logs, and they are
`target`. -/
theorem walks_list_iff (vm : ContractVm) (hs : s.Shelved) (hash : Bytes) (target : List TxExecLog) :
    (∀ env : NodeEnv, env.vm = vm → (getLogsForTx env s hash).map listed = target) ↔
      ∃ a, (∀ b ≠ a, s.logsUnder hash b = []) ∧ (s.logsUnder hash a).map listed = target := by
  constructor
  · intro h
    -- the first contract of the target is the only one with logs
    have hhead : ∀ a l rest, s.logsUnder hash a = l :: rest →
        target.head?.map TxExecLog.contractAddress = some a := by
      intro a l rest ha
      obtain ⟨others, hwalk, _⟩ := getLogsForTx_startingWith vm hs hash a
      have hl : l ∈ s.logsOf a :=
        mem_of_mem_filter (show l ∈ s.logsUnder hash a from ha ▸ mem_cons_self)
      rw [← h (.startingWith vm a) rfl, hwalk, ha]
      exact congrArg some (hs.labelled a l hl)
    by_cases hsome : ∃ a, s.logsUnder hash a ≠ []
    · obtain ⟨a, ha⟩ := hsome
      obtain ⟨l, rest, hla⟩ := exists_cons_of_ne_nil ha
      have honly : ∀ b ≠ a, s.logsUnder hash b = [] := by
        intro b hba
        by_contra hb
        obtain ⟨l', rest', hlb⟩ := exists_cons_of_ne_nil hb
        have hsame := (hhead b l' rest' hlb).symm.trans (hhead a l rest hla)
        exact hba (Option.some.inj hsame)
      refine ⟨a, honly, ?_⟩
      rw [← getLogsForTx_of_single honly (.inOrder vm)]
      exact h (.inOrder vm) rfl
    · have hnone : ∀ b, s.logsUnder hash b = [] := by
        intro b
        by_contra hb
        exact hsome ⟨b, hb⟩
      refine ⟨0, fun b _ => hnone b, ?_⟩
      rw [← getLogsForTx_of_single (fun b (_ : b ≠ 0) => hnone b) (.inOrder vm)]
      exact h (.inOrder vm) rfl
  · intro ⟨a, honly, htarget⟩ env _
    rw [getLogsForTx_of_single honly env, htarget]

/-! ## The receipt of a transaction -/

def Log.receipted (l : Log) : TxExecLog := ⟨l.contractAddress, l.topics, l.data⟩

/-- The receipt is looked up under the hash that the logs are stored under: so it is for a native
transaction; for an Ethereum transaction only if the two hashes collide. -/
def Transaction.HashesAgree (c : Crypto) (now : Int) : Transaction → Prop
  | .v1 _ => True
  | .eth t => ∀ sent, (Transaction.eth t).marshalBinary c now = .ok sent → c.ethHash t = c.hash sent

/-- When the receipt is exact. The logs are found: then none of them has data, all are of one
contract, and no logs were stored under the hash before. Or they are not found: then what
was stored under the hash before is taken for them. -/
def ReceiptExact (c : Crypto) (now : Int) (tx : Transaction) (hash : Bytes) (s : Storage)
    (saved : List Log) : Prop :=
  (tx.HashesAgree c now → (∀ a, s.logsUnder hash a = []) ∧ (∀ l ∈ saved, l.data = []) ∧
      ∃ a, ∀ l ∈ saved, l.contractAddress = a) ∧
    (¬ tx.HashesAgree c now → ∃ a, (∀ b ≠ a, s.logsUnder hash b = []) ∧
      (s.logsUnder hash a).map StoredLog.listed = saved.map Log.receipted)

lemma Transaction.hashesAgree_iff {c : Crypto} {now : Int} {binary : Bytes} {tx : Transaction}
    {smc : SmcTx} (h : tx.smcTx c now binary = .ok smc) :
    tx.HashesAgree c now ↔ smc.hash = smc.execHash := by
  cases tx with
  | v1 t =>
    cases h
    exact iff_of_true trivial rfl
  | eth t =>
    unfold smcTx at h
    cases hsent : (eth t).marshalBinary c now with
    | error e =>
      rw [hsent] at h
      cases h
    | ok sent =>
      rw [hsent] at h
      cases h
      constructor
      · exact fun hall => hall sent hsent
      · intro heq sent' hsent'
        rw [hsent] at hsent'
        cases hsent'
        exact heq

lemma hash_of_readResponse {hash : Bytes} {response : CallResponse}
    (h : readResponse hash response = .ok r) : r.hash = hash := by
  unfold readResponse at h
  by_cases hlocal : response.status = -2
  · rw [if_pos hlocal] at h
    cases hparse : parseVmError response.error with
    | error e | ok u => rw [hparse] at h; cases h
  · rw [if_neg hlocal] at h
    cases hgas : response.gasUsed with
    | none => rw [hgas] at h; cases h
    | some gasUsed =>
      rw [hgas] at h
      dsimp only at h
      split at h
      · cases hout : failureOutput response.error response.msg with
        | error e => rw [hout] at h; cases h
        | ok out => rw [hout] at h; cases h; rfl
      · cases h
        rfl

lemma ok_executeSMCTx {vm : ContractVm} {tx : SmcTx} {header : PinTxHeader} {s' : Storage}
    (h : executeSMCTx vm tx header s = .ok r s') :
    s' = vm.storeAfter tx header s ∧ r.hash = tx.hash := by
  rw [executeSMCTx_eq] at h
  split at h <;> cases h
  next hresult =>
  refine ⟨rfl, ?_⟩
  unfold ContractVm.result at hresult
  split at hresult
  · cases hresult
  · exact hash_of_readResponse hresult

lemma logsUnder_storeAfter (vm : ContractVm) (tx : SmcTx) (header : PinTxHeader) (h : s.Shelved)
    (a : Address) :
    (vm.storeAfter tx header s).logsUnder tx.hash a = s.logsUnder tx.hash a ++
      if tx.hash = tx.execHash then filed tx.hash (vm.saved tx header s) a else [] := by
  unfold logsUnder
  rw [(logsOf_storeAfter vm tx header h).2 a, filter_append]
  congr 1
  by_cases hsame : tx.hash = tx.execHash
  · rw [if_pos hsame, ← hsame]
    refine filter_eq_self.mpr fun l hl => ?_
    obtain ⟨_, _, rfl⟩ := mem_map.mp hl
    exact decide_eq_true rfl
  · rw [if_neg hsame]
    refine filter_eq_nil_iff.mpr fun l hl => ?_
    obtain ⟨_, _, rfl⟩ := mem_map.mp hl
    simpa using fun heq : tx.execHash = tx.hash => hsame heq.symm

lemma ok_of_attempt {σ α : Type} {m : Go σ α} {s s' : σ} {a : α}
    (h : attempt m s = .ok (some a) s') : m s = .ok a s' := by
  unfold attempt at h
  cases hm : m s with
  | ok a' s1 => rw [hm] at h; cases h; rfl
  | err e s1 => rw [hm] at h; cases e <;> cases h
  | diverge => rw [hm] at h; cases h

/-- Every receipt of a pin is that of a transaction executed on such a store. -/
theorem recorded_receipts (env : NodeEnv) (header : PinTxHeader) (txs : List SmcTx) :
    ∀ {s s' : Storage} {done : List ExecutedSmcTx}, s.Shelved →
      executeAll env header txs s = .ok done s' → ∀ t ∈ done, ∃ s1 s2 r, s1.Shelved ∧
        executeSMCTx env.vm t.tx header s1 = .ok r s2 ∧ t.receipt = execResultToReceipt env s2 r := by
  induction txs with
  | nil =>
    intro s s' done _ h t ht
    obtain ⟨rfl, -⟩ := Outcome.ok.inj h
    cases ht
  | cons tx txs ih =>
    intro s s' done hs h
    obtain ⟨r, s1, hone, hrest⟩ := Prog.bind_eq_ok.mp h
    have hs1 : s1.Shelved := by
      rw [attempt_execute hone]
      exact (logsOf_storeAfter env.vm tx header hs).1
    cases r with
    | none => exact ih hs1 hrest
    | some result =>
      obtain ⟨receipt, s2, hreceipt, hrest⟩ := Prog.bind_eq_ok.mp hrest
      obtain ⟨rfl, rfl⟩ := Outcome.ok.inj hreceipt
      obtain ⟨rest, s3, hloop, hend⟩ := Prog.bind_eq_ok.mp hrest
      obtain ⟨rfl, -⟩ := Outcome.ok.inj hend
      intro t ht
      rcases mem_cons.mp ht with rfl | ht
      · exact ⟨s, s1, result, hs, ok_of_attempt hone, rfl⟩
      · exact ih hs1 hloop t ht

section Found

variable {old : Address → List StoredLog} {saved : List Log} (hash : Bytes)

lemma filed_of_single {a : Address} (h : ∀ l ∈ saved, l.contractAddress = a) :
    filed hash saved a = saved.map (⟨·, hash⟩) ∧ ∀ b ≠ a, filed hash saved b = [] := by
  unfold filed
  constructor
  · rw [filter_eq_self.mpr fun l hl => decide_eq_true (h l hl)]
  intro b hb
  have hnone : saved.filter (·.contractAddress = b) = [] := by
    refine filter_eq_nil_iff.mpr fun l hl => ?_
    rw [h l hl]
    simpa using fun heq : a = b => hb heq.symm
  rw [hnone, map_nil]

lemma map_listed_iff : (saved.map (⟨·, hash⟩ : Log → StoredLog)).map listed =
    saved.map Log.receipted ↔ ∀ l ∈ saved, l.data = [] := by
  rw [map_map, map_inj_left]
  simp only [Function.comp, listed, Log.receipted, TxExecLog.mk.injEq, true_and]
  exact forall₂_congr fun _ _ => eq_comm

lemma found_iff : (∃ a, (∀ b ≠ a, old b ++ filed hash saved b = []) ∧
      (old a ++ filed hash saved a).map listed = saved.map Log.receipted) ↔
    (∀ a, old a = []) ∧ (∀ l ∈ saved, l.data = []) ∧ ∃ a, ∀ l ∈ saved, l.contractAddress = a := by
  constructor
  · intro ⟨a, hothers, hlisted⟩
    have hone : ∀ l ∈ saved, l.contractAddress = a := by
      intro l hl
      by_contra hne
      have hmem : (⟨l, hash⟩ : StoredLog) ∈ filed hash saved l.contractAddress :=
        mem_map.mpr ⟨l, mem_filter.mpr ⟨hl, decide_eq_true rfl⟩, rfl⟩
      rw [(append_eq_nil_iff.mp (hothers _ hne)).2] at hmem
      cases hmem
    have hfiled := (filed_of_single hash hone).1
    -- as many logs are listed as were saved, so none was there before
    have hlength := congrArg List.length hlisted
    simp only [hfiled, length_map, length_append] at hlength
    have hold : old a = [] := eq_nil_of_length_eq_zero (by omega)
    rw [hold, nil_append, hfiled, map_listed_iff] at hlisted
    refine ⟨fun b => ?_, hlisted, a, hone⟩
    by_cases hb : b = a
    · rw [hb, hold]
    · exact (append_eq_nil_iff.mp (hothers b hb)).1
  · intro ⟨hold, hdata, a, hone⟩
    obtain ⟨hfiled, hnone⟩ := filed_of_single hash hone
    refine ⟨a, fun b hb => ?_, ?_⟩
    · rw [hold b, hnone b hb, append_nil]
    · rw [hold a, nil_append, hfiled, map_listed_iff]
      exact hdata

end Found

/-- **The receipt lists exactly the logs that the VM saved, in saving order**, if and only if this
was to be expected before the execution. The Go map may be walked in any order. -/
theorem receipt_logs_iff {c : Crypto} {now : Int} {binary : Bytes} {tx : Transaction}
    {smc : SmcTx} (hsent : tx.smcTx c now binary = .ok smc) (vm : ContractVm)
    (header : PinTxHeader) {s s' : Storage} {r : ExecutionResult} (hs : s.Shelved)
    (hexec : executeSMCTx vm smc header s = .ok r s') :
    (∀ env : NodeEnv, env.vm = vm →
        (execResultToReceipt env s' r).logs = (vm.saved smc header s).map Log.receipted) ↔
      ReceiptExact c now tx smc.hash s (vm.saved smc header s) := by
  obtain ⟨rfl, hhash⟩ := ok_executeSMCTx hexec
  have hlogs : ∀ env : NodeEnv, (execResultToReceipt env (vm.storeAfter smc header s) r).logs =
      (getLogsForTx env (vm.storeAfter smc header s) smc.hash).map listed := by
    intro env
    show (getLogsForTx env _ r.hash).map listed = _
    rw [hhash]
  simp only [hlogs]
  rw [walks_list_iff vm (logsOf_storeAfter vm smc header hs).1]
  simp only [logsUnder_storeAfter vm smc header hs]
  unfold ReceiptExact
  rw [hashesAgree_iff hsent]
  by_cases hsame : smc.hash = smc.execHash
  · simp only [hsame, if_true, forall_true_left, not_true_eq_false, false_implies, and_true]
    exact found_iff smc.execHash
  · simp only [hsame, if_false, append_nil, not_false_eq_true, forall_true_left, false_implies, true_and]

def sampleEmitting (l : Log) : ContractVm where
  requests _ _ _ := [.saveLogs [l]]
  response _ _ _ := some ⟨[], [], 0, some 21000⟩
  nested _ _ _ := rfl

def sampleDeployed : Storage := Storage.new.putAccount 7 .blank

def sampleEventCall : Txv1 :=
  ⟨.callContract, 0, List.replicate 32 1, smallAddress 500, smallAddress 7, [], 0, 0, [], [], [],
    List.replicate 64 0⟩

def sampleEventSent : SmcTx := ⟨Crypto.sample.hash sampleEventCall, Crypto.sample.hash sampleEventCall, []⟩

/-- It has an answer for transactions without a binary form. -/
def sampleNode : NodeEnv :=
  .inOrder { sampleEmitting ⟨7, [3], [], 0⟩ with
    response := fun tx _ _ => if tx.binary = [] then some ⟨[], [], 0, some 21000⟩ else none }

/-- Of two transactions the first one is dropped. -/
theorem event_receipt_recorded :
    ∃ t s', executeAll sampleNode ⟨0, 1⟩ [⟨[1], [1], [1]⟩, sampleEventSent] sampleDeployed = .ok [t] s' ∧
      t.tx = sampleEventSent ∧ ∃ s1 s2 r, s1.Shelved ∧ executeSMCTx sampleNode.vm t.tx ⟨0, 1⟩ s1 = .ok r s2 ∧
        t.receipt = execResultToReceipt sampleNode s2 r :=
  ⟨_, _, rfl, rfl, recorded_receipts _ _ [⟨[1], [1], [1]⟩, sampleEventSent] (shelved_new.putAccount 7 .blank).1 rfl _
    (mem_singleton_self _)⟩

theorem bare_event_listed :
    (execResultToReceipt (.inOrder (sampleEmitting ⟨7, [3], [], 0⟩))
        ((sampleEmitting ⟨7, [3], [], 0⟩).storeAfter sampleEventSent ⟨0, 1⟩ sampleDeployed)
        ⟨sampleEventSent.hash, true, [], 21000⟩).logs =
      ((sampleEmitting ⟨7, [3], [], 0⟩).saved sampleEventSent ⟨0, 1⟩ sampleDeployed).map Log.receipted := by
  obtain ⟨hs, hlogs⟩ := shelved_new.putAccount 7 .blank
  have hsaved : (sampleEmitting ⟨7, [3], [], 0⟩).saved sampleEventSent ⟨0, 1⟩ sampleDeployed =
      [⟨7, [3], [], 0⟩] := by decide +kernel
  refine (receipt_logs_iff (smcTx_v1 .sample 0 [] sampleEventCall) _ ⟨0, 1⟩ hs
    rfl).mpr ⟨fun _ => ⟨fun a => ?_, ?_, 7, ?_⟩, fun hnot => absurd trivial hnot⟩
    (.inOrder (sampleEmitting ⟨7, [3], [], 0⟩)) rfl
  · unfold logsUnder
    rw [hlogs]
    rfl
  · exact hsaved ▸ forall_mem_singleton.mpr rfl
  · exact hsaved ▸ forall_mem_singleton.mpr rfl

/-- **The data of an event is missing.** The contract 7 saves one log with a topic and the data
`[1]`; the receipt has the topic, and no data. -/
theorem receipt_loses_data :
    (Transaction.v1 sampleEventCall).smcTx .sample 0 [] = .ok sampleEventSent ∧
      sampleDeployed.Shelved ∧
      executeSMCTx (sampleEmitting ⟨7, [3], [1], 0⟩) sampleEventSent ⟨0, 1⟩ sampleDeployed =
        .ok ⟨sampleEventSent.hash, true, [], 21000⟩
          ((sampleEmitting ⟨7, [3], [1], 0⟩).storeAfter sampleEventSent ⟨0, 1⟩ sampleDeployed) ∧
      ((sampleEmitting ⟨7, [3], [1], 0⟩).saved sampleEventSent ⟨0, 1⟩ sampleDeployed).map
        Log.receipted = [⟨7, [3], [1]⟩] ∧
      (execResultToReceipt (.inOrder (sampleEmitting ⟨7, [3], [1], 0⟩))
        ((sampleEmitting ⟨7, [3], [1], 0⟩).storeAfter sampleEventSent ⟨0, 1⟩ sampleDeployed)
        ⟨sampleEventSent.hash, true, [], 21000⟩).logs = [⟨7, [3], []⟩] :=
  ⟨rfl, (shelved_new.putAccount 7 .blank).1, rfl, by decide +kernel, by decide +kernel⟩

end GrapeDag
