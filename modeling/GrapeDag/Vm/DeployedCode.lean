/-
CODE THAT IS DEPLOYED STAYS.

A create frame refuses a target that has a nonce or code. It asks for the HASH of the code, and
the node's hasher is never fed the code, so code is never seen; a new contract starts with nonce
0. And while init code runs, a nested create may land on the same address; the outer frame then
stores its own code over what the inner one has deployed. `codeGuard` excludes the two.

Main result: `deployed_code_immutable`.
-/
import GrapeDag.State.Faithful
import GrapeDag.Vm.Nonces

namespace GrapeDag

open Imperative Prog World

/-! ## The condition on creates -/

/-- The target of a create has a nonce, so that the create collides; or it has no code and is not
executing. -/
def codeGuard (m : Machine) : Guard where
  instruction _ := true
  call _ _ := true
  create a w := (createTarget m a w ≠ a.caller.address ∧ w.getNonce (createTarget m a w) ≠ 0) ∨
    (w.getContractCode (createTarget m a w) = [] ∧ createTarget m a w ∉ a.caller.addresses)

lemma Fresh.codeless {m : Machine} {chain : List Address} {a : CreateArgs} {w0 w : World}
    (h : Fresh m (codeGuard m) chain a w0 w) :
    w.getContractCode (createTarget m a w0) = [] ∧ createTarget m a w0 ∉ chain := by
  have hguard := of_decide_eq_true h.guard
  rcases hguard with ⟨hother, hnonce⟩ | ⟨hcode, hidle⟩
  · -- the collision check has seen the nonce
    have hzero := h.nonce
    rw [h.nonces _ hother] at hzero
    exact absurd hzero hnonce
  · rw [h.code, ← h.caller]
    exact ⟨hcode, hidle⟩

/-! ## Code along a history -/

def codeIn (accounts : Address → Option StoredAccount) (x : Address) : Bytes :=
  match accounts x with
  | none => []
  | some account => account.code

/-- Only creates write code: the code `c` of `x` stays if no create lands on `x` while it has
this code, and none stores its output there. -/
theorem code_stable {m : Machine} {g : Guard} {C : List Address → Prop} {x : Address} {c : Bytes}
    (hnest : ∀ {self chain}, C chain → C (self :: chain))
    (hcreated : ∀ {chain a w0 w}, C chain → Fresh m g chain a w0 w → createTarget m a w0 = x →
      w.getContractCode x ≠ c)
    (hdeployed : ∀ {chain b a w0 w w1 w2}, C chain → Fresh m g chain a w0 w →
      createTarget m a w0 = x → Endowed a x (w.putAccount x .blank) w1 →
      Hist m g (x :: chain) b (w1.entered false) w2 → w2.getContractCode x ≠ c) :
    StableAccounts m g C (fun acc => codeIn acc x = c) := by
  -- writing an account with the code it had
  have hput : ∀ {w : World} {y : Address} {account : StoredAccount},
      w.getContractCode y = account.code → w.getContractCode x = c →
      (w.putAccount y account).getContractCode x = c := by
    intro w y account hsame hc
    rw [getContractCode_putAccount]
    by_cases hx : x = y
    · rw [if_pos hx, ← hsame, ← hx]
      exact hc
    · rw [if_neg hx]
      exact hc
  have hkeep : ∀ {w : World} {y : Address} {account account' : StoredAccount},
      w.getAccount y = some account → account'.code = account.code → w.getContractCode x = c →
      (w.putAccount y account').getContractCode x = c := by
    intro w y account account' hacc hcode hc
    refine hput ?_ hc
    rw [getContractCode_eq hacc, hcode]
  refine ⟨hnest, ?_, ?_, ?_, ?_, ?_, ?_⟩
  · intro chain f w beneficiary account _ _ _ _ hacc hc
    exact hkeep hacc rfl hc
  · intro w a habs hc
    refine hput ?_ hc
    unfold getContractCode
    rw [habs]
    rfl
  · intro source target value w w' _ hmoved hc
    obtain ⟨s, t, hs, ht, rfl⟩ := hmoved.moved
    exact hkeep ht rfl (hkeep hs rfl hc)
  · intro chain a w account _ _ _ hacc _ hc
    exact hkeep hacc rfl hc
  · -- a new account over the target of a create
    intro chain a w0 w hC hfresh hc
    have hne : x ≠ createTarget m a w0 := fun heq => hcreated hC hfresh heq.symm hc
    show (w.putAccount (createTarget m a w0) .blank).getContractCode x = c
    rw [getContractCode_putAccount, if_neg hne]
    exact hc
  · -- the output of the init code
    intro chain b a w0 w w1 w2 account code hC hfresh hpaid hrun _ hc
    have hne : x ≠ createTarget m a w0 := by
      intro heq
      subst heq
      exact hdeployed hC hfresh rfl hpaid hrun hc
    show (w2.putAccount (createTarget m a w0) _).getContractCode x = c
    rw [getContractCode_putAccount, if_neg hne]
    exact hc

section

variable {m : Machine} {chain : List Address} {b : Bool} {w w' : World} {x : Address}

lemma Hist.code_executing (h : Hist m (codeGuard m) chain b w w') (hx : x ∈ chain) :
    w'.getContractCode x = w.getContractCode x := by
  have hstable : StableAccounts m (codeGuard m) (fun chain => x ∈ chain)
      (fun acc => codeIn acc x = w.getContractCode x) := by
    refine code_stable (fun hC => List.mem_cons_of_mem _ hC) ?_ ?_
    · intro chain a w0 w hC hfresh htarget _
      exact hfresh.codeless.2 (htarget ▸ hC)
    · intro chain b a w0 w w1 w2 hC hfresh htarget _ _ _
      exact hfresh.codeless.2 (htarget ▸ hC)
  exact h.keeps hstable.stable hx rfl

lemma Endowed.getContractCode {a : CreateArgs} (h : Endowed a x w w') (y : Address) :
    w'.getContractCode y = w.getContractCode y := by
  rcases h with ⟨_, rfl⟩ | ⟨_, hmoved⟩
  · rfl
  obtain ⟨s, t, hs, ht, rfl⟩ := hmoved.moved
  have hsame : ∀ {v : World} {z : Address} {account : StoredAccount} (balance : Int),
      v.getAccount z = some account →
      (v.putAccount z { account with balance := balance }).getContractCode y = v.getContractCode y := by
    intro v z account balance hacc
    rw [getContractCode_putAccount]
    by_cases hy : y = z
    · rw [if_pos hy, hy, getContractCode_eq hacc]
    · rw [if_neg hy]
  rw [hsame _ ht, hsame _ hs]

lemma Hist.code_kept (h : Hist m (codeGuard m) chain b w w') (hne : w.getContractCode x ≠ []) :
    w'.getContractCode x = w.getContractCode x := by
  have hstable : StableAccounts m (codeGuard m) (fun _ => True)
      (fun acc => codeIn acc x = w.getContractCode x) := by
    refine code_stable (fun _ => trivial) ?_ ?_
    · intro chain a w0 v _ hfresh htarget hcode
      have hempty := hfresh.codeless.1
      rw [htarget, hcode] at hempty
      exact hne hempty
    · -- the address executes while its init code runs, so it has no code at the end either
      intro chain b a w0 v w1 w2 _ _ _ hpaid hrun hcode
      have hstart : (w1.entered false).getContractCode x = [] := by
        show w1.getContractCode x = []
        rw [hpaid.getContractCode, getContractCode_putAccount, if_pos rfl]
        rfl
      rw [hrun.code_executing List.mem_cons_self, hstart] at hcode
      exact hne hcode.symm
  exact h.keeps hstable.stable trivial rfl

end

/-! ## Messages -/

/-- Outside of static calls, the code of `x` stays if there is any. -/
def KeepsCode (x : Address) (w w' : World) : Prop := w.readOnly = false →
    w'.readOnly = false ∧ (w.getContractCode x ≠ [] → w'.getContractCode x = w.getContractCode x)

instance (x : Address) : IsPreorder World (KeepsCode x) where
  refl _ hro := ⟨hro, fun _ => rfl⟩
  trans w w1 w2 h h' hro := by
    obtain ⟨hro₁, hcode₁⟩ := h hro
    obtain ⟨hro₂, hcode₂⟩ := h' hro₁
    refine ⟨hro₂, fun hne => ?_⟩
    have heq := hcode₁ hne
    rw [hcode₂ (heq ▸ hne), heq]

section

variable {x : Address}

lemma KeepsCode.of_hist {m : Machine} {chain : List Address} {b : Bool} {w w' : World}
    (h : Hist m (codeGuard m) chain b w w') : KeepsCode x w w' := by
  intro hro
  exact ⟨h.settled.2.trans hro, h.code_kept⟩

lemma keepsCode_update (a : Address) {f : StoredAccount → StoredAccount}
    (hf : ∀ account, (f account).code = account.code) :
    Keeps (KeepsCode x) (rpc (Storage.updateAccount a f)) := by
  refine ⟨fun w => ?_⟩
  rw [wp_rpc, Storage.wp_updateAccount]
  refine ⟨fun _ hro => ⟨hro, fun _ => rfl⟩, ?_⟩
  intro account hacc hro
  refine ⟨hro, fun _ => ?_⟩
  show (w.putAccount a (f account)).getContractCode x = w.getContractCode x
  rw [getContractCode_putAccount]
  by_cases hx : x = a
  · rw [if_pos hx, hf, hx]
    exact (getContractCode_eq hacc).symm
  · rw [if_neg hx]

variable (e : Execution) (msg : Message) (n : Nat)

abbrev codeVm : Calls := vmGuarded (e.machine msg) (codeGuard (e.machine msg)) n

lemma keepsCode_executeContract (gas : Int) :
    Keeps (KeepsCode x) (executeContract (codeVm e msg n) msg gas) := by
  have hrec : Recorded (e.machine msg) (codeGuard (e.machine msg)) false (codeVm e msg n) :=
    vm_recorded n
  refine ⟨fun w => ?_⟩
  by_cases hro : w.readOnly = false
  · refine wp_executeContract (fun _ => ?_) fun receiver _ w1 hw1 => ?_
    · exact (hrec.create _ w hro).mono (fun _ _ h => .of_hist h.1) (fun _ _ h => .of_hist h)
    -- the raised nonce changes no code
    have hraised : KeepsCode x w w1 := by
      intro _
      rcases hw1 with ⟨_, rfl⟩ | ⟨account, hacc, rfl⟩
      · exact ⟨hro, fun _ => rfl⟩
      refine ⟨hro, fun _ => ?_⟩
      rw [getContractCode_putAccount]
      by_cases hx : x = msg.sender
      · rw [if_pos hx, hx]
        exact (getContractCode_eq hacc).symm
      · rw [if_neg hx]
    have hlegal : w1.readOnly = true → CallKind.call = .call → msg.amount = 0 := by
      intro htrue
      rw [(hraised hro).1] at htrue
      cases htrue
    refine (hrec.executeCall ⟨.call, msg.caller, receiver, msg.data, gas, msg.amount⟩ w1 hlegal).mono ?_ ?_
    · exact fun _ _ h => trans_of (KeepsCode x) hraised (.of_hist h.1)
    · exact fun _ _ h => trans_of (KeepsCode x) hraised (.of_hist h)
  · exact .of_forall (fun _ _ h => absurd h hro) (fun _ _ h => absurd h hro)

lemma keepsCode_settle (initialGas gasPrice : Int) (result : VmResult) :
    Keeps (KeepsCode x) (settle e msg initialGas gasPrice result) := by
  have hrefund : Keeps (KeepsCode x) (refundGas e.cfg msg initialGas gasPrice result.gas) := by
    refine .bind (.gets _) fun counter => .bind (.liftM _) fun gasUsed => ?_
    refine .bind (.liftM _) fun cap => .bind (.liftM _) fun gas => ?_
    exact .bind (keepsCode_update _ fun _ => rfl) fun _ => .pure _
  refine .bind hrefund fun paid => ?_
  refine .bind (.liftM _) fun usedGas => .bind (.liftM _) fun _ => ?_
  exact .ite (.bind (keepsCode_update _ fun _ => rfl) fun _ => .pure _) (.pure _)

lemma keepsCode_executeMessage : Keeps (KeepsCode x) (executeMessage e (codeVm e msg n) msg) := by
  refine .catching (.bind ?_ fun result => .liftM _) fun _ => .pure _
  refine .bind (.liftM _) fun initialGas => .bind (.liftM _) fun gasPrice => ?_
  refine .bind (keeps_preCheck msg) fun _ => ?_
  refine .bind (keeps_buyGas (fun _ _ => keepsCode_update _ fun _ => rfl) msg _ _) fun _ => ?_
  refine .bind (keeps_startGas e msg _) fun gas => ?_
  exact .bind (keepsCode_executeContract e msg n gas) fun result => keepsCode_settle e msg _ _ _

end

/-! ## Sequences of messages -/

/-- The node's store before and after a sequence of messages, each executed with some fuel on what
the one before left, and each meeting the condition `P`. -/
inductive Executed (P : Execution → Message → Nat → Storage → Prop) : Storage → Storage → Prop
  | none (s : Storage) : Executed P s s
  | message {s s' : Storage} (e : Execution) (msg : Message) (n : Nat) {receipt : Receipt}
      {w : World} (hmeets : P e msg n s)
      (hrun : executeMessage e (vm (e.machine msg) n) msg (World.start s) = .ok receipt w)
      (hrest : Executed P w.storage s') : Executed P s s'

/-- Every create of the message, at every depth, meets the condition. -/
def CreatesMeet (e : Execution) (msg : Message) (n : Nat) (s : Storage) : Prop :=
  ApplyMeets e (codeGuard (e.machine msg)) n msg (World.start s)

lemma Executed.code_kept {s s' : Storage} (h : Executed CreatesMeet s s') {x : Address}
    (hne : s.codeAt x ≠ []) : s'.codeAt x = s.codeAt x := by
  induction h with
  | none s => rfl
  | @message s s' e msg n receipt w hmeets hrun _ ih =>
    have hguarded : executeMessage e (codeVm e msg n) msg (start s) = .ok receipt w := by
      rw [← hrun]
      unfold executeMessage Prog.catching
      rw [Prog.bind_apply, Prog.bind_apply, hmeets]
    have hkept : KeepsCode x (start s) w :=
      ((keepsCode_executeMessage e msg n).wp (start s)).of_ok hguarded
    have hcode : w.storage.codeAt x = s.codeAt x := (hkept rfl).2 hne
    rw [ih (hcode ▸ hne), hcode]

/-! ## The collision -/

lemma raiseNonce_ok (a : CreateArgs) (w : World) :
    ∃ w1, setNonce a.caller.address (w.getNonce a.caller.address + 1) w = .ok () w1 ∧
      NonceRaised a w w1 := by
  have hraise := wp_raiseNonce a w
  cases hrun : setNonce a.caller.address (w.getNonce a.caller.address + 1) w with
  | ok u w1 => exact ⟨w1, rfl, hraise.of_ok hrun⟩
  | err ex w1 => exact (hraise.of_err hrun).elim
  | diverge => exact absurd hrun (ne_diverge w)

lemma create_collides (m : Machine) (n : Nat) (a : CreateArgs) (w : World)
    (hg : (codeGuard m).create a w = true) (hcode : w.getContractCode (createTarget m a w) ≠ []) :
    ∃ r w', (vm m (n + 1)).create a w = .ok r w' ∧ r.hasError = true ∧
      (refusal m a.caller.address a.amount w = none →
        ¬ wrap64 (w.getNonce a.caller.address + 1) < w.getNonce a.caller.address →
        r.status = .contractAddressCollision) ∧
      ∀ x, w'.getContractCode x = w.getContractCode x := by
  -- the guard leaves only the case that the target has a nonce
  have hnonce : createTarget m a w ≠ a.caller.address ∧ w.getNonce (createTarget m a w) ≠ 0 := by
    rcases of_decide_eq_true hg with hnonce | ⟨hempty, _⟩
    · exact hnonce
    · exact absurd hempty hcode
  show ∃ r w', GrapeDag.create m _ a w = .ok r w' ∧ _
  unfold GrapeDag.create
  rw [Prog.gets_bind]
  cases hr : refusal m a.caller.address a.amount w with
  | some st =>
    simp only [id, hr]
    refine ⟨_, w, rfl, ?_, nofun, fun _ => rfl⟩
    unfold refusal at hr
    split at hr
    · obtain rfl := Option.some.inj hr
      rfl
    · split at hr
      · obtain rfl := Option.some.inj hr
        rfl
      · cases hr
  | none =>
    simp only [id, hr]
    by_cases hover : wrap64 (w.getNonce a.caller.address + 1) < w.getNonce a.caller.address
    · rw [if_pos hover]
      exact ⟨_, w, rfl, rfl, fun _ h => absurd hover h, fun _ => rfl⟩
    rw [if_neg hover]
    obtain ⟨w1, hset, hraised⟩ := raiseNonce_ok a w
    have hseen : w1.getNonce (createTarget m a w) ≠ 0 := by
      rw [hraised.nonces _ hnonce.1]
      exact hnonce.2
    rw [Prog.bind_of_ok hset, Prog.gets_bind, if_pos (.inl hseen)]
    exact ⟨_, w1, rfl, rfl, fun _ _ => rfl, fun x => (hraised.reads x).1⟩

/-- **DEPLOYED CODE IS IMMUTABLE** over every sequence of messages whose creates all meet the
condition, and a create at an address with code fails with a collision, unless depth, funds or the
caller's nonce have refused it before. -/
theorem deployed_code_immutable (s s' : Storage) (m : Machine) (n : Nat) :
    (Executed CreatesMeet s s' → ∀ x, s.codeAt x ≠ [] → s'.codeAt x = s.codeAt x) ∧
    (∀ (a : CreateArgs) (w : World), (codeGuard m).create a w = true →
      w.getContractCode (createTarget m a w) ≠ [] →
      ∃ r w', (vm m (n + 1)).create a w = .ok r w' ∧ r.hasError = true ∧
        (refusal m a.caller.address a.amount w = none →
          ¬ wrap64 (w.getNonce a.caller.address + 1) < w.getNonce a.caller.address →
          r.status = .contractAddressCollision) ∧
        ∀ x, w'.getContractCode x = w.getContractCode x) :=
  ⟨fun h _ hne => h.code_kept hne, create_collides m n⟩

/-- Stand-ins for the libraries with a hash that has NO collisions. -/
def CryptoLib.hashing : CryptoLib :=
  { CryptoLib.sample with keccak256 := fun data => if data = [] then keccak256Null else 1 :: data }

lemma CryptoLib.hashing_injective : Function.Injective CryptoLib.hashing.keccak256 := by
  have hnull : keccak256Null.head? = some 0xc5 := by decide
  intro d d' h
  have h : (if d = [] then keccak256Null else 1 :: d) = if d' = [] then keccak256Null else 1 :: d' := h
  by_cases hd : d = []
  · by_cases hd' : d' = []
    · rw [hd, hd']
    · rw [if_pos hd, if_neg hd'] at h
      rw [h] at hnull
      exact absurd hnull (by simp)
  · by_cases hd' : d' = []
    · rw [if_neg hd, if_pos hd'] at h
      rw [← h] at hnull
      exact absurd hnull (by simp)
    · rw [if_neg hd, if_neg hd'] at h
      exact (List.cons.inj h).2

def Execution.hashing : Execution := { Execution.sample with crypto := .hashing }

/-- A factory: `CREATE2` with a fixed salt, handing on its call value, of init code that returns its
call value as one byte of code. -/
def factoryCode : Bytes := [0x68, 0x34, 0x60, 0, 0x53, 0x60, 1, 0x60, 0, 0xf3, 0x60, 0, 0x52,
    0x60, 99, 0x60, 9, 0x60, 23, 0x34, 0xf5, 0]

def Message.deploying (nonce value : Nat) : Message := { Message.sample 200000 with
    nonce := nonce
    amount := value
    nonce_nonneg := Int.natCast_nonneg nonce
    amount_nonneg := Int.natCast_nonneg value }

/-- The second message through the factory finds the code of the first one and REPLACES it. -/
theorem code_replaced : Function.Injective CryptoLib.hashing.keccak256 ∧ ∃ r1 w1 r2 w2,
      executeMessage .hashing (vm (Execution.hashing.machine (.deploying 0 1)) 30) (.deploying 0 1)
        (World.start (.sample 0 factoryCode)) = .ok r1 w1 ∧
      executeMessage .hashing (vm (Execution.hashing.machine (.deploying 1 2)) 30) (.deploying 1 2)
        (World.start w1.storage) = .ok r2 w2 ∧
      w1.storage.codeAt 99 = [1] ∧ w2.storage.codeAt 99 = [2] := by
  refine ⟨CryptoLib.hashing_injective, ?_⟩
  obtain ⟨r1, w1, hrun1, r2, w2, h⟩ : ∃ r1 w1,
      executeMessage .hashing (vm (Execution.hashing.machine (.deploying 0 1)) 30) (.deploying 0 1)
        (start (.sample 0 factoryCode)) = .ok r1 w1 ∧ ∃ r2 w2,
      executeMessage .hashing (vm (Execution.hashing.machine (.deploying 1 2)) 30) (.deploying 1 2)
        (start w1.storage) = .ok r2 w2 ∧
      w1.storage.codeAt 99 = [1] ∧ w2.storage.codeAt 99 = [2] := by decide +kernel
  exact ⟨r1, w1, r2, w2, hrun1, h⟩

def World.sampleCreator : World :=
  .start (.holding [(1, .holding 100 []), (500, { StoredAccount.holding 0 [1] with nonce := 1 })])

theorem factory_keeps_code :
    (∃ s', Executed CreatesMeet (.sample 0 factoryCode) s' ∧ s'.codeAt 500 = factoryCode) ∧
    ∃ r w', (vm .sample 5).create ⟨.create2, .account 1 0, [], 100, 0, 500⟩ .sampleCreator
        = .ok r w' ∧ r.status = .contractAddressCollision := by
  refine ⟨?_, ?_⟩
  · let m := Execution.hashing.machine (.deploying 0 1)
    obtain ⟨hmeets, -⟩ := (apply_below .hashing (vmGuarded_below m (codeGuard m) 30)
      (.deploying 0 1)).returns (s := start (.sample 0 factoryCode)) (P := fun _ _ => True)
      (by decide +kernel)
    obtain ⟨r, w, hrun⟩ : ∃ r w, executeMessage .hashing (vm m 30) (.deploying 0 1)
        (start (.sample 0 factoryCode)) = .ok r w := by decide +kernel
    have hexec : Executed CreatesMeet (.sample 0 factoryCode) w.storage :=
      .message .hashing (.deploying 0 1) 30 hmeets hrun (.none _)
    have hcode : (Storage.sample 0 factoryCode).codeAt 500 = factoryCode := by decide +kernel
    have hkept := (deployed_code_immutable _ _ m 30).1 hexec 500 (by rw [hcode]; decide)
    exact ⟨w.storage, hexec, hkept.trans hcode⟩
  · obtain ⟨r, w', hrun, _, hstatus, _⟩ := (deployed_code_immutable .new .new .sample 4).2
      ⟨.create2, .account 1 0, [], 100, 0, 500⟩ .sampleCreator (by decide +kernel)
      (by decide +kernel)
    exact ⟨r, w', hrun, hstatus (by decide +kernel) (by decide +kernel)⟩

end GrapeDag
