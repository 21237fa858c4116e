/-
WHAT EVERY HISTORY KEEPS.

A property of the store that every primitive step keeps is kept by every run: a revert only ever
leads back to a point that was marked during the run, and the property held there too.
-/
import GrapeDag.Vm.History

namespace GrapeDag

open Imperative GrapeDag.Frame Prog Storage

/-! ## Primitive steps are journalled -/

def World.observed (w : World) : Observed := w.storage.observed

/-- The store grew by writes, with no checkpoint set or dropped. -/
structure World.Wrote (w w' : World) : Prop where
  grows : w.storage.Grows w'.storage
  marks : w'.storage.checkPoints = w.storage.checkPoints

namespace World.Wrote

lemma of_storage_eq {w w' : World} (h : w'.storage = w.storage) : World.Wrote w w' := by
  refine ⟨?_, by rw [h]⟩
  rw [h]
  exact .refl _

lemma trans {w w1 w2 : World} (h1 : World.Wrote w w1) (h2 : World.Wrote w1 w2) :
    World.Wrote w w2 := ⟨h1.grows.trans h2.grows, h2.marks.trans h1.marks⟩

lemma putAccount (w : World) (a : Address) (account : StoredAccount) :
    World.Wrote w (w.putAccount a account) := ⟨grows_putAccount _ _ _, rfl⟩

lemma putValue (w : World) (a : Address) (k : Word) (v : Bytes) :
    World.Wrote w { w with storage := w.storage.putValue a k v } := by
  refine ⟨grows_putValue _ _ _ _, ?_⟩
  show (w.storage.putValue a k v).checkPoints = _
  unfold Storage.putValue
  split <;> rfl

end World.Wrote

lemma Transferred.wrote {source target : Address} {value : Int} {w w' : World}
    (h : Transferred source target value w w') : World.Wrote w w' := by
  obtain ⟨s, t, _, _, rfl⟩ := h.moved
  exact (World.Wrote.putAccount _ _ _).trans (World.Wrote.putAccount _ _ _)

section

variable {m : Machine} {g : Guard} {chain : List Address} {b : Bool}

variable {w w' : World}

lemma Prim.grows (h : Prim m g chain w w') : World.Wrote w w' := by
  cases h with
  | same h => exact .of_storage_eq h.storage
  | wrote _ _ _ _ _ hw =>
    cases hw with
    | sstore key value => exact .putValue _ _ _ _
    | tstore key value => exact .of_storage_eq rfl
    | log n l hl => exact .of_storage_eq rfl
    | selfDestruct beneficiary account hb => exact .putAccount _ _ _
  | touch => exact .putAccount _ _ _
  | transfer _ _ h => exact h.wrote
  | nonce | created => exact .putAccount _ _ _
  | logged htables hmods hmarks =>
    refine ⟨?_, hmarks⟩
    show Journalled.Journal.Grows _ (journal _) (journal _)
    unfold journal
    rw [htables, hmods, hmarks]
    exact .refl _

/-! ## Stable properties -/

/-- A stable property: for the chains in `C`, it is kept by every primitive step and by the
storing of code at the end of a create frame. -/
structure Stable (m : Machine) (g : Guard) (C : List Address → Prop) (Φ : Observed → Prop) :
    Prop where
  nest : ∀ {self chain}, C chain → C (self :: chain)
  prim : ∀ {chain w w'}, C chain → Prim m g chain w w' → Φ w.observed → Φ w'.observed
  deploy : ∀ {chain b a w0 w w1 w2 account} (code : Bytes), C chain → Fresh m g chain a w0 w →
    Endowed a (createTarget m a w0) (w.putAccount (createTarget m a w0) .blank) w1 →
    Hist m g (createTarget m a w0 :: chain) b (w1.entered false) w2 →
    w2.getAccount (createTarget m a w0) = some account → Φ w2.observed →
    Φ (w2.putAccount (createTarget m a w0)
      { account with code := code, codeHash := Storage.digest m.crypto.keccak256 code }).observed

variable {C : List Address → Prop} {Φ : Observed → Prop}

lemma Stable.upholds_prim (hst : Stable m g C Φ) (hc : C chain) (h : Prim m g chain w w')
    (hΦ : Φ w.observed) : Storage.Upholds Φ w.storage w'.storage :=
  upholds_of_grows h.grows.grows h.grows.marks (hst.prim hc h hΦ)

lemma Hist.upholds (hst : Stable m g C Φ) (h : Hist m g chain b w w') (hc : C chain)
    (hΦ : Φ w.observed) : Storage.Upholds Φ w.storage w'.storage := by
  induction h with
  | prim h => exact hst.upholds_prim hc h hΦ
  | trans _ _ ih1 ih2 =>
    have h1 := ih1 hc hΦ
    exact h1.trans (ih2 hc h1.now)
  | weaken _ ih => exact ih hc hΦ
  | opened => exact upholds_checkpoint hΦ
  | committed _ hcommit ih => exact upholds_of_commit (ih hc hΦ) hΦ hcommit
  | reverted _ hrevert ih => exact upholds_of_revert (ih hc hΦ) hΦ hrevert
  | ran self readOnly _ ih => exact ih (hst.nest hc) hΦ
  | @deployed chain b a w0 w w1 w2 account code hfresh hpaid hrun hacc ih =>
    -- create the account, endow it, run the init code, store what it returned
    have hcreated := hst.upholds_prim hc (.created hfresh) hΦ
    have hendowed : Storage.Upholds Φ w.storage w1.storage := by
      rcases hpaid with ⟨_, rfl⟩ | ⟨hamount, hmoved⟩
      · exact hcreated
      · have hpay : Prim m g chain (w.putAccount (createTarget m a w0) .blank) w1 :=
          .transfer hfresh.writable (hfresh.paying hamount) hmoved
        exact hcreated.trans (hst.upholds_prim hc hpay hcreated.now)
    have hran := hendowed.trans (ih (hst.nest hc) hendowed.now)
    have hstored := hst.deploy code hc hfresh hpaid hrun hacc hran.now
    exact hran.trans (upholds_of_grows (grows_putAccount _ _ _) rfl hstored)

lemma Hist.keeps (hst : Stable m g C Φ) (h : Hist m g chain b w w') (hc : C chain)
    (hΦ : Φ w.observed) : Φ w'.observed := (h.upholds hst hc hΦ).now

/-- A stable property of the accounts: the steps that change accounts keep it. -/
structure StableAccounts (m : Machine) (g : Guard) (C : List Address → Prop)
    (Φ : (Address → Option StoredAccount) → Prop) : Prop where
  nest : ∀ {self chain}, C chain → C (self :: chain)
  selfDestruct : ∀ {chain f w beneficiary account}, C chain → g.instruction f = true →
    f.currentOp m = some .selfDestruct → World.Same f.world w →
    w.getAccount beneficiary = some account → Φ w.getAccount →
    Φ (w.putAccount beneficiary
      { account with balance := account.balance + w.getBalance f.contract.self }).getAccount
  touch : ∀ {w : World} {a : Address}, w.getAccount a = none → Φ w.getAccount →
    Φ (w.putAccount a .blank).getAccount
  transfer : ∀ {source target value w w'}, Paying m g source target value w →
    Transferred source target value w w' → Φ w.getAccount → Φ w'.getAccount
  nonce : ∀ {chain a w account}, C chain → g.create a w = true → a.caller.addresses = chain →
    w.getAccount a.caller.address = some account → IsLong (wrap64 account.nonce + 1) →
    Φ w.getAccount → Φ (w.putAccount a.caller.address
      { account with nonce := wrap64 (wrap64 account.nonce + 1) }).getAccount
  created : ∀ {chain a w0 w}, C chain → Fresh m g chain a w0 w → Φ w.getAccount →
    Φ (w.putAccount (createTarget m a w0) .blank).getAccount
  deploy : ∀ {chain b a w0 w w1 w2 account} (code : Bytes), C chain → Fresh m g chain a w0 w →
    Endowed a (createTarget m a w0) (w.putAccount (createTarget m a w0) .blank) w1 →
    Hist m g (createTarget m a w0 :: chain) b (w1.entered false) w2 →
    w2.getAccount (createTarget m a w0) = some account → Φ w2.getAccount →
    Φ (w2.putAccount (createTarget m a w0)
      { account with code := code, codeHash := Storage.digest m.crypto.keccak256 code }).getAccount

lemma StableAccounts.stable {Φ : (Address → Option StoredAccount) → Prop}
    (h : StableAccounts m g C Φ) : Stable m g C (fun o => Φ o.account) := by
  refine ⟨h.nest, ?_, h.deploy⟩
  intro chain w w' hc hprim hΦ
  show Φ w'.getAccount
  have hkept : (∀ x, w'.getAccount x = w.getAccount x) → Φ w'.getAccount := by
    intro hsame
    rw [show w'.getAccount = w.getAccount from funext hsame]
    exact hΦ
  cases hprim with
  | same hs =>
    refine hkept fun x => ?_
    unfold World.getAccount
    rw [hs.storage]
  | @wrote f op _ _ hg hop _ _ hs hw =>
    cases hw with
    | sstore _ key value =>
      rcases getAccount_putValue w.storage f.contract.self key value with hsame | ⟨habs, hput⟩
      · exact hkept fun x => congrFun hsame x
      · show Φ (putValue _ _ _ _).getAccount
        rw [hput]
        exact h.touch habs hΦ
    | tstore key value => exact hΦ
    | log n l hl => exact hΦ
    | selfDestruct _ beneficiary account hacc => exact h.selfDestruct hc hg hop hs hacc hΦ
  | touch _ _ habs => exact h.touch habs hΦ
  | transfer _ hpay hmoved => exact h.transfer hpay hmoved hΦ
  | nonce hg hcaller _ hacc hfits => exact h.nonce hc hg hcaller hacc hfits hΦ
  | created hfresh => exact h.created hc hfresh hΦ
  | @logged _ s htables =>
    refine hkept fun x => ?_
    show s.tables.accounts.lookup x = w.storage.tables.accounts.lookup x
    rw [htables]

lemma Hist.grows (h : Hist m g chain b w w') : w.storage.Grows w'.storage := by
  have htrivial : Stable m g (fun _ => True) (fun _ => True) :=
    ⟨fun _ => trivial, fun _ _ _ => trivial, fun _ _ _ _ _ _ _ => trivial⟩
  exact Journalled.Journal.Upholds.grows (h.upholds htrivial trivial trivial)

/-! ## Closed histories -/

lemma Hist.balanced (h : Hist m g chain true w w') : w'.storage.checkPoints = w.storage.checkPoints := by
  generalize hb : true = b at h
  induction h with
  | prim h => exact h.grows.marks
  | trans _ _ ih1 ih2 => exact (ih2 hb).trans (ih1 hb)
  | weaken | opened => cases hb
  | committed _ hcommit ih =>
    obtain ⟨c, hpop⟩ := checkPoints_of_commit hcommit
    exact (List.cons.inj (hpop.symm.trans (ih hb))).2
  | reverted _ hrevert ih =>
    obtain ⟨c, hpop⟩ := checkPoints_of_revert hrevert
    exact (List.cons.inj (hpop.symm.trans (ih hb))).2
  | ran self readOnly _ ih => exact ih hb
  | deployed code hfresh hpaid _ _ ih =>
    refine (ih hb).trans ?_
    rcases hpaid with ⟨_, rfl⟩ | ⟨_, hmoved⟩
    · rfl
    · exact hmoved.wrote.marks

/-! ## Runs that meet a guard -/

lemma CallMeets.hist {n : Nat} {a : CallArgs} (h : CallMeets m g n a w)
    (hlegal : w.readOnly = true → a.kind = .call → a.amount = 0)
    (hrun : ((vm m n).executeCall a w).state? = some w') :
    Hist m g a.caller.addresses false w w' := by
  rw [← h] at hrun
  exact (((vm_recorded n).executeCall a w hlegal).post (fun _ _ h' => h'.1)).of_state? hrun

lemma CreateMeets.hist {n : Nat} {a : CreateArgs} (h : CreateMeets m g n a w)
    (hlegal : w.readOnly = false) (hrun : ((vm m n).create a w).state? = some w') :
    Hist m g a.caller.addresses false w w' := by
  rw [← h] at hrun
  exact (((vm_recorded n).create a w hlegal).post (fun _ _ h' => h'.1)).of_state? hrun

end

end GrapeDag
