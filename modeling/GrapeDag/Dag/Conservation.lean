/-
THE LEADER'S LEDGER CONSERVES MONEY.

The balances live in the wallet cache and in the pins. `Ledger.effective` is the abstraction
over both, and under it the ledger is a bank.

Main result: `ledger_conserved`.
-/
import GrapeDag.Dag.Ledger
import Mathlib.Data.FinEnum

namespace GrapeDag

open Imperative Folding Storage Prog WalletCache List FinMap

/-! ## The wallet cache -/

namespace WalletCache

variable (pins : List TxPin) (wc : WalletCache) (wallet w : Address)

lemma get_insert (l : List Int) :
    get (AList.insert wallet l wc) w = if w = wallet then l.getLast? else get wc w := by
  unfold get
  rw [lookup_insert_eq_ite]
  split <;> rfl

lemma get_remove : get (remove wallet wc) w = if w = wallet then none else get wc w := by
  unfold get remove
  rw [lookup_erase_eq_ite]
  split <;> rfl

lemma get_opened : get (if (get wc wallet).isSome then wc else AList.insert wallet [] wc) w = get wc w := by
  cases hget : get wc wallet with
  | some b => simp
  | none =>
    simp only [Option.isSome_none, Bool.false_eq_true, if_false, get_insert]
    by_cases hw : w = wallet
    · simp [hw, hget]
    · simp [hw]

variable {pins wc wallet} {delta : Int}

/-- What a change does to the history of a wallet. -/
lemma get_change : get (change pins wallet delta wc).2 w
    = if w = wallet ∧ 0 ≤ loaded pins wc wallet + delta then some (loaded pins wc wallet + delta)
      else get wc w := by
  by_cases h : loaded pins wc wallet + delta < 0
  · rw [if_neg (by omega)]
    simp only [change, h, if_true, get_opened]
  · simp only [change, h, if_false, get_insert, get_opened, getLast?_concat, not_lt.mp h, and_true]

lemma fst_change : (change pins wallet delta wc).1 = decide (0 ≤ loaded pins wc wallet + delta) := by
  by_cases h : loaded pins wc wallet + delta < 0
  · simp [change, h, not_le.mpr h]
  · simp [change, h, not_lt.mp h]

lemma loaded_change : loaded pins (change pins wallet delta wc).2 w
    = loaded pins wc w + if w = wallet ∧ 0 ≤ loaded pins wc wallet + delta then delta else 0 := by
  show (get _ w).getD _ = _
  rw [get_change]
  split_ifs with h
  · rw [h.1]
    rfl
  · exact (Int.add_zero _).symm

end WalletCache

/-! ## Payments -/

namespace Ledger

variable {L : Ledger} {p : Payment}

lemma updateBalanceIfValid_self (h : p.sender = p.recipient) : L.updateBalanceIfValid p = (true, L) := by
  unfold updateBalanceIfValid
  rw [if_pos h]

lemma updateBalanceIfValid_uncovered (hne : p.sender ≠ p.recipient)
    (h : L.effective p.sender < p.amount) :
    (L.updateBalanceIfValid p).1 = false ∧ (L.updateBalanceIfValid p).2.effective = L.effective := by
  have hneg : ¬ 0 ≤ loaded L.pins L.walletCache p.sender + -(p.amount : Int) := by
    have : loaded L.pins L.walletCache p.sender < p.amount := h
    omega
  unfold updateBalanceIfValid sub
  simp only [if_neg hne, fst_change, hneg, decide_false, Bool.false_eq_true, if_false]
  refine ⟨trivial, funext fun w => (loaded_change w).trans ?_⟩
  rw [if_neg (fun hw => hneg hw.2), Int.add_zero]
  rfl

lemma updateBalanceIfValid_covered (hnonneg : ∀ w, 0 ≤ L.effective w)
    (hne : p.sender ≠ p.recipient) (h : p.amount ≤ L.effective p.sender) :
    (L.updateBalanceIfValid p).1 = true ∧
      (L.updateBalanceIfValid p).2.effective = Bank.move L.effective p.sender p.recipient p.amount := by
  have hpays : 0 ≤ loaded L.pins L.walletCache p.sender + -(p.amount : Int) := by
    have : (p.amount : Int) ≤ loaded L.pins L.walletCache p.sender := h
    omega
  have hadds : 0 ≤ loaded L.pins L.walletCache p.recipient := hnonneg p.recipient
  unfold updateBalanceIfValid WalletCache.sub WalletCache.add
  simp only [if_neg hne, fst_change, loaded_change, hpays, decide_true, if_true]
  refine ⟨by simp [Ne.symm hne]; omega, funext fun w => ?_⟩
  -- the sender's history is written first, the recipient's on top of it
  show loaded L.pins (change _ _ _ _).2 w = _
  simp only [loaded_change, Bank.move_apply]
  show L.effective w + _ + _ = _
  grind

/-- UNDER `effective` THE LEDGER IS A BANK: an accepted payment moves its amount from the
sender, who can cover it, to the recipient; a refused one moves nothing. -/
theorem effective_updateBalanceIfValid (hnonneg : ∀ w, 0 ≤ L.effective w) :
    ((L.updateBalanceIfValid p).1 = true ∧
      (p.sender ≠ p.recipient → p.amount ≤ L.effective p.sender) ∧
      (L.updateBalanceIfValid p).2.effective = Bank.move L.effective p.sender p.recipient p.amount) ∨
    ((L.updateBalanceIfValid p).1 = false ∧ (L.updateBalanceIfValid p).2.effective = L.effective) := by
  by_cases hself : p.sender = p.recipient
  · rw [updateBalanceIfValid_self hself, hself, Bank.move_self]
    exact .inl ⟨rfl, fun hne => absurd rfl hne, rfl⟩
  · by_cases h : L.effective p.sender < p.amount
    · exact .inr (updateBalanceIfValid_uncovered hself h)
    · have hcovered : p.amount ≤ L.effective p.sender := by omega
      obtain ⟨hvalid, hmove⟩ := updateBalanceIfValid_covered hnonneg hself hcovered
      exact .inl ⟨hvalid, fun _ => hcovered, hmove⟩

end Ledger

/-! ## Synchronised balances -/

namespace Storage

lemma getAccount_syncBalance (s : Storage) (x a : Address) (b : Nat) :
    (s.syncBalance x b).getAccount a
      = if a = x then some { (s.getAccount x).getD .blank with balance := b }
        else s.getAccount a := by
  unfold syncBalance
  rw [getAccount_putAccount]

lemma getAccount_foldl_syncBalance (l : List (Sigma fun _ : Address => Nat))
    (hl : l.NodupKeys) (a : Address) :
    ∀ s : Storage, (l.foldl (fun s e => s.syncBalance e.1 e.2) s).getAccount a
      = ((l.dlookup a).map fun b : Nat =>
          { (s.getAccount a).getD .blank with balance := b }).or (s.getAccount a) := by
  induction l with
  | nil =>
    intro s
    simp
  | cons e l ih =>
    intro s
    obtain ⟨hnew, hrest⟩ := nodupKeys_cons.mp hl
    rw [foldl_cons, ih hrest, getAccount_syncBalance]
    by_cases ha : a = e.1
    · subst ha
      have hnone : l.dlookup e.1 = none := dlookup_eq_none.mpr hnew
      have hcons : dlookup e.1 (e :: l) = some e.2 := dlookup_cons_eq l e.1 e.2
      simp [hnone, hcons]
    · rw [if_neg ha, dlookup_cons_ne l e ha]

lemma getAccount_syncBalances (balances : FinMap Address Nat) (s : Storage) (a : Address) :
    (s.syncBalances balances).getAccount a = ((balances.lookup a).map fun b : Nat =>
          { (s.getAccount a).getD .blank with balance := b }).or (s.getAccount a) :=
  getAccount_foldl_syncBalance balances.entries balances.nodupKeys a s

variable {s : Storage} {balance : FinMap Address Nat}

lemma idle_putAccount (h : s.Idle) (a : Address) (account : StoredAccount) :
    (s.putAccount a account).Idle := by
  refine ⟨h.collect, ?_, h.mappings⟩
  show (if s.collectDiffs then _ else s.accountDiffs) = ∅
  rw [h.collect, h.accounts]
  rfl

lemma idle_syncBalances (h : s.Idle) (balances : FinMap Address Nat) : (s.syncBalances balances).Idle := by
  exact foldlRecOn (motive := Idle) _ _ h fun s h e _ => idle_putAccount h e.1 _

/-- The diffs collected so far repeat the balances of the pin. -/
structure NoncesOnly (balance : FinMap Address Nat) (s : Storage) : Prop where
  collect : s.collectDiffs = true
  mappings : s.mappingDiffs = ∅
  synced : ∀ a b, balance.lookup a = some b →
    ∃ acc, s.getAccount a = some acc ∧ acc.balance = (b : Nat)
  diffs : ∀ a acc, s.accountDiffs.lookup a = some acc →
    ∃ b : Nat, balance.lookup a = some b ∧ acc.balance = b

lemma noncesOnly_captured (h : s.Idle) (balance : FinMap Address Nat) :
    NoncesOnly balance { s.syncBalances balance with collectDiffs := true } := by
  have hidle := idle_syncBalances h balance
  refine ⟨rfl, hidle.mappings, fun a b hb => ?_, fun a acc hacc => ?_⟩
  · refine ⟨{ (s.getAccount a).getD .blank with balance := b }, ?_, rfl⟩
    show (s.syncBalances balance).getAccount a = _
    rw [getAccount_syncBalances, hb]
    rfl
  · have hempty : (s.syncBalances balance).accountDiffs.lookup a = some acc := hacc
    rw [hidle.accounts] at hempty
    cases hempty

lemma noncesOnly_nonceIncr {x : Address} {b : Nat} (h : NoncesOnly balance s)
    (hx : balance.lookup x = some b) : NoncesOnly balance (s.nonceIncr x) := by
  obtain ⟨account, haccount, hbalance⟩ := h.synced x b hx
  have hput : s.nonceIncr x = s.putAccount x { account with nonce := account.nonce + 1 } := by
    unfold nonceIncr
    rw [haccount]
    rfl
  rw [hput]
  refine ⟨h.collect, h.mappings, fun a b' hb' => ?_, fun a acc hacc => ?_⟩
  · rw [getAccount_putAccount]
    by_cases ha : a = x
    · subst ha
      rw [hx] at hb'
      obtain rfl := Option.some.inj hb'
      exact ⟨_, if_pos rfl, hbalance⟩
    · rw [if_neg ha]
      exact h.synced a b' hb'
  · have hdiffs : (s.putAccount x { account with nonce := account.nonce + 1 }).accountDiffs
        = s.accountDiffs.insert x { account with nonce := account.nonce + 1 } := if_pos h.collect
    rw [hdiffs, lookup_insert_eq_ite] at hacc
    by_cases ha : a = x
    · rw [if_pos ha] at hacc
      obtain rfl := Option.some.inj hacc
      exact ⟨b, ha ▸ hx, hbalance⟩
    · rw [if_neg ha] at hacc
      exact h.diffs a acc hacc

lemma noncesOnly_foldl (ps : List Payment) (hps : ∀ p ∈ ps, ∃ b, balance.lookup p.sender = some b)
    (h : NoncesOnly balance s) : NoncesOnly balance (ps.foldl (fun s p => s.nonceIncr p.sender) s) := by
  refine foldlRecOn (motive := NoncesOnly balance) ps _ h fun s h p hp => ?_
  obtain ⟨b, hb⟩ := hps p hp
  exact noncesOnly_nonceIncr h hb

end Storage

/-! ## Forming a pin -/

def Payment.Touches (p : Payment) (w : Address) : Prop := w = p.sender ∨ w = p.recipient

instance (p : Payment) (w : Address) : Decidable (p.Touches w) :=
  inferInstanceAs (Decidable (w = p.sender ∨ w = p.recipient))

def Touched (sites : List Payment) (w : Address) : Prop := ∃ p ∈ sites, p.Touches w

instance (sites : List Payment) (w : Address) : Decidable (Touched sites w) :=
  inferInstanceAs (Decidable (∃ p ∈ sites, p.Touches w))

lemma touched_cons {p : Payment} {sites : List Payment} {w : Address} :
    Touched (p :: sites) w ↔ p.Touches w ∨ Touched sites w := by
  simp [Touched]

namespace Ledger

variable {sites : List Payment} {pin : TxPin} {L : Ledger}

lemma mem_inOrder {p : Payment} : p ∈ inOrder sites ↔ p ∈ sites := by
  simp [inOrder]

lemma touched_inOrder {w : Address} : Touched (inOrder sites) w ↔ Touched sites w := by
  simp [Touched, mem_inOrder]

/-- The pin before its contract stage. -/
def sitesPin (L : Ledger) (sites : List Payment) : TxPin :=
  (inOrder sites).foldl (includeSite L.effective) ⟨[], ∅, [], L.pinsQuantity⟩

lemma nodes_sitesPin (L : Ledger) (sites : List Payment) : (L.sitesPin sites).nodes = inOrder sites := by
  have hnodes : ∀ (sites : List Payment) (pin : TxPin),
      (sites.foldl (includeSite L.effective) pin).nodes = pin.nodes ++ sites := by
    intro sites
    induction sites with
    | nil => simp
    | cons p sites ih =>
      intro pin
      rw [foldl_cons, ih]
      simp [includeSite]
  exact hnodes _ _

/-- A loop over the sites that gives both parties of each of them the value `v`. -/
lemma foldl_touched {σ α : Type} {step : σ → Payment → σ} {g : σ → α} {w : Address} {v : α}
    (hstep : ∀ s p, g (step s p) = if w = p.recipient then v else if w = p.sender then v else g s) :
    ∀ (sites : List Payment) (s : σ),
      g (sites.foldl step s) = if Touched sites w then v else g s := by
  intro sites
  induction sites with
  | nil =>
    intro s
    simp [Touched]
  | cons p sites ih =>
    intro s
    rw [foldl_cons, ih]
    simp only [touched_cons, Payment.Touches, hstep]
    split_ifs <;> first | rfl | tauto

lemma balance_sitesPin (L : Ledger) (sites : List Payment) (w : Address) :
    (L.sitesPin sites).balance.lookup w = if Touched sites w then some (L.effective w).natAbs else none := by
  rw [← if_congr touched_inOrder rfl rfl]
  refine foldl_touched (g := fun pin : TxPin => pin.balance.lookup w) (fun pin p => ?_) _ _
  show ((pin.balance.insert p.sender _).insert p.recipient _).lookup w = _
  rw [lookup_insert_eq_ite, lookup_insert_eq_ite]
  exact ite_congr rfl (fun hr => by rw [hr]) fun _ => ite_congr rfl (fun hs => by rw [hs]) fun _ => rfl

/-- The wallets of the sites leave the cache. -/
lemma get_forgetSites (sites : List Payment) (wc : WalletCache) (w : Address) :
    get ((inOrder sites).foldl forgetSite wc) w = if Touched sites w then none else get wc w := by
  rw [← if_congr touched_inOrder rfl rfl]
  refine foldl_touched (g := fun wc => get wc w) (fun wc p => ?_) _ wc
  unfold forgetSite
  rw [get_remove, get_remove]

/-- The accounts of the diffs enter the pin's balances. -/
lemma lookup_recordDiffs (diffs : List Diff) (balance : FinMap Address Nat) (w : Address) :
    (diffs.foldl recordDiff balance).lookup w
      = ((lastWrite (Diff.account? w) diffs).map fun v => v.map fun acc => acc.balance.natAbs).getD
          (balance.lookup w) := by
  rw [← lastWrite_map]
  refine foldl_writes (fun b : FinMap Address Nat => b.lookup w) (fun b d => ?_) diffs balance
  cases d with
  | mapping a k v => rfl
  | account a acc =>
    show (b.insert a acc.balance.natAbs).lookup w = _
    rw [lookup_insert_eq_ite]
    by_cases hw : w = a <;> simp [Diff.account?, hw]

/-- They leave the cache. -/
lemma get_forgetDiffs (diffs : List Diff) (wc : WalletCache) (w : Address) :
    get (diffs.foldl forgetDiff wc) w
      = if (lastWrite (Diff.account? w) diffs).isSome then none else get wc w := by
  have hfold := @foldl_writes _ _ _ (fun d => (Diff.account? w d).map fun _ => (none : Option Int)) forgetDiff
    (fun wc => get wc w) (fun wc d => ?_) diffs wc
  · rw [lastWrite_map] at hfold
    rw [hfold]
    cases lastWrite (Diff.account? w) diffs <;> rfl
  cases d with
  | mapping a k v => rfl
  | account a acc =>
    show get (remove a wc) w = _
    rw [get_remove]
    by_cases hw : w = a <;> simp [Diff.account?, hw]

/-- Every diff is an account with the balance that the pin has for it. -/
def Confirming (balance : FinMap Address Nat) (diffs : List Diff) : Prop :=
  ∀ d ∈ diffs, ∃ a acc, d = .account a acc ∧ ∃ b : Nat, balance.lookup a = some b ∧ acc.balance = b

def noncesRaised (pin : TxPin) (s : Storage) : Storage :=
  (pin.nodes.filter (·.eth)).foldl (fun s p => s.nonceIncr p.sender)
    { s.syncBalances pin.balance with collectDiffs := true }

lemma capture_synced {s : Storage} (h : s.Idle) (balance : FinMap Address Nat) :
    captureStateStoreDiffs (s.syncBalances balance)
      = .ok () { s.syncBalances balance with collectDiffs := true } := by
  unfold captureStateStoreDiffs
  rw [(idle_syncBalances h balance).collect]
  rfl

lemma captureStage_pure {s : Storage} (hidle : s.Idle)
    (hsenders : ∀ p ∈ pin.nodes, ∃ b, pin.balance.lookup p.sender = some b) :
    ∃ diffs s', captureStage pin (pure ()) s = .ok diffs s' ∧ s'.Idle ∧ Confirming pin.balance diffs := by
  have hend : Storage.NoncesOnly pin.balance (noncesRaised pin s) :=
    noncesOnly_foldl (pin.nodes.filter (·.eth)) (fun p hp => hsenders p (mem_of_mem_filter hp))
      (noncesOnly_captured hidle pin.balance)
  refine ⟨(noncesRaised pin s).toDiffSlice, (noncesRaised pin s).resetCaptureStateStoreDiffs,
    ?_, idle_reset _, ?_⟩
  · have hget : getStateStoreDiffs (noncesRaised pin s)
        = .ok (noncesRaised pin s).toDiffSlice (noncesRaised pin s) := if_pos hend.collect
    have hbody : capturing pin (pure ()) { s.syncBalances pin.balance with collectDiffs := true }
        = .ok (noncesRaised pin s).toDiffSlice (noncesRaised pin s) := hget
    unfold captureStage
    rw [modify_bind, bind_of_ok (capture_synced hidle _), ensuring_of_ok hbody]
    rfl
  · intro d hd
    cases d with
    | account a acc =>
      obtain ⟨b, hb, hacc⟩ := hend.diffs a acc (mem_toDiffSlice_account.mp hd)
      exact ⟨a, acc, rfl, b, hb, hacc⟩
    | mapping a k v =>
      have hlookup := mem_toDiffSlice_mapping.mp hd
      rw [hend.mappings] at hlookup
      cases hlookup

lemma Confirming.lookup {balance : FinMap Address Nat} {diffs : List Diff} (h : Confirming balance diffs)
    {w : Address} {v : Option StoredAccount} (hv : lastWrite (Diff.account? w) diffs = some v) :
    ∃ acc, v = some acc ∧ balance.lookup w = some acc.balance.natAbs := by
  obtain ⟨d, hd, hwrites⟩ := exists_of_lastWrite hv
  obtain ⟨acc, rfl, rfl⟩ := Diff.account?_eq_some.mp hwrites
  obtain ⟨_, _, heq, b, hb, hacc⟩ := h _ hd
  cases heq
  refine ⟨acc, rfl, ?_⟩
  rw [hb, hacc]
  rfl

lemma runSmartContractStage_of_ok {smc : Go Storage Unit} {diffs : List Diff} {s' : Storage}
    (h : captureStage pin smc L.store = .ok diffs s') :
    runSmartContractStage pin smc L
      = .ok { pin with diffs := diffs, balance := diffs.foldl recordDiff pin.balance }
          { L with store := s', walletCache := diffs.foldl forgetDiff L.walletCache } := by
  unfold runSmartContractStage
  rw [bind_of_ok (zoom_of_ok h)]
  rfl

/-- What forming a pin of `sites` makes of the ledger. -/
structure Pinned (sites : List Payment) (L : Ledger) (pin : TxPin) (L' : Ledger) : Prop where
  nodes : pin.nodes = inOrder sites
  balance : ∀ w, pin.balance.lookup w
    = if Touched sites w then some (L.effective w).natAbs else none
  diffs : Confirming pin.balance pin.diffs
  pins : L'.pins = L.pins ++ [pin]
  cache : ∀ w, WalletCache.get L'.walletCache w
    = if Touched sites w then none else WalletCache.get L.walletCache w
  dag : L'.dag = L.dag
  idle : L'.store.Idle

lemma add_pure (sites : List Payment) (hidle : L.store.Idle) :
    ∃ pin L', add sites (pure ()) L = .ok () L' ∧ Pinned sites L pin L' := by
  have hnodes := nodes_sitesPin L sites
  have hbalance := balance_sitesPin L sites
  have hsenders : ∀ p ∈ (L.sitesPin sites).nodes, ∃ b, (L.sitesPin sites).balance.lookup p.sender = some b := by
    intro p hp
    rw [hnodes, mem_inOrder] at hp
    exact ⟨_, (hbalance p.sender).trans (if_pos ⟨p, hp, .inl rfl⟩)⟩
  generalize hpin : L.sitesPin sites = pin at hnodes hbalance hsenders
  obtain ⟨diffs, s', hstage, hidle', hconfirming⟩ := captureStage_pure hidle hsenders
  -- the entries are written with the values that they have
  have hlookup : ∀ w, (diffs.foldl recordDiff pin.balance).lookup w = pin.balance.lookup w := by
    intro w
    rw [lookup_recordDiffs]
    cases hlast : lastWrite (Diff.account? w) diffs with
    | none => rfl
    | some v =>
      obtain ⟨acc, rfl, hb⟩ := hconfirming.lookup hlast
      exact hb.symm
  refine ⟨{ pin with diffs := diffs, balance := diffs.foldl recordDiff pin.balance }, { L with
      walletCache := diffs.foldl forgetDiff ((inOrder sites).foldl forgetSite L.walletCache)
      pinsQuantity := L.pinsQuantity + 1
      store := s'
      pins := L.pins ++ [{ pin with diffs := diffs, balance := diffs.foldl recordDiff pin.balance }] },
    ?_, ?_⟩
  · unfold add
    simp only [gets_bind, modify_bind]
    subst hpin
    exact bind_of_ok (runSmartContractStage_of_ok (L := { L with
      walletCache := (inOrder sites).foldl forgetSite L.walletCache
      pinsQuantity := L.pinsQuantity + 1 }) hstage)
  · refine ⟨hnodes, fun w => (hlookup w).trans (hbalance w), ?_, rfl, fun w => ?_, rfl, hidle'⟩
    · intro d hd
      obtain ⟨a, acc, rfl, b, hb, hacc⟩ := hconfirming d hd
      exact ⟨a, acc, rfl, b, (hlookup a).trans hb, hacc⟩
    show get (diffs.foldl forgetDiff _) w = _
    rw [get_forgetDiffs, get_forgetSites]
    by_cases hw : Touched sites w
    · simp only [if_pos hw, ite_self]
    cases hlast : lastWrite (Diff.account? w) diffs with
    | none => rfl
    | some v =>
      obtain ⟨acc, -, hb⟩ := hconfirming.lookup hlast
      rw [hbalance, if_neg hw] at hb
      cases hb

lemma getLatestBalance_concat (pins : List TxPin) (pin : TxPin) (w : Address) :
    getLatestBalance (pins ++ [pin]) w = (pin.balance.lookup w).or (getLatestBalance pins w) := by
  unfold getLatestBalance
  rw [reverse_concat, findSome?_cons]
  cases pin.balance.lookup w <;> rfl

lemma effective_pinned {L' : Ledger} (hnonneg : ∀ w, 0 ≤ L.effective w)
    (h : Pinned sites L pin L') : L'.effective = L.effective := by
  funext w
  show (get L'.walletCache w).getD ((getLatestBalance L'.pins w).getD 0) = _
  rw [h.cache, h.pins, getLatestBalance_concat, h.balance]
  by_cases hw : Touched sites w
  · have hw0 := hnonneg w
    simp only [hw, if_true, Option.getD_none, Option.some_or, Option.getD_some]
    omega
  · simp only [hw, if_false, Option.none_or]
    rfl

/-! ## Pins with contract transactions -/

/-- The DAG is the same, and nothing enters the cache. -/
def Shrinks (L L' : Ledger) : Prop :=
  L'.dag = L.dag ∧ ∀ w b, WalletCache.get L'.walletCache w = some b → WalletCache.get L.walletCache w = some b

lemma shrinks_add (sites : List Payment) (smc : Go Storage Unit) (L : Ledger) :
    wpEnd (add sites smc) L.Shrinks L := by
  have hforget : ∀ w b, get ((inOrder sites).foldl forgetSite L.walletCache) w
      = some b → get L.walletCache w = some b := by
    intro w b h
    rw [get_forgetSites] at h
    split at h
    · cases h
    · exact h
  unfold add runSmartContractStage
  simp only [wp_bind, wp_gets, wp_modify, wp_zoom, wp_pure]
  refine wp.of_forall (fun diffs s' => ⟨rfl, fun w b h => hforget w b ?_⟩) (fun _ _ => ⟨rfl, hforget⟩)
  rw [get_forgetDiffs] at h
  split at h
  · cases h
  · exact h

/-- Whatever the contract transactions do, and also if they panic. -/
lemma shrinks_pin (sites : List Payment) (smc : Go Storage Unit) (L : Ledger) :
    L.Shrinks ((add sites smc L).state?.getD L) := by
  cases hstate : (add sites smc L).state? with
  | none => exact ⟨rfl, fun _ _ h => h⟩
  | some L' => exact (shrinks_add sites smc L).of_state? hstate

/-- Only a cached balance can be negative. -/
lemma nonneg_of_shrinks {L' : Ledger} (h : L.Shrinks L') (hnonneg : ∀ w, 0 ≤ L.effective w)
    (w : Address) : 0 ≤ L'.effective w := by
  show 0 ≤ (get L'.walletCache w).getD ((getLatestBalance L'.pins w).getD 0)
  cases hget : get L'.walletCache w with
  | none => exact Int.natCast_nonneg _
  | some b =>
    have hold := hnonneg w
    rw [effective, loaded, h.2 w b hget] at hold
    exact hold

end Ledger

/-! ## Runs -/

/-- What happens to the leader's ledger: a payment reaches the DAG, or a pin without contract
transactions is formed over some sites. -/
inductive LedgerEvent where
  | payment (p : Payment)
  | pin (sites : List Payment)

def LedgerEvent.run : LedgerEvent → Go Ledger Unit
  | .payment p => .modify fun L => (L.addToDag p).2
  | .pin sites => Ledger.add sites (pure ())

namespace Ledger

def run : List LedgerEvent → Go Ledger Unit
  | [] => return ()
  | e :: es => do e.run; run es

/-- No balance is negative and they sum to `total`. -/
structure Balanced (total : Int) (L : Ledger) : Prop where
  nonneg : ∀ w, 0 ≤ L.effective w
  sum : ∑ w, L.effective w = total
  idle : L.store.Idle

lemma effective_genesis (wallet : Address) (hash : Bytes) (store : Storage) (w : Address) :
    (genesis wallet hash store).effective w = if w = wallet then (initialOffering : Int) else 0 := by
  show (get ∅ w).getD ((getLatestBalance [.genesis wallet] w).getD 0) = _
  have hlatest : getLatestBalance [.genesis wallet] w
      = if w = wallet then some initialOffering else none := by
    show ([TxPin.genesis wallet].reverse.findSome? (·.balance.lookup w)) = _
    have hlookup : (TxPin.genesis wallet).balance.lookup w
        = if w = wallet then some initialOffering else none :=
      lookup_insert_eq_ite ∅ wallet w initialOffering
    simp [hlookup]
  rw [hlatest]
  by_cases hw : w = wallet <;> simp [hw, WalletCache.get]

lemma balanced_genesis (wallet : Address) (hash : Bytes) {store : Storage} (h : store.Idle) :
    Balanced initialOffering (genesis wallet hash store) := by
  refine ⟨fun w => ?_, ?_, h⟩
  · rw [effective_genesis]
    split <;> omega
  · simp only [effective_genesis]
    simp

variable {L : Ledger}

lemma effective_addToDag (p : Payment) (hnonneg : ∀ w, 0 ≤ L.effective w) :
    ((L.addToDag p).1 = true ∧ (p.sender ≠ p.recipient → p.amount ≤ L.effective p.sender) ∧
      (L.addToDag p).2.effective = Bank.move L.effective p.sender p.recipient p.amount) ∨
    ((L.addToDag p).1 = false ∧ (L.addToDag p).2.effective = L.effective) := by
  rcases effective_updateBalanceIfValid (p := p) hnonneg with ⟨hv, hcovered, hmove⟩ | ⟨hv, hkeep⟩
  · left
    unfold addToDag
    simp only [hv, if_true]
    exact ⟨trivial, hcovered, hmove⟩
  · right
    unfold addToDag
    simp only [hv, Bool.false_eq_true, if_false]
    exact ⟨trivial, hkeep⟩

lemma nonneg_addToDag (p : Payment) (hnonneg : ∀ w, 0 ≤ L.effective w) (w : Address) :
    0 ≤ (L.addToDag p).2.effective w := by
  rcases effective_addToDag p hnonneg with ⟨_, hcovered, hmove⟩ | ⟨_, hkeep⟩
  · rw [hmove]
    by_cases hself : p.sender = p.recipient
    · rw [hself, Bank.move_self]
      exact hnonneg w
    · exact Bank.move_nonneg hnonneg (by omega) (hcovered hself) w
  · rw [hkeep]
    exact hnonneg w

lemma addToDag_store (p : Payment) (L : Ledger) : (L.addToDag p).2.store = L.store := by
  unfold addToDag updateBalanceIfValid
  dsimp only
  split_ifs <;> rfl

lemma balanced_run_event {total : Int} (e : LedgerEvent) (h : Balanced total L) :
    ∃ L', e.run L = .ok () L' ∧ Balanced total L' := by
  cases e with
  | payment p =>
    refine ⟨(L.addToDag p).2, rfl, ?_⟩
    have hidle : (L.addToDag p).2.store.Idle := (addToDag_store p L).symm ▸ h.idle
    refine ⟨nonneg_addToDag p h.nonneg, ?_, hidle⟩
    rcases effective_addToDag p h.nonneg with ⟨_, _, hmove⟩ | ⟨_, hkeep⟩
    · rw [hmove, Bank.sum_move]
      exact h.sum
    · rw [hkeep]
      exact h.sum
  | pin sites =>
    obtain ⟨pin, L', hrun, hpinned⟩ := add_pure sites h.idle
    have hkeep := effective_pinned h.nonneg hpinned
    exact ⟨L', hrun, fun w => hkeep ▸ h.nonneg w, hkeep ▸ h.sum, hpinned.idle⟩

lemma balanced_run {total : Int} (events : List LedgerEvent) :
    ∀ L, Balanced total L → ∃ L', run events L = .ok () L' ∧ Balanced total L' := by
  induction events with
  | nil =>
    intro L h
    exact ⟨L, rfl, h⟩
  | cons e es ih =>
    intro L h
    obtain ⟨L1, hrun, h1⟩ := balanced_run_event e h
    obtain ⟨L2, hrest, h2⟩ := ih L1 h1
    exact ⟨L2, (bind_of_ok hrun).trans hrest, h2⟩

/-- **THE LEDGER CONSERVES MONEY.** After every sequence of payments, accepted or refused, and of
pins without contract transactions: no effective balance is negative, they sum up to the initial
offering, a further pin changes none of them, and neither does a further payment that is refused. -/
theorem ledger_conserved (wallet : Address) (hash : Bytes) (store : Storage)
    (hidle : store.Idle) (events : List LedgerEvent) :
    ∃ L, run events (genesis wallet hash store) = .ok () L ∧ (∀ w, 0 ≤ L.effective w) ∧
      ∑ w, L.effective w = initialOffering ∧
      (∀ sites, ∃ L', LedgerEvent.run (.pin sites) L = .ok () L' ∧ L'.effective = L.effective) ∧
      (∀ p, (L.addToDag p).1 = false → (L.addToDag p).2.effective = L.effective) := by
  obtain ⟨L, hrun, h⟩ := balanced_run events _ (balanced_genesis wallet hash hidle)
  refine ⟨L, hrun, h.nonneg, h.sum, fun sites => ?_, fun p hrefused => ?_⟩
  · obtain ⟨pin, L', hpin, hpinned⟩ := add_pure sites h.idle
    exact ⟨L', hpin, effective_pinned h.nonneg hpinned⟩
  · rcases effective_addToDag p h.nonneg with ⟨haccepted, _⟩ | ⟨_, hkeep⟩
    · rw [hrefused] at haccepted
      cases haccepted
    · exact hkeep

def sampleEvents : List LedgerEvent :=
  [.payment ⟨1, 0, [1], 500, 501, 7, true⟩, .payment ⟨2, 0, [2], 501, 502, 8, false⟩,
    .pin [⟨1, 0, [1], 500, 501, 7, true⟩]]

theorem sample_run_conserved : ∃ L, run sampleEvents (genesis 500 [] .new) = .ok () L ∧
      (∀ w, 0 ≤ L.effective w) ∧
      ∑ w, L.effective w = initialOffering ∧
      (∀ sites, ∃ L', LedgerEvent.run (.pin sites) L = .ok () L' ∧ L'.effective = L.effective) ∧
      (∀ p, (L.addToDag p).1 = false → (L.addToDag p).2.effective = L.effective) :=
  ledger_conserved 500 [] .new idle_new sampleEvents

end Ledger

end GrapeDag
