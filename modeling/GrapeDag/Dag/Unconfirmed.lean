/-
UNCONFIRMED PAYMENTS AFTER A PIN.

A follower keeps a confirmed wallet cache and a live one. `processPin` overwrites the live
cache with the confirmed one, so the payments that no pin has confirmed are forgotten, and what
they have spent can be spent again.

Main result: `unconfirmed_survives_iff`.
-/
import GrapeDag.Dag.Contracts

namespace GrapeDag

open Imperative Prog.Keeps

/-! ## The three views of a balance -/

def unconfirmed (dag : List Payment) (pins : List TxPin) : List Payment :=
  dag.filter fun p => p.id ∉ (pinnedNodes pins).map (·.id)

namespace Follower

/-- What the follower accepts payments with: its DAG, live cache and pins. -/
def live (s : Follower) : Ledger := ⟨s.dag, s.walletCache, s.pins, 0, s.store⟩

def confirmedBalance (s : Follower) (w : Address) : Int := WalletCache.loaded s.pins s.walletCacheConfirmed w

def spendable (s : Follower) (w : Address) : Int := s.confirmedBalance w + net (unconfirmed s.dag s.pins) w

/-- Unconfirmed spending survives: the live balances are the spendable ones, and no payment to
another wallet is accepted beyond them. -/
structure Survives (s : Follower) : Prop where
  balances : ∀ w, s.live.effective w = s.spendable w
  spent : ∀ p : Payment, p.sender ≠ p.recipient → (s.live.addToDag p).1 = true →
    (p.amount : Int) ≤ s.spendable p.sender

end Follower

/-! ## The pins during `SyncPins` -/

namespace Peer

def SamePins (s s' : Peer) : Prop := s'.pins = s.pins

instance : IsPreorder Peer SamePins where
  refl _ := rfl
  trans _ _ _ h h' := Eq.trans h' h

lemma zoom_store_pins {α : Type} (m : Go Storage α) :
    Prog.Keeps SamePins (.zoom Peer.store (fun t s => { s with store := t }) m) := by
  refine zoom ?_ m
  intro t s
  rfl

lemma replayOne_pins (p : Payment) (balances : FinMap Address Nat) :
    Prog.Keeps SamePins (replayOne p balances) := by
  refine bind (modify fun _ => rfl) fun _ => ?_
  refine bind (gets _) fun wc => ?_
  split
  · exact pure _
  · exact raise _

lemma replay_pins (ps : List Payment) :
    ∀ balances : FinMap Address Nat, Prog.Keeps SamePins (replay ps balances) := by
  induction ps with
  | nil =>
    intro balances
    exact pure _
  | cons p ps ih =>
    intro balances
    exact bind (replayOne_pins p balances) ih

lemma applyDiff_pins (balances : FinMap Address Nat) (d : Diff) :
    Prog.Keeps SamePins (applyDiff balances d) := by
  cases d with
  | account a acc =>
    exact bind (modify fun _ => rfl) fun _ => pure _
  | mapping a k v =>
    exact bind (zoom_store_pins _) fun _ => pure _

lemma applyDiffs_pins (ds : List Diff) :
    ∀ balances : FinMap Address Nat, Prog.Keeps SamePins (applyDiffs ds balances) := by
  induction ds with
  | nil =>
    intro balances
    exact pure _
  | cons d ds ih =>
    intro balances
    exact bind (applyDiff_pins balances d) ih

lemma checkBalances_pins (es : List (Sigma fun _ : Address => Nat)) :
    Prog.Keeps SamePins (checkBalances es) := by
  have hone : ∀ a b, Prog.Keeps SamePins (checkBalance a b) := by
    intro a b
    refine ⟨fun s => ?_⟩
    unfold Prog.wp checkBalance
    cases WalletCache.get s.walletCacheConfirmed a <;> exact refl_of SamePins s
  induction es with
  | nil => exact pure _
  | cons e es ih =>
    refine bind (hone _ _) fun passed => ?_
    exact ite ih (pure _)

lemma runSmartContractStageFullNode_pins (env : NodeEnv) (balances : FinMap Address Nat)
    (pin : ContractPin) : Prog.Keeps SamePins (runSmartContractStageFullNode env balances pin) := by
  refine bind (gets _) fun pins => ?_
  refine bind (zoom_store_pins _) fun diffs => ?_
  exact modify fun _ => rfl

lemma syncPinsAs_pins (env : NodeEnv) (pin : ContractPin) (type : NodeType) :
    Prog.Keeps SamePins (syncPinsAs env pin type) := by
  cases type with
  | fullNode =>
    refine bind (replay_pins _ _) fun balances => ?_
    exact bind (keeps_attempt (runSmartContractStageFullNode_pins env balances pin)) fun _ => pure _
  | peerNode =>
    refine bind ?_ fun _ => pure _
    refine bind (replay_pins _ _) fun balances => ?_
    refine bind (modify fun _ => rfl) fun _ => ?_
    refine bind (applyDiffs_pins _ _) fun diffs => ?_
    refine bind (modify fun _ => rfl) fun _ => ?_
    exact checkBalances_pins _
  | other => exact bind (replay_pins _ _) fun _ => pure _

end Peer

/-! ## The follower after a pin -/

lemma Ledger.amount_le_of_accepted {L : Ledger} {p : Payment} (hne : p.sender ≠ p.recipient)
    (h : (L.addToDag p).1 = true) : (p.amount : Int) ≤ L.effective p.sender := by
  by_contra hless
  have huncovered := updateBalanceIfValid_uncovered hne (not_le.mp hless)
  unfold addToDag at h
  simp [huncovered.1] at h

namespace Follower

lemma processPin_ok {env : NodeEnv} {type : NodeType} {gap : GapOutcome} {pin : ContractPin}
    {s s' : Follower} (horder : currentHeight s.pins + 1 = pin.pinNumber)
    (hrun : processPin env type gap pin s = .ok () s') :
    s'.walletCache = s'.walletCacheConfirmed ∧ s'.dag = s.dag ∧ s'.pins = s.pins ++ [pin.toTxPin] := by
  unfold processPin at hrun
  rw [Prog.gets_bind, if_pos horder] at hrun
  obtain ⟨_, s1, hsync, hrest⟩ := Prog.bind_eq_ok.mp hrun
  unfold Prog.zoom at hsync
  cases hpeer : Peer.syncPinsAs env pin type s.toPeer with
  | ok a t =>
    rw [hpeer] at hsync
    cases hsync
    cases hrest
    have hpins : t.pins = s.pins := ((Peer.syncPinsAs_pins env pin type).wp s.toPeer).of_ok hpeer
    exact ⟨rfl, rfl, congrArg (· ++ [pin.toTxPin]) hpins⟩
  | err e t | diverge =>
    rw [hpeer] at hsync
    cases hsync

/-- **Unconfirmed spending survives a pin if and only if** the payments that the pin leaves
unconfirmed add up to nothing for every wallet. -/
theorem unconfirmed_survives_iff {env : NodeEnv} {type : NodeType} {gap : GapOutcome}
    {pin : ContractPin} {s s' : Follower} (horder : currentHeight s.pins + 1 = pin.pinNumber)
    (hrun : processPin env type gap pin s = .ok () s') :
    Survives s' ↔ ∀ w, net (unconfirmed s.dag (s.pins ++ [pin.toTxPin])) w = 0 := by
  obtain ⟨hcache, hdag, hpins⟩ := processPin_ok horder hrun
  have heffective : ∀ w, s'.live.effective w = s'.confirmedBalance w := by
    intro w
    show WalletCache.loaded s'.pins s'.walletCache w = _
    rw [hcache]
    rfl
  have hspendable : ∀ w, s'.spendable w
      = s'.confirmedBalance w + net (unconfirmed s.dag (s.pins ++ [pin.toTxPin])) w := by
    intro w
    unfold spendable
    rw [hdag, hpins]
  constructor
  · intro hsurvives w
    have hbalance := hsurvives.balances w
    rw [heffective, hspendable] at hbalance
    omega
  · intro hnothing
    have hbalances : ∀ w, s'.live.effective w = s'.spendable w := by
      intro w
      rw [heffective, hspendable, hnothing w]
      omega
    refine ⟨hbalances, ?_⟩
    intro p hne haccepted
    rw [← hbalances]
    exact Ledger.amount_le_of_accepted hne haccepted

def silentNode : NodeEnv := .inOrder ⟨fun _ _ _ => [], fun _ _ _ => none, fun _ _ _ => rfl⟩

def samplePayment : Payment := ⟨1, 1, [1], 500, 501, initialOffering, false⟩

def samplePaid : Follower := ⟨⟨[.genesis 500], ∅, .new⟩,
    ((⟨[], ∅, [.genesis 500], 0, .new⟩ : Ledger).addToDag samplePayment).2.walletCache,
    [samplePayment]⟩

def samplePin (nodes : List Payment) : ContractPin := ⟨⟨nodes, ∅, [], 1⟩, 0, []⟩

/-- **A payment is made twice**: the first pin does not contain the payment of 500, and after the
pin the peer accepts it again, to 502. -/
theorem spent_amount_spendable_again :
    (samplePaid.live.addToDag ⟨2, 2, [2], 500, 502, initialOffering, false⟩).1 = false ∧
    ∃ s', processPin silentNode .peerNode .timeout (samplePin []) samplePaid = .ok () s' ∧
      (s'.live.addToDag ⟨2, 2, [2], 500, 502, initialOffering, false⟩).1 = true ∧
      ¬ Survives s' := by
  refine ⟨by decide +kernel, ?_⟩
  obtain ⟨s', hok, haccepted, hspent⟩ : ∃ s',
      processPin silentNode .peerNode .timeout (samplePin []) samplePaid = .ok () s' ∧
      (s'.live.addToDag ⟨2, 2, [2], 500, 502, initialOffering, false⟩).1 = true ∧
      s'.spendable 500 < initialOffering := by decide +kernel
  refine ⟨s', hok, haccepted, fun hsurvives => ?_⟩
  have hle := hsurvives.spent ⟨2, 2, [2], 500, 502, initialOffering, false⟩ (by decide) haccepted
  exact absurd hle (not_le.mpr hspent)

theorem confirmed_payment_survives :
    ∃ s', processPin silentNode .peerNode .timeout (samplePin [samplePayment]) samplePaid
      = .ok () s' ∧ Survives s' := by
  obtain ⟨_, s', hok⟩ : ∃ x s', processPin silentNode .peerNode .timeout
      (samplePin [samplePayment]) samplePaid = .ok x s' := by decide +kernel
  refine ⟨s', hok, (unconfirmed_survives_iff (by decide) hok).mpr fun w => ?_⟩
  rfl

end Follower

end GrapeDag
