/-
A FOLLOWER REPLAYS PAYMENTS.

The first loop of `SyncPins` takes every payment of a pin from the sender and gives it to the
recipient, ignoring the errors of both. The leader's `UpdateBalanceIfValid` stops when the
sender cannot pay and does nothing for a payment to oneself.

Main result: `payments_replayed_iff`.
-/
import GrapeDag.Dag.Confirmed

namespace GrapeDag

open Imperative WalletCache Bank

namespace Peer

/-- The confirmed balances of a peer, as a ledger of their own. -/
def ledger (s : Peer) : Ledger := ⟨[], s.walletCacheConfirmed, s.pins, 0, s.store⟩

/-! ## The agreement -/

/-- The replay of the payments agrees with `UpdateBalanceIfValid`. -/
structure Agrees (s : Peer) (ps : List Payment) : Prop where
  conserves : ∃ balances s', replay ps ∅ s = .ok balances s' ∧
    ∑ w, s'.ledger.effective w = ∑ w, s.ledger.effective w
  effect : ∀ before p after, ps = before ++ p :: after →
    ∃ b1 s1 b2 s2, replay before ∅ s = .ok b1 s1 ∧ replay (before ++ [p]) ∅ s = .ok b2 s2 ∧
      s2.ledger.effective = (s1.ledger.updateBalanceIfValid p).2.effective

/-- Each payment in its turn is covered, for balances `b` of which those of the `known` wallets
are in the cache. A payment of nothing always is. The last case is that of negative balances: a
known sender cannot pay, and the recipient's balance stays negative with the payment too, so that
both steps fail. -/
def Fair (b : Address → Int) (known : Address → Bool) : List Payment → Prop
  | [] => True
  | p :: ps =>
      let known' := fun w => known w || decide (p.Touches w)
      (p.amount = 0 ∧ Fair b known' ps) ∨
      (p.amount ≠ 0 ∧ (p.amount : Int) ≤ b p.sender ∧
        (p.sender = p.recipient ∨ 0 ≤ b p.recipient + p.amount) ∧
        Fair (Bank.move b p.sender p.recipient p.amount) known' ps) ∨
      (p.amount ≠ 0 ∧ b p.sender < p.amount ∧ known p.sender = true ∧
        b p.recipient + p.amount < 0 ∧ Fair b known' ps)

variable {p : Payment} {ps : List Payment} {s : Peer}

lemma fair_cons {b : Address → Int} {known : Address → Bool} : Fair b known (p :: ps) ↔
      (p.amount = 0 ∧ Fair b (fun w => known w || decide (p.Touches w)) ps) ∨
      (p.amount ≠ 0 ∧ (p.amount : Int) ≤ b p.sender ∧
        (p.sender = p.recipient ∨ 0 ≤ b p.recipient + p.amount) ∧
        Fair (move b p.sender p.recipient p.amount) (fun w => known w || decide (p.Touches w)) ps) ∨
      (p.amount ≠ 0 ∧ b p.sender < p.amount ∧ known p.sender = true ∧
        b p.recipient + p.amount < 0 ∧ Fair b (fun w => known w || decide (p.Touches w)) ps) :=
  Iff.rfl

instance decidableFair : (b : Address → Int) → (known : Address → Bool) → (ps : List Payment) →
    Decidable (Fair b known ps)
  | _, _, [] => isTrue trivial
  | b, known, p :: ps =>
      let known' := fun w => known w || decide (p.Touches w)
      let _ := decidableFair b known' ps
      let _ := decidableFair (Bank.move b p.sender p.recipient p.amount) known' ps
      decidable_of_iff' _ fair_cons

/-! ## One payment -/

section

variable {pins : List TxPin} {wc : WalletCache} {p : Payment}

/-- A covered payment to oneself, or to a wallet whose balance it does not leave negative, moves
its amount. -/
theorem loaded_paid_covered (h : (p.amount : Int) ≤ loaded pins wc p.sender)
    (hr : p.sender = p.recipient ∨ 0 ≤ loaded pins wc p.recipient + p.amount) :
    loaded pins (paid pins p wc) = move (loaded pins wc) p.sender p.recipient p.amount := by
  funext w
  simp only [paid, add, sub, loaded_change, move_apply]
  grind

lemma loaded_paid_lost (h : (p.amount : Int) ≤ loaded pins wc p.sender)
    (hr : loaded pins wc p.recipient + p.amount < 0) (w : Address) :
    loaded pins (paid pins p wc) w
      = loaded pins wc w - (if w = p.sender then (p.amount : Int) else 0) := by
  simp only [paid, add, sub, loaded_change]
  grind

lemma loaded_paid_uncovered (h : loaded pins wc p.sender < p.amount) (w : Address) :
    loaded pins (paid pins p wc) w = loaded pins wc w +
      (if w = p.recipient ∧ 0 ≤ loaded pins wc p.recipient + p.amount
        then (p.amount : Int) else 0) := by
  simp only [paid, add, sub, loaded_change]
  grind

lemma isSome_get_paid_eq (h : Payable pins p wc) (w : Address) : (get (paid pins p wc) w).isSome
      = ((get wc w).isSome || decide (p.Touches w)) := by
  by_cases htouch : p.Touches w
  · rw [decide_eq_true htouch, Bool.or_true]
    rcases htouch with hs | hr
    · rw [hs]
      exact (isSome_get_paid_sender pins p wc).mpr h
    · rw [hr]
      exact isSome_get_paid_recipient pins p wc
  · rw [decide_eq_false htouch, Bool.or_false, get_paid_of_not_touches pins p wc htouch]

end

/-- The turn does not panic, and has the effect of `UpdateBalanceIfValid`. -/
def StepAgrees (s : Peer) (p : Payment) : Prop := Payable s.pins p s.walletCacheConfirmed ∧
    (s.pay p).ledger.effective = (s.ledger.updateBalanceIfValid p).2.effective

section

variable {s : Peer} {p : Payment}

lemma valid_of_covered (hne : p.sender ≠ p.recipient)
    (h : (p.amount : Int) ≤ s.ledger.effective p.sender) :
    (s.ledger.updateBalanceIfValid p).2.effective = (s.pay p).ledger.effective := by
  have hpays : 0 ≤ loaded s.pins s.walletCacheConfirmed p.sender + -(p.amount : Int) := by
    have : (p.amount : Int) ≤ loaded s.pins s.walletCacheConfirmed p.sender := h
    omega
  unfold Ledger.updateBalanceIfValid
  simp only [if_neg hne]
  show (if (change s.pins p.sender (-(p.amount : Int)) s.walletCacheConfirmed).1 = true
    then _ else _ : Bool × Ledger).2.effective = _
  rw [fst_change, if_pos (decide_eq_true hpays)]
  rfl

lemma payable_of_covered (h : (p.amount : Int) ≤ s.ledger.effective p.sender) :
    Payable s.pins p s.walletCacheConfirmed := .inr (.inr h)

lemma effective_pay_zero (h : p.amount = 0) : (s.pay p).ledger.effective = s.ledger.effective := by
  funext w
  show loaded s.pins (paid s.pins p s.walletCacheConfirmed) w
    = loaded s.pins s.walletCacheConfirmed w
  simp [paid, add, sub, loaded_change, h]

lemma valid_of_uncovered (h : s.ledger.effective p.sender < p.amount) :
    (s.ledger.updateBalanceIfValid p).2.effective = s.ledger.effective := by
  by_cases hself : p.sender = p.recipient
  · rw [Ledger.updateBalanceIfValid_self hself]
  · exact (Ledger.updateBalanceIfValid_uncovered hself h).2

lemma stepAgrees_covered (h : (p.amount : Int) ≤ s.ledger.effective p.sender) : StepAgrees s p := by
  refine ⟨payable_of_covered h, ?_⟩
  by_cases hself : p.sender = p.recipient
  · have hpay : (s.pay p).ledger.effective = move s.ledger.effective p.sender p.recipient p.amount :=
      loaded_paid_covered h (.inl hself)
    rw [hpay, Ledger.updateBalanceIfValid_self hself, hself, move_self]
  · exact (valid_of_covered hself h).symm

lemma stepAgrees_zero (h : p.amount = 0) : StepAgrees s p := by
  by_cases hcovered : (p.amount : Int) ≤ s.ledger.effective p.sender
  · exact stepAgrees_covered hcovered
  · have hneg : loaded s.pins s.walletCacheConfirmed p.sender < 0 := by
      have : ¬ (p.amount : Int) ≤ loaded s.pins s.walletCacheConfirmed p.sender := hcovered
      omega
    refine ⟨.inr (.inl (isSome_get_of_neg hneg)), ?_⟩
    rw [effective_pay_zero h, valid_of_uncovered (by omega)]

/-- A payment that the sender cannot make is replayed without effect only if the recipient
cannot take it either, and the sender is in the cache. -/
theorem stepAgrees_uncovered (hamount : p.amount ≠ 0) (h : s.ledger.effective p.sender < p.amount) :
    StepAgrees s p ↔ (get s.walletCacheConfirmed p.sender).isSome = true ∧
      s.ledger.effective p.recipient + p.amount < 0 := by
  have hpay : ∀ w, (s.pay p).ledger.effective w = s.ledger.effective w +
      (if w = p.recipient ∧ 0 ≤ s.ledger.effective p.recipient + p.amount
        then (p.amount : Int) else 0) := loaded_paid_uncovered h
  unfold StepAgrees
  rw [valid_of_uncovered h]
  constructor
  · intro hagrees
    have hdebt : s.ledger.effective p.recipient + p.amount < 0 := by
      have hsame := congrFun hagrees.2 p.recipient
      rw [hpay] at hsame
      by_contra hnot
      rw [if_pos ⟨rfl, by omega⟩] at hsame
      omega
    refine ⟨?_, hdebt⟩
    rcases hagrees.1 with hself | hknown | hcovered
    · have hneg : s.ledger.effective p.sender < 0 := by
        rw [hself]
        omega
      exact isSome_get_of_neg hneg
    · exact hknown
    · exact absurd hcovered (by
        have : loaded s.pins s.walletCacheConfirmed p.sender < p.amount := h
        omega)
  · intro hdebt
    refine ⟨.inr (.inl hdebt.1), funext fun w => ?_⟩
    rw [hpay, if_neg (by omega), Int.add_zero]

lemma sum_pay_lost (hcovered : (p.amount : Int) ≤ s.ledger.effective p.sender)
    (hr : s.ledger.effective p.recipient + p.amount < 0) :
    ∑ w, (s.pay p).ledger.effective w = ∑ w, s.ledger.effective w - p.amount := by
  have hpay : ∀ w, (s.pay p).ledger.effective w = s.ledger.effective w -
      (if w = p.sender then (p.amount : Int) else 0) := loaded_paid_lost hcovered hr
  simp only [hpay, Finset.sum_sub_distrib]
  simp

lemma sum_pay_le (h : StepAgrees s p) : ∑ w, (s.pay p).ledger.effective w ≤ ∑ w, s.ledger.effective w := by
  by_cases hcovered : (p.amount : Int) ≤ s.ledger.effective p.sender
  · by_cases hr : p.sender = p.recipient ∨ 0 ≤ s.ledger.effective p.recipient + p.amount
    · have hpay : (s.pay p).ledger.effective = move s.ledger.effective p.sender p.recipient p.amount :=
        loaded_paid_covered hcovered hr
      rw [hpay, sum_move]
    · rw [not_or] at hr
      have hlost := sum_pay_lost hcovered (by omega)
      omega
  · have hsame : (s.pay p).ledger.effective = s.ledger.effective := by
      rw [h.2, valid_of_uncovered (by omega)]
    rw [hsame]

end

/-! ## All payments -/

/-- The steps agree at every payment. -/
def Stepwise : Peer → List Payment → Prop
  | _, [] => True
  | s, p :: ps => StepAgrees s p ∧ Stepwise (s.pay p) ps

lemma replay_iff {Q : Peer → Prop} : (∃ balances s', replay ps ∅ s = .ok balances s' ∧ Q s') ↔
      Solvent s.pins ps s.walletCacheConfirmed ∧ Q (s.payAll ps) := by
  constructor
  · rintro ⟨balances, s', hrun, hQ⟩
    obtain ⟨hsolvent, rfl, -⟩ := replay_eq_ok hrun
    exact ⟨hsolvent, hQ⟩
  · rintro ⟨hsolvent, hQ⟩
    obtain ⟨balances', hok, _⟩ := replay_ok ps ∅ s hsolvent
    exact ⟨balances', _, hok, payAll_eq ps s ▸ hQ⟩

lemma stepwise_iff (ps : List Payment) : ∀ s : Peer, Stepwise s ps ↔
      ∀ before p after, ps = before ++ p :: after → StepAgrees (s.payAll before) p := by
  induction ps with
  | nil =>
    intro s
    constructor
    · intro _ before p after h
      simp at h
    · intro _
      trivial
  | cons q ps ih =>
    intro s
    show StepAgrees s q ∧ Stepwise (s.pay q) ps ↔ _
    rw [ih (s.pay q)]
    constructor
    · intro h before p after heq
      cases before with
      | nil =>
        obtain ⟨rfl, _⟩ := List.cons.inj heq
        exact h.1
      | cons b before =>
        obtain ⟨rfl, hrest⟩ := List.cons.inj heq
        exact h.2 before p after hrest
    · intro h
      refine ⟨h [] q ps rfl, fun before p after heq => ?_⟩
      exact h (q :: before) p after (by rw [heq]; rfl)

lemma solvent_of_stepwise (ps : List Payment) :
    ∀ s : Peer, Stepwise s ps → Solvent s.pins ps s.walletCacheConfirmed := by
  induction ps with
  | nil =>
    intro s _
    trivial
  | cons p ps ih =>
    intro s h
    exact ⟨h.1.1, ih (s.pay p) h.2⟩

lemma solvent_append {pins : List TxPin} (ps qs : List Payment) :
    ∀ wc, Solvent pins (ps ++ qs) wc ↔ Solvent pins ps wc ∧ Solvent pins qs (paidAll pins ps wc) := by
  induction ps with
  | nil =>
    intro wc
    simp [Solvent, paidAll]
  | cons p ps ih =>
    intro wc
    show Payable pins p wc ∧ Solvent pins (ps ++ qs) (paid pins p wc) ↔ _
    rw [ih]
    exact and_assoc.symm

lemma payAll_append (s : Peer) (ps qs : List Payment) :
    s.payAll (ps ++ qs) = (s.payAll ps).payAll qs := List.foldl_append

lemma agrees_iff (s : Peer) (ps : List Payment) :
    Agrees s ps ↔ Stepwise s ps ∧ ∑ w, (s.payAll ps).ledger.effective w = ∑ w, s.ledger.effective w := by
  constructor
  · intro h
    refine ⟨(stepwise_iff ps s).mpr fun before p after heq => ?_, (replay_iff.mp h.conserves).2⟩
    obtain ⟨b1, s1, b2, s2, hbefore, hafter, heffect⟩ := h.effect before p after heq
    obtain ⟨_, rfl⟩ := replay_iff.mp ⟨b1, s1, hbefore, rfl⟩
    obtain ⟨hsolvent, rfl⟩ := replay_iff.mp ⟨b2, s2, hafter, rfl⟩
    rw [payAll_append] at heffect
    refine ⟨?_, heffect⟩
    rw [payAll_eq]
    exact ((solvent_append before [p] _).mp hsolvent).2.1
  · intro h
    have hsolvent := solvent_of_stepwise ps s h.1
    refine ⟨replay_iff.mpr ⟨hsolvent, h.2⟩, fun before p after heq => ?_⟩
    have hstep := (stepwise_iff ps s).mp h.1 before p after heq
    have hhex : Solvent s.pins (before ++ [p]) s.walletCacheConfirmed := by
      rw [heq, show before ++ p :: after = (before ++ [p]) ++ after by simp, solvent_append] at hsolvent
      exact hsolvent.1
    obtain ⟨b1, s1, hbefore, hs1⟩ := (replay_iff (Q := fun t => t = s.payAll before)).mpr
      ⟨((solvent_append before [p] _).mp hhex).1, rfl⟩
    obtain ⟨b2, s2, hafter, hs2⟩ := (replay_iff (Q := fun t => t = s.payAll (before ++ [p]))).mpr ⟨hhex, rfl⟩
    refine ⟨b1, s1, b2, s2, hbefore, hafter, ?_⟩
    rw [hs1, hs2, payAll_append]
    exact hstep.2

lemma sum_payAll_le (ps : List Payment) :
    ∀ s : Peer, Stepwise s ps → ∑ w, (s.payAll ps).ledger.effective w ≤ ∑ w, s.ledger.effective w := by
  induction ps with
  | nil =>
    intro s _
    exact le_refl _
  | cons p ps ih =>
    intro s h
    exact le_trans (ih (s.pay p) h.2) (sum_pay_le h.1)

def known (s : Peer) (w : Address) : Bool := (WalletCache.get s.walletCacheConfirmed w).isSome

lemma known_pay (h : StepAgrees s p) : (s.pay p).known = fun w => s.known w || decide (p.Touches w) :=
  funext fun w => isSome_get_paid_eq h.1 w

lemma stepwise_cons_iff : (Stepwise s (p :: ps) ∧
        ∑ w, (s.payAll (p :: ps)).ledger.effective w = ∑ w, s.ledger.effective w) ↔
      StepAgrees s p ∧ ∑ w, (s.pay p).ledger.effective w = ∑ w, s.ledger.effective w ∧
      Stepwise (s.pay p) ps ∧
        ∑ w, ((s.pay p).payAll ps).ledger.effective w = ∑ w, (s.pay p).ledger.effective w := by
  show (StepAgrees s p ∧ Stepwise (s.pay p) ps) ∧
    ∑ w, ((s.pay p).payAll ps).ledger.effective w = ∑ w, s.ledger.effective w ↔ _
  constructor
  · rintro ⟨⟨hstep, hrest⟩, hsum⟩
    have hone := sum_pay_le hstep
    have hall := sum_payAll_le ps (s.pay p) hrest
    exact ⟨hstep, by omega, hrest, by omega⟩
  · rintro ⟨hstep, hone, hrest, hall⟩
    exact ⟨⟨hstep, hrest⟩, by omega⟩

lemma stepwise_iff_fair (ps : List Payment) : ∀ s : Peer, (Stepwise s ps ∧
        ∑ w, (s.payAll ps).ledger.effective w = ∑ w, s.ledger.effective w) ↔
      Fair s.ledger.effective s.known ps := by
  induction ps with
  | nil =>
    intro s
    simp [Stepwise, Fair, payAll]
  | cons p ps ih =>
    intro s
    rw [stepwise_cons_iff, ih (s.pay p), fair_cons]
    by_cases hzero : p.amount = 0
    · -- nothing is paid
      have hstep : StepAgrees s p := stepAgrees_zero hzero
      rw [effective_pay_zero hzero, known_pay hstep]
      simp [hzero, hstep]
    · by_cases hcovered : (p.amount : Int) ≤ s.ledger.effective p.sender
      · have hstep : StepAgrees s p := stepAgrees_covered hcovered
        have hnot : ¬ s.ledger.effective p.sender < p.amount := by omega
        by_cases hr : p.sender = p.recipient ∨ 0 ≤ s.ledger.effective p.recipient + p.amount
        · -- the amount is moved
          have hpay : (s.pay p).ledger.effective
              = move s.ledger.effective p.sender p.recipient p.amount :=
            loaded_paid_covered hcovered hr
          rw [hpay, known_pay hstep, sum_move]
          simp [hzero, hstep, hcovered, hr, hnot]
        · -- the amount is lost
          have hlost := sum_pay_lost hcovered (by rw [not_or] at hr; omega)
          have hpos : ∑ w, (s.pay p).ledger.effective w ≠ ∑ w, s.ledger.effective w := by omega
          simp [hzero, hr, hnot, hpos]
      · have hless : s.ledger.effective p.sender < p.amount := by omega
        by_cases hdebt : s.known p.sender = true ∧ s.ledger.effective p.recipient + p.amount < 0
        · -- both steps fail
          have hstep : StepAgrees s p := (stepAgrees_uncovered hzero hless).mpr hdebt
          have hpay : (s.pay p).ledger.effective = s.ledger.effective := by
            rw [hstep.2, valid_of_uncovered hless]
          rw [hpay, known_pay hstep]
          simp [hzero, hstep, hcovered, hless, hdebt]
        · -- the recipient gets what the sender has not paid, or the sender has no balance
          have hstep : ¬ StepAgrees s p := fun h => hdebt ((stepAgrees_uncovered hzero hless).mp h)
          constructor
          · intro h
            exact absurd h.1 hstep
          · intro h
            rcases h with h | h | h
            · exact absurd h.1 hzero
            · exact absurd h.2.1 hcovered
            · exact absurd ⟨h.2.2.1, h.2.2.2.1⟩ hdebt

/-- **A FOLLOWER REPLAYS PAYMENTS.** For every confirmed state and every pin: replaying the
payments returns, conserves the sum of the confirmed balances and gives each payment the effect of
`UpdateBalanceIfValid`, if and only if the payments are fair. -/
theorem payments_replayed_iff (s : Peer) (pin : TxPin) :
    Agrees s pin.nodes ↔ Fair s.ledger.effective s.known pin.nodes := by
  rw [agrees_iff, stepwise_iff_fair]

def sampleGenesis : Peer := ⟨[.genesis 500], ∅, .new⟩

def sampleOverspent : List Payment := [⟨1, 0, [1], 500, 501, 5, false⟩, ⟨2, 1, [2], 501, 502, 7, false⟩]

/-- **Money is created**: 501 keeps its 5, and 502 gets 7. -/
theorem overspent_payment_creates_money :
    (∃ balances s', replay sampleOverspent ∅ sampleGenesis = .ok balances s' ∧
      s'.ledger.effective 501 = 5 ∧ s'.ledger.effective 502 = 7) ∧
    ¬ Agrees sampleGenesis sampleOverspent := by
  rw [agrees_iff, stepwise_iff_fair]
  decide +kernel

/-- A sender without a confirmed balance makes the follower panic. -/
example : (replay [⟨1, 0, [1], 501, 502, 7, false⟩] ∅ sampleGenesis).throws (fun _ => true) = true := by
  decide +kernel

end Peer

end GrapeDag
