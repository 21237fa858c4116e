/-
FROM A SUBMITTED TRANSACTION TO THE WALLET BALANCES.

`SendRawTransaction` of `src/services/transactions.go`, the loops of `src/diffusion/publish.go`
and `subscribe.go`, `NewDagNode`, `AddTxDag` and `InsertTxDag` of `src/dag`. A transaction is
submitted to this node, which publishes it under a fresh vertex id, or announced by another node
under that node's id. Both ways end in `addToDag`.

Main results: `spending_authorised_iff` and `payments_not_replayed`.
-/
import GrapeDag.Dag.Transaction
import GrapeDag.Dag.Confirmed

namespace GrapeDag

open Imperative WalletCache Ledger List

/-! ## The node -/

/-- What a node publishes of a site it added. -/
structure Announcement where
  tx : Transaction
  id : NodeId
  targets : List NodeId

structure NodeState where
  ledger : Ledger
  publishQueue : List Transaction
  inboundQueue : List Announcement
  /-- the publisher has met a stop transaction -/
  stopped : Bool

/-- What can happen to a node. The vertex ids, the times, the outcome of the tip selection and of
the search for a version conflict are those of the event. -/
inductive NodeEvent where
  | submit (tx : Transaction)
  | publish (id : NodeId) (time : Int) (approved : Bool)
  | deliver (announced : Announcement)
  | insert (time : Int) (conflict : Bool)
  | pin (sites : List Payment) (smc : Go Storage Unit)

section

variable (c : Crypto) (network : Nat)

def onNetwork (tx : Transaction) : Bool := tx.getChainType = .ok network

/-- `GetBalance`: the newest cached balance, else the one in the pins, else an error. -/
def getBalance (L : Ledger) (w : Address) : Option Nat :=
  match WalletCache.get L.walletCache w with
  | some b => some b.natAbs
  | none => getLatestBalance L.pins w

/-- `SendRawTransaction` for a parsed transaction: whether it is queued for publication. Contract
transactions go to the pool of the contract stage instead. -/
def accepts (L : Ledger) (tx : Transaction) : Bool :=
  tx.verifySignature c = .ok () && onNetwork network tx &&
    match tx.getTransactionType with
    | .callContract | .publishContract => false
    | _ =>
        match tx.senderWallet c with
        | .error _ => false
        | .ok w =>
            match getBalance L w with
            | none => false
            | some balance =>
                decide (tx.getAmount + tx.getFuelLimit * tx.getFuelPrice ≤ (balance : Int)) &&
                  decide (tx.getFuelLimit = 0) && decide (tx.getFuelPrice = 0)

/-- The transaction of the event and what the ledger reads of it, if the event tries to add one to
the DAG. `AddTxDag` selects tips for payments only; `InsertTxDag` skips a vertex id that is in the
DAG, and gives up on a version conflict unless targets are missing. -/
def NodeState.attempted (s : NodeState) : NodeEvent → Option (Transaction × Payment)
  | .publish id time approved =>
      match s.publishQueue with
      | [] => none
      | tx :: _ =>
          if !s.stopped && !tx.isStop && onNetwork network tx &&
              tx.getTransactionType = .payment && approved then
            (tx.payment c id time).toOption.map (tx, ·)
          else none
  | .insert time conflict =>
      match s.inboundQueue with
      | [] => none
      | a :: _ =>
          if s.ledger.dag.any (·.id = a.id) then none
          else
            let missing := a.targets.any fun t =>
              !s.ledger.dag.any (·.id = t) && !(pinnedNodes s.ledger.pins).any (·.id = t)
            if missing || !conflict then (a.tx.payment c a.id time).toOption.map (a.tx, ·)
            else none
  | _ => none

def NodeState.queued (s : NodeState) : NodeEvent → NodeState
  | .submit tx =>
      if accepts c network s.ledger tx then { s with publishQueue := s.publishQueue ++ [tx] } else s
  | .publish _ _ _ =>
      match s.publishQueue with
      | [] => s
      | tx :: rest =>
          if s.stopped then s
          else { s with publishQueue := rest, stopped := tx.isStop }
  | .deliver a =>
      if onNetwork network a.tx && a.tx.verifySignature c = .ok () then
        { s with inboundQueue := s.inboundQueue ++ [a] }
      else s
  | .insert _ _ => { s with inboundQueue := s.inboundQueue.tail }
  | .pin _ _ => s

def NodeState.applied (s : NodeState) (e : NodeEvent) : Ledger :=
  match s.attempted c network e with
  | some (_, p) => (s.ledger.addToDag p).2
  | none =>
      match e with
      | .pin sites smc => ((Ledger.add sites smc s.ledger).state?).getD s.ledger
      | _ => s.ledger

def NodeState.step (s : NodeState) (e : NodeEvent) : NodeState :=
  { s.queued c network e with ledger := s.applied c network e }

def NodeState.run (s : NodeState) (events : List NodeEvent) : NodeState :=
  events.foldl (fun s e => s.step c network e) s

end

def NodeState.start (wallet : Address) (hash : Bytes) (store : Storage) : NodeState :=
  ⟨.genesis wallet hash store, [], [], false⟩

/-! ## The invariant -/

variable {e : NodeEvent} {tx : Transaction} {p : Payment}

section

variable {c : Crypto} {network : Nat} {s : NodeState}

/-- The signature has been verified, and the transaction is one of this network. -/
def Transaction.Admitted (c : Crypto) (network : Nat) (tx : Transaction) : Prop :=
  tx.verifySignature c = .ok () ∧ tx.getChainType = .ok network

/-- What is queued has been checked, and no balance is negative. -/
structure NodeState.Inv (c : Crypto) (network : Nat) (s : NodeState) : Prop where
  published : ∀ tx ∈ s.publishQueue, tx.Admitted c network
  announced : ∀ a ∈ s.inboundQueue, a.tx.Admitted c network
  nonneg : ∀ w, 0 ≤ s.ledger.effective w

lemma NodeState.inv_start (c : Crypto) (network : Nat) (wallet : Address) (hash : Bytes)
    (store : Storage) : (NodeState.start wallet hash store).Inv c network := by
  refine ⟨fun tx htx => ?_, fun a ha => ?_, fun w => ?_⟩
  · cases htx
  · cases ha
  · show 0 ≤ (genesis wallet hash store).effective w
    rw [effective_genesis]
    split <;> omega

lemma NodeState.attempted_cases (h : s.attempted c network e = some (tx, p)) :
    (∃ id time approved rest, e = .publish id time approved ∧ s.publishQueue = tx :: rest ∧
      tx.payment c id time = .ok p) ∨
    (∃ time conflict a rest, e = .insert time conflict ∧ s.inboundQueue = a :: rest ∧
      a.tx = tx ∧ s.ledger.dag.any (·.id = a.id) = false ∧ tx.payment c a.id time = .ok p) := by
  have hok : ∀ {x : Except GoError Payment} {t : Transaction},
      x.toOption.map (t, ·) = some (tx, p) → t = tx ∧ x = .ok p := by
    intro x t hx
    cases x with
    | error _ => cases hx
    | ok q =>
      obtain ⟨rfl, rfl⟩ := Prod.mk_inj.mp (Option.some.inj hx)
      exact ⟨rfl, rfl⟩
  cases e with
  | submit t | deliver a | pin sites smc => cases h
  | publish id time approved =>
    unfold NodeState.attempted at h
    cases hqueue : s.publishQueue with
    | nil => simp [hqueue] at h
    | cons t rest =>
      simp only [hqueue] at h
      split at h
      · obtain ⟨rfl, hpay⟩ := hok h
        exact .inl ⟨id, time, approved, rest, rfl, rfl, hpay⟩
      · cases h
  | insert time conflict =>
    unfold NodeState.attempted at h
    cases hqueue : s.inboundQueue with
    | nil => simp [hqueue] at h
    | cons a rest =>
      simp only [hqueue] at h
      split at h
      · cases h
      next hnew =>
      split at h
      · obtain ⟨htx, hpay⟩ := hok h
        refine .inr ⟨time, conflict, a, rest, rfl, rfl, htx, by simpa using hnew, ?_⟩
        exact htx ▸ hpay
      · cases h

lemma NodeState.admitted_of_attempted (hinv : s.Inv c network)
    (h : s.attempted c network e = some (tx, p)) : tx.Admitted c network := by
  rcases attempted_cases h with ⟨_, _, _, rest, _, hqueue, _⟩ | ⟨_, _, a, rest, _, hqueue, rfl, _⟩
  · exact hinv.published tx (by simp [hqueue])
  · exact hinv.announced a (by simp [hqueue])

/-- An event leaves the ledger as it is, adds a payment to it, or pins. -/
lemma NodeState.applied_induct {P : Ledger → Prop} (s : NodeState) (e : NodeEvent) (h : P s.ledger)
    (hadd : ∀ p, P (s.ledger.addToDag p).2)
    (hpin : ∀ sites smc, P (((Ledger.add sites smc s.ledger).state?).getD s.ledger)) :
    P (s.applied c network e) := by
  unfold NodeState.applied
  cases s.attempted c network e with
  | some tp => exact hadd tp.2
  | none =>
    cases e with
    | pin sites smc => exact hpin sites smc
    | submit tx | publish id time approved | deliver a | insert time conflict => exact h

lemma NodeState.nonneg_applied (hinv : s.Inv c network) (e : NodeEvent) (w : Address) :
    0 ≤ (s.applied c network e).effective w :=
  applied_induct (P := fun L => 0 ≤ L.effective w) s e (hinv.nonneg w)
    (fun p => nonneg_addToDag p hinv.nonneg w)
    (fun sites smc => nonneg_of_shrinks (shrinks_pin sites smc s.ledger) hinv.nonneg w)

lemma NodeState.inv_step (hinv : s.Inv c network) (e : NodeEvent) :
    (s.step c network e).Inv c network := by
  have hold : (∀ tx ∈ s.publishQueue, tx.Admitted c network) ∧
      ∀ a ∈ s.inboundQueue, a.tx.Admitted c network := ⟨hinv.published, hinv.announced⟩
  have hqueues : (∀ tx ∈ (s.queued c network e).publishQueue, tx.Admitted c network) ∧
      ∀ a ∈ (s.queued c network e).inboundQueue, a.tx.Admitted c network := by
    unfold NodeState.queued
    cases e with
    | submit tx =>
      dsimp only
      split
      next haccepts =>
        -- a transaction is queued only after its signature has been verified
        unfold accepts onNetwork at haccepts
        simp only [Bool.and_eq_true, decide_eq_true_eq] at haccepts
        exact ⟨forall_mem_append.mpr ⟨hold.1, forall_mem_singleton.mpr haccepts.1⟩, hold.2⟩
      · exact hold
    | publish id time approved =>
      dsimp only
      split
      · exact hold
      next tx rest hqueue =>
        split
        · exact hold
        · exact ⟨fun t ht => hold.1 t (by simp [hqueue, ht]), hold.2⟩
    | deliver a =>
      dsimp only
      split
      next hdeliver =>
        simp only [onNetwork, Bool.and_eq_true, decide_eq_true_eq] at hdeliver
        exact ⟨hold.1, forall_mem_append.mpr ⟨hold.2, forall_mem_singleton.mpr hdeliver.symm⟩⟩
      · exact hold
    | insert time conflict => exact ⟨hold.1, fun a ha => hold.2 a (mem_of_mem_tail ha)⟩
    | pin sites smc => exact hold
  exact ⟨hqueues.1, hqueues.2, nonneg_applied hinv e⟩

lemma NodeState.inv_run (events : List NodeEvent) (h : s.Inv c network) :
    (s.run c network events).Inv c network :=
  foldlRecOn (motive := fun s : NodeState => s.Inv c network) events _ h fun _ h e _ => inv_step h e

end

/-! ## Who is debited -/

section

variable {c : Crypto} {network : Nat} {s : NodeState}

lemma move_lt_iff {b : Address → Int} {sender recipient w : Address} {x : Nat} :
    Bank.move b sender recipient x w < b w ↔ w = sender ∧ sender ≠ recipient ∧ 0 < x := by
  rw [Bank.move_apply]
  constructor
  · intro h
    by_cases hs : w = sender
    · by_cases hr : w = recipient
      · rw [if_pos hr] at h
        omega
      · exact ⟨hs, fun hself => hr (hs.trans hself), by omega⟩
    · rw [if_neg hs] at h
      split at h <;> omega
  · rintro ⟨rfl, hne, hpos⟩
    rw [if_pos rfl, if_neg hne]
    omega

lemma payment_ok {id : NodeId} {time : Int} (h : tx.payment c id time = .ok p) :
    tx.senderWallet c = .ok p.sender ∧ tx.recipientWallet = .ok p.recipient ∧
      p.amount = tx.getAmount ∧ p.hash = tx.getHash c ∧ p.id = id := by
  unfold Transaction.payment at h
  cases hsender : tx.senderWallet c with
  | error err =>
    rw [hsender] at h
    cases h
  | ok sender =>
    cases hrecipient : tx.recipientWallet with
    | error err =>
      rw [hsender, hrecipient] at h
      cases h
    | ok recipient =>
      rw [hsender, hrecipient] at h
      obtain rfl := Except.ok.inj h
      exact ⟨rfl, rfl, rfl, rfl, rfl⟩

lemma signer_of_verified (h : tx.verifySignature c = .ok ()) :
    ∃ signer, tx.signer c = .ok signer := by
  cases tx with
  | v1 t => exact ⟨_, rfl⟩
  | eth t =>
    have hverify : t.verifySignature c = .ok () := h
    unfold EthTx.verifySignature at hverify
    cases hsig : t.encodeSignature with
    | error err =>
      rw [hsig] at hverify
      cases hverify
    | ok sig =>
      cases hkey : t.recoveredKey c with
      | error err =>
        rw [hsig, hkey] at hverify
        cases hverify
      | ok key =>
        refine ⟨ethAddress c key, ?_⟩
        show (do return ethAddress c (← t.recoveredKey c)) = _
        rw [hkey]
        rfl

/-- What go-ethereum promises of `Sender` with the EIP-155 signer, for the chain ids of the three
networks: the values of the signature are in range, the recovery id `V - 35 - 2 * chainId` is 0 or 1,
and the sender is the address of the key that `Ecrecover` finds for them. -/
def Crypto.RecoversSender (c : Crypto) : Prop :=
  ∀ (t : EthTx) a, 1 ≤ t.chainId → t.chainId ≤ 3 → c.ethSender t = some a →
    t.r < 2 ^ 256 ∧ t.s < 2 ^ 256 ∧ 35 + 2 * t.chainId ≤ t.v ∧ t.v ≤ 36 + 2 * t.chainId ∧
    ∃ key, c.ecrecover (c.signingHash t) (natToBytes 32 t.r ++ natToBytes 32 t.s ++
        [UInt8.ofNat (t.v - 35 - 2 * t.chainId)]) = some key ∧
      bytesToAddress (ethAddress c key) = .ok a

/-- `encodeSignature` builds the very bytes that `Sender` recovers the key from. -/
lemma EthTx.encodeSignature_eq {t : EthTx} (hlow : 1 ≤ t.chainId) (hhigh : t.chainId ≤ 3)
    (hr : t.r < 2 ^ 256) (hs : t.s < 2 ^ 256) (hv : 35 + 2 * t.chainId ≤ t.v)
    (hv' : t.v ≤ 36 + 2 * t.chainId) :
    t.encodeSignature = .ok (natToBytes 32 t.r ++ natToBytes 32 t.s ++
      [UInt8.ofNat (t.v - 35 - 2 * t.chainId)]) := by
  have hrecovery : (BitVec.ofNat 8 t.v - 35 - 2 * BitVec.ofNat 8 t.chainId).toNat
      = t.v - 35 - 2 * t.chainId := by
    obtain hid | hid : t.v = 35 + 2 * t.chainId ∨ t.v = 36 + 2 * t.chainId := by omega
    all_goals
      obtain hc | hc | hc : t.chainId = 1 ∨ t.chainId = 2 ∨ t.chainId = 3 := by omega
      all_goals
        rw [hid, hc]
        rfl
  unfold EthTx.encodeSignature
  rw [if_neg (by omega : t.chainId ≠ 0), if_pos hr, if_pos hs, hrecovery]

lemma EthTx.sender_eq_signer (heth : c.RecoversSender) {t : EthTx}
    (hchain : (Transaction.eth t).getChainType = .ok network) {a : Address}
    (hsender : c.ethSender t = some a) :
    ∃ key, t.recoveredKey c = .ok key ∧ bytesToAddress (ethAddress c key) = .ok a := by
  obtain ⟨hlow, hhigh⟩ : 1 ≤ t.chainId ∧ t.chainId ≤ 3 := by
    simp only [Transaction.getChainType] at hchain
    split at hchain
    · omega
    split at hchain
    · omega
    split at hchain
    · omega
    · cases hchain
  obtain ⟨hr, hs, hv, hv', key, hkey, haddress⟩ := heth t a hlow hhigh hsender
  refine ⟨key, ?_, haddress⟩
  unfold EthTx.recoveredKey
  rw [encodeSignature_eq hlow hhigh hr hs hv hv']
  simp only [bind, Except.bind, hkey]

lemma debited_iff_authorised (heth : c.RecoversSender)
    {signer : Bytes} (hsigner : tx.signer c = .ok signer)
    (hchain : tx.getChainType = .ok network) {id : NodeId} {time : Int} (hpay : tx.payment c id time = .ok p)
    (b : Address → Int) :
    (∀ w, Bank.move b p.sender p.recipient p.amount w < b w → bytesToAddress signer = .ok w) ↔
      tx.Authorised c := by
  obtain ⟨hsender, hrecipient, hamount, _, _⟩ := payment_ok hpay
  have hdebited : (∀ w, Bank.move b p.sender p.recipient p.amount w < b w →
      bytesToAddress signer = .ok w) ↔
      (p.sender ≠ p.recipient → 0 < p.amount → bytesToAddress signer = .ok p.sender) := by
    simp only [move_lt_iff]
    constructor
    · intro h hne hpos
      exact h p.sender ⟨rfl, hne, hpos⟩
    · rintro h w ⟨rfl, hne, hpos⟩
      exact h hne hpos
  rw [hdebited]
  cases tx with
  | v1 t =>
    have hfield : bytesToAddress t.sender = .ok p.sender := hsender
    have hto : bytesToAddress t.recepient = .ok p.recipient := hrecipient
    have hvalue : p.amount = bytesToNat t.amount := hamount
    obtain rfl : addressFromPublicKey c t.senderPubk = signer := Except.ok.inj hsigner
    show _ ↔ bytesToAddress t.sender = _ ∨ bytesToAddress t.sender = bytesToAddress t.recepient ∨
      bytesToNat t.amount = 0
    rw [hfield, hto, ← hvalue]
    constructor
    · intro h
      by_cases hself : p.sender = p.recipient
      · exact .inr (.inl (by rw [hself]))
      · by_cases hzero : p.amount = 0
        · exact .inr (.inr hzero)
        · exact .inl (h hself (by omega)).symm
    · rintro (hsame | hself | hzero) hne hpos
      · exact hsame.symm
      · exact absurd (Except.ok.inj hself) hne
      · omega
  | eth t =>
    -- go-ethereum recovers the sender from the same signature
    refine ⟨fun _ => trivial, fun _ _ _ => ?_⟩
    have hsender : c.ethSender t = some p.sender := by
      simp only [Transaction.senderWallet] at hsender
      cases hrecovered : c.ethSender t with
      | none =>
        rw [hrecovered] at hsender
        cases hsender
      | some a =>
        rw [hrecovered] at hsender
        rw [Except.ok.inj hsender]
    obtain ⟨key, hkey, haddress⟩ := EthTx.sender_eq_signer heth hchain hsender
    have hderived : (do return ethAddress c (← t.recoveredKey c)) = Except.ok signer := hsigner
    rw [hkey] at hderived
    obtain rfl : ethAddress c key = signer := Except.ok.inj hderived
    exact haddress

/-- **SPENDING IS AUTHORISED IFF THE SENDER FIELD IS THE SIGNER'S ADDRESS.** In every run of the
node, whenever a transaction is applied to the balances, its signature has been verified, and the
wallets that lose money are the address derived from the verified key exactly if the transaction is
`Authorised`. -/
theorem spending_authorised_iff (c : Crypto) (network : Nat) (heth : c.RecoversSender)
    (wallet : Address) (hash : Bytes) (store : Storage) (events : List NodeEvent)
    (e : NodeEvent) (tx : Transaction) (p : Payment)
    (hattempt : ((NodeState.start wallet hash store).run c network events).attempted c network e
      = some (tx, p))
    (haccepted : (((NodeState.start wallet hash store).run c network events).ledger.addToDag p).1 = true) :
    ∃ signer, tx.verifySignature c = .ok () ∧ tx.signer c = .ok signer ∧
      ((∀ w, (((NodeState.start wallet hash store).run c network events).step c network
            e).ledger.effective w
          < ((NodeState.start wallet hash store).run c network events).ledger.effective w →
          bytesToAddress signer = .ok w) ↔ tx.Authorised c) := by
  obtain ⟨s, hs⟩ : ∃ s, s = (NodeState.start wallet hash store).run c network events := ⟨_, rfl⟩
  rw [← hs] at hattempt haccepted ⊢
  have hinv : s.Inv c network :=
    hs ▸ NodeState.inv_run events (NodeState.inv_start c network wallet hash store)
  obtain ⟨hverified, hchain⟩ := NodeState.admitted_of_attempted hinv hattempt
  obtain ⟨signer, hsigner⟩ := signer_of_verified hverified
  refine ⟨signer, hverified, hsigner, ?_⟩
  have hstep : (s.step c network e).ledger.effective
      = Bank.move s.ledger.effective p.sender p.recipient p.amount := by
    show (s.applied c network e).effective = _
    unfold NodeState.applied
    rw [hattempt]
    rcases effective_addToDag p hinv.nonneg with ⟨_, _, hmove⟩ | ⟨hrefused, _⟩
    · exact hmove
    · rw [haccepted] at hrefused
      cases hrefused
  rw [hstep]
  obtain ⟨id, time, hpay⟩ : ∃ id time, tx.payment c id time = .ok p := by
    rcases NodeState.attempted_cases hattempt with
      ⟨id, time, _, _, _, _, hpay⟩ | ⟨time, _, a, _, _, _, _, _, hpay⟩
    · exact ⟨id, time, hpay⟩
    · exact ⟨a.id, time, hpay⟩
  exact debited_iff_authorised heth hsigner hchain hpay _

def Crypto.sample : Crypto where
  hash _ := List.replicate 32 0
  ed25519Verify _ _ _ := true
  keccak256 _ := List.replicate 32 0
  ethHash _ := []
  signingHash _ := []
  ecrecover _ _ := some []
  secp256k1Verify _ _ _ := false
  ethSender t :=
    if t.v = 35 + 2 * t.chainId ∧ t.r < 2 ^ 256 ∧ t.s < 2 ^ 256 then some 0 else none

lemma Crypto.sample_recoversSender : Crypto.sample.RecoversSender := by
  intro t a _ _ hsender
  obtain ⟨⟨hv, hr, hs⟩, ha⟩ := Option.ite_none_right_eq_some.mp hsender
  exact ⟨hr, hs, hv.ge, by omega, [], rfl, congrArg Except.ok (Option.some.inj ha)⟩

def smallAddress (n : Nat) : Bytes := natToBytes 20 n

def samplePayment (sender : Nat) : Transaction :=
  .v1 ⟨.payment, 0, List.replicate 32 1, smallAddress sender, smallAddress 501, [10], 0, 0, [], [],
    [], List.replicate 64 0⟩

/-- **Somebody else's wallet is debited.** The sender field names the dag wallet, the signature is
one of the address zero; the payment is submitted, published and applied. -/
theorem foreign_wallet_debited :
    ((NodeState.start 500 [] .new).run .sample 0 [.submit (samplePayment 500)]).attempted .sample 0
        (.publish 1 1 true)
      = some (samplePayment 500, ⟨1, 1, List.replicate 32 0, 500, 501, 10, false⟩) ∧
    (samplePayment 500).signer .sample = .ok (smallAddress 0) ∧
    bytesToAddress (smallAddress 0) = .ok 0 ∧
    ((NodeState.start 500 [] .new).run .sample 0
        [.submit (samplePayment 500), .publish 1 1 true]).ledger.effective 500
      = (NodeState.start 500 [] .new).ledger.effective 500 - 10 := by
  decide +kernel

theorem own_wallet_debited : ∃ signer, (samplePayment 0).verifySignature .sample = .ok () ∧
      (samplePayment 0).signer .sample = .ok signer ∧
      ((∀ w, (((NodeState.start 0 [] .new).run .sample 0 [.submit (samplePayment 0)]).step .sample 0
            (.publish 1 1 true)).ledger.effective w
          < ((NodeState.start 0 [] .new).run .sample 0 [.submit (samplePayment 0)]).ledger.effective w →
          bytesToAddress signer = .ok w) ↔ (samplePayment 0).Authorised .sample) :=
  spending_authorised_iff .sample 0 Crypto.sample_recoversSender 0 [] .new
    [.submit (samplePayment 0)] (.publish 1 1 true) (samplePayment 0)
    ⟨1, 1, replicate 32 0, 0, 501, 10, false⟩ (by decide +kernel) (by decide +kernel)

end

/-! ## Replays -/

section

variable (c : Crypto) (network : Nat)

/-- The event changes wallet balances with a payment whose transaction hash is `h`. -/
def NodeState.Changes (s : NodeState) (e : NodeEvent) (h : Bytes) : Prop :=
  ∃ tx p, s.attempted c network e = some (tx, p) ∧ tx.getHash c = h ∧
    (s.step c network e).ledger.effective ≠ s.ledger.effective

/-- The transaction is not yet in the DAG under another vertex id. -/
def NodeState.Fresh (s : NodeState) : NodeEvent → Prop
  | .publish _ _ _ =>
      ∀ tx ∈ s.publishQueue.head?, ∀ q ∈ s.ledger.dag, q.hash ≠ tx.getHash c
  | .insert _ _ =>
      ∀ a ∈ s.inboundQueue.head?, ∀ q ∈ s.ledger.dag, q.hash = a.tx.getHash c → q.id = a.id
  | _ => True

instance (s : NodeState) (e : NodeEvent) : Decidable (s.Fresh c e) :=
  match e with
  | .publish _ _ _ => inferInstanceAs (Decidable
      (∀ tx ∈ s.publishQueue.head?, ∀ q ∈ s.ledger.dag, q.hash ≠ tx.getHash c))
  | .insert _ _ => inferInstanceAs (Decidable
      (∀ a ∈ s.inboundQueue.head?, ∀ q ∈ s.ledger.dag, q.hash = a.tx.getHash c → q.id = a.id))
  | .submit _ | .deliver _ | .pin _ _ => isTrue trivial

/-- Every event of the run is fresh in the state in which it happens. -/
def NodeState.FreshRun : List NodeEvent → NodeState → Prop
  | [], _ => True
  | e :: es, s => s.Fresh c e ∧ NodeState.FreshRun es (s.step c network e)

instance NodeState.decidableFreshRun :
    (events : List NodeEvent) → (s : NodeState) → Decidable (NodeState.FreshRun c network events s)
  | [], _ => isTrue trivial
  | e :: es, s =>
      let _ := NodeState.decidableFreshRun es (s.step c network e)
      inferInstanceAs (Decidable (s.Fresh c e ∧ NodeState.FreshRun c network es (s.step c network e)))

variable {c network}

lemma NodeState.fresh_of_run (before : List NodeEvent) (e : NodeEvent) (after : List NodeEvent) :
    ∀ s : NodeState, FreshRun c network (before ++ e :: after) s → (s.run c network before).Fresh c e := by
  induction before with
  | nil =>
    intro s h
    exact h.1
  | cons d before ih =>
    intro s h
    exact ih _ h.2

lemma NodeState.dag_step (s : NodeState) (e : NodeEvent)
    (hp : p ∈ s.ledger.dag) : p ∈ (s.step c network e).ledger.dag := by
  refine applied_induct (P := fun L => p ∈ L.dag) s e hp (fun q => ?_) fun sites smc => ?_
  · rw [addToDag_dag]
    split
    · exact mem_append_left _ hp
    · exact hp
  · rw [(shrinks_pin sites smc s.ledger).1]
    exact hp

variable {s : NodeState}

lemma NodeState.dag_run (events : List NodeEvent)
    (hp : p ∈ s.ledger.dag) : p ∈ (s.run c network events).ledger.dag :=
  foldlRecOn (motive := fun s : NodeState => p ∈ s.ledger.dag) events _ hp
    fun s hp e _ => dag_step s e hp

lemma NodeState.mem_dag_of_changes (hinv : s.Inv c network) {h : Bytes}
    (hchanges : s.Changes c network e h) :
    ∃ p, p.hash = h ∧ p ∈ (s.step c network e).ledger.dag := by
  obtain ⟨tx, p, hattempt, hhash, hne⟩ := hchanges
  have happlied : s.applied c network e = (s.ledger.addToDag p).2 := by
    unfold NodeState.applied
    rw [hattempt]
  have haccepted : (s.ledger.addToDag p).1 = true := by
    rcases effective_addToDag p hinv.nonneg with ⟨hv, _⟩ | ⟨_, hkeep⟩
    · exact hv
    · refine absurd ?_ hne
      show (s.applied c network e).effective = _
      rw [happlied, hkeep]
  refine ⟨p, ?_, ?_⟩
  · rcases attempted_cases hattempt with
      ⟨_, _, _, _, _, _, hpay⟩ | ⟨_, _, _, _, _, _, _, _, hpay⟩
    · exact (payment_ok hpay).2.2.2.1.trans hhash
    · exact (payment_ok hpay).2.2.2.1.trans hhash
  · show p ∈ (s.applied c network e).dag
    rw [happlied, addToDag_dag, if_pos haccepted]
    simp

lemma NodeState.not_attempted_of_fresh (hfresh : s.Fresh c e) {q : Payment} (hq : q ∈ s.ledger.dag)
    (hhash : q.hash = tx.getHash c) : s.attempted c network e ≠ some (tx, p) := by
  intro hattempt
  rcases attempted_cases hattempt with
    ⟨_, _, _, rest, rfl, hqueue, _⟩ | ⟨_, _, a, rest, rfl, hqueue, rfl, hnew, _⟩
  · exact hfresh tx (by simp [hqueue]) q hq hhash
  · -- the vertex id is in the DAG, so `InsertTxDag` returns at once
    have hid := hfresh a (by simp [hqueue]) q hq hhash
    have hknown : s.ledger.dag.any (·.id = a.id) = true := any_eq_true.mpr ⟨q, hq, by simpa using hid⟩
    rw [hknown] at hnew
    cases hnew

/-- **NO REPLAY OF PAYMENTS IN FRESH RUNS.** In a run of submissions, publications, gossip
deliveries, insertions and pins in which every published or inserted transaction is not yet in the
DAG under another vertex id, no two events change balances with payments of the same transaction
hash. -/
theorem payments_not_replayed (c : Crypto) (network : Nat) (wallet : Address) (hash : Bytes)
    (store : Storage) (before between : List NodeEvent) (e e' : NodeEvent)
    (hfresh : NodeState.FreshRun c network (before ++ e :: between ++ [e'])
      (.start wallet hash store)) (h : Bytes) :
    ¬ (((NodeState.start wallet hash store).run c network before).Changes c network e h ∧
      ((NodeState.start wallet hash store).run c network
        (before ++ e :: between)).Changes c network e' h) := by
  rintro ⟨hfirst, tx, p, hattempt, hhash, _⟩
  have hinv : ((NodeState.start wallet hash store).run c network before).Inv c network :=
    NodeState.inv_run before (NodeState.inv_start c network wallet hash store)
  obtain ⟨q, hq, hmem⟩ := NodeState.mem_dag_of_changes hinv hfirst
  have hlater : q ∈ ((NodeState.start wallet hash store).run c network
      (before ++ e :: between)).ledger.dag := by
    have hrun : (NodeState.start wallet hash store).run c network (before ++ e :: between)
        = (((NodeState.start wallet hash store).run c network before).step c network e).run
            c network between := by
      simp [NodeState.run]
    rw [hrun]
    exact NodeState.dag_run between hmem
  have hfresh' := NodeState.fresh_of_run (before ++ e :: between) e' [] _ hfresh
  exact NodeState.not_attempted_of_fresh hfresh' hlater (hq.trans hhash.symm) hattempt

/-- **A payment is applied twice.** The same signed payment is submitted twice; it is published
under two vertex ids, and each time ten leave the sender's wallet. -/
theorem payment_replayed : ((NodeState.start 500 [] .new).run .sample 0
        [.submit (samplePayment 500), .submit (samplePayment 500)]).Changes .sample 0
        (.publish 1 1 true) ((samplePayment 500).getHash .sample) ∧
    ((NodeState.start 500 [] .new).run .sample 0
        [.submit (samplePayment 500), .submit (samplePayment 500), .publish 1 1 true]).Changes
        .sample 0 (.publish 2 2 true) ((samplePayment 500).getHash .sample) := by
  refine ⟨⟨samplePayment 500, ⟨1, 1, replicate 32 0, 500, 501, 10, false⟩,
    by decide +kernel, rfl, fun heq => ?_⟩,
    ⟨samplePayment 500, ⟨2, 2, replicate 32 0, 500, 501, 10, false⟩,
    by decide +kernel, rfl, fun heq => ?_⟩⟩
  · exact absurd (congrFun heq 500) (by decide +kernel)
  · exact absurd (congrFun heq 500) (by decide +kernel)

theorem announced_payment_not_replayed : ¬ (((NodeState.start 500 [] .new).run .sample 0
        [.submit (samplePayment 500), .deliver ⟨samplePayment 500, 1, [0]⟩]).Changes .sample 0
        (.publish 1 1 true) ((samplePayment 500).getHash .sample) ∧
      ((NodeState.start 500 [] .new).run .sample 0
        [.submit (samplePayment 500), .deliver ⟨samplePayment 500, 1, [0]⟩,
          .publish 1 1 true]).Changes .sample 0 (.insert 2 false)
          ((samplePayment 500).getHash .sample)) :=
  payments_not_replayed .sample 0 500 [] .new
    [.submit (samplePayment 500), .deliver ⟨samplePayment 500, 1, [0]⟩] [] (.publish 1 1 true)
    (.insert 2 false) (by decide +kernel) _

end

end GrapeDag
