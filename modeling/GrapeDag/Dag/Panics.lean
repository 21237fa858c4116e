/-
WHICH MESSAGES STOP THE NODE.

`SendRawTransaction` of `src/services/transactions.go`, the loop of `src/diffusion/subscribe.go`,
`UnmarshalRecord` of `src/tx/grapetx.go` and `NewDagNode` of `src/dag/node.go`. A transaction
that is refused is written as a text, for which its addresses need to be addresses; a gossiped
record that cannot be decoded is used nevertheless.

Main results: `sendRawTransaction_finishes_iff` and `receive_finishes_iff`.
-/
import GrapeDag.Dag.Admission
import GrapeDag.Dag.Records

namespace GrapeDag

open Transaction

/-! ## Panics -/

/-- A result or an error, but no panic. -/
def Finishes {α : Type} (x : GoPure α) : Prop := x ≠ .error .panic

section

variable {α β : Type} {x : GoPure α} {f : α → GoPure β}

lemma finishes_ok (a : α) : Finishes (.ok a : GoPure α) := by
  intro h
  cases h

lemma finishes_error : Finishes (.error .error : GoPure α) := by
  intro h
  cases h

lemma finishes_bind : Finishes (x >>= f) ↔ Finishes x ∧ ∀ a, x = .ok a → Finishes (f a) := by
  cases x with
  | error e | ok a => simp [Finishes, bind, Except.bind]

lemma finishes_refuseWith {text : GoPure Unit} {p : Prop} [Decidable p] {f : Unit → GoPure β} :
    Finishes (refuseWith text p >>= f) ↔ (p → Finishes text) ∧ (¬ p → Finishes (f ())) := by
  unfold refuseWith
  by_cases hp : p
  · cases text with
    | error e | ok u => simp [hp, Finishes, bind, Except.bind]
  · simp [hp, Finishes, bind, Except.bind]

lemma finishes_refuseIf {p : Prop} [Decidable p] {f : Unit → GoPure β} :
    Finishes (refuseIf p >>= f) ↔ (¬ p → Finishes (f ())) := by
  unfold refuseIf
  rw [finishes_refuseWith, and_iff_right fun _ => finishes_ok ()]

lemma finishes_orPanic {o : Option α} : Finishes (orPanic o) ↔ ∃ a, o = some a := by
  cases o with
  | none | some a => simp [Finishes, orPanic]

lemma returnedError_of_finishes {x : Except GoError Unit} (h : Finishes x) :
    ∃ b, returnedError x = .ok b ∧ (b = true ↔ x ≠ .ok ()) := by
  cases x with
  | ok u => exact ⟨false, rfl, by simp⟩
  | error e =>
    cases e with
    | error => exact ⟨true, rfl, by simp⟩
    | panic => exact absurd rfl h

lemma finishes_bytesToAddress {bs : Bytes} : Finishes (bytesToAddress bs) ↔ bs.length = 20 := by
  unfold bytesToAddress
  by_cases h : bs.length = 20 <;> simp [h, Finishes]

end

/-! ## Transactions -/

namespace Transaction

/-- The sender is a wallet, and the recipient one or nothing. -/
def HasText : Transaction → Prop
  | .v1 t => t.sender.length = 20 ∧ (t.recepient.length = 0 ∨ t.recepient.length = 20)
  | .eth _ => True

def Signed (c : Crypto) (tx : Transaction) : Prop := tx.verifySignature c = .ok ()

/-- The signature can be looked at: the key has the length of a key or is left out, and `r` and `s`
    fit. A signature that is wrong needs a text of the transaction, unless it is too short. -/
def Verifiable (c : Crypto) : Transaction → Prop
  | .v1 t => t.signature.length < 64 ∨
      ((t.senderPubk.length = 0 ∨ c.hash { t with signature := [] } = [] ∨ t.senderPubk.length = 32) ∧
        (Signed c (.v1 t) ∨ HasText (.v1 t)))
  | .eth t => t.r < 2 ^ 256 ∧ t.s < 2 ^ 512

/-- The chain id is one the node knows. -/
def KnownChain : Transaction → Prop
  | .v1 _ => True
  | .eth t => t.chainId = 1 ∨ t.chainId = 2 ∨ t.chainId = 3

/-- The sender can be recovered from the signature. -/
def KnownSender (c : Crypto) : Transaction → Prop
  | .v1 _ => True
  | .eth t => ∃ a, c.ethSender t = some a

variable {c : Crypto} {tx : Transaction}

lemma finishes_string : Finishes tx.string ↔ tx.HasText := by
  cases tx with
  | v1 t =>
    have hrecepient : Finishes (if t.recepient.length = 0 then (.ok () : GoPure Unit)
        else bytesToAddress t.recepient >>= fun _ => .ok ()) ↔
        t.recepient.length = 0 ∨ t.recepient.length = 20 := by
      by_cases h : t.recepient.length = 0
      · simp [h, finishes_ok]
      · simp [h, finishes_bind, finishes_bytesToAddress, finishes_ok]
    unfold string Txv1.string HasText
    rw [finishes_bind, finishes_bytesToAddress]
    refine and_congr_right fun hlen => ?_
    exact ⟨fun h => hrecepient.mp (h _ (if_pos hlen)), fun h _ _ => hrecepient.mpr h⟩
  | eth t => exact iff_of_true (finishes_ok ()) trivial

lemma dsaVerify_cases {key signature message : Bytes} (hsig : signature.length ≠ 0) :
    ((key.length = 0 ∨ message = [] ∨ key.length = 32) ∧ ∃ b, dsaVerify c key signature message = .ok b) ∨
      (¬ (key.length = 0 ∨ message = [] ∨ key.length = 32) ∧
        dsaVerify c key signature message = .error .panic) := by
  unfold dsaVerify
  rw [← List.length_eq_zero_iff]
  split
  · next h => exact .inl ⟨by omega, _, rfl⟩
  · split
    · next hkey => exact .inl ⟨.inr (.inr hkey), _, rfl⟩
    · next h hkey => exact .inr ⟨by omega, rfl⟩

lemma finishes_verify {t : Txv1} : Finishes (t.verify c) ↔ (Transaction.v1 t).Verifiable c := by
  show _ ↔ _ ∨ _ ∧ (t.verify c = .ok () ∨ _)
  unfold Txv1.verify
  by_cases hlen : t.signature.length < 64
  · simp [hlen, finishes_error]
  · simp only [hlen, if_false, false_or]
    rcases @dsaVerify_cases c t.senderPubk t.signature (c.hash { t with signature := [] }) (by omega)
      with ⟨hkey, b, hb⟩ | ⟨hkey, hpanic⟩
    · rw [hb, and_iff_right hkey]
      cases b with
      | true => exact iff_of_true (finishes_ok ()) (.inl rfl)
      | false =>
        -- the error has a text
        show Finishes ((Transaction.v1 t).string >>= fun _ => .error .error) ↔
          (Transaction.v1 t).string >>= (fun _ => .error .error) = .ok () ∨ _
        rw [finishes_bind, finishes_string, GoPure.bind_eq_ok]
        simp [finishes_error]
    · rw [hpanic]
      exact iff_of_false (fun hfin => hfin rfl) fun h => hkey h.1

lemma finishes_encodeSignature {t : EthTx} :
    Finishes t.encodeSignature ↔ t.r < 2 ^ 256 ∧ t.s < 2 ^ 512 := by
  unfold EthTx.encodeSignature
  dsimp only
  split
  · next hr =>
    split
    · next hs => exact iff_of_true (finishes_ok _) ⟨hr, hs.trans (Nat.pow_lt_pow_right (by decide) (by decide))⟩
    · split
      · next hs => exact iff_of_true (finishes_ok _) ⟨hr, hs⟩
      · next hs => exact iff_of_false (fun hfin => hfin rfl) fun h => hs h.2
  · next hr => exact iff_of_false (fun hfin => hfin rfl) fun h => hr h.1

lemma finishes_verifySignature : Finishes (tx.verifySignature c) ↔ tx.Verifiable c := by
  cases tx with
  | v1 t => exact finishes_verify
  | eth t =>
    show Finishes (t.verifySignature c) ↔ t.r < 2 ^ 256 ∧ t.s < 2 ^ 512
    rw [← finishes_encodeSignature]
    unfold EthTx.verifySignature EthTx.recoveredKey
    simp only [finishes_bind]
    refine and_iff_left_of_imp fun h sig hsig => ⟨⟨h, fun _ _ => ?_⟩, fun key _ => ?_⟩
    · split
      · exact finishes_error
      · exact finishes_ok _
    · split
      · exact finishes_ok ()
      · exact finishes_error

lemma getChainType_cases (tx : Transaction) :
    (tx.KnownChain ∧ ∃ chain, tx.getChainType = .ok chain) ∨
      (¬ tx.KnownChain ∧ tx.getChainType = .error .panic) := by
  cases tx with
  | v1 t => exact .inl ⟨trivial, _, rfl⟩
  | eth t =>
    simp only [getChainType, KnownChain]
    split
    · next h => exact .inl ⟨.inl h, _, rfl⟩
    · split
      · next h => exact .inl ⟨.inr (.inl h), _, rfl⟩
      · split
        · next h => exact .inl ⟨.inr (.inr h), _, rfl⟩
        · next h1 h2 h3 => exact .inr ⟨by omega, rfl⟩

lemma finishes_getSender : Finishes (tx.getSender c) ↔ tx.KnownSender c := by
  cases tx with
  | v1 t => exact iff_of_true (finishes_ok _) trivial
  | eth t =>
    simp only [getSender, KnownSender]
    rw [finishes_bind, finishes_orPanic, and_iff_left fun _ _ => finishes_ok ()]

lemma finishes_senderAccount {s : Storage} : Finishes (tx.senderAccount c s) ↔ tx.KnownSender c := by
  cases tx with
  | v1 t => exact iff_of_true (finishes_ok _) trivial
  | eth t =>
    simp only [senderAccount, KnownSender]
    cases c.ethSender t with
    | none => simp [Finishes]
    | some a => simp [Finishes]

/-- `GetSenderWallet` has an address to give. -/
def HasWallet (c : Crypto) : Transaction → Prop
  | .v1 t => t.sender.length = 20
  | .eth t => ∃ a, c.ethSender t = some a

lemma finishes_senderWallet : Finishes (tx.senderWallet c) ↔ tx.HasWallet c := by
  cases tx with
  | v1 t => exact finishes_bytesToAddress
  | eth t =>
    simp only [senderWallet, HasWallet]
    cases c.ethSender t with
    | none => simp [Finishes]
    | some a => simp [Finishes]

end Transaction

/-! ## Submission -/

section

variable {c : Crypto} {cfg : TxConfiguration} {network : Nat} {L : Ledger} {tx : Transaction}

/-- The fuel of a contract transaction, which is checked before its sender is looked up. -/
def FuelTaken (cfg : TxConfiguration) (tx : Transaction) : Prop :=
  tx.getFuelPrice ≠ 0 ∧ tx.getFuelLimit.natAbs ≤ cfg.maxfuellimit.toInt.natAbs ∧
    tx.getFuelPrice * tx.getFuelLimit ≤ cfg.maxfuellimit.toInt * cfg.maxfuelprice.toInt

lemma finishes_checkContract :
    Finishes (checkContract c cfg L tx) ↔ (FuelTaken cfg tx → tx.KnownSender c) := by
  unfold checkContract FuelTaken
  dsimp only
  rw [finishes_refuseIf, finishes_refuseIf, finishes_refuseIf, finishes_bind,
    finishes_senderAccount, not_lt, not_lt]
  constructor
  · intro h htaken
    exact (h htaken.1 htaken.2.1 htaken.2.2).1
  · intro h hprice hlimit hcost
    refine ⟨h ⟨hprice, hlimit, hcost⟩, fun found _ => ?_⟩
    cases found with
    | none => exact finishes_error
    | some sender => exact finishes_refuseIf.mpr fun _ => finishes_ok _

lemma finishes_checkPayment : Finishes (checkPayment c L tx) ↔ tx.HasWallet c := by
  unfold checkPayment
  rw [finishes_bind, finishes_senderWallet]
  refine and_iff_left fun sender _ => ?_
  cases getBalance L sender with
  | none => exact finishes_error
  | some balance => exact finishes_refuseIf.mpr fun _ => finishes_refuseIf.mpr fun _ => finishes_ok _

def Transaction.IsContract (tx : Transaction) : Prop :=
  tx.getTransactionType = .callContract ∨ tx.getTransactionType = .publishContract

lemma finishes_checks : Finishes (checks c cfg L tx) ↔
      (tx.IsContract → FuelTaken cfg tx → tx.KnownSender c) ∧ (¬ tx.IsContract → tx.HasWallet c) := by
  unfold checks Transaction.IsContract
  cases tx.getTransactionType <;> simp [finishes_checkContract, finishes_checkPayment]

/-- A transaction that is harmless wherever it fails. -/
structure Harmless (c : Crypto) (cfg : TxConfiguration) (network : Nat) (tx : Transaction) : Prop where
  signature : tx.Verifiable c
  chain : tx.KnownChain
  elsewhere : tx.getChainType ≠ .ok network → tx.HasText
  unsigned : tx.getChainType = .ok network → ¬ tx.Signed c → tx.KnownSender c
  contract : tx.getChainType = .ok network → tx.Signed c → tx.IsContract → FuelTaken cfg tx →
    tx.KnownSender c
  payment : tx.getChainType = .ok network → tx.Signed c → ¬ tx.IsContract → tx.HasWallet c

lemma finishes_sendTransaction :
    Finishes (sendTransaction c cfg network L tx) ↔ Harmless c cfg network tx := by
  by_cases hsig : Finishes (tx.verifySignature c)
  · obtain ⟨errSig, herr, hsigned⟩ := returnedError_of_finishes hsig
    have hverifiable := finishes_verifySignature.mp hsig
    unfold sendTransaction
    rw [herr]
    rcases tx.getChainType_cases with ⟨hknown, chain, hchain⟩ | ⟨hunknown, hpanic⟩
    · have hnetwork : chain ≠ network ↔ tx.getChainType ≠ .ok network := by
        rw [hchain, ne_eq, ne_eq, Except.ok.injEq]
      rw [hchain]
      show Finishes (refuseWith tx.string (chain ≠ network) >>= fun _ =>
        refuseWith (tx.getSender c) errSig >>= fun _ => checks c cfg L tx) ↔ _
      rw [finishes_refuseWith, finishes_refuseWith, finishes_string,
        finishes_getSender, finishes_checks, hsigned, hnetwork, not_ne_iff, not_ne_iff]
      constructor
      · rintro ⟨htext, hhere⟩
        exact ⟨hverifiable, hknown, htext, fun hnet hun => (hhere hnet).1 hun,
          fun hnet hs => ((hhere hnet).2 hs).1, fun hnet hs => ((hhere hnet).2 hs).2⟩
      · intro h
        exact ⟨h.elsewhere, fun hnet => ⟨h.unsigned hnet, fun hs => ⟨h.contract hnet hs, h.payment hnet hs⟩⟩⟩
    · rw [hpanic]
      exact iff_of_false (fun h => h rfl) fun h => hunknown h.chain
  · refine iff_of_false (fun h => hsig ?_) fun h => hsig (finishes_verifySignature.mpr h.signature)
    intro hpanic
    unfold sendTransaction at h
    rw [hpanic] at h
    exact h rfl

/-- **A submission comes to an end exactly if there is one**, and what it decodes to is harmless. -/
theorem sendRawTransaction_finishes_iff (c : Crypto) (cfg : TxConfiguration) (network : Nat) (L : Ledger)
    (parse : Bytes → Option Transaction) (pbTx : GoString) :
    Finishes (sendRawTransaction c cfg network L parse pbTx) ↔
      pbTx ≠ [] ∧ ∀ tx, (Hex.decode pbTx).bind parse = some tx → Harmless c cfg network tx := by
  unfold sendRawTransaction
  by_cases hempty : pbTx = []
  · rw [if_pos hempty]
    exact iff_of_false (fun h => h rfl) fun h => h.1 hempty
  · rw [if_neg hempty, and_iff_right hempty]
    cases hparse : (Hex.decode pbTx).bind parse with
    | none => exact iff_of_true finishes_error nofun
    | some tx =>
      have hmap : Finishes ((sendTransaction c cfg network L tx).map (tx, ·)) ↔
          Finishes (sendTransaction c cfg network L tx) := by
        cases sendTransaction c cfg network L tx with
        | error e => simp [Finishes, Except.map]
        | ok d => simp [Finishes, Except.map]
      show Finishes ((sendTransaction c cfg network L tx).map (tx, ·)) ↔ _
      rw [hmap, finishes_sendTransaction]
      constructor
      · intro h tx' htx'
        rwa [← Option.some.inj htx']
      · intro h
        exact h tx rfl

/-- **Two submissions that stop the node**: the empty one, and an Ethereum transaction for the
    chain 4. -/
theorem submissions_that_panic :
    sendRawTransaction .sampleEth .default 0 (.sampleFunded 0) (fun _ => none) [] = .error .panic ∧
      sendRawTransaction .sampleEth .default 0 (.sampleFunded 0)
        (fun _ => some (.eth ⟨0, 1, 0, some 600, 0, [], 4, 43, 1, 1⟩)) (ascii "00") = .error .panic := by
  refine ⟨rfl, by decide +kernel⟩

end

/-! ## Gossip -/

section

variable {A P : Type} (c : Crypto) (network : Nat) (lib : GossipLibs A Transaction P)
  (proto : Bytes → Option (PbGrapeTxRecord P)) (decodes : P → Bool) (parseUuid : GoString → Option NodeId)

/-- `UnmarshalRecord` on a new record; panics are recovered. One of them is an Ethereum transaction
    whose RLP encoding does not decode. -/
def unmarshalRecord (bytes : Bytes) : Option (GrapeTx A Transaction) := do
  let msg ← proto bytes
  if msg.version.setWidth 8 = 1#8 ∧ msg.txv1.any (fun p => !decodes p) then none
  else (GrapeTx.grapeTxFromProtobuf lib msg).toOption

/-- `NewDagNode` with `verifyRequired`, and whether there is a node. -/
def newDagNode (tx : Transaction) : GoPure Bool := do
  if (← tx.getChainType) ≠ network then
    tx.string
    return false
  else return !(← returnedError (tx.verifySignature c))

/-- The loop of the subscriber from `NewDagNode` on, with the id that `MustParse` finds. -/
def queueNode (id : Option NodeId) (tx : Transaction) : GoPure (Option NodeId) := do
  if ← newDagNode c network tx then return some (← orPanic id)
  else
    tx.string
    return none

/-- The loop of the subscriber with one message. That the record is not decoded is only logged: it
    is blank then, and its transaction nil. -/
def receive (bytes : Bytes) : GoPure (Option NodeId) := do
  let record := unmarshalRecord lib proto decodes bytes
  let tx ← orPanic (record.bind (·.transaction))
  queueNode c network (record.bind (parseUuid ·.tx)) tx

/-- A gossiped transaction that is harmless, if `id` is the id that comes with it. -/
structure GossipHarmless (id : Option NodeId) (tx : Transaction) : Prop where
  chain : tx.KnownChain
  elsewhere : tx.getChainType ≠ .ok network → tx.HasText
  signature : tx.getChainType = .ok network → tx.Verifiable c
  unsigned : tx.getChainType = .ok network → ¬ tx.Signed c → tx.HasText
  queued : tx.getChainType = .ok network → tx.Signed c → ∃ a, id = some a

variable {c network lib proto decodes parseUuid}

variable {id : Option NodeId} {tx : Transaction}

lemma newDagNode_here (hhere : tx.getChainType = .ok network) :
    newDagNode c network tx = (do return !(← returnedError (tx.verifySignature c))) := by
  unfold newDagNode
  rw [hhere]
  exact if_neg fun h => h rfl

lemma newDagNode_elsewhere {chain : Nat} (hchain : tx.getChainType = .ok chain) (hne : chain ≠ network) :
    newDagNode c network tx = (do tx.string; return false) := by
  unfold newDagNode
  rw [hchain]
  exact if_pos hne

lemma finishes_queueNode_here (hhere : tx.getChainType = .ok network) :
    Finishes (queueNode c network id tx) ↔
      tx.Verifiable c ∧ (¬ tx.Signed c → tx.HasText) ∧ (tx.Signed c → ∃ a, id = some a) := by
  unfold queueNode
  rw [newDagNode_here hhere, ← finishes_verifySignature]
  by_cases hsig : Finishes (tx.verifySignature c)
  · obtain ⟨errSig, herr, hsigned⟩ := returnedError_of_finishes hsig
    rw [herr, and_iff_right hsig]
    cases errSig with
    | false =>
      have hs : tx.Signed c := not_ne_iff.mp fun h => Bool.false_ne_true (hsigned.mpr h)
      show Finishes (orPanic id >>= fun a => .ok (some a)) ↔ _
      simp [finishes_bind, finishes_orPanic, finishes_ok, hs]
    | true =>
      have hs : ¬ tx.Signed c := hsigned.mp rfl
      show Finishes (tx.string >>= fun _ => .ok none) ↔ _
      simp [finishes_bind, finishes_string, finishes_ok, hs]
  · rw [not_ne_iff.mp hsig]
    exact iff_of_false (fun h => h rfl) fun h => h.1 rfl

lemma finishes_queueNode :
    Finishes (queueNode c network id tx) ↔ GossipHarmless c network id tx := by
  rcases tx.getChainType_cases with ⟨hknown, chain, hchain⟩ | ⟨hunknown, hpanic⟩
  · by_cases hhere : chain = network
    · rw [hhere] at hchain
      rw [finishes_queueNode_here hchain]
      constructor
      · rintro ⟨hsig, htext, hid⟩
        exact ⟨hknown, fun hne => absurd hchain hne, fun _ => hsig, fun _ => htext, fun _ => hid⟩
      · intro h
        exact ⟨h.signature hchain, h.unsigned hchain, h.queued hchain⟩
    · have hne : tx.getChainType ≠ .ok network := by
        rw [hchain]
        exact fun h => hhere (Except.ok.inj h)
      -- the text is made twice
      have hqueue : queueNode c network id tx = tx.string >>= fun _ => tx.string >>= fun _ => .ok none := by
        unfold queueNode
        rw [newDagNode_elsewhere hchain hhere]
        cases tx.string <;> rfl
      rw [hqueue, finishes_bind, finishes_bind, finishes_string]
      constructor
      · rintro ⟨htext, -⟩
        exact ⟨hknown, fun _ => htext, fun h => absurd h hne, fun h => absurd h hne, fun h => absurd h hne⟩
      · intro h
        exact ⟨h.elsewhere hne, fun _ _ => ⟨h.elsewhere hne, fun _ _ => finishes_ok none⟩⟩
  · unfold queueNode newDagNode
    rw [hpanic]
    exact iff_of_false (fun h => h rfl) fun h => hunknown h.chain

/-- **A gossiped message comes to an end exactly if** it decodes to a record with a transaction, and
    this is harmless with the id of the record. -/
theorem receive_finishes_iff (c : Crypto) (network : Nat) (lib : GossipLibs A Transaction P)
    (proto : Bytes → Option (PbGrapeTxRecord P)) (decodes : P → Bool)
    (parseUuid : GoString → Option NodeId) (bytes : Bytes) :
    Finishes (receive c network lib proto decodes parseUuid bytes) ↔
      ∃ record tx, unmarshalRecord lib proto decodes bytes = some record ∧
        record.transaction = some tx ∧ GossipHarmless c network (parseUuid record.tx) tx := by
  unfold receive
  cases unmarshalRecord lib proto decodes bytes with
  | none => exact iff_of_false (fun h => h rfl) (by rintro ⟨record, tx, h, -⟩; cases h)
  | some record =>
    show Finishes (orPanic record.transaction >>= queueNode c network (parseUuid record.tx)) ↔ _
    cases htx : record.transaction with
    | none =>
      refine iff_of_false (fun h => h rfl) ?_
      rintro ⟨record', tx, hrecord, htx', -⟩
      rw [← Option.some.inj hrecord, htx] at htx'
      cases htx'
    | some tx =>
      show Finishes (queueNode c network (parseUuid record.tx) tx) ↔ _
      rw [finishes_queueNode]
      constructor
      · intro h
        exact ⟨record, tx, rfl, htx, h⟩
      · rintro ⟨record', tx', hrecord, htx', h⟩
        rw [← Option.some.inj hrecord] at htx' h
        rw [htx] at htx'
        rwa [← Option.some.inj htx'] at h

end

def GossipLibs.sampleTx : GossipLibs Bytes Transaction Transaction := { GossipLibs.sample with
    marshalTransaction := id
    unmarshalTransaction := id
    unmarshalTransaction_marshal := fun _ => rfl }

/-- **The empty message stops the node**: it is a record without a version. -/
theorem empty_message_panics :
    receive Crypto.sample 0 GossipLibs.sampleTx (fun _ => some ⟨[], [], [], 0, 0, none, none, 0, 0, []⟩)
      (fun _ => true) (fun _ => none) [] = .error .panic := rfl

end GrapeDag
