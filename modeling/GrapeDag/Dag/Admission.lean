/-
WHICH TRANSACTIONS ARE TAKEN.

`SendRawTransaction` of `src/services/transactions.go` with all its checks, `SearchAccount` of
`src/vm/server.go`, `AddUnconfirmed` of `src/smc/store.go`. Fuel limits are compared by their
ABSOLUTE values, and the gas of an Ethereum transaction is an `uint64` that is read as an
`int64`: from `2^63` on it is negative, small in absolute value, and lowers the total.

Main result: `pool_controlled_iff`.
-/
import GrapeDag.Dag.Network
import GrapeDag.Dag.VmErrors

namespace GrapeDag

open GoPure

/-! ## The checks -/

/-- `TxConfiguration`; both limits are `uint64`s. -/
structure TxConfiguration where
  maxfuellimit : BitVec 64
  maxfuelprice : BitVec 64
  deriving Repr, DecidableEq

/-- Where a transaction that is let in goes. -/
inductive Destination where
  | contractPool | publishQueue
  deriving Repr, DecidableEq

/-- `SearchAccount` for the text of these bytes. The text of no bytes stands for the address zero,
and no account is stored under anything but twenty bytes. -/
def searchAccount (s : Storage) (address : Bytes) : Option StoredAccount :=
  if address = [] then s.getAccount 0
  else if address.length = 20 then s.getAccount (BitVec.ofNat 160 (bytesToNat address))
  else none

/-- Forms the text of the refusal first; forming it can panic. -/
def refuseWith (text : GoPure Unit) (p : Prop) [Decidable p] : GoPure Unit :=
  if p then do text; .error .error else .ok ()

def refuseIf (p : Prop) [Decidable p] : GoPure Unit := refuseWith (.ok ()) p

def returnedError : Except GoError Unit → GoPure Bool
  | .ok () => .ok false
  | .error .error => .ok true
  | .error .panic => .error .panic

namespace Transaction

def getSender (c : Crypto) : Transaction → GoPure Unit
  | .v1 _ => .ok ()
  | .eth t => do
      let _ ← orPanic (c.ethSender t)
      .ok ()

def senderAccount (c : Crypto) (s : Storage) : Transaction → GoPure (Option StoredAccount)
  | .v1 t => .ok (searchAccount s t.sender)
  | .eth t =>
      match c.ethSender t with
      | none => .error .panic
      | some a => .ok (s.getAccount a)

def declaredFuelLimit : Transaction → Nat
  | .v1 t => bytesToNat t.fuelLimit
  | .eth t => t.gas

end Transaction

section

variable (c : Crypto) (cfg : TxConfiguration) (network : Nat) (L : Ledger)

def checkContract (tx : Transaction) : GoPure Destination := do
  refuseIf (tx.getFuelPrice = 0)
  let maxAllowedFuelLimit := cfg.maxfuellimit.toInt
  -- `CmpAbs`
  refuseIf (maxAllowedFuelLimit.natAbs < tx.getFuelLimit.natAbs)
  let maxComission := maxAllowedFuelLimit * cfg.maxfuelprice.toInt
  refuseIf (maxComission < tx.getFuelPrice * tx.getFuelLimit)
  match ← tx.senderAccount c L.store with
  | none => throw .error
  | some sender =>
      refuseIf (sender.balance < tx.getAmount + tx.getFuelLimit * tx.getFuelPrice)
      return .contractPool

def checkPayment (tx : Transaction) : GoPure Destination := do
  let sender ← tx.senderWallet c
  match getBalance L sender with
  | none => throw .error
  | some balance =>
      refuseIf (balance < tx.getAmount + tx.getFuelLimit * tx.getFuelPrice)
      refuseIf (tx.getFuelLimit ≠ 0 ∨ tx.getFuelPrice ≠ 0)
      return .publishQueue

def checks (tx : Transaction) : GoPure Destination :=
  match tx.getTransactionType with
  | .callContract | .publishContract => checkContract c cfg L tx
  | _ => checkPayment c L tx

/-- `SendRawTransaction` for a parsed transaction. The signature is checked first, but its error is
looked at after the network, and logged with the sender. -/
def sendTransaction (tx : Transaction) : GoPure Destination := do
  let errSig ← returnedError (tx.verifySignature c)
  refuseWith tx.string ((← tx.getChainType) ≠ network)
  refuseWith (tx.getSender c) errSig
  checks c cfg L tx

/-- `SendRawTransaction`; `parse` is `ParseTransaction`, which tries the RLP and the protobuf
decoder. -/
def sendRawTransaction (parse : Bytes → Option Transaction) (pbTx : GoString) :
    GoPure (Transaction × Destination) :=
  if pbTx = [] then .error .panic
  else
    match (Hex.decode pbTx).bind parse with
    | none => .error .error
    | some tx => (sendTransaction c cfg network L tx).map (tx, ·)

end

/-! ## What has been checked -/

section

variable {c : Crypto} {cfg : TxConfiguration} {network : Nat} {L : Ledger} {tx : Transaction}

lemma refuseWith_bind_eq_ok {β : Type} {text : GoPure Unit} {p : Prop} [Decidable p]
    {f : Unit → GoPure β} {b : β} : (refuseWith text p >>= f) = .ok b ↔ ¬ p ∧ f () = .ok b := by
  unfold refuseWith
  by_cases hp : p
  · cases text <;> simp [hp, bind, Except.bind]
  · simp [hp, bind, Except.bind]

lemma refuseIf_bind_eq_ok {β : Type} {p : Prop} [Decidable p] {f : Unit → GoPure β} {b : β} :
    (refuseIf p >>= f) = .ok b ↔ ¬ p ∧ f () = .ok b := refuseWith_bind_eq_ok

/-- What a contract transaction in the pool has passed. -/
structure Covered (c : Crypto) (cfg : TxConfiguration) (L : Ledger) (tx : Transaction)
    (sender : StoredAccount) : Prop where
  account : tx.senderAccount c L.store = .ok (some sender)
  price : 0 < tx.getFuelPrice
  limit : tx.getFuelLimit.natAbs ≤ cfg.maxfuellimit.toInt.natAbs
  funds : tx.getAmount + tx.getFuelLimit * tx.getFuelPrice ≤ sender.balance

lemma covered_of_checkContract {d : Destination} (h : checkContract c cfg L tx = .ok d) :
    ∃ sender, Covered c cfg L tx sender := by
  obtain ⟨hprice, h⟩ := refuseIf_bind_eq_ok.mp h
  obtain ⟨hlimit, h⟩ := refuseIf_bind_eq_ok.mp h
  obtain ⟨-, h⟩ := refuseIf_bind_eq_ok.mp h
  obtain ⟨found, haccount, h⟩ := bind_eq_ok.mp h
  cases found with
  | none => cases h
  | some sender =>
    obtain ⟨hfunds, -⟩ := refuseIf_bind_eq_ok.mp h
    exact ⟨sender, haccount, Nat.pos_of_ne_zero hprice, not_lt.mp hlimit, not_lt.mp hfunds⟩

lemma checkPayment_ne_pool : checkPayment c L tx ≠ .ok .contractPool := by
  intro h
  obtain ⟨sender, -, h⟩ := bind_eq_ok.mp h
  cases hbalance : getBalance L sender with
  | none =>
    rw [hbalance] at h
    cases h
  | some balance =>
    rw [hbalance] at h
    obtain ⟨-, h⟩ := refuseIf_bind_eq_ok.mp h
    obtain ⟨-, h⟩ := refuseIf_bind_eq_ok.mp h
    cases h

lemma checkContract_ne_queue : checkContract c cfg L tx ≠ .ok .publishQueue := by
  intro h
  obtain ⟨-, h⟩ := refuseIf_bind_eq_ok.mp h
  obtain ⟨-, h⟩ := refuseIf_bind_eq_ok.mp h
  obtain ⟨-, h⟩ := refuseIf_bind_eq_ok.mp h
  obtain ⟨found, -, h⟩ := bind_eq_ok.mp h
  cases found with
  | none => cases h
  | some sender =>
    obtain ⟨-, h⟩ := refuseIf_bind_eq_ok.mp h
    cases h

lemma returnedError_eq_false {x : Except GoError Unit} : returnedError x = .ok false ↔ x = .ok () := by
  cases x with
  | ok u => simp [returnedError]
  | error e => cases e <;> simp [returnedError]

/-- A transaction is taken if its signature is valid, it is for this network, and it passes the
checks of its kind. -/
theorem sendTransaction_eq_ok {d : Destination} : sendTransaction c cfg network L tx = .ok d ↔
      tx.verifySignature c = .ok () ∧ tx.getChainType = .ok network ∧ checks c cfg L tx = .ok d := by
  unfold sendTransaction
  rw [bind_eq_ok]
  constructor
  · rintro ⟨errSig, hsig, h1⟩
    obtain ⟨chain, hchain, h2⟩ := bind_eq_ok.mp h1
    obtain ⟨hnetwork, h3⟩ := refuseWith_bind_eq_ok.mp h2
    obtain ⟨hvalid, h4⟩ := refuseWith_bind_eq_ok.mp h3
    have hfalse : errSig = false := by simpa using hvalid
    rw [not_not.mp hnetwork] at hchain
    rw [hfalse] at hsig
    exact ⟨returnedError_eq_false.mp hsig, hchain, h4⟩
  · rintro ⟨hsig, hchain, h⟩
    refine ⟨false, returnedError_eq_false.mpr hsig, bind_eq_ok.mpr ⟨network, hchain, ?_⟩⟩
    refine refuseWith_bind_eq_ok.mpr ⟨fun hne => hne rfl, ?_⟩
    exact refuseWith_bind_eq_ok.mpr ⟨Bool.false_ne_true, h⟩

theorem sendTransaction_queued_iff :
    sendTransaction c cfg network L tx = .ok .publishQueue ↔ accepts c network L tx = true := by
  rw [sendTransaction_eq_ok]
  unfold accepts onNetwork
  simp only [Bool.and_eq_true, decide_eq_true_eq]
  rw [and_assoc]
  refine and_congr_right fun _ => and_congr_right fun _ => ?_
  unfold checks
  cases tx.getTransactionType with
  | callContract | publishContract => simp [checkContract_ne_queue]
  | _ =>
    unfold checkPayment
    cases tx.senderWallet c with
    | error e => simp [bind, Except.bind]
    | ok w =>
      rw [bind_eq_ok]
      cases hbalance : getBalance L w with
      | none => simp [hbalance, throw, throwThe, MonadExceptOf.throw]
      | some balance => simp [hbalance, refuseIf_bind_eq_ok, pure, Except.pure, and_assoc]

/-! ## The pool -/

lemma covered_of_pool {parse : Bytes → Option Transaction} {pbTx : GoString}
    (h : sendRawTransaction c cfg network L parse pbTx = .ok (tx, .contractPool)) :
    ∃ sender, Covered c cfg L tx sender := by
  unfold sendRawTransaction at h
  split at h
  · cases h
  split at h
  · cases h
  next t _ =>
  cases hsend : sendTransaction c cfg network L t with
  | error e =>
    rw [hsend] at h
    cases h
  | ok d =>
    rw [hsend] at h
    obtain ⟨rfl, rfl⟩ := Prod.mk.inj (Except.ok.inj h)
    obtain ⟨-, -, hchecks⟩ := sendTransaction_eq_ok.mp hsend
    unfold checks at hchecks
    split at hchecks
    · exact covered_of_checkContract hchecks
    · exact covered_of_checkContract hchecks
    · exact absurd hchecks checkPayment_ne_pool

/-- Admission control: the declared fuel limit is at most the configured one, and the stored
balance of the sender covers the amount and the declared limit at the declared price. -/
def Controlled (c : Crypto) (cfg : TxConfiguration) (L : Ledger) (tx : Transaction) : Prop :=
  ∃ sender, tx.senderAccount c L.store = .ok (some sender) ∧
    tx.declaredFuelLimit ≤ cfg.maxfuellimit.toNat ∧
    (tx.getAmount + tx.declaredFuelLimit * tx.getFuelPrice : Int) ≤ sender.balance

/-- The fuel limit is the same number as an `int64`. -/
def Transaction.FitsInt64 : Transaction → Prop
  | .v1 _ => True
  | .eth t => t.gas < 9223372036854775808

lemma Transaction.getFuelLimit_of_fits (h : tx.FitsInt64) : tx.getFuelLimit = tx.declaredFuelLimit := by
  cases tx with
  | v1 t => rfl
  | eth t =>
    have hgas : t.gas < 9223372036854775808 := h
    exact wrap64_of_isLong (by omega)

lemma wrap64_upper {n : Nat} (h1 : 9223372036854775808 ≤ n) (h2 : n < 18446744073709551616) :
    wrap64 n = n - 18446744073709551616 := by
  have hwrap : wrap64 (n : Int) = wrap64 ((n : Int) - 18446744073709551616) := by
    exact (Int.sub_bmod_right n 18446744073709551616).symm
  rw [hwrap]
  exact wrap64_of_isLong (by omega)

lemma natAbs_toInt_le (m : BitVec 64) : m.toInt.natAbs ≤ m.toNat ∧
      (9223372036854775808 ≤ m.toNat → m.toInt.natAbs = 18446744073709551616 - m.toNat) := by
  rw [BitVec.toInt_eq_toNat_cond]
  split <;> omega

/-- **What is in the pool is under control exactly if its fuel limit is the same as an `int64`.**
Beyond that it can only be the configured limit itself, where this is `2^63` or more, and only if
the balance happens to cover it. -/
theorem pool_controlled_iff {parse : Bytes → Option Transaction} {pbTx : GoString}
    (h : sendRawTransaction c cfg network L parse pbTx = .ok (tx, .contractPool)) :
    Controlled c cfg L tx ↔
      tx.FitsInt64 ∨ (tx.declaredFuelLimit = cfg.maxfuellimit.toNat ∧
        ∃ sender, tx.senderAccount c L.store = .ok (some sender) ∧
          (tx.getAmount + tx.declaredFuelLimit * tx.getFuelPrice : Int) ≤ sender.balance) := by
  obtain ⟨sender, hcovered⟩ := covered_of_pool h
  obtain ⟨hle, hupper⟩ := natAbs_toInt_le cfg.maxfuellimit
  have hlimit := hcovered.limit
  constructor
  · rintro ⟨account, haccount, hmax, hfunds⟩
    by_cases hfits : tx.FitsInt64
    · exact .inl hfits
    refine .inr ⟨?_, account, haccount, hfunds⟩
    cases tx with
    | v1 t => exact absurd trivial hfits
    | eth t =>
      have hgas : 9223372036854775808 ≤ t.gas := not_lt.mp hfits
      have hgas' : t.gas ≤ cfg.maxfuellimit.toNat := hmax
      have hread : (Transaction.eth t).getFuelLimit = t.gas - 18446744073709551616 :=
        wrap64_upper hgas (lt_of_le_of_lt hgas' cfg.maxfuellimit.isLt)
      show t.gas = _
      omega
  · rintro (hfits | ⟨hmax, account, haccount, hfunds⟩)
    · have hread := Transaction.getFuelLimit_of_fits hfits
      have hfunds := hcovered.funds
      rw [hread] at hlimit hfunds
      refine ⟨sender, hcovered.account, ?_, hfunds⟩
      omega
    · exact ⟨account, haccount, le_of_eq hmax, hfunds⟩

def Crypto.sampleEth : Crypto := { Crypto.sample with
    ecrecover := fun _ _ => some [1]
    secp256k1Verify := fun _ _ _ => true
    ethSender := fun _ => some 500 }

def TxConfiguration.default : TxConfiguration := ⟨999, 10000000⟩

def sampleCall (gas : Nat) : Transaction := .eth ⟨0, 1, gas, some 600, 0, [1], 1, 37, 1, 1⟩

def Ledger.sampleFunded (balance : Int) : Ledger :=
  .genesis 0 [] (Storage.new.putAccount 500 { StoredAccount.blank with balance := balance })

theorem small_gas_controlled :
    sendRawTransaction .sampleEth .default 0 (.sampleFunded 500) (fun _ => some (sampleCall 500))
        (ascii "00") = .ok (sampleCall 500, .contractPool) ∧
      Controlled .sampleEth .default (.sampleFunded 500) (sampleCall 500) := by
  have hpool : sendRawTransaction .sampleEth .default 0 (.sampleFunded 500)
      (fun _ => some (sampleCall 500)) (ascii "00") = .ok (sampleCall 500, .contractPool) := by
    decide +kernel
  refine ⟨hpool, (pool_controlled_iff hpool).mpr (.inl ?_)⟩
  show 500 < 9223372036854775808
  decide

/-- **All the gas there is, for nothing**: a call with the gas limit `2^64 - 1` passes every check,
from a sender that has no funds. -/
theorem huge_gas_admitted : sendRawTransaction .sampleEth .default 0 (.sampleFunded 0)
        (fun _ => some (sampleCall 18446744073709551615)) (ascii "00")
      = .ok (sampleCall 18446744073709551615, .contractPool) ∧
    ¬ Controlled .sampleEth .default (.sampleFunded 0) (sampleCall 18446744073709551615) := by
  refine ⟨by decide +kernel, ?_⟩
  rintro ⟨sender, -, hmax, -⟩
  exact absurd hmax (by decide)

end

end GrapeDag
