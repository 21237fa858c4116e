/-
THE CONTRACT ADDRESS IN A RECEIPT.

`handleEthGetTransactionReceipt` of `src/services/eth/rpc/api.go` derives the address of a
deployed contract from the transaction, `VmImpl.create` from the nonce in the state. But
`EthAddressFromCaller` of `src/crypto/eth/address.go` does not use the nonce it is given: it
takes zero.

Main result: `reported_address_iff`.
-/
import GrapeDag.Vm.Message

namespace GrapeDag

open Imperative Prog

/-- What the receipt reads of a transaction. -/
structure ReceiptTx where
  transactionType : Nat
  sender : Address
  nonce : Nat

/-- `EthAddressFromCaller`; `crypto.CreateAddress` of go-ethereum is the function of the VM's
library. -/
def ethAddressFromCaller (crypto : CryptoLib) (caller : Address) (_callerNonce : Int) : Address :=
  crypto.createAddress caller 0

/-- The field `ContractAddress` of the receipt. -/
def ReceiptTx.contractAddress (crypto : CryptoLib) (tx : ReceiptTx) : Option Address :=
  if tx.transactionType = 1 then some (ethAddressFromCaller crypto tx.sender tx.nonce) else none

/-- `mapToVmMessage` of a deployment gives this message. -/
structure ReceiptTx.Deploys (tx : ReceiptTx) (msg : Message) : Prop where
  transactionType : tx.transactionType = 1
  sender : msg.sender = tx.sender
  nonce : msg.nonce = tx.nonce
  receiver : msg.receiver = none
  fake : msg.fake = false

variable {x : Execution} {msg : Message} {w w' : World}

lemma create_contract (m : Machine) (run : Runner) (a : CreateArgs) (w : World) :
    wpRet (create m run a) (fun r _ => r.contract = some (createTarget m a w)) w := by
  have hend : ∀ (result : VmResult) (w : World), wpRet (endStateTransaction m result)
      (fun r _ => r.contract = result.contract) w := by
    intro result w
    refine wp_ite.mpr ⟨fun _ => wp_skip fun _ _ => ?_, fun _ => ?_⟩
    · rw [wpRet, wp_pure]
      split
      · rfl
      · rfl
    · have hcommit : ∀ w, wpRet (do World.commit; return result : Java World VmResult)
          (fun r _ => r.contract = result.contract) w :=
        fun w => wp_skip fun _ _ => .pure rfl
      exact wp_ite.mpr ⟨fun _ => wp_skip fun _ w => hcommit w, fun _ => hcommit w⟩
  unfold create
  rw [wpRet, wp_bind, wp_gets]
  dsimp only [id_eq]
  cases refusal m a.caller.address a.amount w with
  | some st => exact .pure rfl
  | none =>
    refine wp_ite.mpr ⟨fun _ => .pure rfl, fun _ => ?_⟩
    refine wp_skip fun _ _ => wp_skip fun _ _ => ?_
    refine wp_ite.mpr ⟨fun _ => .pure rfl, fun _ => wp_skip fun _ _ => ?_⟩
    have hbody : ∀ w1, wpRet (createBody m run a (createTarget m a w))
        (fun result _ => result.contract = some (createTarget m a w)) w1 := by
      intro w1
      refine wp_skip fun _ _ => wp_skip fun _ _ => wp_skip fun _ _ => wp_skip fun _ _ => ?_
      exact .pure rfl
    refine wp_bind.mpr ((hbody _).returned fun result w1 hresult => ?_)
    exact (hend result w1).returned fun r _ hr => hr.trans hresult

lemma deployed_at {n : Nat} {r : MessageResult} (hs : x.cfg.Sound) (hreceiver : msg.receiver = none)
    (hfake : msg.fake = false) (h : apply x (vm (x.machine msg) n) msg w = .ok r w')
    (hok : r.contractResult.hasError = false) :
    r.contractResult.contract = some (x.crypto.createAddress msg.sender msg.nonce) := by
  obtain ⟨hbuys, -, gas, result, w2, -, -, hexec, -, -, rfl, -⟩ := apply_accepted hs h
  -- the nonce was checked, and buying the gas does not change it
  have hnonce : (debited msg w).getNonce msg.sender = msg.nonce := by
    rw [debited, (World.getAccount_credit _ _ _).2]
    exact (hbuys.sender.resolve_left (by rw [hfake]; exact Bool.false_ne_true)).1
  have hwp : wpRet (executeContract (vm (x.machine msg) n) msg gas) (fun r _ => r.hasError = false →
      r.contract = some (x.crypto.createAddress msg.sender msg.nonce))
      (debited msg w) := by
    unfold executeContract
    rw [hreceiver, wpRet, wp_catching]
    cases n with
    | zero => exact wp_diverging.mpr trivial
    | succ n =>
      refine (create_contract _ _ _ _).mono (fun r _ hr _ => ?_) fun e _ _ => ?_
      · rw [hr, ← hnonce]
        rfl
      · exact .pure nofun
  exact hwp.of_ok hexec hok

/-- **REPORTED ADDRESSES.** Of a confirmed deployment, whose message the VM executed with success,
the receipt reports the address of the contract if and only if the nonce zero leads to the same
address. -/
theorem reported_address_iff {tx : ReceiptTx} (hdeploys : tx.Deploys msg) (hs : x.cfg.Sound)
    {n : Nat} {r : MessageResult} (h : apply x (vm (x.machine msg) n) msg w = .ok r w')
    (hok : r.contractResult.hasError = false) :
    tx.contractAddress x.crypto = r.contractResult.contract ↔
      x.crypto.createAddress tx.sender 0 = x.crypto.createAddress tx.sender tx.nonce := by
  have hreported : tx.contractAddress x.crypto = some (x.crypto.createAddress tx.sender 0) :=
    if_pos hdeploys.transactionType
  rw [deployed_at hs hdeploys.receiver hdeploys.fake h hok, hreported, hdeploys.sender, hdeploys.nonce]
  exact Option.some_inj

def Message.create (nonce : Nat) : Message := { Message.sample 200000 with
    nonce := nonce, receiver := none, data := [0x60, 1, 0x60, 0, 0xf3]
    nonce_nonneg := Int.natCast_nonneg nonce }

def Storage.sampleSent (nonce : Int) : Storage :=
  .holding [(1, { StoredAccount.holding 1000000 [] with nonce := nonce }), (7, .holding 0 [])]

def createdAt (nonce : Nat) : Outcome JavaException World MessageResult :=
  apply .sample (vm (Execution.sample.machine (.create nonce)) 9) (.create nonce)
    (.start (.sampleSent nonce))

theorem first_deployment_reported : ∃ r w', createdAt 0 = .ok r w' ∧
    (⟨1, 1, 0⟩ : ReceiptTx).contractAddress .sample = r.contractResult.contract := by
  obtain ⟨r, w', h, hok⟩ : ∃ r w', createdAt 0 = .ok r w' ∧ r.contractResult.hasError = false := by
    decide +kernel
  exact ⟨r, w', h, (reported_address_iff ⟨rfl, rfl, rfl, rfl, rfl⟩ (configAt_sound 1700000000) h hok).mpr rfl⟩

/-- The second transaction of the sender: the contract is at the address of the nonce one. -/
theorem second_deployment_misreported :
    (createdAt 1).returns (fun r _ => r.contractResult.hasError = false ∧
        r.contractResult.contract = some (CryptoLib.sample.createAddress 1 1) ∧
        (⟨1, 1, 1⟩ : ReceiptTx).contractAddress .sample = some (CryptoLib.sample.createAddress 1 0)) = true ∧
      CryptoLib.sample.createAddress 1 0 ≠ CryptoLib.sample.createAddress 1 1 := by
  decide +kernel

end GrapeDag
