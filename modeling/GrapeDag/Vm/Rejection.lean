/-
WHAT A REJECTED MESSAGE LEAVES BEHIND.

The node drops a message with an unsuccessful receipt as a bad transaction. `apply` throws at
many points and nothing takes back what it did before: the gas is bought, the nonce raised, the
contract's writes committed.

Main result: `rejected_without_trace_iff`.
-/
import GrapeDag.Vm.Nonces

namespace GrapeDag

open Imperative Prog World

/-! ## Up to the start of the contract -/

/-- The message is refused by a check that stands before the purchase of its gas, or its gas costs
nothing and it is refused before its contract starts. -/
def RejectsEarly (x : Execution) (msg : Message) (w : World) : Prop :=
  ¬ Purchases msg w ∨ (msg.want = 0 ∧ ¬ Starts x msg (debited msg w))

section

variable {x : Execution} {msg : Message} {w w' : World} {calls : Calls} {receipt : Receipt}

lemma World.observed_putAccount_self {a : Address} {account : StoredAccount}
    (h : w.getAccount a = some account) : (w.putAccount a account).observed = w.observed := by
  refine Observed.ext (funext fun y => ?_) (funext fun y => funext fun k => ?_)
  · show (w.putAccount a account).getAccount y = w.getAccount y
    rw [getAccount_putAccount]
    by_cases hy : y = a
    · rw [if_pos hy, hy, h]
    · rw [if_neg hy]
  · exact Storage.rawValue_putAccount w.storage a y account k

lemma observed_debited (h : msg.want = 0) : (debited msg w).observed = w.observed := by
  unfold debited
  cases hacc : w.getAccount msg.sender with
  | none =>
    unfold credit
    rw [hacc]
  | some account =>
    rw [credit_eq hacc, h, Int.neg_zero, Int.add_zero]
    exact observed_putAccount_self hacc

lemma observed_debited_ne (h : msg.want ≠ 0) (hacc : (w.getAccount msg.sender).isSome = true) :
    (debited msg w).observed ≠ w.observed := by
  obtain ⟨account, hacc⟩ := Option.isSome_iff_exists.mp hacc
  intro hsame
  have hread : (debited msg w).getAccount msg.sender = w.getAccount msg.sender :=
    congrFun (congrArg Observed.account hsame) msg.sender
  unfold debited at hread
  rw [credit_eq hacc, getAccount_putAccount, if_pos rfl, hacc] at hread
  have hbalance : account.balance + -msg.want = account.balance :=
    congrArg StoredAccount.balance (Option.some.inj hread)
  omega

lemma executeMessage_state (h : executeMessage x calls msg w = .ok receipt w') :
    (apply x calls msg w).state? = some w' := by
  unfold executeMessage Prog.catching at h
  cases hrun : apply x calls msg w with
  | diverge =>
    rw [bind_apply, hrun] at h
    cases h
  | err e w1 =>
    rw [bind_of_err hrun] at h
    obtain ⟨_, rfl⟩ := Outcome.ok.inj h
    rfl
  | ok r w1 =>
    rw [bind_of_ok hrun] at h
    cases hreceipt : receiptFrom r with
    | ok receipt' =>
      rw [liftM_of_ok hreceipt] at h
      obtain ⟨_, rfl⟩ := Outcome.ok.inj h
      rfl
    | error e =>
      rw [liftM_of_error hreceipt] at h
      obtain ⟨_, rfl⟩ := Outcome.ok.inj h
      rfl

lemma executeMessage_err {e : JavaException} {w1 : World}
    (h : executeMessage x calls msg w = .ok receipt w') (herr : apply x calls msg w = .err e w1) :
    receipt.success = false ∧ w' = w1 := by
  unfold executeMessage Prog.catching at h
  rw [bind_of_err herr] at h
  obtain ⟨rfl, rfl⟩ := Outcome.ok.inj h
  refine ⟨?_, rfl⟩
  cases e <;> rfl

/-! ## Once the contract has started -/

lemma getNonce_settle (hs : x.cfg.Sound) {result : VmResult}
    (h : (settle x msg msg.gasLimit msg.gasPrice result w).state? = some w') (a : Address) :
    w'.getNonce a = w.getNonce a := by
  by_cases hsettles : Settles x msg result w
  · rw [settle_ok hs hsettles] at h
    obtain rfl := Option.some.inj h
    exact getNonce_settled a
  obtain ⟨e, w1, herr, hleft⟩ := settle_err hs hsettles
  rw [herr] at h
  obtain rfl := Option.some.inj h
  rcases hleft with rfl | rfl
  · rfl
  · exact (getAccount_credit _ _ _).2

lemma getNonce_started {m : Machine} (hs : x.cfg.Sound) (n : Nat) (hbuys : Purchases msg w)
    (hstarts : Starts x msg (debited msg w)) (hro : w.readOnly = false)
    (hdepth : (debited msg w).depth ≤ m.cfg.callCreateDepth)
    (hmax : w.getNonce msg.sender ≠ 2 ^ 63 - 1)
    (h : (apply x (vm m n) msg w).state? = some w') :
    w.getNonce msg.sender < w'.getNonce msg.sender := by
  obtain ⟨gas, hgas, _⟩ := startGas_ok hs hbuys.gasLimit hstarts
  have hafter : apply x (vm m n) msg w = (executeContract (vm m n) msg gas >>= fun result =>
      settle x msg msg.gasLimit msg.gasPrice result) (debited msg w) := by
    rw [checks_apply.pass hbuys]
    exact bind_of_ok hgas
  rw [hafter] at h
  -- the run of the contract
  obtain ⟨account, hacc, hfrom⟩ := hbuys.sender_account
  have hfits : IsLong (wrap64 account.nonce + 1) := by
    obtain ⟨hlo, hhi⟩ := isLong_wrap64 account.nonce
    omega
  have hran := wp_executeContract_nonce (g := .any) n gas
    ((readOnly_credit _ w).trans hro) (hstarts.refusal hdepth) hacc hfits
  rw [vmGuarded_any] at hran
  have hraised : ((debited msg w).raiseNonce msg.sender account).getNonce msg.sender
      = w.getNonce msg.sender + 1 := by
    unfold raiseNonce
    rw [getNonce_putAccount, if_pos rfl, wrap64_raised hfits, hfrom]
  cases hexec : executeContract (vm m n) msg gas (debited msg w) with
  | diverge =>
    rw [bind_apply, hexec] at h
    cases h
  | err e w2 => exact (hran.of_err hexec).elim
  | ok result w2 =>
    rw [bind_of_ok hexec] at h
    have hle : ((debited msg w).raiseNonce msg.sender account).getNonce msg.sender
        ≤ w2.getNonce msg.sender := (hran.of_ok hexec).getNonce_le msg.sender
    rw [getNonce_settle hs h]
    omega

end

/-! ## Rejected messages -/

/-- **A REJECTED MESSAGE LEAVES NO TRACE** if and only if it is rejected early.  (The converse
excludes the last nonce, which a call wraps around.) -/
theorem rejected_without_trace_iff (x : Execution) (timestamp : Int)
    (hcfg : x.cfg = configAt timestamp) (n : Nat) (msg : Message) (s : Storage)
    (receipt : Receipt) (w' : World)
    (hrun : executeMessage x (vm (x.machine msg) n) msg (World.start s) = .ok receipt w') :
    (RejectsEarly x msg (World.start s) → receipt.success = false ∧ w'.observed = (World.start s).observed) ∧
    ((World.start s).getNonce msg.sender ≠ 2 ^ 63 - 1 → receipt.success = false →
      w'.observed = (World.start s).observed → RejectsEarly x msg (World.start s)) := by
  have hs : x.cfg.Sound := hcfg ▸ configAt_sound timestamp
  by_cases hbuys : Purchases msg (start s)
  · by_cases hstarts : Starts x msg (debited msg (start s))
    · refine ⟨fun hearly => ?_, fun hmax _ hsame => ?_⟩
      · rcases hearly with hnot | ⟨_, hnot⟩
        · exact absurd hbuys hnot
        · exact absurd hstarts hnot
      have hlt := getNonce_started hs n hbuys hstarts rfl (debited_depth_le x hcfg msg s) hmax
        (executeMessage_state hrun)
      have hread : nonceIn w'.observed.account msg.sender
          = nonceIn (start s).observed.account msg.sender := by rw [hsame]
      have hread : w'.getNonce msg.sender = (start s).getNonce msg.sender := hread
      omega
    · -- the gas is bought, and the message ends right there
      obtain ⟨e, herr⟩ := startGas_err hs hbuys.gasLimit hstarts
      obtain ⟨hfail, rfl⟩ := executeMessage_err hrun ((checks_apply.pass hbuys).trans (bind_of_err herr))
      refine ⟨fun hearly => ?_, fun _ _ hsame => .inr ⟨?_, hstarts⟩⟩
      · rcases hearly with hnot | ⟨hfree, _⟩
        · exact absurd hbuys hnot
        · exact ⟨hfail, observed_debited hfree⟩
      · by_contra hpaid
        exact observed_debited_ne hpaid hbuys.account hsame
  · obtain ⟨e, herr⟩ := checks_apply.fail hbuys
    obtain ⟨hfail, rfl⟩ := executeMessage_err hrun herr
    exact ⟨fun _ => ⟨hfail, rfl⟩, fun _ _ _ => .inl hbuys⟩

/-- A payload that begins like an `Error(string)` and has no such offset: `PUSH32` of the selector
and ones, `PUSH1 0`, `MSTORE`, then `REVERT` of the first 100 bytes. -/
def badRevertCode : Bytes :=
  0x7f :: (revertSelector ++ List.replicate 28 0xff) ++ [0x60, 0, 0x52, 0x60, 100, 0x60, 0, 0xfd]

/-- A message without enough gas to start pays all of it, and a contract that reverts with a bad
payload leaves its sender's nonce raised; both receipts are unsuccessful. -/
theorem rejected_with_trace :
    (∃ receipt w', executeMessage .sample (vm (Execution.sample.machine (.sample 100)) 8)
        (.sample 100) (World.start (.sample 5 [])) = .ok receipt w' ∧ receipt.success = false ∧
      (World.start (.sample 5 [])).getBalance 1 = 1000000 ∧ w'.getBalance 1 = 999900) ∧
    (∃ receipt w', executeMessage .sample (vm (Execution.sample.machine (.sample 100000)) 8)
        (.sample 100000) (World.start (.sample 5 badRevertCode)) = .ok receipt w' ∧
      receipt.success = false ∧ (World.start (.sample 5 badRevertCode)).getNonce 1 = 0 ∧
      w'.getNonce 1 = 1) := by
  decide +kernel

def Message.early : Message := { Message.sample 100 with nonce := 3, nonce_nonneg := by decide }

theorem wrong_nonce_leaves_no_trace :
    ∃ receipt w', executeMessage .sample (vm (Execution.sample.machine .early) 8) .early
        (World.start (.sample 5 [])) = .ok receipt w' ∧
      receipt.success = false ∧ w'.observed = (World.start (.sample 5 [])).observed := by
  obtain ⟨receipt, w', hok⟩ : ∃ receipt w', executeMessage .sample
      (vm (Execution.sample.machine .early) 8) .early (start (.sample 5 [])) = .ok receipt w' := by
    decide +kernel
  have hearly : RejectsEarly .sample .early (start (.sample 5 [])) := by
    refine .inl fun hbuys => absurd hbuys.sender ?_
    decide +kernel
  have htraceless := rejected_without_trace_iff .sample 1700000000 rfl 8 .early _ receipt w' hok
  exact ⟨receipt, w', hok, htraceless.1 hearly⟩

end GrapeDag
