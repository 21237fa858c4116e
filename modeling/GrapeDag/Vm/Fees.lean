/-
WHO PAYS WHAT.

The sender buys the whole gas limit, gets back what the contract left and a refund that is
capped, and the coinbase is paid for what was used. The debit and the two credits are computed
apart from each other, in three places of `apply`.

Main result: `fees_settled`.
-/
import GrapeDag.Vm.Message

namespace GrapeDag

open Imperative Prog World

/-! ## Balances -/

lemma World.getBalance_credit {w : World} {a : Address} (h : (w.getAccount a).isSome = true)
    (amount : Int) (x : Address) :
    (w.credit a amount).getBalance x = w.getBalance x + if x = a then amount else 0 := by
  obtain ⟨account, hacc⟩ := Option.isSome_iff_exists.mp h
  rw [credit_eq hacc, getBalance_putAccount]
  by_cases hx : x = a
  · rw [if_pos hx, if_pos hx, hx, getBalance_eq hacc]
  · rw [if_neg hx, if_neg hx, Int.add_zero]

lemma getBalance_settled {x : Execution} {msg : Message} {result : VmResult} {w : World}
    (h : Settles x msg result w) (a : Address) :
    (settled x msg result w).getBalance a
      = w.getBalance a + (if a = msg.sender then gasLeft x msg result w * msg.gasPrice else 0)
        + (if a = x.block.coinbase then feeOf x msg result w else 0) := by
  unfold settled refunded
  by_cases hfee : feeOf x msg result w = 0
  · rw [if_pos hfee, getBalance_credit h.sender, hfee, ite_self, Int.add_zero]
  · have hcoinbase : ((w.credit msg.sender (gasLeft x msg result w * msg.gasPrice)).getAccount
        x.block.coinbase).isSome = true := by
      rw [(getAccount_credit _ w _).1]
      exact h.coinbase hfee
    rw [if_neg hfee, getBalance_credit hcoinbase, getBalance_credit h.sender]

/-! ## The refund -/

section Refund

variable {x : Execution} {msg : Message} {result : VmResult} {w : World}

lemma refundOf_range (hquotient : 0 < x.cfg.maxRefundQuotient)
    (hgas : result.gas ≤ msg.gasLimit) (hcounter : 0 ≤ w.refundGas) :
    0 ≤ refundOf x msg result w
      ∧ refundOf x msg result w ≤ (msg.gasLimit - result.gas) / x.cfg.maxRefundQuotient := by
  have hfloor : (msg.gasLimit - result.gas).tdiv x.cfg.maxRefundQuotient
      = (msg.gasLimit - result.gas) / x.cfg.maxRefundQuotient :=
    Int.tdiv_eq_ediv_of_nonneg (by omega)
  have hshare : 0 ≤ (msg.gasLimit - result.gas) / x.cfg.maxRefundQuotient :=
    Int.ediv_nonneg (by omega) (by omega)
  unfold refundOf
  rw [hfloor]
  omega

lemma usedGas_eq (x : Execution) (msg : Message) (result : VmResult) (w : World) :
    usedGas x msg result w = msg.gasLimit - result.gas - refundOf x msg result w := by
  unfold usedGas gasLeft
  omega

lemma usedGas_nonneg (hgas : result.gas ≤ msg.gasLimit) (w : World) : 0 ≤ usedGas x msg result w := by
  have hcap : (msg.gasLimit - result.gas).tdiv x.cfg.maxRefundQuotient ≤ msg.gasLimit - result.gas := by
    rw [Int.tdiv_eq_ediv_of_nonneg (by omega)]
    exact Int.ediv_le_self _ (by omega)
  have hrefund : refundOf x msg result w ≤ msg.gasLimit - result.gas := (min_le_left _ _).trans hcap
  rw [usedGas_eq]
  omega

lemma feeOf_eq (hused : 0 ≤ usedGas x msg result w) :
    feeOf x msg result w = if x.noBaseFee then 0 else usedGas x msg result w * msg.gasPrice := by
  have hnonneg : 0 ≤ usedGas x msg result w * msg.gasPrice := Int.mul_nonneg hused msg.gasPrice_nonneg
  unfold feeOf
  cases x.noBaseFee with
  | true => rfl
  | false =>
    by_cases hpos : usedGas x msg result w * msg.gasPrice > 0
    · exact if_pos ⟨rfl, hpos⟩
    · rw [if_neg (fun h => hpos h.2)]
      show 0 = usedGas x msg result w * msg.gasPrice
      omega

end Refund

/-! ## The account of a message -/

/-- The contract of the message ends with gas between zero and what it was given, and leaves a
refund counter that is not negative. -/
def EndsThriftily (x : Execution) (calls : Calls) (msg : Message) (w : World) : Prop :=
  ∀ intrinsic result w2, intrinsicGas x.cfg msg.data msg.receiver.isNone = .ok intrinsic →
    executeContract calls msg (msg.gasLimit - intrinsic) (debited msg w) = .ok result w2 →
      0 ≤ result.gas ∧ result.gas ≤ msg.gasLimit - intrinsic ∧ 0 ≤ w2.refundGas

/-- The account of a message that was applied in `w`. `w2` is the world after the contract has
run: what the contract itself moves is between the debit and the credits. -/
structure FeesSettled (x : Execution) (msg : Message) (w w2 w' : World) (intrinsic : Int)
    (r : MessageResult) : Prop where
  refund : 0 ≤ r.refundGas
    ∧ r.refundGas ≤ (msg.gasLimit - r.contractResult.gas) / x.cfg.maxRefundQuotient
  used_range : 0 ≤ r.usedGas ∧ r.usedGas ≤ msg.gasLimit
  used : r.usedGas = msg.gasLimit - r.contractResult.gas - r.refundGas
  intrinsic_le : intrinsic
    - (msg.gasLimit - r.contractResult.gas) / x.cfg.maxRefundQuotient ≤ r.usedGas
  /-- the purchase -/
  bought : ∀ a, (debited msg w).getBalance a
    = w.getBalance a - if a = msg.sender then msg.gasLimit * msg.gasPrice else 0
  /-- what goes back to the sender and what the coinbase gets -/
  paid : ∀ a, w'.getBalance a = w2.getBalance a
    + (if a = msg.sender then (r.contractResult.gas + r.refundGas) * msg.gasPrice else 0)
    + (if a = x.block.coinbase then if x.noBaseFee then 0 else r.usedGas * msg.gasPrice else 0)
  /-- the sender pays for what was used -/
  balanced : msg.gasLimit * msg.gasPrice - (r.contractResult.gas + r.refundGas) * msg.gasPrice
    = r.usedGas * msg.gasPrice

/-- **Every message that is applied is settled.** -/
theorem fees_settled {x : Execution} {calls : Calls} {msg : Message} {w w' : World}
    {r : MessageResult} (hs : x.cfg.Sound) (hends : EndsThriftily x calls msg w)
    (h : apply x calls msg w = .ok r w') :
    ∃ intrinsic w2, intrinsicGas x.cfg msg.data msg.receiver.isNone = .ok intrinsic
      ∧ executeContract calls msg (msg.gasLimit - intrinsic) (debited msg w) = .ok r.contractResult w2
      ∧ FeesSettled x msg w w2 w' intrinsic r := by
  obtain ⟨hbuys, _, gas, result, w2, hnonneg, hle, hexec, hsettles, rfl, rfl, hintrinsic⟩ :=
    apply_accepted hs h
  have hgas : msg.gasLimit - (msg.gasLimit - gas) = gas := by omega
  obtain ⟨hlow, hhigh, hcounter⟩ := hends _ result w2 hintrinsic (by rw [hgas]; exact hexec)
  have hquotient := hs.maxRefundQuotient_pos
  have hwithin : result.gas ≤ msg.gasLimit := by omega
  obtain ⟨hrefund, hshare⟩ := refundOf_range hquotient hwithin hcounter
  have hnonneg := @usedGas_nonneg x msg result hwithin w2
  have hused := usedGas_eq x msg result w2
  refine ⟨msg.gasLimit - gas, w2, hintrinsic, by rw [hgas]; exact hexec, ?_⟩
  exact
    { refund := ⟨hrefund, hshare⟩
      used_range := ⟨hnonneg, show usedGas x msg result w2 ≤ msg.gasLimit by omega⟩
      used := hused
      intrinsic_le := show msg.gasLimit - gas
          - (msg.gasLimit - result.gas) / x.cfg.maxRefundQuotient ≤ usedGas x msg result w2 by omega
      bought := fun a => by
        unfold debited
        rw [getBalance_credit hbuys.account]
        split <;> rfl
      paid := fun a => by
        rw [getBalance_settled hsettles, feeOf_eq hnonneg]
        rfl
      balanced := (Int.sub_mul _ _ _).symm }

def addingCode : Bytes := [0x60, 0x02, 0x60, 0x03, 0x01, 0x00]

theorem adding_settled :
    ∃ r w' intrinsic w2,
      apply .sample (vm (Execution.sample.machine (.sample 30000)) 10) (.sample 30000)
          (World.start (.sample 0 addingCode)) = .ok r w'
        ∧ FeesSettled .sample (.sample 30000) (World.start (.sample 0 addingCode)) w2 w' intrinsic r
        ∧ 0 < r.usedGas := by
  have hends : EndsThriftily .sample (vm (Execution.sample.machine (.sample 30000)) 10)
      (.sample 30000) (start (.sample 0 addingCode)) := by
    intro intrinsic result w2 hintrinsic hexec
    obtain rfl : 21000 = intrinsic := Except.ok.inj hintrinsic
    have hcheck : (executeContract (vm (Execution.sample.machine (.sample 30000)) 10)
        (.sample 30000) 9000 (debited (.sample 30000) (start (.sample 0 addingCode)))).returns
        (fun result w2 => 0 ≤ result.gas ∧ result.gas ≤ 9000 ∧ 0 ≤ w2.refundGas) = true := by
      decide +kernel
    rw [show executeContract _ _ 9000 _ = _ from hexec] at hcheck
    exact of_decide_eq_true hcheck
  obtain ⟨r, w', happly, hused⟩ : ∃ r w', apply .sample
      (vm (Execution.sample.machine (.sample 30000)) 10) (.sample 30000)
      (start (.sample 0 addingCode)) = .ok r w' ∧ 0 < r.usedGas := by decide +kernel
  obtain ⟨intrinsic, w2, _, _, hfees⟩ := fees_settled (configAt_sound 1700000000) hends happly
  exact ⟨r, w', intrinsic, w2, happly, hfees, hused⟩

end GrapeDag
