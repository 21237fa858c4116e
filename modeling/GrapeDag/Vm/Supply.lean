/-
THE SUM OF ALL BALANCES.

Over one message the writes of balances cancel out, except where `SELFDESTRUCT` credits the
beneficiary and debits NOBODY, a create overwrites an account that already had a balance, or the
contract returns more gas than it was given. `supplyGuard` excludes the three.

Main result: `supply_conserved`.
-/
import GrapeDag.Vm.Fees
import GrapeDag.Vm.GasSafety
import GrapeDag.Vm.Transfers

namespace GrapeDag

open Imperative GrapeDag.Frame Prog World

/-! ## The supply -/

def World.supply (w : World) : Int := w.storage.accounts.sumBy StoredAccount.balance

lemma World.supply_putAccount (w : World) (a : Address) (account : StoredAccount) :
    (w.putAccount a account).supply = w.supply + account.balance - w.getBalance a := by
  have hshare : FinMap.share StoredAccount.balance w.storage.accounts a = w.getBalance a := by
    unfold FinMap.share World.getBalance getAccount Storage.getAccount
    cases w.storage.accounts.lookup a with
    | none | some account => rfl
  have hinsert := FinMap.sumBy_insert StoredAccount.balance w.storage.accounts a account
  rw [hshare] at hinsert
  exact hinsert

/-- The accounts have the supply `c`, in whatever order they are stored. -/
def HasSupply (c : Int) (accounts : Address → Option StoredAccount) : Prop :=
  ∃ m : FinMap Address StoredAccount, (∀ a, m.lookup a = accounts a) ∧ m.sumBy StoredAccount.balance = c

lemma hasSupply_iff {c : Int} {w : World} : HasSupply c w.getAccount ↔ w.supply = c := by
  constructor
  · rintro ⟨m, hm, rfl⟩
    exact (FinMap.sumBy_congr _ hm).symm
  · intro h
    exact ⟨w.storage.accounts, fun _ => rfl, h⟩

lemma Transferred.supply {source target : Address} {value : Int} {w w' : World}
    (h : Transferred source target value w w') : w'.supply = w.supply := by
  obtain ⟨s, t, hs, ht, rfl⟩ := h.moved
  have hs' := getBalance_eq hs
  have ht' := getBalance_eq ht
  rw [supply_putAccount, supply_putAccount, ht', hs']
  show w.supply + (s.balance - value) - s.balance + (t.balance + value) - t.balance = w.supply
  omega

/-! ## Runs -/

/-- The contract hands out nothing that is not taken from somewhere: `SELFDESTRUCT` has nothing to
give, creates land on empty accounts, and the gas is metered. -/
def supplyGuard (m : Machine) : Guard where
  instruction f := (meteredGuard m).instruction f ∧
    (f.currentOp m = some .selfDestruct → f.world.getBalance f.contract.self = 0)
  call _ _ := true
  create a w := w.getBalance (createTarget m a w) = 0

lemma supply_stable (m : Machine) (c : Int) :
    StableAccounts m (supplyGuard m) (fun _ => True) (HasSupply c) := by
  -- writing an account with its old balance
  have hput : ∀ {w : World} {y : Address} {account account' : StoredAccount},
      w.getAccount y = some account → account'.balance = account.balance →
      HasSupply c w.getAccount → HasSupply c (w.putAccount y account').getAccount := by
    intro w y account account' hacc hbal hc
    rw [hasSupply_iff] at hc ⊢
    rw [supply_putAccount, getBalance_eq hacc]
    omega
  -- writing a new account over an empty one
  have hblank : ∀ {w : World} {y : Address}, w.getBalance y = 0 →
      HasSupply c w.getAccount → HasSupply c (w.putAccount y .blank).getAccount := by
    intro w y hempty hc
    rw [hasSupply_iff] at hc ⊢
    rw [supply_putAccount, hempty, hc]
    show c + 0 - 0 = c
    omega
  refine ⟨fun _ => trivial, ?_, ?_, ?_, ?_, ?_, ?_⟩
  · intro chain f w beneficiary account _ hg hop hs hacc hc
    have hempty : w.getBalance f.contract.self = 0 := by
      have hself := (of_decide_eq_true hg).2 hop
      unfold World.getBalance getAccount at hself ⊢
      rw [hs.storage]
      exact hself
    refine hput hacc ?_ hc
    show account.balance + w.getBalance f.contract.self = account.balance
    omega
  · intro w a habs hc
    refine hblank ?_ hc
    unfold World.getBalance
    rw [habs]
  · intro source target value w w' _ hmoved hc
    rw [hasSupply_iff] at hc ⊢
    rw [hmoved.supply, hc]
  · exact fun _ _ _ hacc _ hc => hput hacc rfl hc
  · intro chain a w0 w _ hfresh hc
    refine hblank ?_ hc
    rw [hfresh.balance]
    exact of_decide_eq_true hfresh.guard
  · exact fun _ _ _ _ _ hacc hc => hput hacc rfl hc

lemma Hist.supply {m : Machine} {chain : List Address} {b : Bool} {w w' : World}
    (h : Hist m (supplyGuard m) chain b w w') : w'.supply = w.supply := by
  have hkept := h.keeps (supply_stable m w.supply).stable trivial (hasSupply_iff.mpr rfl)
  exact hasSupply_iff.mp hkept

/-! ## Messages -/

lemma World.supply_credit {w : World} {a : Address} (h : (w.getAccount a).isSome = true)
    (amount : Int) : (w.credit a amount).supply = w.supply + amount := by
  obtain ⟨account, hacc⟩ := Option.isSome_iff_exists.mp h
  rw [credit_eq hacc, supply_putAccount, getBalance_eq hacc]
  show w.supply + (account.balance + amount) - account.balance = w.supply + amount
  omega

section

variable {x : Execution} {msg : Message}

lemma supply_executeContract (hp : (x.machine msg).Priced) (n : Nat) {gas : Int} (hgas : 0 ≤ gas)
    (hmax : gas ≤ 9223372036854775807) {w : World} (hro : w.readOnly = false) :
    wp (executeContract (vmGuarded (x.machine msg) (supplyGuard (x.machine msg)) n) msg gas)
      (fun r w' => w'.supply = w.supply ∧ r.gas ≤ gas) (fun _ _ => False) w := by
  have hrec := vm_recorded (m := x.machine msg) (g := supplyGuard (x.machine msg)) n
  have hthrifty : ThriftyAll (vmGuarded (x.machine msg) (supplyGuard (x.machine msg)) n) :=
    thrifty_vm hp (fun f hf => (of_decide_eq_true hf).1) n
  refine wp_executeContract (fun _ => ?_) fun receiver _ w1 hw1 => ?_
  · have hcreate := (hrec.create _ w hro).and (hthrifty.program
      (.create ⟨.create, msg.caller, msg.data, gas, msg.amount, 0⟩ w) hgas hmax)
    exact hcreate.mono (fun _ _ h => ⟨h.1.1.supply, h.2.2⟩) (fun _ _ h => ⟨h.1.supply, hgas⟩)
  have hnonce : w1.supply = w.supply ∧ w1.readOnly = false := by
    rcases hw1 with ⟨_, rfl⟩ | ⟨account, hacc, rfl⟩
    · exact ⟨rfl, hro⟩
    · refine ⟨?_, hro⟩
      rw [supply_putAccount, getBalance_eq hacc]
      show w.supply + account.balance - account.balance = w.supply
      omega
  have hlegal : w1.readOnly = true → CallKind.call = .call → msg.amount = 0 := by
    intro htrue
    rw [hnonce.2] at htrue
    cases htrue
  have hcall := (hrec.executeCall ⟨.call, msg.caller, receiver, msg.data, gas, msg.amount⟩ w1
    hlegal).and (hthrifty.program (.call _ w1) hgas hmax)
  rw [← hnonce.1]
  exact hcall.mono (fun _ _ h => ⟨h.1.1.supply, h.2.2⟩) (fun _ _ h => ⟨h.1.supply, hgas⟩)

lemma supply_settled {result : VmResult} {w : World} (h : Settles x msg result w) :
    (settled x msg result w).supply
      = w.supply + gasLeft x msg result w * msg.gasPrice + feeOf x msg result w := by
  have hrefunded : (refunded x msg result w).supply
      = w.supply + gasLeft x msg result w * msg.gasPrice := supply_credit h.sender _
  unfold settled
  by_cases hfee : feeOf x msg result w = 0
  · rw [if_pos hfee]
    omega
  · have hcoin : ((refunded x msg result w).getAccount x.block.coinbase).isSome = true := by
      unfold refunded
      rw [(getAccount_credit _ w _).1]
      exact h.coinbase hfee
    rw [if_neg hfee, supply_credit hcoin, hrefunded]

end

/-- **THE SUPPLY IS CONSERVED** by every message that is accepted and whose contract hands out
nothing from nowhere; without base fees it shrinks by the price of the used gas. -/
theorem supply_conserved (x : Execution) (timestamp : Int) (hcfg : x.cfg = configAt timestamp)
    (n : Nat) (msg : Message) (s : Storage) (r : MessageResult) (w' : World)
    (hmeets : ApplyMeets x (supplyGuard (x.machine msg)) n msg (World.start s))
    (haccepted : apply x (vm (x.machine msg) n) msg (World.start s) = .ok r w') :
    w'.supply = (World.start s).supply - (if x.noBaseFee then r.usedGas * msg.gasPrice else 0) := by
  have hp : (x.machine msg).Priced := priced_of_configAt hcfg
  have hs : x.cfg.Sound := hp.sound
  obtain ⟨hbuys, _, gas, result, w2, hnonneg, hle, hexec, hsettles, rfl, rfl, _⟩ :=
    apply_accepted hs (hmeets.trans haccepted)
  have hdebit : (debited msg (start s)).supply = (start s).supply + -msg.want :=
    supply_credit hbuys.account _
  have hlimit := hbuys.gasLimit.2
  obtain ⟨hkept, hleft⟩ := (supply_executeContract hp n hnonneg (by omega)
    (readOnly_credit _ _)).of_ok hexec
  have hused := @usedGas_nonneg x msg result (le_trans hleft hle) w2
  have hsplit : usedGas x msg result w2 * msg.gasPrice
      = msg.want - gasLeft x msg result w2 * msg.gasPrice := Int.sub_mul _ _ _
  rw [supply_settled hsettles, feeOf_eq hused]
  dsimp only
  split <;> omega

/-- Give everything to address 600: `PUSH2 600`, `SELFDESTRUCT`. -/
def selfDestructCode : Bytes := [0x61, 0x02, 0x58, 0xff]

/-- A contract with a balance of 5 self-destructs: the beneficiary gets 5, nobody pays. -/
theorem selfdestruct_mints :
    ∃ r w', apply .sample (vm (Execution.sample.machine (.sample 100000)) 5) (.sample 100000)
        (World.start (.sample 5 selfDestructCode)) = .ok r w' ∧
      w'.supply = (World.start (.sample 5 selfDestructCode)).supply + 5 := by
  decide +kernel

theorem selfdestruct_without_balance :
    ∃ r w', apply .sample (vm (Execution.sample.machine (.sample 100000)) 5) (.sample 100000)
        (World.start (.sample 0 selfDestructCode)) = .ok r w' ∧
      w'.supply = (World.start (.sample 0 selfDestructCode)).supply := by
  let m := Execution.sample.machine (.sample 100000)
  obtain ⟨hmeets, r, w', hrun, -⟩ :=
    (apply_below .sample (vmGuarded_below m (supplyGuard m) 5) (.sample 100000)).returns
      (s := start (.sample 0 selfDestructCode)) (P := fun _ _ => True) (by decide +kernel)
  have hkept := supply_conserved .sample 1700000000 rfl 5 (.sample 100000) _ r w' hmeets hrun
  exact ⟨r, w', hrun, by rw [hkept]; exact Int.sub_zero _⟩

end GrapeDag
