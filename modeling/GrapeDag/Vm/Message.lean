/-
FROM A MESSAGE TO A RECEIPT.

`StateTransition.java`, `AbstractMessageExecutor.java`, `Receipts.java` and the part of
`Abi.java` they use. There is NO checkpoint around these steps: whatever throws after the gas
is bought leaves the debit, and everything the contract did, in the store.
-/
import GrapeDag.Vm.History

namespace GrapeDag

open Imperative Prog World Below

/-! ## Messages and results -/

/-- `VmMessage`, with what its builder checks. `receiver` is `to()`, absent for the undefined
address. -/
structure Message where
  nonce : Int
  sender : Address
  receiver : Option Address
  amount : Int
  gasLimit : Int
  gasPrice : Int
  data : Bytes
  fake : Bool
  nonce_nonneg : 0 ≤ nonce
  amount_nonneg : 0 ≤ amount
  gasLimit_nonneg : 0 ≤ gasLimit
  gasPrice_nonneg : 0 ≤ gasPrice

/-- What the server fixes before it executes a message: the `ExecutionConfig` and the block context.
-/
structure Execution where
  cfg : ChainConfig
  crypto : CryptoLib
  block : BlockContext
  txHash : Bytes
  noBaseFee : Bool

/-- The `VmImpl` that `createMachine` builds over the message's context. -/
def Execution.machine (x : Execution) (msg : Message) : Machine :=
  ⟨x.cfg, x.crypto, x.block, msg.sender, msg.gasPrice, x.txHash⟩

structure MessageResult where
  contractResult : VmResult
  initGas : Int
  refundGas : Int
  usedGas : Int
  gas : Int
  deriving Repr, DecidableEq

/-- What the receipt says of a failure. -/
inductive ErrorMessage where
  | revert (reason : Bytes)
  | exception (e : JavaException)
  deriving Repr, DecidableEq

structure Receipt where
  result : Option MessageResult
  success : Bool
  errorMessage : Option ErrorMessage
  deriving Repr, DecidableEq

lemma Message.zero_nonce : (0 : Int) ≤ 0 := le_refl 0

/-! ## The checks before the contract runs -/

def Message.caller (msg : Message) : ContractRef := .account msg.sender msg.amount

/-- `preCheck`: the nonce has to match, and the sender must not be a contract. -/
def preCheck (msg : Message) : Java World Unit := do
  if !msg.fake then
    let stNonce ← .gets fun w => w.getNonce msg.sender
    if stNonce < msg.nonce then .raise (.execution .nonceModification)
    else if stNonce > msg.nonce then .raise (.execution .nonceModification)
    else
      let codeHash ← .gets fun w => w.getContractCodeHash msg.sender
      if codeHash ≠ keccak256Null then .raise (.execution .senderNoEOA)

def buyGas (msg : Message) (gas gasPrice : Int) : Java World Unit := do
  let want := gas * gasPrice
  let balance ← .gets fun w => w.getBalance msg.sender
  if balance < want then .raise (.execution .insufficientFounds)
  else World.subBalance msg.sender want

def addDataGas (cfg : ChainConfig) (realGas count : Int) (item : PriceItem) : Checked Int := do
  if count > 0 then
    let price ← cfg.lookForGasPrice item
    addExact realGas (← multiplyExact count price)
  else return realGas

def intrinsicGas (cfg : ChainConfig) (data : Bytes) (isCreate : Bool) : Checked Int := do
  let creationPrice ← cfg.lookForGasPrice (if isCreate then .txCreation else .tx)
  let realGas ← addExact 0 creationPrice
  let nz : Int := data.countP (· ≠ 0)
  let realGas ← addDataGas cfg realGas nz .txDataNonZero
  addDataGas cfg realGas (data.length - nz) .txDataZero

/-- The checks of `apply` after the gas is bought; the answer is the gas that is left for the
contract. -/
def startGas (x : Execution) (msg : Message) (initialGas : Int) : Java World Int := do
  let intrinsic ← intrinsicGas x.cfg msg.data msg.receiver.isNone
  if initialGas < intrinsic then .raise (.execution .intrinsicGas)
  else
    let gas ← subtractExact initialGas intrinsic
    let covered ← .gets fun w => w.canTransfer msg.sender msg.amount
    if msg.amount > 0 ∧ !covered then .raise (.execution .insufficientFounds)
    else return gas

section Keeps

variable {R : World → World → Prop} [IsPreorder World R]

lemma keeps_preCheck (msg : Message) : Keeps R (preCheck msg) := by
  refine .ite (.bind (.gets _) fun nonce => ?_) (.pure ())
  refine .ite (.raise _) (.ite (.raise _) ?_)
  exact .bind (.gets _) fun codeHash => .ite (.raise _) (.pure ())

lemma keeps_buyGas (h : ∀ a value, Keeps R (subBalance a value)) (msg : Message)
    (gas gasPrice : Int) : Keeps R (buyGas msg gas gasPrice) :=
  .bind (.gets _) fun _ => .ite (.raise _) (h _ _)

lemma keeps_startGas (x : Execution) (msg : Message) (initialGas : Int) :
    Keeps R (startGas x msg initialGas) := by
  refine .bind (.liftM _) fun intrinsic => .ite (.raise _) ?_
  exact .bind (.liftM _) fun gas => .bind (.gets _) fun covered => .ite (.raise _) (.pure _)

end Keeps

/-! ## The run of the contract -/

/-- `executeContract`: a deployment, or a call after the nonce is raised. Every exception becomes
an internal error without gas. -/
def executeContract (calls : Calls) (msg : Message) (gas : Int) : Java World VmResult :=
  .catching (match msg.receiver with
    | none => calls.create ⟨.create, msg.caller, msg.data, gas, msg.amount, 0⟩
    | some receiver => do
        let nonce ← .gets fun w => w.getNonce msg.sender
        World.setNonce msg.sender (wrap64 (nonce + 1))
        calls.executeCall ⟨.call, msg.caller, receiver, msg.data, gas, msg.amount⟩)
    fun _ => return .error .internalError 0 msg.receiver

/-! ## The settlement -/

/-- `refundGas`: the refund counter is capped, and what is left of the gas is paid back. The answer
is the refund and the gas left with it. -/
def refundGas (cfg : ChainConfig) (msg : Message) (initialGas gasPrice gas : Int) :
    Java World (Int × Int) := do
  let counter ← .gets World.refundGas
  let gasUsed ← subtractExact initialGas gas
  let cap ← divide gasUsed cfg.maxRefundQuotient
  let refund := min cap counter
  let gas ← addExact gas refund
  World.addBalance msg.sender (gas * gasPrice)
  return (refund, gas)

/-- The end of `apply`, once the gas is paid back. The product that `captureEnd` is called with is
computed EXACTLY, and the coinbase is only paid a positive fee. -/
def payFee (x : Execution) (initialGas gasPrice : Int) (result : VmResult) (refund gas : Int) :
    Java World MessageResult := do
  let usedGas ← subtractExact initialGas gas
  let _ ← multiplyExact gas gasPrice
  if !x.noBaseFee ∧ usedGas * gasPrice > 0 then
    World.addBalance x.block.coinbase (usedGas * gasPrice)
  return ⟨result, initialGas, refund, usedGas, gas⟩

def settle (x : Execution) (msg : Message) (initialGas gasPrice : Int) (result : VmResult) :
    Java World MessageResult := do
  let (refund, gas) ← refundGas x.cfg msg initialGas gasPrice result.gas
  payFee x initialGas gasPrice result refund gas

/-- `StateTransition.apply`, from the constructor on. -/
def apply (x : Execution) (calls : Calls) (msg : Message) : Java World MessageResult := do
  let initialGas ← toLongExact msg.gasLimit
  let gasPrice ← toLongExact msg.gasPrice
  preCheck msg
  buyGas msg initialGas gasPrice
  let gas ← startGas x msg initialGas
  let result ← executeContract calls msg gas
  settle x msg initialGas gasPrice result

/-! ## Receipts -/

/-- `Abi.REVERT_SELECTOR`: the first bytes of the hash of `Error(string)`. -/
def revertSelector : Bytes := [0x08, 0xc3, 0x79, 0xa0]

def isRevertedOutput (output : Option Bytes) : Bool :=
  match output with
  | none => false
  | some output => output.length > 4 ∧ output.take 4 = revertSelector

/-- `Abi.unpackRevert`: the length is read from the `offset` bytes that follow the offset. -/
def unpackRevert (data : Bytes) : Checked Bytes := do
  if !isRevertedOutput (some data) ∨ data.length < 100 then .error .illegalArgument
  else
    let offset ← toIntExact (bytesToNat (← slice data 4 36))
    let start := wrap32 (36 + offset)
    let length ← toIntExact (bytesToNat (← slice data 36 start))
    slice data start (wrap32 (start + length))

def revertReason (result : VmResult) : Checked (Option ErrorMessage) :=
  match result.output with
  | none => return none
  | some output =>
      if result.status = .revert ∧ isRevertedOutput (some output) then do
        return some (.revert (← unpackRevert output))
      else return none

def receiptFrom (result : MessageResult) : Checked Receipt := do
  return ⟨some result, true, ← revertReason result.contractResult⟩

/-- `Receipts.error`, for the checked exceptions with an empty result. -/
def receiptError (msg : Message) : JavaException → Receipt
  | .execution kind =>
      ⟨some ⟨.error .inconsistentState 0 msg.receiver, wrap64 msg.gasLimit, 0, 0, 0⟩, false,
        some (.exception (.execution kind))⟩
  | e => ⟨none, false, some (.exception e)⟩

def executeMessage (x : Execution) (calls : Calls) (msg : Message) : Java World Receipt :=
  .catching (do
      let result ← apply x calls msg
      receiptFrom result) fun e => return receiptError msg e

/-- Every step of the contract's run, at every depth, meets the guard. -/
def ApplyMeets (x : Execution) (g : Guard) (n : Nat) (msg : Message) (w : World) : Prop :=
  apply x (vmGuarded (x.machine msg) g n) msg w = apply x (vm (x.machine msg) n) msg w

variable {c d : Calls} {w : World} {msg : Message}

lemma executeContract_below (h : c.Below d) (msg : Message) (gas : Int) :
    Below (executeContract c msg gas) (executeContract d msg gas) := by
  refine catching ?_ fun _ => refl _
  cases msg.receiver with
  | none => exact h.create _
  | some receiver =>
    exact bind (refl _) fun _ => bind (refl _) fun _ => h.executeCall _

lemma apply_below (x : Execution) (h : c.Below d) (msg : Message) :
    Below (apply x c msg) (apply x d msg) := by
  refine bind (refl _) fun _ => bind (refl _) fun _ => ?_
  refine bind (refl _) fun _ => bind (refl _) fun _ => ?_
  refine bind (refl _) fun _ => ?_
  exact bind (executeContract_below h msg _) fun _ => refl _

lemma executeMessage_below (x : Execution) (h : c.Below d) (msg : Message) :
    Below (executeMessage x c msg) (executeMessage x d msg) :=
  catching (bind (apply_below x h msg) fun _ => refl _) fun _ => refl _

/-! ## Credits -/

namespace World

def credit (a : Address) (amount : Int) (w : World) : World :=
  match w.getAccount a with
  | none => w
  | some account => w.putAccount a { account with balance := account.balance + amount }

variable {w : World} {a : Address}

lemma credit_eq {account : StoredAccount} (h : w.getAccount a = some account) (amount : Int) :
    w.credit a amount = w.putAccount a { account with balance := account.balance + amount } := by
  unfold credit
  rw [h]

lemma checks_addBalance (amount : Int) :
    Checks ((w.getAccount a).isSome = true) (addBalance a amount) w (.ok () (w.credit a amount)) where
  pass h := by
    obtain ⟨account, hacc⟩ := Option.isSome_iff_exists.mp h
    rw [credit_eq hacc]
    exact updateAccount_apply hacc _
  fail h := ⟨_, updateAccount_missing (by simpa using h) _⟩

lemma checks_subBalance (amount : Int) :
    Checks ((w.getAccount a).isSome = true) (subBalance a amount) w (.ok () (w.credit a (-amount))) :=
  checks_addBalance (-amount)

@[simp] lemma depth_credit (amount : Int) (w : World) : (w.credit a amount).depth = w.depth := by
  unfold credit
  split <;> rfl

@[simp] lemma readOnly_credit (amount : Int) (w : World) : (w.credit a amount).readOnly = w.readOnly := by
  unfold credit
  split <;> rfl

lemma getAccount_credit (amount : Int) (w : World) (x : Address) :
    ((w.credit a amount).getAccount x).isSome = (w.getAccount x).isSome ∧
      (w.credit a amount).getNonce x = w.getNonce x := by
  unfold credit
  cases hacc : w.getAccount a with
  | none => exact ⟨rfl, rfl⟩
  | some account =>
    unfold getNonce
    simp only [getAccount_putAccount]
    by_cases hx : x = a
    · rw [if_pos hx, hx, hacc]
      exact ⟨rfl, rfl⟩
    · rw [if_neg hx]
      exact ⟨rfl, rfl⟩

end World

/-! ## Up to the purchase of gas -/

def Message.want (msg : Message) : Int := msg.gasLimit * msg.gasPrice

/-- `preCheck` accepts the sender; of a fake message it asks nothing. -/
def senderFits (msg : Message) (w : World) : Prop :=
  msg.fake = true ∨ (w.getNonce msg.sender = msg.nonce ∧ w.getContractCodeHash msg.sender = keccak256Null)

instance (msg : Message) (w : World) : Decidable (senderFits msg w) := inferInstanceAs (Decidable (_ ∨ _))

/-- The message gets as far as paying for its gas. -/
structure Purchases (msg : Message) (w : World) : Prop where
  gasLimit : IsLong msg.gasLimit
  gasPrice : IsLong msg.gasPrice
  sender : senderFits msg w
  covered : msg.want ≤ w.getBalance msg.sender
  account : (w.getAccount msg.sender).isSome = true

def debited (msg : Message) (w : World) : World := w.credit msg.sender (-msg.want)

lemma debited_depth_le (x : Execution) {timestamp : Int} (hcfg : x.cfg = configAt timestamp)
    (msg : Message) (s : Storage) :
    (debited msg (start s)).depth ≤ (x.machine msg).cfg.callCreateDepth := by
  show _ ≤ x.cfg.callCreateDepth
  rw [hcfg, configAt_callCreateDepth]
  unfold debited
  rw [depth_credit]
  show ((0 : Nat) : Int) ≤ 1024
  decide

lemma checks_toLongExact {σ : Type} (v : Int) (s : σ) :
    Checks (IsLong v) (liftM (toLongExact v) : Java σ Int) s (.ok v s) where
  pass h := liftM_of_ok (toLongExact_eq_ok.mpr ⟨h, rfl⟩) s
  fail h := ⟨_, liftM_of_error (toLongExact_eq_error h) s⟩

lemma checks_preCheck : Checks (senderFits msg w) (preCheck msg) w (.ok () w) := by
  unfold preCheck senderFits
  cases msg.fake with
  | true => exact (Checks.of_eq rfl).congr (by simp)
  | false =>
    refine .congr (.gets (.ite_raise fun _ => .ite_raise fun _ => .gets (.ite_raise fun _ =>
      .of_eq rfl))) ?_
    constructor
    · rintro ⟨hlow, hhigh, hhash, -⟩
      exact .inr ⟨by omega, not_not.mp hhash⟩
    · rintro (hfake | ⟨hnonce, hhash⟩)
      · cases hfake
      · exact ⟨by omega, by omega, not_not.mpr hhash, trivial⟩

lemma checks_buyGas :
    Checks (msg.want ≤ w.getBalance msg.sender ∧ (w.getAccount msg.sender).isSome = true)
      (buyGas msg msg.gasLimit msg.gasPrice) w (.ok () (debited msg w)) :=
  .congr (.gets (.ite_raise fun _ => checks_subBalance _)) (and_congr_left' not_lt)

def applyDebited (x : Execution) (calls : Calls) (msg : Message) : Java World MessageResult := do
  let gas ← startGas x msg msg.gasLimit
  let result ← executeContract calls msg gas
  settle x msg msg.gasLimit msg.gasPrice result

section

variable {x : Execution} {calls : Calls} {msg : Message} {w : World}

lemma checks_apply :
    Checks (Purchases msg w) (apply x calls msg) w (applyDebited x calls msg (debited msg w)) := by
  refine .congr (.bind (checks_toLongExact _ _) fun _ => .bind (checks_toLongExact _ _) fun _ =>
    .bind checks_preCheck fun _ => checks_buyGas.last) ?_
  constructor
  · rintro ⟨hlimit, hprice, hsender, hcovered, hacc⟩
    exact ⟨hlimit, hprice, hsender, hcovered, hacc⟩
  · rintro ⟨hlimit, hprice, hsender, hcovered, hacc⟩
    exact ⟨hlimit, hprice, hsender, hcovered, hacc⟩

/-! ## The start of the contract -/

/-- The limit covers the intrinsic gas, the balance the amount. -/
def Starts (x : Execution) (msg : Message) (w : World) : Prop :=
  ∃ intrinsic, intrinsicGas x.cfg msg.data msg.receiver.isNone = .ok intrinsic ∧
    intrinsic ≤ msg.gasLimit ∧ (0 < msg.amount → msg.amount ≤ w.getBalance msg.sender)

variable {gas : Int}

lemma addDataGas_nonneg {cfg : ChainConfig} (hs : cfg.Sound) {realGas count : Int}
    {item : PriceItem} (h0 : 0 ≤ realGas) (h : addDataGas cfg realGas count item = .ok gas) :
    0 ≤ gas := by
  unfold addDataGas at h
  split at h
  · next hcount =>
    obtain ⟨price, hprice, h⟩ := Checked.bind_eq_ok.mp h
    obtain ⟨fee, hfee, h⟩ := Checked.bind_eq_ok.mp h
    obtain ⟨_, rfl⟩ := toLongExact_eq_ok.mp hfee
    obtain ⟨_, rfl⟩ := toLongExact_eq_ok.mp h
    have hp := (hs.lookForGasPrice hprice).1
    have := Int.mul_nonneg (Int.le_of_lt hcount) hp
    omega
  · obtain rfl := Except.ok.inj h
    exact h0

lemma intrinsicGas_nonneg {cfg : ChainConfig} (hs : cfg.Sound) {data : Bytes} {isCreate : Bool}
    (h : intrinsicGas cfg data isCreate = .ok gas) : 0 ≤ gas := by
  obtain ⟨price, hprice, h⟩ := Checked.bind_eq_ok.mp h
  obtain ⟨base, hbase, h⟩ := Checked.bind_eq_ok.mp h
  obtain ⟨withNonZero, hnonZero, hzero⟩ := Checked.bind_eq_ok.mp h
  have hp := (hs.lookForGasPrice hprice).1
  have hbase := (toLongExact_eq_ok.mp hbase).2
  exact addDataGas_nonneg hs (addDataGas_nonneg hs (by omega) hnonZero) hzero

lemma checks_startGas (hs : x.cfg.Sound) (hlimit : IsLong msg.gasLimit) {intrinsic : Int}
    (hint : intrinsicGas x.cfg msg.data msg.receiver.isNone = .ok intrinsic) :
    Checks (intrinsic ≤ msg.gasLimit ∧ (0 < msg.amount → msg.amount ≤ w.getBalance msg.sender))
      (startGas x msg msg.gasLimit) w (.ok (msg.gasLimit - intrinsic) w) := by
  have hnonneg := intrinsicGas_nonneg hs hint
  refine .congr (.bind (.of_eq (liftM_of_ok hint w)) fun _ => .ite_raise fun _ =>
    .bind (checks_toLongExact (msg.gasLimit - intrinsic) w) fun _ => .gets (.ite_raise fun _ =>
    .of_eq rfl)) ?_
  simp only [canTransfer, true_and, and_true, not_lt, not_and, Bool.not_eq_true',
    decide_eq_false_iff_not, not_not]
  constructor
  · rintro ⟨hle, -, hamount⟩
    exact ⟨hle, hamount⟩
  · rintro ⟨hle, hamount⟩
    exact ⟨hle, by omega, hamount⟩

lemma startGas_ok (hs : x.cfg.Sound) (hlimit : IsLong msg.gasLimit) (h : Starts x msg w) :
    ∃ gas, startGas x msg msg.gasLimit w = .ok gas w ∧ 0 ≤ gas ∧ gas ≤ msg.gasLimit ∧
      intrinsicGas x.cfg msg.data msg.receiver.isNone = .ok (msg.gasLimit - gas) := by
  obtain ⟨intrinsic, hint, hpasses⟩ := h
  have hnonneg := intrinsicGas_nonneg hs hint
  have hle := hpasses.1
  exact ⟨_, (checks_startGas hs hlimit hint).pass hpasses, by omega, by omega,
    by rw [sub_sub_cancel, hint]⟩

lemma startGas_err (hs : x.cfg.Sound) (hlimit : IsLong msg.gasLimit) (h : ¬ Starts x msg w) :
    ∃ e, startGas x msg msg.gasLimit w = .err e w := by
  cases hint : intrinsicGas x.cfg msg.data msg.receiver.isNone with
  | error e => exact ⟨e, bind_of_err (liftM_of_error hint w)⟩
  | ok intrinsic =>
    exact (checks_startGas hs hlimit hint).fail fun hpasses => h ⟨intrinsic, hint, hpasses⟩

lemma Starts.refusal {m : Machine} (h : Starts x msg w) (hdepth : w.depth ≤ m.cfg.callCreateDepth) :
    refusal m msg.sender msg.amount w = none := by
  obtain ⟨_, _, _, hamount⟩ := h
  refine refusal_eq_none.mpr ⟨hdepth, fun hne => hamount ?_⟩
  have := msg.amount_nonneg
  omega

/-- The rule for the run of the contract. It never throws; a run that throws counts as an
internal error without gas. -/
theorem wp_executeContract {Q : VmResult → World → Prop} {E : JavaException → World → Prop}
    (hcreate : msg.receiver = none →
      wp (calls.create ⟨.create, msg.caller, msg.data, gas, msg.amount, 0⟩) Q
        (fun _ w' => Q (.error .internalError 0 msg.receiver) w') w)
    (hcall : ∀ receiver, msg.receiver = some receiver → ∀ w1,
      (w.getAccount msg.sender = none ∧ w1 = w) ∨
      (∃ account, w.getAccount msg.sender = some account ∧
        w1 = w.putAccount msg.sender { account with
          nonce := wrap64 (wrap64 (w.getNonce msg.sender + 1)) }) →
      wp (calls.executeCall ⟨.call, msg.caller, receiver, msg.data, gas, msg.amount⟩) Q
        (fun _ w' => Q (.error .internalError 0 msg.receiver) w') w1) :
    wp (executeContract calls msg gas) Q E w := by
  unfold executeContract
  rw [wp_catching]
  cases hreceiver : msg.receiver with
  | none =>
    rw [hreceiver] at hcreate
    exact (hcreate rfl).mono (fun _ _ h => h) (fun _ _ h => .pure h)
  | some receiver =>
    rw [hreceiver] at hcall
    rw [wp_bind, wp_gets, wp_bind]
    refine wp_setNonce (fun hnone => ?_) fun account hacc => ?_
    · exact (hcall receiver rfl w (.inl ⟨hnone, rfl⟩)).mono (fun _ _ h => h) (fun _ _ h => .pure h)
    · exact (hcall receiver rfl _ (.inr ⟨account, hacc, rfl⟩)).mono (fun _ _ h => h)
        (fun _ _ h => .pure h)

end

/-! ## The settlement, exactly -/

section

variable (x : Execution) (msg : Message) (result : VmResult) (w : World)

def refundOf : Int := min ((msg.gasLimit - result.gas).tdiv x.cfg.maxRefundQuotient) w.refundGas

def gasLeft : Int := result.gas + refundOf x msg result w

def usedGas : Int := msg.gasLimit - gasLeft x msg result w

def feeOf : Int :=
  if !x.noBaseFee ∧ usedGas x msg result w * msg.gasPrice > 0 then
    usedGas x msg result w * msg.gasPrice
  else 0

/-- The message settles: no sum and no product leaves the range of a `long`, and the accounts to
be credited exist. -/
structure Settles : Prop where
  used : IsLong (msg.gasLimit - result.gas)
  left : IsLong (gasLeft x msg result w)
  sender : (w.getAccount msg.sender).isSome = true
  usedGas : IsLong (usedGas x msg result w)
  price : IsLong (gasLeft x msg result w * msg.gasPrice)
  coinbase : feeOf x msg result w ≠ 0 → (w.getAccount x.block.coinbase).isSome = true

def refunded : World := w.credit msg.sender (gasLeft x msg result w * msg.gasPrice)

def settled : World :=
  if feeOf x msg result w = 0 then refunded x msg result w
  else (refunded x msg result w).credit x.block.coinbase (feeOf x msg result w)

variable {x msg result w}

lemma getNonce_settled (a : Address) : (settled x msg result w).getNonce a = w.getNonce a := by
  unfold settled
  split
  · exact (getAccount_credit _ _ _).2
  · exact (getAccount_credit _ _ _).2.trans (getAccount_credit _ _ _).2

lemma divide_maxRefundQuotient (hs : x.cfg.Sound) (n : Int) :
    divide n x.cfg.maxRefundQuotient = .ok (n.tdiv x.cfg.maxRefundQuotient) :=
  divide_eq_ok.mpr ⟨hs.maxRefundQuotient_pos.ne', rfl⟩

lemma checks_refundGas (hs : x.cfg.Sound) :
    Checks (IsLong (msg.gasLimit - result.gas) ∧ IsLong (gasLeft x msg result w) ∧
        (w.getAccount msg.sender).isSome = true)
      (refundGas x.cfg msg msg.gasLimit msg.gasPrice result.gas) w
      (.ok (refundOf x msg result w, gasLeft x msg result w) (refunded x msg result w)) := by
  have hdiv := divide_maxRefundQuotient hs (msg.gasLimit - result.gas)
  refine .gets (.bind (checks_toLongExact _ _) fun _ => .congr (.bind (.of_eq (liftM_of_ok hdiv w))
    fun _ => .bind (checks_toLongExact (gasLeft x msg result w) w) fun _ =>
    (checks_addBalance _).last) ?_)
  rw [true_and]

lemma checks_payFee :
    Checks (IsLong (usedGas x msg result w) ∧ IsLong (gasLeft x msg result w * msg.gasPrice) ∧
        (feeOf x msg result w ≠ 0 → (w.getAccount x.block.coinbase).isSome = true))
      (payFee x msg.gasLimit msg.gasPrice result (refundOf x msg result w) (gasLeft x msg result w))
      (refunded x msg result w)
      (.ok ⟨result, msg.gasLimit, refundOf x msg result w, usedGas x msg result w,
        gasLeft x msg result w⟩ (settled x msg result w)) := by
  refine .bind (checks_toLongExact _ _) fun _ => .bind (checks_toLongExact _ _) fun _ => ?_
  unfold settled
  by_cases hpays : (!x.noBaseFee) = true ∧ usedGas x msg result w * msg.gasPrice > 0
  · have hfee : feeOf x msg result w = usedGas x msg result w * msg.gasPrice := if_pos hpays
    have hne : feeOf x msg result w ≠ 0 := by omega
    have hcoin := (getAccount_credit (a := msg.sender) (gasLeft x msg result w * msg.gasPrice) w
      x.block.coinbase).1
    dsimp only
    rw [if_neg hne, hfee, if_pos hpays]
    refine (checks_addBalance _).last.congr ?_
    rw [refunded, hcoin]
    exact (imp_iff_right (hfee ▸ hne)).symm
  · have hfee : feeOf x msg result w = 0 := if_neg hpays
    dsimp only
    rw [if_pos hfee, if_neg hpays]
    exact (Checks.of_eq rfl).congr (by simp [hfee])

lemma settle_ok (hs : x.cfg.Sound) (h : Settles x msg result w) :
    settle x msg msg.gasLimit msg.gasPrice result w
      = .ok ⟨result, msg.gasLimit, refundOf x msg result w, usedGas x msg result w,
          gasLeft x msg result w⟩ (settled x msg result w) :=
  ((checks_refundGas hs).last.pass ⟨h.used, h.left, h.sender⟩).trans
    (checks_payFee.pass ⟨h.usedGas, h.price, h.coinbase⟩)

lemma settle_err (hs : x.cfg.Sound) (h : ¬ Settles x msg result w) :
    ∃ e w', settle x msg msg.gasLimit msg.gasPrice result w = .err e w' ∧
      (w' = w ∨ w' = refunded x msg result w) := by
  by_cases hrefund : IsLong (msg.gasLimit - result.gas) ∧ IsLong (gasLeft x msg result w) ∧
      (w.getAccount msg.sender).isSome = true
  · obtain ⟨hused, hleft, hsender⟩ := hrefund
    obtain ⟨e, he⟩ := checks_payFee.fail fun ⟨husedGas, hprice, hcoin⟩ =>
      h ⟨hused, hleft, hsender, husedGas, hprice, hcoin⟩
    exact ⟨e, _, ((checks_refundGas hs).last.pass ⟨hused, hleft, hsender⟩).trans he, .inr rfl⟩
  · obtain ⟨e, he⟩ := (checks_refundGas hs).last.fail hrefund
    exact ⟨e, w, he, .inl rfl⟩

end

lemma apply_accepted {x : Execution} {calls : Calls} {w' : World} {r : MessageResult}
    (hs : x.cfg.Sound) (h : apply x calls msg w = .ok r w') :
    Purchases msg w ∧ Starts x msg (debited msg w) ∧ ∃ gas result w2, 0 ≤ gas ∧ gas ≤ msg.gasLimit ∧
      executeContract calls msg gas (debited msg w) = .ok result w2 ∧
      Settles x msg result w2 ∧ w' = settled x msg result w2 ∧
      r = ⟨result, msg.gasLimit, refundOf x msg result w2, usedGas x msg result w2, gasLeft x msg result w2⟩ ∧
      intrinsicGas x.cfg msg.data msg.receiver.isNone = .ok (msg.gasLimit - gas) := by
  by_cases hbuys : Purchases msg w
  · rw [checks_apply.pass hbuys] at h
    obtain ⟨gas, w1, hgas, h⟩ := bind_eq_ok.mp h
    obtain ⟨result, w2, hexec, hsettle⟩ := bind_eq_ok.mp h
    by_cases hstarts : Starts x msg (debited msg w)
    · obtain ⟨gas', hgas', hnonneg, hle, hint⟩ := startGas_ok hs hbuys.gasLimit hstarts
      obtain ⟨rfl, rfl⟩ := Outcome.ok.inj (hgas'.symm.trans hgas)
      by_cases hsettles : Settles x msg result w2
      · obtain ⟨rfl, rfl⟩ := Outcome.ok.inj ((settle_ok hs hsettles).symm.trans hsettle)
        exact ⟨hbuys, hstarts, gas', result, w2, hnonneg, hle, hexec, hsettles, rfl, rfl, hint⟩
      · obtain ⟨e, w3, herr, _⟩ := settle_err hs hsettles
        cases herr.symm.trans hsettle
    · obtain ⟨e, herr⟩ := startGas_err hs hbuys.gasLimit hstarts
      cases herr.symm.trans hgas
  · obtain ⟨e, herr⟩ := checks_apply.fail hbuys
    cases herr.symm.trans h

/-! ## Sample messages -/

def Execution.sample : Execution := ⟨configAt 1700000000, .sample, pinTxContext 1 1700000000 7, [], false⟩

def Message.sample (gasLimit : Nat) : Message where
  nonce := 0
  sender := 1
  receiver := some 500
  amount := 0
  gasLimit := gasLimit
  gasPrice := 1
  data := []
  fake := false
  nonce_nonneg := le_refl 0
  amount_nonneg := le_refl 0
  gasLimit_nonneg := Int.natCast_nonneg gasLimit
  gasPrice_nonneg := by decide

def Storage.sample (balance : Int) (code : Bytes) : Storage :=
  .holding [(1, .holding 1000000 []), (7, .holding 0 []), (500, .holding balance code), (600, .holding 7 [])]

end GrapeDag
