/-
WHAT THE GAS HANDLERS CHARGE.

A handler narrows its operands before it multiplies, so a fee can come out negative. It cannot
where `lengthsFit` holds: the word count (for `LOG`, the byte count) that the length operand is
narrowed to is not negative.
-/
import GrapeDag.Vm.Step

namespace GrapeDag

open Imperative GrapeDag.Frame Prog GasTable Checked

/-! ## Prices -/

/-- The counters of memory are not negative. -/
structure Frame.Counted (f : Frame) : Prop where
  words : 0 ≤ f.memoryWordCount
  cost : 0 ≤ f.highestMemCost

/-- At most `2^53`: adding a few such fees does not overflow. -/
abbrev SmallFee (fee : Int) : Prop := 0 ≤ fee ∧ fee ≤ 9007199254740992

lemma smallFee_zero : SmallFee 0 := ⟨le_refl 0, by decide⟩

def KeepsCounted (f f' : Frame) : Prop := f.Counted → f'.Counted

instance : Peekwise KeepsCounted where
  refl _ := id
  trans _ _ _ h h' := h' ∘ h
  world _ _ _ hf := ⟨hf.words, hf.cost⟩
  counters _ _ _ hwords hcost hf := ⟨hf.words.trans hwords.le, hf.cost.trans hcost⟩

lemma yields_after {α β : Type} {V : β → Prop} {p : Java Frame α} [h : Keeps KeepsCounted p]
    {k : α → Java Frame β} (hk : ∀ a, Yields Counted V (k a)) : Yields Counted V (p >>= k) :=
  ⟨fun _ hf => h.wp_bind (fun _ _ h' => h' hf) fun a f' h' => (hk a).wp f' (h' hf)⟩

/-- The fee is not negative. -/
abbrev Charges (p : Java Frame Int) : Prop := Yields Counted (fun fee => 0 ≤ fee) p

/-- From `f` on, the fee is not negative. -/
abbrev ChargesFrom (p : Java Frame Int) (f : Frame) : Prop :=
  wp p (fun fee f' => 0 ≤ fee ∧ f'.Counted) (fun _ f' => f'.Counted) f

section Handlers

variable {m : Machine} (hs : m.cfg.Sound)
include hs

variable {item : PriceItem} {fee cost length : Int} {f : Frame}

lemma price_range : ∀ p, price m item = .ok p → 0 ≤ p ∧ p ≤ 1000000 :=
  fun _ hp => hs.lookForGasPrice hp

lemma charges_price (item : PriceItem) : Charges (liftM (price m item)) :=
  .liftM fun p hp => (price_range hs p hp).1

omit hs in
lemma charges_addExact {x y : Int} (hx : 0 ≤ x) (hy : 0 ≤ y) : Charges (liftM (addExact x y)) := by
  refine .liftM fun z hz => ?_
  obtain ⟨_, rfl⟩ := toLongExact_eq_ok.mp hz
  omega

/-! ## Memory -/

omit hs in
lemma smallFee_memoryCost {n quad : Int} (hn : 0 ≤ n) (hmax : n ≤ 67108863)
    (hfee : 0 ≤ fee ∧ fee ≤ 1000000) (hquad : 0 ≤ quad) :
    SmallFee (multiplyFull n fee + (multiplyFull n n).tdiv quad) := by
  unfold multiplyFull SmallFee
  have hnn : 0 ≤ n * n := mul_nonneg hn hn
  have hle : n * n ≤ 67108863 * 67108863 := mul_le_mul hmax hmax hn (by decide)
  have hdiv := Int.tdiv_le_self quad hnn
  have hdiv0 := Int.tdiv_nonneg hnn hquad
  have hfn : 0 ≤ n * fee := mul_nonneg hn hfee.1
  have hfle : n * fee ≤ 67108863 * 1000000 := mul_le_mul hmax hfee.2 hfee.1 (by decide)
  omega

omit hs in
lemma memoryCost_range {n quad q : Int} (hn : 0 ≤ n) (hmax : n ≤ 67108863)
    (hfee : 0 ≤ fee ∧ fee ≤ 1000000) (hq : divide (multiplyFull n n) quad = .ok q)
    (hquad : 0 ≤ quad) (hc : addExact (multiplyFull n fee) q = .ok cost) : SmallFee cost := by
  obtain ⟨_, rfl⟩ := divide_eq_ok.mp hq
  obtain ⟨_, rfl⟩ := toLongExact_eq_ok.mp hc
  exact smallFee_memoryCost hn hmax hfee hquad

lemma yields_subMemUsage (offset length : Int) : Yields Counted SmallFee (subMemUsage m offset length) := by
  refine .ite (fun _ => .pure smallFee_zero) fun _ => ?_
  -- the new word count is that of an `int`
  refine .bind (V := fun n => n ≤ 67108863) (.liftM fun n hn => ?_) fun n hmax => ?_
  · obtain ⟨size, _, hn⟩ := bind_eq_ok.mp hn
    obtain rfl := Except.ok.inj hn
    exact toWordSize_le size
  refine .bind (V := fun c => 0 ≤ c) (.gets fun f hf => hf.words) fun c hc => ?_
  refine .ite (fun _ => .pure smallFee_zero) fun hgrow => ?_
  have hn : 0 ≤ n := by omega
  refine .bind (.liftM (price_range hs)) fun fee hfee => ?_
  refine .bind (.liftM (price_range hs)) fun quad hquad => ?_
  refine .bind (.liftM fun q hq => hq) fun q hq => ?_
  refine .bind (.liftM fun cost hcost => memoryCost_range hn hmax hfee hq hquad.1 hcost) fun cost hcost => ?_
  refine .bind (V := fun h => 0 ≤ h) (.gets fun f hf => hf.cost) fun high hhigh => ?_
  obtain ⟨hcost0, hcost1⟩ := hcost
  refine .bind (.modify fun f _ => ⟨hn, ?_⟩) fun _ _ => .pure ?_
  · show 0 ≤ if cost > high then cost else high
    split <;> omega
  · split
    · rw [wrap64_of_isLong (by omega)]
      omega
    · omega

lemma charges_subMemUsage (offset length : Int) : Charges (subMemUsage m offset length) :=
  (yields_subMemUsage hs offset length).mono fun _ h => h.1

lemma charges_getMemUsageFee (hlen : 0 ≤ toWordSize length) (offset : Int) :
    Charges (getMemUsageFee m offset length) := by
  refine .bind (charges_subMemUsage hs offset length) fun fee hfee => ?_
  refine .ite (fun _ => ?_) fun _ => .pure hfee
  refine .bind (charges_price hs .copy) fun copy hcopy => ?_
  exact charges_addExact hfee (mul_nonneg hcopy hlen)

lemma yields_checkStorageAccessFee (a : Address) (k : Word) :
    Yields Counted (fun fee => 0 ≤ fee ∧ fee ≤ 1000000) (checkStorageAccessFee m a k) := by
  refine yields_after fun w => ?_
  refine .ite (fun _ => .pure ⟨le_refl 0, by decide⟩) fun _ => ?_
  refine yields_after fun _ => ?_
  exact .liftM (price_range hs)

lemma charges_checkAddressAccessFee (a : Address) : Charges (checkAddressAccessFee m a) := by
  refine yields_after fun w => ?_
  refine .ite (fun _ => .pure (le_refl 0)) fun _ => ?_
  refine yields_after fun _ => ?_
  exact charges_price hs .coldaccountaccess

/-! ## Handlers that multiply a length -/

omit hs in
lemma wp_peek {num : Nat} {Q : List Word → Frame → Prop} {E : JavaException → Frame → Prop}
    (hE : ∀ e, E e f) (hQ : num ≤ f.stack.length → Q (f.stack.take num) f) : wp (peek num) Q E f := by
  unfold peek
  rw [wp_bind, wp_gets]
  refine .ite (fun _ => ?_) fun henough => .pure (hQ (not_lt.mp henough))
  rw [wp_bind, wp_raise]
  exact hE _

omit hs in
lemma charges_peek {num : Nat} {k : List Word → Java Frame Int} (hf : f.Counted)
    (hk : Charges (k (f.stack.take num))) : ChargesFrom (peek num >>= k) f :=
  wp_bind.mpr (wp_peek (fun _ => hf) fun _ => hk.wp f hf)

lemma charges_sha3 (hlen : 0 ≤ toWordSize length) (offset : Int) : Charges (do
      let sha3Word := multiplyFull (← price m .sha3Word) (toWordSize length)
      return wrap64 ((← subMemUsage m offset length) + sha3Word)) := by
  refine .bind (.liftM (price_range hs)) fun p hp => ?_
  refine .bind (yields_subMemUsage hs offset length) fun fee hfee => .pure ?_
  -- both summands are far below the range of a `long`
  have hmax := toWordSize_le length
  have hword : p * toWordSize length ≤ 1000000 * 67108863 := mul_le_mul hp.2 hmax hlen (by decide)
  have hword0 : 0 ≤ p * toWordSize length := mul_nonneg hp.1 hlen
  obtain ⟨hfee0, hfee1⟩ := hfee
  unfold multiplyFull
  rw [wrap64_of_isLong (by omega)]
  omega

lemma charges_log (hlen : 0 ≤ length) (offset : Int) {n : Nat} (hn : n ≤ 4) : Charges (do
      let logFee := wrap64 ((← price m .log) + multiplyFull (← price m .logTopic) n)
      let memSizeFee := multiplyFull (← price m .logData) length
      let memUsageFee ← subMemUsage m offset length
      addExact (← addExact logFee memSizeFee) memUsageFee) := by
  refine .bind (.liftM (price_range hs)) fun log hlog => ?_
  refine .bind (.liftM (price_range hs)) fun topic htopic => ?_
  refine .bind (charges_price hs .logData) fun byte hbyte => ?_
  refine .bind (charges_subMemUsage hs offset length) fun fee hfee => ?_
  have hlogFee : 0 ≤ wrap64 (log + multiplyFull topic n) := by
    have htopics : topic * n ≤ 1000000 * 4 := mul_le_mul htopic.2 (by omega) (by omega) (by decide)
    have htopics0 : 0 ≤ topic * n := mul_nonneg htopic.1 (by omega)
    unfold multiplyFull
    rw [wrap64_of_isLong (by omega)]
    omega
  refine .bind (charges_addExact hlogFee (mul_nonneg hbyte hlen)) fun sum hsum => ?_
  exact charges_addExact hsum hfee

/-! ## The other handlers -/

lemma charges_exp (params : List Word) : Charges (do
    let exponent := param params 1
    if exponent.isZero then return 0
    let byteLength : Int := exponent.byteLength
    if byteLength < 1 ∨ byteLength > 32 then .raise (.vm .argumentOutOfRange)
    multiplyExact byteLength (← price m .expByte)) := by
  have hmul : Charges (do
      let p ← (price m .expByte : Checked Int)
      (multiplyExact ((param params 1).byteLength : Int) p : Checked Int)) := by
    refine .bind (charges_price hs .expByte) fun p hp => .liftM fun fee hfee => ?_
    obtain ⟨_, rfl⟩ := toLongExact_eq_ok.mp hfee
    exact mul_nonneg (Int.natCast_nonneg _) hp
  refine .ite (fun _ => .pure (le_refl 0)) fun _ => ?_
  exact .ite (fun _ => .bind (.raise _) fun _ (_ : True) => hmul) fun _ => hmul

lemma charges_addressAccess : Charges (makeAddressAccessHandler m) := by
  refine .ite (fun _ => ?_) fun _ => .pure (le_refl 0)
  refine ⟨fun f hf => charges_peek hf ?_⟩
  exact charges_checkAddressAccessFee hs _

lemma charges_sload : Charges (sload m) := by
  refine .ite (fun _ => ?_) fun _ => .pure (le_refl 0)
  refine ⟨fun f hf => charges_peek hf ?_⟩
  refine yields_after fun address => ?_
  refine yields_after fun w => ?_
  refine .ite (fun _ => charges_price hs .warmstorageread) fun _ => ?_
  refine yields_after fun _ => ?_
  exact charges_price hs .coldsload

lemma addFeeIf_range {condition : Bool} {total : Int}
    (h : addFeeIf m condition fee item = .ok total) :
    fee ≤ total ∧ (condition = true → ∃ p, price m item = .ok p ∧ total = fee + p) := by
  cases condition with
  | false =>
    obtain rfl : fee = total := Except.ok.inj h
    exact ⟨le_refl _, nofun⟩
  | true =>
    obtain ⟨p, hp, h⟩ := bind_eq_ok.mp h
    obtain ⟨_, rfl⟩ := toLongExact_eq_ok.mp h
    have := (price_range hs p hp).1
    exact ⟨by omega, fun _ => ⟨p, hp, rfl⟩⟩

lemma charges_selfDestruct : Charges (makeSelfDestructHandler m) := by
  refine ⟨fun f hf => charges_peek hf ?_⟩
  refine yields_after fun g => ?_
  refine .bind (charges_checkAddressAccessFee hs _) fun fee hfee => ?_
  refine .bind (V := fun total => 0 ≤ total) (.liftM fun total h => ?_) fun total htotal => ?_
  · exact le_trans hfee (addFeeIf_range hs h).1
  refine yields_after fun refund => ?_
  refine yields_after fun _ => ?_
  exact .pure htotal

lemma charges_create (offset : Int) (hlen : m.cfg.isFeatureEnabled .initCodeWordCost = true →
      ∀ n, toWordSizeLong length = .ok n → 0 ≤ n) :
    Charges (do
      let fee ← (initCodeFee m length : Checked Int)
      (addExact fee (← subMemUsage m offset length) : Checked Int)) := by
  refine .bind (V := fun fee => 0 ≤ fee) (.liftM fun fee h => ?_) fun fee hfee => ?_
  · unfold initCodeFee at h
    split at h
    · next hon =>
      obtain ⟨p, hp, h⟩ := bind_eq_ok.mp h
      obtain ⟨n, hn, h⟩ := bind_eq_ok.mp h
      obtain rfl := Except.ok.inj h
      exact mul_nonneg (price_range hs p hp).1 (hlen hon n hn)
    · obtain rfl : 0 = fee := Except.ok.inj h
      exact le_refl 0
  refine .bind (charges_subMemUsage hs offset length) fun mem hmem => ?_
  exact charges_addExact hfee hmem

lemma create2WordFee_nonneg (h : create2WordFee m = .ok fee) : 0 ≤ fee := by
  obtain ⟨word, hw, h⟩ := bind_eq_ok.mp h
  have hw' := price_range hs word hw
  split at h
  · obtain ⟨init, hi, h⟩ := bind_eq_ok.mp h
    have hi' := price_range hs init hi
    obtain rfl := Except.ok.inj h
    rw [wrap32_of_isInt (by omega)]
    omega
  · obtain rfl : word = fee := Except.ok.inj h
    exact hw'.1

/-- Every branch of the handlers of `SSTORE` charges at least `low`. -/
structure SStoreCosts (m : Machine) (low : Int) : Prop where
  set : ∀ p, price m .sstoreSet = .ok p → low ≤ p
  reset : ∀ p, price m .sstoreReset = .ok p → low ≤ p
  read : ∀ p, price m .warmstorageread = .ok p → low ≤ p
  init : ∀ p, price m .sstoreInitGasEIP2200 = .ok p → low ≤ p
  /-- the two prices whose DIFFERENCE is charged for changing a slot -/
  clean : ∀ clean cold, price m .sstoreCleanGasEIP2200 = .ok clean →
    price m .coldsload = .ok cold → low + cold ≤ clean

omit hs in
lemma price_eq_ok {p : Int} : price m item = .ok p ↔ m.cfg.gasPriceMap item = some p := by
  unfold price ChainConfig.lookForGasPrice
  cases m.cfg.gasPriceMap item with
  | none => exact ⟨nofun, nofun⟩
  | some q =>
    exact ⟨fun h => congrArg some (Except.ok.inj h), fun h => congrArg Except.ok (Option.some.inj h)⟩

lemma sstoreCosts_zero : SStoreCosts m 0 where
  set p hp := (price_range hs p hp).1
  reset p hp := (price_range hs p hp).1
  read p hp := (price_range hs p hp).1
  init p hp := (price_range hs p hp).1
  clean clean cold hclean hcold := by
    have := hs.coldsload_le cold clean (price_eq_ok.mp hcold) (price_eq_ok.mp hclean)
    omega

variable {low : Int} (hlow : SStoreCosts m low)
include hlow

omit hs in
lemma charges_sstoreBase : Yields Counted (fun fee => low ≤ fee) (makeSStoreHandlerBase m) := by
  refine yields_after fun address => ?_
  refine ⟨fun f hf => wp_bind.mpr (wp_peek (fun _ => hf) fun _ => Yields.wp ?_ f hf)⟩
  refine yields_after fun current => ?_
  refine .ite (fun _ => .liftM hlow.set) fun _ => .ite (fun _ => ?_) fun _ => .liftM hlow.reset
  refine yields_after fun refund => ?_
  refine yields_after fun _ => ?_
  exact .liftM hlow.reset

lemma charges_cleanSlot (hcost : 0 ≤ cost ∧ cost ≤ 1000000) :
    Yields Counted (fun fee => low ≤ fee) (do
      let clean ← (price m .sstoreCleanGasEIP2200 : Checked Int)
      let cold ← (price m .coldsload : Checked Int)
      return wrap64 (cost + wrap32 (clean - cold)) : Java Frame Int) := by
  refine .bind (.liftM fun clean h => h) fun clean hclean => ?_
  refine .bind (.liftM fun cold h => h) fun cold hcold => .pure ?_
  have h1 := price_range hs clean hclean
  have h2 := price_range hs cold hcold
  have hle := hlow.clean clean cold hclean hcold
  rw [wrap32_of_isInt (by omega), wrap64_of_isLong (by omega)]
  omega

omit hlow in
lemma charges_withPrice (hcost : 0 ≤ cost ∧ cost ≤ 1000000)
    (hitem : ∀ p, price m item = .ok p → low ≤ p) :
    Yields Counted (fun fee => low ≤ fee) (do
      let p ← (price m item : Checked Int)
      return wrap64 (cost + p) : Java Frame Int) := by
  refine .bind (.liftM fun p h => h) fun p hp => .pure ?_
  have h1 := price_range hs p hp
  have h2 := hitem p hp
  rw [wrap64_of_isLong (by omega)]
  omega

lemma charges_sstoreWarmed : Yields Counted (fun fee => low ≤ fee) (makeSStoreHandlerWarmed m) := by
  refine yields_after fun address => ?_
  refine ⟨fun f hf => wp_bind.mpr (wp_peek (fun _ => hf) fun _ => Yields.wp ?_ f hf)⟩
  refine yields_after fun current => ?_
  refine yields_after fun sentry => ?_
  refine yields_after fun gas => ?_
  refine .ite (fun _ => .raise _) fun _ => ?_
  refine .bind (yields_checkStorageAccessFee hs _ _) fun cost hcost => ?_
  refine .ite (fun _ => charges_withPrice hs hcost hlow.read) fun _ => ?_
  refine yields_after fun original => ?_
  refine yields_after fun refund => ?_
  refine .ite (fun _ => .ite (fun _ => ?_) fun _ => ?_) fun _ => ?_
  · exact charges_withPrice hs hcost hlow.init
  · exact yields_after fun _ => charges_cleanSlot hs hlow hcost
  · exact yields_after fun _ => yields_after fun _ => charges_withPrice hs hcost hlow.read

lemma charges_sstore {handler : Java Frame Int} (h : gasHandler m .sstore = some handler) :
    Yields Counted (fun fee => low ≤ fee) handler := by
  simp only [gasHandler] at h
  split at h <;> cases h
  · exact charges_sstoreWarmed hs hlow
  · exact charges_sstoreBase hlow

omit hlow

/-! ## Calls -/

lemma charges_coldCallFee (a : Address) : Charges (coldCallFee m a) := by
  refine .ite (fun _ => ?_) fun _ => .pure (le_refl 0)
  refine .bind (charges_checkAddressAccessFee hs a) fun cost hcost => ?_
  refine yields_after fun gas => ?_
  exact .ite (fun _ => .bind (.raise _) fun _ (_ : True) => .pure hcost) fun _ => .pure hcost

lemma wp_callMemory {a : Address} {inOffset inSize retOffset retSize : Int}
    {k : Int → Java Frame Int} {Q : Int → Frame → Prop} (hf : f.Counted)
    (hk : ∀ fee f1, 0 ≤ fee → f1.Counted → wp (k fee) Q (fun _ f' => f'.Counted) f1) :
    wp (do
      let fee ← coldCallFee m a
      let fee ← addExact fee (← subMemUsage m inOffset inSize)
      let fee ← addExact fee (← subMemUsage m retOffset retSize)
      k fee) Q (fun _ f' => f'.Counted) f := by
  have hE : ∀ (e : JavaException) (f' : Frame), f'.Counted → f'.Counted := fun _ _ h => h
  refine (charges_coldCallFee hs a).wp_bind hf hE fun cold f1 hcold h1 => ?_
  refine (charges_subMemUsage hs _ _).wp_bind h1 hE fun mem1 f2 hmem1 h2 => ?_
  refine Yields.wp_bind (charges_addExact hcold hmem1) h2 hE fun fee1 f3 hfee1 h3 => ?_
  refine (charges_subMemUsage hs _ _).wp_bind h3 hE fun mem2 f4 hmem2 h4 => ?_
  exact Yields.wp_bind (charges_addExact hfee1 hmem2) h4 hE fun fee2 f5 hfee2 h5 => hk fee2 f5 hfee2 h5

end Handlers

/-- The operand at position `i`, the top of the stack first. -/
def Frame.operand (f : Frame) (i : Nat) : Word := f.stack.getD i 0

variable {f : Frame} {m : Machine}

lemma param_take {n i : Nat} (hi : i < n) :
    param (f.stack.take n) i = f.operand i := param_take_getD f.stack hi

/-- What the gas handler of a call instruction of frame `f` leaves behind: the gas the call may take
along, and a fee that covers the stipend of a call with value. -/
structure CallPaid (m : Machine) (kind : CallKind) (f : Frame) (fee : Int) (f' : Frame) : Prop where
  nonneg : 0 ≤ fee
  counted : f'.Counted
  callGas : 0 ≤ f'.world.callGas
  stipend : kind = .call → (f.operand 2).isNonZero = true → m.callStipend ≤ fee

lemma callStipend_le (hs : m.cfg.Sound) {p : Int} (hp : price m .callValueTransfer = .ok p) :
    m.callStipend ≤ p := by
  have hp' := (price_range hs p hp).1
  unfold Machine.callStipend
  cases hst : m.cfg.gasPriceMap .callStipend with
  | none => exact hp'
  | some q => exact hs.stipend_le q p hst (price_eq_ok.mp hp)

lemma wp_setCallGas {fee : Int} {f1 : Frame} {word : Word} {Q : Int → Frame → Prop}
    {E : JavaException → Frame → Prop} (hf : f1.Counted)
    (h : ∀ f', f'.Counted → 0 ≤ f'.world.callGas → Q fee f') :
    wp (do
      let cap := limitCallGas (← Prog.gets (·.contract.gas)) fee word
      onWorld (World.setCallGas cap)
      return fee) Q E f1 := by
  unfold World.setCallGas
  rw [wp_bind, wp_gets, wp_bind, wp_onWorld, wp_modify, wp_pure]
  refine h _ ⟨hf.words, hf.cost⟩ ?_
  show 0 ≤ if limitCallGas f1.contract.gas fee word < 0 then 0
    else limitCallGas f1.contract.gas fee word
  split <;> omega

lemma wp_makeCallHandler (hs : m.cfg.Sound) (kind : CallKind) (hf : f.Counted) :
    wp (makeCallHandler m kind) (fun fee f' => CallPaid m kind f fee f') (fun _ f' => f'.Counted) f := by
  unfold makeCallHandler
  rw [wp_bind]
  refine wp_peek (fun _ => hf) fun _ => wp_callMemory hs hf fun fee f1 hfee hf1 => ?_
  rw [wp_bind, wp_gets, wp_bind, wp_liftM]
  refine ⟨fun fee1 h1 => ?_, fun _ _ => hf1⟩
  rw [wp_bind, wp_liftM]
  refine ⟨fun fee2 h2 => ?_, fun _ _ => hf1⟩
  obtain ⟨hle1, _⟩ := addFeeIf_range hs h1
  obtain ⟨hle2, hvalue⟩ := addFeeIf_range hs h2
  refine wp_setCallGas hf1 fun f' hf' hcap => ⟨by omega, hf', hcap, fun _ hnz => ?_⟩
  rw [param_take (by decide)] at hvalue
  obtain ⟨p, hp, rfl⟩ := hvalue hnz
  have := callStipend_le hs hp
  omega

lemma wp_makeStaticOrDelegateCallHandler (hs : m.cfg.Sound) {kind : CallKind}
    (hkind : kind ≠ .call) (hf : f.Counted) :
    wp (makeStaticOrDelegateCallHandler m) (fun fee f' => CallPaid m kind f fee f')
      (fun _ f' => f'.Counted) f := by
  unfold makeStaticOrDelegateCallHandler
  rw [wp_bind]
  refine wp_peek (fun _ => hf) fun _ => wp_callMemory hs hf fun fee f1 hfee hf1 => ?_
  exact wp_setCallGas hf1 fun f' hf' hcap => ⟨hfee, hf', hcap, fun h => absurd h hkind⟩

lemma wp_callHandler (hs : m.cfg.Sound) {kind : CallKind} {handler : Java Frame Int}
    (h : gasHandler m (.call kind) = some handler) (hf : f.Counted) :
    wp handler (fun fee f' => CallPaid m kind f fee f') (fun _ f' => f'.Counted) f := by
  cases kind with
  | call | callCode => cases h; exact wp_makeCallHandler hs _ hf
  | delegateCall | staticCall => cases h; exact wp_makeStaticOrDelegateCallHandler hs (by decide) hf

/-! ## Every handler -/

/-- THE CONDITION. The length operand of an instruction that pays by the word (or, for `LOG`,
by the byte) is narrowed to a count that is not negative. -/
def lengthsFit (m : Machine) (op : Op) (f : Frame) : Bool :=
  match op with
  | .sha3 => 0 ≤ toWordSize (f.operand 1).intValue
  | .callDataCopy | .codeCopy => 0 ≤ toWordSize (f.operand 2).intValue
  | .extCodeCopy | .returnDataCopy => 0 ≤ toWordSize (f.operand 3).intValue
  | .log _ => 0 ≤ (f.operand 1).intValue
  | .create .create =>
      !m.cfg.isFeatureEnabled .initCodeWordCost ||
        match toWordSizeLong (f.operand 2).longValue with
        | .ok words => 0 ≤ words
        | .error _ => true
  | .create .create2 =>
      match Word.intValueExact (f.operand 2) with
      | .ok length => 0 ≤ toWordSize length
      | .error _ => true
  | _ => true

lemma lengthsFit_congr {op : Op} {f' : Frame} (h : f'.stack = f.stack) :
    lengthsFit m op f' = lengthsFit m op f := by
  unfold lengthsFit Frame.operand
  rw [h]

section Fees

variable {m : Machine} (hs : m.cfg.Sound) {f : Frame} (hf : f.Counted)
include hs hf

lemma charges_makeMemCopyHandler {n i j : Nat} (hj : j < n)
    (hfit : 0 ≤ toWordSize (f.operand j).intValue) : ChargesFrom (makeMemCopyHandler m n i j) f := by
  refine charges_peek hf ?_
  rw [param_take hj]
  exact charges_getMemUsageFee hs hfit _

lemma charges_extCodeCopy (hfit : 0 ≤ toWordSize (f.operand 3).intValue) :
    ChargesFrom (extCodeCopy m) f := by
  refine charges_peek hf ?_
  rw [param_take (i := 3) (by decide)]
  refine .bind (charges_getMemUsageFee hs hfit _) fun fee hfee => ?_
  refine .ite (fun _ => ?_) fun _ => .pure hfee
  refine .bind (charges_checkAddressAccessFee hs _) fun access haccess => ?_
  exact charges_addExact hfee haccess

lemma charges_create2 (hfit : lengthsFit m (.create .create2) f = true) :
    ChargesFrom (create2 m) f := by
  refine charges_peek hf ?_
  rw [param_take (by decide), param_take (by decide)]
  refine yields_after fun offset => ?_
  refine .bind (.liftM fun length h => h) fun length hlength => ?_
  have hwords : 0 ≤ toWordSize length := by
    simpa only [lengthsFit, hlength, decide_eq_true_eq] using hfit
  refine .bind (.liftM fun fee h => create2WordFee_nonneg hs h) fun fee hfee => ?_
  refine .bind (charges_subMemUsage hs offset length) fun mem hmem => ?_
  exact charges_addExact (mul_nonneg hfee hwords) hmem

lemma charges_gasHandler {op : Op} {handler : Java Frame Int}
    (h : gasHandler m op = some handler) (hlog : ∀ n, op = .log n → n ≤ 4)
    (hfit : lengthsFit m op f = true) : ChargesFrom handler f := by
  cases op <;> simp only [gasHandler, Option.some.injEq, reduceCtorEq] at h
  case exp => exact h ▸ charges_peek hf (charges_exp hs _)
  case sha3 =>
    refine h ▸ charges_peek hf ?_
    rw [param_take (by decide), param_take (by decide)]
    simp only [lengthsFit, decide_eq_true_eq] at hfit
    exact charges_sha3 hs hfit _
  case balance => exact h ▸ (charges_addressAccess hs).wp f hf
  case callDataCopy | codeCopy =>
    simp only [lengthsFit, decide_eq_true_eq] at hfit
    exact h ▸ charges_makeMemCopyHandler hs hf (by decide) hfit
  case extCodeSize => exact h ▸ (charges_addressAccess hs).wp f hf
  case extCodeCopy =>
    simp only [lengthsFit, decide_eq_true_eq] at hfit
    exact h ▸ charges_extCodeCopy hs hf hfit
  case returnDataCopy =>
    simp only [lengthsFit, decide_eq_true_eq] at hfit
    exact h ▸ charges_makeMemCopyHandler hs hf (by decide) hfit
  case extCodeHash => exact h ▸ (charges_addressAccess hs).wp f hf
  case mload | mstore | mstore8 => exact h ▸ charges_peek hf (charges_subMemUsage hs _ _)
  case sload => exact h ▸ (charges_sload hs).wp f hf
  case sstore => exact (charges_sstore hs (sstoreCosts_zero hs) h).wp f hf
  case log n =>
    refine h ▸ charges_peek hf ?_
    rw [param_take (by decide), param_take (by decide)]
    simp only [lengthsFit, decide_eq_true_eq] at hfit
    exact charges_log hs hfit _ (hlog n rfl)
  case create kind =>
    cases kind with
    | create2 => cases h; exact charges_create2 hs hf hfit
    | create =>
      cases h
      refine charges_peek hf ?_
      rw [param_take (by decide), param_take (by decide)]
      refine charges_create hs _ fun hon n hn => ?_
      simpa only [lengthsFit, hon, hn, Bool.not_true, Bool.false_or, decide_eq_true_eq] using hfit
  case call kind =>
    exact (wp_callHandler hs h hf).post (fun _ _ hp => ⟨hp.nonneg, hp.counted⟩)
  case return_ | revert => exact h ▸ charges_peek hf (charges_subMemUsage hs _ _)
  case selfDestruct =>
    split at h <;> cases h
    exact (charges_selfDestruct hs).wp f hf

end Fees

/-! ## What an instruction costs at least -/

def Op.isHalting : Op → Bool
  | .stop | .return_ | .revert | .selfDestruct => true
  | _ => false

def Op.ticks (op : Op) : Nat := if op.isHalting then 0 else 1

/-- The price condition. Every instruction that is not halting costs at least one unit of gas
in total; all but `SSTORE` by their static fee. -/
structure Machine.Priced (m : Machine) : Prop where
  sound : m.cfg.Sound
  static : ∀ op : Op, op ≠ .sstore → (op.ticks : Int) ≤ m.cfg.staticFee op
  sstore : SStoreCosts m 1

lemma ticks_le_static {prices : PriceItem → Option Int}
    (h : prices = fuelOptimizationPrice ∨ prices = basePrice) (op : Op) (hop : op ≠ .sstore) :
    (op.ticks : Int) ≤ ((prices op.priceItem).orElse fun _ => prices .base).getD 0 := by
  rcases h with rfl | rfl <;> cases op with
  | sstore => exact absurd rfl hop
  | create kind | call kind => cases kind <;> decide
  | push n | dup n | swap n => exact (by decide : (1 : Int) ≤ 3)
  | log n => exact (by decide : (1 : Int) ≤ 375)
  | _ => decide

lemma priced_of_configAt {timestamp : Int} (h : m.cfg = configAt timestamp) : m.Priced := by
  have hsound : m.cfg.Sound := h ▸ configAt_sound timestamp
  unfold configAt at h
  split at h
  · refine ⟨hsound, fun op hop => ?_, ⟨?_, ?_, ?_, ?_, ?_⟩⟩
    · rw [h]; exact ticks_le_static (.inl rfl) op hop
    all_goals simp only [price_eq_ok, h]
    · intro p hp; obtain rfl : 20000 = p := Option.some.inj hp; decide
    · intro p hp; obtain rfl : 5000 = p := Option.some.inj hp; decide
    · intro p hp; obtain rfl : 100 = p := Option.some.inj hp; decide
    · intro p hp; obtain rfl : 20000 = p := Option.some.inj hp; decide
    · intro clean cold hclean hcold
      obtain rfl : 5000 = clean := Option.some.inj hclean
      obtain rfl : 2100 = cold := Option.some.inj hcold
      decide
  · refine ⟨hsound, fun op hop => ?_, ⟨?_, ?_, ?_, ?_, ?_⟩⟩
    · rw [h]; exact ticks_le_static (.inr rfl) op hop
    all_goals simp only [price_eq_ok, h]
    · intro p hp; obtain rfl : 20000 = p := Option.some.inj hp; decide
    · intro p hp; obtain rfl : 5000 = p := Option.some.inj hp; decide
    · intro p hp; cases hp
    · intro p hp; cases hp
    · intro clean cold hclean; cases hclean

end GrapeDag
