/-
THE PRICE OF A STORE.

`makeSStoreHandlerWarmed` follows the table of EIP-2200 and EIP-2929. Three of its inputs are
not what it takes them for: the committed value it is answered with is the CURRENT one, the new
value always has 32 bytes, and an absent slot has 32 ZERO bytes, not none.

Main result: `storage_gas_iff`.
-/
import GrapeDag.Vm.CallDepth
import GrapeDag.Vm.CallResults

namespace GrapeDag

open Imperative GrapeDag.Frame Prog GasTable

/-! ## The table -/

lemma Word.bytes_inj {v w : Word} : v.bytes = w.bytes ↔ v = w := by
  refine ⟨fun h => BitVec.eq_of_toNat_eq ?_, congrArg Word.bytes⟩
  have hvalue := congrArg bytesToNat h
  unfold Word.bytes at hvalue
  rw [bytesToNat_natToBytes, bytesToNat_natToBytes] at hvalue
  omega

/-- A configuration with warm access, and its prices for storage. -/
structure StoragePrices (cfg : ChainConfig) where
  warmedAccess : cfg.isFeatureEnabled .warmedAccess = true
  read : Int
  cold : Int
  init : Int
  clean : Int
  clear : Int
  sentry : Int
  read_eq : cfg.gasPriceMap .warmstorageread = some read
  cold_eq : cfg.gasPriceMap .coldsload = some cold
  init_eq : cfg.gasPriceMap .sstoreInitGasEIP2200 = some init
  clean_eq : cfg.gasPriceMap .sstoreCleanGasEIP2200 = some clean
  clear_eq : cfg.gasPriceMap .sstoreClearRefundEIP2200 = some clear
  sentry_eq : cfg.gasPriceMap .sstoreSentryGasEIP2200 = some sentry
  /-- a store has no other price -/
  static : cfg.staticFee .sstore = 0
  range : (0 ≤ read ∧ read ≤ 1000000) ∧ (0 ≤ cold ∧ cold ≤ 1000000) ∧ (0 ≤ init ∧ init ≤ 1000000)
    ∧ (0 ≤ clean ∧ clean ≤ 1000000)
  /-- reading, changing and creating a slot cost differently, and deleting one is refunded -/
  change : read < clean - cold
  create : clean - cold < init
  delete : clear ≠ 0

namespace StoragePrices

variable {cfg : ChainConfig} (p : StoragePrices cfg)

/-- What a store costs on top of the access, from the committed, current and new value. -/
def charge (original current new : Word) : Int :=
  if current = new then p.read
  else if original = current then
    if original = 0 then p.init else p.clean - p.cold
  else p.read

def refund (original current new : Word) : Int :=
  if current = new then 0
  else if original = current then
    if original ≠ 0 ∧ new = 0 then p.clear else 0
  else
    (if original = 0 then 0 else if current = 0 then -p.clear else if new = 0 then p.clear else 0)
      + (if original = new then
          if original = 0 then p.init - p.read else p.clean - p.cold - p.read
        else 0)

def charged (stored : Bytes) (new : Word) : Int :=
  if stored = new.bytes then p.read
  else if stored.length = 0 then p.init
  else p.clean - p.cold

lemma charged_bytes (current new : Word) :
    p.charged current.bytes new = if current = new then p.read else p.clean - p.cold := by
  exact if_congr Word.bytes_inj rfl rfl

lemma charged_nil (new : Word) : p.charged [] new = p.init := by
  have hsome : [] ≠ new.bytes := by
    intro h
    have hlength := Word.length_bytes new
    rw [← h] at hlength
    cases hlength
  unfold charged
  rw [if_neg hsome, if_pos List.length_nil]

end StoragePrices

def StoragePrices.shipped {cfg : ChainConfig} (hmap : cfg.gasPriceMap = fuelOptimizationPrice)
    (hwarm : cfg.isFeatureEnabled .warmedAccess = true) : StoragePrices cfg where
  warmedAccess := hwarm
  read := 100
  cold := 2100
  init := 20000
  clean := 5000
  clear := 15000
  sentry := 2300
  read_eq := by rw [hmap]; rfl
  cold_eq := by rw [hmap]; rfl
  init_eq := by rw [hmap]; rfl
  clean_eq := by rw [hmap]; rfl
  clear_eq := by rw [hmap]; rfl
  sentry_eq := by rw [hmap]; rfl
  static := by
    unfold ChainConfig.staticFee
    rw [hmap]
    rfl
  range := by decide
  change := by decide
  create := by decide
  delete := by decide

/-! ## The handler -/

section Handler

variable {m : Machine} (p : StoragePrices m.cfg) (f : Frame) (key : Word)

def accessPrice : Int :=
  if World.isWarmedSlot m.crypto f.world f.contract.self key then 0 else p.cold

def Frame.accessed (m : Machine) (f : Frame) (key : Word) : Frame :=
  if World.isWarmedSlot m.crypto f.world f.contract.self key then f
  else { f with world := { f.world with
    warmedSlots := World.slotHash m.crypto f.contract.self key :: f.world.warmedSlots } }

lemma accessPrice_range : 0 ≤ accessPrice p f key ∧ accessPrice p f key ≤ 1000000 := by
  have hcold := p.range.2.1
  unfold accessPrice
  split <;> omega

lemma accessed_eq : (f.accessed m key).contract = f.contract ∧ (f.accessed m key).stack = f.stack
      ∧ (f.accessed m key).world.storage = f.world.storage
      ∧ (f.accessed m key).world.refundGas = f.world.refundGas
      ∧ (f.accessed m key).world.readOnly = f.world.readOnly := by
  unfold Frame.accessed
  split <;> exact ⟨rfl, rfl, rfl, rfl, rfl⟩

lemma checkStorageAccessFee_apply :
    checkStorageAccessFee m f.contract.self key f = .ok (accessPrice p f key) (f.accessed m key) := by
  unfold checkStorageAccessFee accessPrice Frame.accessed
  rw [gets_bind]
  split
  · rfl
  · have hcold : price m .coldsload = .ok p.cold := price_eq_ok.mpr p.cold_eq
    exact liftM_of_ok hcold _

variable {f key} {n : Word} {rest : List Word} (hs : f.stack = key :: n :: rest)
include hs

/-- What the handler charges. The committed value it asks for is the current one, so that only
three of its branches are taken, and none of them changes the counter. -/
theorem handler_apply (hgas : p.sentry ≤ f.contract.gas) : makeSStoreHandlerWarmed m f
      = .ok (accessPrice p f key
          + p.charged (f.world.getContractStorage f.contract.self key) n) (f.accessed m key) := by
  have hpeek : peek 2 f = .ok [key, n] f := by
    rw [peek_apply (by rw [hs]; exact Nat.le_add_left 2 _), hs]
    rfl
  have hprice : ∀ {item : PriceItem} {q : Int}, m.cfg.gasPriceMap item = some q →
      ∀ g : Frame, (liftM (price m item) : Java Frame Int) g = .ok q g :=
    fun hq g => liftM_of_ok (price_eq_ok.mpr hq) g
  have hstored : (f.accessed m key).world.getContractStorage f.contract.self key
      = f.world.getContractStorage f.contract.self key := by
    unfold World.getContractStorage
    rw [(accessed_eq f key).2.2.1]
  have hlong : ∀ q : Int, 0 ≤ q ∧ q ≤ 1000000 →
      wrap64 (accessPrice p f key + q) = accessPrice p f key + q := by
    intro q hq
    have haccess := accessPrice_range p f key
    exact wrap64_of_isLong (by omega)
  obtain ⟨hread, hcold, hinit, hclean⟩ := p.range
  have hchange := p.change
  have hkey : param [key, n] 0 = key := rfl
  have hvalue : param [key, n] 1 = n := rfl
  unfold makeSStoreHandlerWarmed StoragePrices.charged
  rw [gets_bind, bind_of_ok hpeek, hkey, hvalue, gets_bind,
    bind_of_ok (hprice p.sentry_eq f), gets_bind, if_neg (by omega),
    bind_of_ok (checkStorageAccessFee_apply p f key)]
  by_cases hsame : f.world.getContractStorage f.contract.self key = n.bytes
  · rw [if_pos hsame, if_pos hsame, bind_of_ok (hprice p.read_eq _), hlong _ hread]
    rfl
  -- from here on the value that is taken for the committed one is compared with itself
  rw [if_neg hsame, if_neg hsame, gets_bind, hstored, bind_of_ok (hprice p.clear_eq _), if_pos rfl]
  by_cases hempty : (f.world.getContractStorage f.contract.self key).length = 0
  · rw [if_pos hempty, if_pos hempty, bind_of_ok (hprice p.init_eq _), hlong _ hinit]
    rfl
  have hdelete : refundDelete n.bytes p.clear (f.accessed m key) = .ok () (f.accessed m key) := by
    rfl
  rw [if_neg hempty, if_neg hempty, bind_of_ok hdelete, bind_of_ok (hprice p.clean_eq _),
    bind_of_ok (hprice p.cold_eq _), wrap32_of_isInt (by omega),
    hlong _ (by omega)]
  rfl

lemma handler_sentry (hgas : f.contract.gas < p.sentry) :
    makeSStoreHandlerWarmed m f = .err (.vm .outOfGas) f := by
  have hpeek : peek 2 f = .ok [key, n] f := by
    rw [peek_apply (by rw [hs]; exact Nat.le_add_left 2 _), hs]
    rfl
  unfold makeSStoreHandlerWarmed
  rw [gets_bind, bind_of_ok hpeek, gets_bind,
    liftM_bind (price_eq_ok.mpr p.sentry_eq), gets_bind,
    if_pos hgas]
  rfl

def storePrice (p : StoragePrices m.cfg) (f : Frame) (key n : Word) : Int :=
  accessPrice p f key + p.charged (f.world.getContractStorage f.contract.self key) n

omit hs in
lemma storePrice_range : 0 ≤ storePrice p f key n ∧ storePrice p f key n ≤ 2000000 := by
  have haccess := accessPrice_range p f key
  obtain ⟨hread, hcold, hinit, hclean⟩ := p.range
  have hchange := p.change
  unfold storePrice StoragePrices.charged
  split_ifs <;> omega

def Frame.storePaid (p : StoragePrices m.cfg) (f : Frame) (key n : Word) : Frame :=
  { f.accessed m key with
    contract := { f.contract with gas := f.contract.gas - storePrice p f key n } }

lemma charge_sstore (hlong : IsLong f.contract.gas) :
    (∃ f', charge m .sstore f = .ok (some .outOfGas) f')
      ∨ charge m .sstore f = .ok none (f.storePaid p key n) := by
  have hhandler : gasHandler m .sstore = some (makeSStoreHandlerWarmed m) := if_pos p.warmedAccess
  have hprice := @storePrice_range m p f key n
  by_cases hpositive : f.contract.gas < 0
  · have hstatic : useGas 0 f = .ok false f := if_pos hpositive
    left
    unfold charge
    rw [p.static, bind_of_ok hstatic]
    exact ⟨f, rfl⟩
  have hstatic : useGas (m.cfg.staticFee .sstore) f = .ok true f := by
    rw [p.static]
    unfold useGas
    rw [if_neg hpositive, Int.sub_zero, wrap64_of_isLong hlong]
  by_cases hsentry : f.contract.gas < p.sentry
  · have hfee : dynamicFee (makeSStoreHandlerWarmed m) (m.cfg.staticFee .sstore) f
        = .ok (.error .outOfGas) f :=
      dynamicFee_of_err (handler_sentry p hs hsentry)
    left
    unfold charge
    rw [bind_of_ok hstatic, hhandler]
    exact ⟨f, bind_of_ok hfee⟩
  · have hfee : dynamicFee (makeSStoreHandlerWarmed m) (m.cfg.staticFee .sstore) f
        = .ok (.ok (storePrice p f key n)) (f.accessed m key) := by
      apply dynamicFee_of_ok (handler_apply p hs (by omega))
      rw [p.static]
      show IsLong (0 + storePrice p f key n)
      omega
    have hcontract : (f.accessed m key).contract = f.contract := (accessed_eq f key).1
    rw [charge_dynamic hhandler hstatic hfee]
    by_cases hle : f.contract.gas < storePrice p f key n
    · have huse : useGas (storePrice p f key n) (f.accessed m key) = .ok false (f.accessed m key) := by
        unfold useGas
        rw [hcontract, if_pos hle]
      left
      exact ⟨_, bind_of_ok huse⟩
    · have huse : useGas (storePrice p f key n) (f.accessed m key) = .ok true (f.storePaid p key n) := by
        unfold useGas Frame.storePaid
        have hrest : IsLong (f.contract.gas - storePrice p f key n) := by
          omega
        rw [hcontract, if_neg hle, wrap64_of_isLong hrest]
      right
      exact bind_of_ok huse

end Handler

/-! ## Executed stores -/

/-- Neither gas nor refund moved. -/
def Unbilled (f f' : Frame) : Prop :=
  f'.contract.gas = f.contract.gas ∧ f'.world.refundGas = f.world.refundGas

instance : Stackwise Unbilled where
  refl _ := ⟨rfl, rfl⟩
  trans _ _ _ h h' := ⟨h'.1.trans h.1, h'.2.trans h.2⟩
  stack _ _ := ⟨rfl, rfl⟩

lemma unbilled_opSStore : Keeps Unbilled opSStore := by
  refine .bind (.gets _) fun _ => .ite (.pure _) (.bind keeps_pop fun key => .bind keeps_pop
    fun value => .bind (.gets _) fun address => .bind ⟨fun f => wp_onWorld.mpr ?_⟩ fun _ => .pure _)
  -- the write goes to the store, the counter is kept outside of it
  have hput : Keeps Stores (World.putContractStorage address key value.bytes) := stores_rpc _
  exact (hput.wp f.world).mono (fun _ _ h => ⟨rfl, by rw [h]⟩) (fun _ _ h => ⟨rfl, by rw [h]⟩)

/-- A store to a slot that was executed, the value that the slot had, and the one it was given. -/
structure ExecutedStore (m : Machine) (calls : Calls) (address : Address) (key : Word) where
  before : Frame
  after : Frame
  current : Word
  new : Word
  rest : List Word
  self_eq : before.contract.self = address
  stack : before.stack = key :: new :: rest
  gas : IsLong before.contract.gas
  /-- an empty slot holds 32 zero bytes, or none -/
  holds : before.world.getContractStorage address key = current.bytes
    ∨ (before.world.getContractStorage address key = [] ∧ current = 0)
  ran : runStep m calls 0x55 before = .ok ⟨.success, none⟩ after

namespace ExecutedStore

variable {m : Machine} {calls : Calls} {address : Address} {key : Word} (p : StoragePrices m.cfg)
  (s : ExecutedStore m calls address key)

def stored : Bytes := s.before.world.getContractStorage address key

/-- The charge and the change of the refund counter are those of the table. -/
def Right (committed : Word) : Prop := s.before.contract.gas - s.after.contract.gas
      = accessPrice p s.before key + p.charge committed s.current s.new
    ∧ s.after.world.refundGas - s.before.world.refundGas = p.refund committed s.current s.new

/-- The store writes what is there, or it is the first to change the slot, and neither value is
zero, unless the slot has no bytes at all. -/
def Fits (committed : Word) : Prop :=
  if s.current = s.new then s.stored ≠ []
  else committed = s.current ∧ (s.stored = [] ∨ s.current ≠ 0 ∧ s.new ≠ 0)

lemma billed : s.after.contract.gas = s.before.contract.gas - storePrice p s.before key s.new
    ∧ s.after.world.refundGas = s.before.world.refundGas := by
  have hop : m.cfg.locateOpCode 0x55 = some .sstore := rfl
  obtain ⟨f', hunpaid⟩ | hpaid := charge_sstore p s.stack s.gas
  · have hran := s.ran
    rw [runStep_of_unpaid hop hunpaid] at hran
    cases hran
  · have hran := s.ran
    rw [runStep_of_paid hop hpaid] at hran
    obtain ⟨hgas, hrefund⟩ := (unbilled_opSStore.wp _).of_ok hran
    exact ⟨hgas, hrefund.trans (accessed_eq s.before key).2.2.2.1⟩

lemma right_iff_charged (committed : Word) :
    s.Right p committed ↔ p.charged s.stored s.new = p.charge committed s.current s.new
      ∧ p.refund committed s.current s.new = 0 := by
  obtain ⟨hgas, hrefund⟩ := s.billed p
  have hstored : storePrice p s.before key s.new = accessPrice p s.before key + p.charged s.stored s.new := by
    unfold storePrice stored
    rw [s.self_eq]
  unfold Right
  omega

lemma right_iff_fits (committed : Word) : s.Right p committed ↔ s.Fits committed := by
  have hread := p.change
  have hclean := p.create
  have hclear := p.delete
  rw [right_iff_charged]
  unfold Fits StoragePrices.charge StoragePrices.refund
  obtain hholds | ⟨hnone, hzero⟩ := s.holds
  · have hstored : s.stored = s.current.bytes := hholds
    have hsome : s.current.bytes ≠ [] := List.ne_nil_of_length_pos (by
      rw [Word.length_bytes]
      decide)
    rw [hstored, p.charged_bytes]
    by_cases hsame : s.current = s.new
    · simp only [if_pos hsame, and_self, true_iff]
      exact hsome
    -- the handler charges for a change, whatever the committed value is
    simp only [if_neg hsame]
    by_cases horiginal : committed = s.current
    · simp only [horiginal, true_and, hsome, false_or, if_true]
      split_ifs <;> grind
    · simp only [horiginal, false_and, iff_false, if_false]
      omega
  · have hstored : s.stored = [] := hnone
    rw [hstored, p.charged_nil, hzero]
    by_cases hsame : 0 = s.new
    · simp only [if_pos hsame, ne_eq, not_true_eq_false, iff_false]
      omega
    · simp only [if_neg hsame]
      by_cases horiginal : committed = 0
      · simp [horiginal]
      · simp only [horiginal, false_and, iff_false, if_false]
        omega

lemma exists_of_run {f : Frame} {current new : Word} {rest : List Word} {used refund : Int}
    (hstack : f.stack = key :: new :: rest) (hgas : IsLong f.contract.gas)
    (hslot : f.world.getContractStorage f.contract.self key = current.bytes)
    (hrun : ∃ f', runStep m calls 0x55 f = .ok ⟨.success, none⟩ f' ∧
      f.contract.gas - f'.contract.gas = used ∧ f'.world.refundGas - f.world.refundGas = refund) :
    ∃ s : ExecutedStore m calls f.contract.self key, s.before = f ∧ s.current = current
      ∧ s.new = new ∧ s.before.contract.gas - s.after.contract.gas = used
      ∧ s.after.world.refundGas - s.before.world.refundGas = refund := by
  obtain ⟨f', hok, hends⟩ := hrun
  exact ⟨⟨f, f', current, new, rest, rfl, hstack, hgas, .inl hslot, hok⟩, rfl, rfl, rfl, hends⟩

end ExecutedStore

/-- **Which stores of a message are charged and refunded by the table.** -/
theorem storage_gas_iff {m : Machine} {calls : Calls} {address : Address} {key : Word}
    (p : StoragePrices m.cfg) (committed : Word) (stores : List (ExecutedStore m calls address key)) :
    (∀ s ∈ stores, s.Right p committed) ↔ ∀ s ∈ stores, s.Fits committed :=
  forall₂_congr fun s _ => s.right_iff_fits p committed

def Frame.storing (slots : List (Word × Word)) : Frame := { Frame.sample [0x55] 100000 with
    stack := [0, 2]
    world := { World.sampleWith 0 [0x55] with storage := { (World.sampleWith 0 [0x55]).storage with
      mappings := slots.foldl (fun m e => Storage.setMapping m 500 e.1 e.2.bytes) ∅ } } }

def StoragePrices.sample : StoragePrices Machine.sample.cfg := .shipped rfl rfl

theorem changed_slot_right : ∃ s : ExecutedStore .sample (vm .sample 1) 500 0,
    s.before = Frame.storing [(0, 1)] ∧ s.Right .sample 1 := by
  obtain ⟨s, hbefore, hcurrent, hnew, -⟩ := @ExecutedStore.exists_of_run .sample (vm .sample 1) 0
    (Frame.storing [(0, 1)]) 1 2 [] 5000 0 rfl (by decide) (by decide +kernel) (by decide +kernel)
  have hfits : s.Fits 1 := by
    unfold ExecutedStore.Fits
    rw [hcurrent, hnew]
    exact ⟨rfl, .inr (by decide)⟩
  have hall := (storage_gas_iff .sample 1 [s]).mpr (List.forall_mem_singleton.mpr hfits)
  exact ⟨s, hbefore, hall s (List.mem_singleton_self s)⟩

/-- **Creating a slot is charged as a change of one**: 5000 for the 22100 of the table. -/
theorem fresh_slot_is_cheap : ∃ s : ExecutedStore .sample (vm .sample 1) 500 0,
    s.before = Frame.storing [] ∧ s.current = 0 ∧ s.new = 2
      ∧ s.before.contract.gas - s.after.contract.gas = 5000
      ∧ accessPrice .sample s.before 0 + StoragePrices.sample.charge 0 0 2 = 22100 := by
  obtain ⟨s, hbefore, hcurrent, hnew, hused, -⟩ :=
    @ExecutedStore.exists_of_run .sample (vm .sample 1) 0 (Frame.storing []) 0 2 [] 5000 0 rfl
      (by decide) (by decide +kernel) (by decide +kernel)
  refine ⟨s, hbefore, hcurrent, hnew, hused, ?_⟩
  rw [hbefore]
  rfl

end GrapeDag
