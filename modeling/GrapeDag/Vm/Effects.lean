/-
WHAT THE PARTS OF AN INSTRUCTION CAN DO TO A FRAME.

Stack, memory, gas and the gas handlers, each said once: `Stackwise`, `Memorywise`, `Worldwise`
and `Peekwise` are relations between frames that the steps on each stay in, and what a step
leaves alone is in `World.Same`, `Quiet` and `Peeked`.
-/
import GrapeDag.Vm.Ends

namespace GrapeDag

open Imperative GrapeDag.Frame Prog

/-! ## Quiet steps -/

/-- The worlds agree on store, transient storage, log, depth and read-only flag. Refund counter,
access lists, call gas and return data are free. -/
structure World.Same (w w' : World) : Prop where
  storage : w'.storage = w.storage
  transientStorage : w'.transientStorage = w.transientStorage
  eventLog : w'.eventLog = w.eventLog
  depth : w'.depth = w.depth
  readOnly : w'.readOnly = w.readOnly

lemma World.Same.refl (w : World) : World.Same w w := ⟨rfl, rfl, rfl, rfl, rfl⟩

lemma World.Same.trans {w w1 w2 : World} (h1 : World.Same w w1) (h2 : World.Same w1 w2) : World.Same w w2 :=
  ⟨h2.storage.trans h1.storage, h2.transientStorage.trans h1.transientStorage,
    h2.eventLog.trans h1.eventLog, h2.depth.trans h1.depth, h2.readOnly.trans h1.readOnly⟩

def SameContract (f f' : Frame) : Prop := f'.contract = { f.contract with gas := f'.contract.gas }

lemma SameContract.refl (f : Frame) : SameContract f f := rfl

variable {f : Frame} {R : Frame → Frame → Prop} {P : JavaException → Prop}

lemma SameContract.trans {g h : Frame} (h1 : SameContract f g) (h2 : SameContract g h) :
    SameContract f h := by
  unfold SameContract at *
  rw [h2, h1]

lemma SameContract.self {f' : Frame} (h : SameContract f f') :
    f'.contract.self = f.contract.self := by rw [h]

lemma SameContract.toRef {f' : Frame} (h : SameContract f f') :
    f'.contract.toRef = f.contract.toRef := by rw [h]; rfl

/-- A step that leaves nothing behind in the world. -/
structure Quiet (f f' : Frame) : Prop where
  contract : SameContract f f'
  world : World.Same f.world f'.world

lemma Quiet.refl (f : Frame) : Quiet f f := ⟨.refl f, .refl f.world⟩

lemma Quiet.trans {g h : Frame} (h1 : Quiet f g) (h2 : Quiet g h) : Quiet f h :=
  ⟨h1.contract.trans h2.contract, h1.world.trans h2.world⟩

instance : IsPreorder World World.Same where
  refl := World.Same.refl
  trans _ _ _ := World.Same.trans

instance : IsPreorder Frame Quiet where
  refl := Quiet.refl
  trans _ _ _ := Quiet.trans

/-- Every run of the program ends, in a frame that `R` relates to the first one. -/
abbrev Steps (R : Frame → Frame → Prop) {α : Type} (p : Java Frame α) : Prop := Settles R (fun _ => True) p

instance (priority := low) keeps_of_steps {R : Frame → Frame → Prop} {α : Type} {p : Java Frame α}
    [h : Steps R p] : Keeps R p := h.keeps

/-- Its steps are quiet. -/
abbrev Still {α : Type} (p : Java Frame α) : Prop := Keeps Quiet p

/-- What a gas handler leaves alone: the whole contract, the stack and the memory. -/
structure Peeked (f f' : Frame) : Prop where
  contract : f'.contract = f.contract
  stack : f'.stack = f.stack
  memory : f'.memory = f.memory
  world : World.Same f.world f'.world

instance : IsPreorder Frame Peeked where
  refl f := ⟨rfl, rfl, rfl, .refl f.world⟩
  trans _ _ _ h1 h2 := ⟨h2.contract.trans h1.contract, h2.stack.trans h1.stack,
    h2.memory.trans h1.memory, h1.world.trans h2.world⟩

/-- A relation that steps which only move operands on the stack stay in. -/
class Stackwise (R : Frame → Frame → Prop) : Prop extends IsPreorder Frame R where
  stack : ∀ f s, R f { f with stack := s }

/-- A relation that steps which only touch the memory stay in. -/
class Memwise (R : Frame → Frame → Prop) : Prop extends IsPreorder Frame R where
  memory : ∀ f b, R f { f with memory := b }

/-- A relation that steps which touch the stack and the memory stay in. -/
class Memorywise (R : Frame → Frame → Prop) : Prop extends Stackwise R, Memwise R

/-- A relation that steps which change the world stay in. -/
class Worldwise (R : Frame → Frame → Prop) : Prop extends Stackwise R where
  world : ∀ f w, R f { f with world := w }

/-- A relation that gas handlers without refunds stay in: they leave marks in the world, and raise
the memory counters. -/
class Markwise (R : Frame → Frame → Prop) : Prop extends IsPreorder Frame R where
  marks : ∀ f w, World.Same f.world w → w.refundGas = f.world.refundGas → R f { f with world := w }
  counters : ∀ f count cost, f.memoryWordCount < count → f.highestMemCost ≤ cost →
    R f { f with memoryWordCount := count, highestMemCost := cost }

/-- A relation that all gas handlers stay in. -/
class Peekwise (R : Frame → Frame → Prop) : Prop extends IsPreorder Frame R where
  world : ∀ f w, World.Same f.world w → R f { f with world := w }
  counters : ∀ f count cost, f.memoryWordCount < count → f.highestMemCost ≤ cost →
    R f { f with memoryWordCount := count, highestMemCost := cost }

instance {R : Frame → Frame → Prop} [Peekwise R] : Markwise R where
  marks f w h _ := Peekwise.world f w h
  counters := Peekwise.counters

class Pcwise (R : Frame → Frame → Prop) : Prop extends Stackwise R where
  pc : ∀ f p, R f { f with pc := p }

class Calmwise (R : Frame → Frame → Prop) : Prop extends Memorywise R, Pcwise R where
  clears : ∀ f d, R f { f with world := { f.world with returnData := d } }

class Gaswise (R : Frame → Frame → Prop) : Prop extends IsPreorder Frame R where
  gas : ∀ f g, R f { f with contract := { f.contract with gas := g } }

/-- A relation that the instructions for calls and creates stay in, their frames apart. -/
class Callwise (R : Frame → Frame → Prop) : Prop extends Memorywise R, Gaswise R where
  returnData : ∀ f d, R f { f with world := { f.world with returnData := d } }

/-- For programs of which only the ending matters. -/
def Anyhow (_ _ : Frame) : Prop := True

instance (priority := low) ends_of_settles {P : JavaException → Prop} {α : Type} {p : Java Frame α}
    [h : Settles Anyhow P p] : Ends P p := h.ends

instance : Calmwise Anyhow where
  refl _ := trivial
  trans _ _ _ _ _ := trivial
  stack _ _ := trivial
  memory _ _ := trivial
  pc _ _ := trivial
  clears _ _ := trivial

instance : Callwise Anyhow where
  gas _ _ := trivial
  returnData _ _ := trivial

instance : Worldwise Anyhow where
  world _ _ := trivial

instance : Peekwise Anyhow where
  world _ _ _ := trivial
  counters _ _ _ _ _ := trivial

instance : Calmwise Quiet where
  stack f _ := ⟨rfl, .refl f.world⟩
  memory f _ := ⟨rfl, .refl f.world⟩
  pc f _ := ⟨rfl, .refl f.world⟩
  clears _ _ := ⟨rfl, rfl, rfl, rfl, rfl, rfl⟩

instance : Callwise Quiet where
  gas f _ := ⟨rfl, .refl f.world⟩
  returnData _ _ := ⟨rfl, rfl, rfl, rfl, rfl, rfl⟩

instance : Peekwise Peeked where
  world _ _ h := ⟨rfl, rfl, rfl, h⟩
  counters f _ _ _ _ := ⟨rfl, rfl, rfl, .refl f.world⟩

instance : Peekwise Quiet where
  world _ _ h := ⟨rfl, h⟩
  counters f _ _ _ _ := ⟨rfl, .refl f.world⟩

lemma marked_modify [Markwise R] {g : World → World}
    (h : ∀ w, World.Same w (g w) ∧ (g w).refundGas = w.refundGas) :
    Settles R P (onWorld (Prog.modify g : Java World Unit)) := by
  refine ⟨⟨fun f => wp_onWorld.mpr ((wp_modify _).mpr ?_)⟩, inferInstanceAs (Ends P (zoom _ _ _))⟩
  exact Markwise.marks f _ (h f.world).1 (h f.world).2

lemma peeked_onWorld [Peekwise R] {α : Type} {m : Java World α} (h : Keeps World.Same m)
    [Ends P m] : Settles R P (onWorld m) := by
  refine ⟨⟨fun f => wp_onWorld.mpr ?_⟩, inferInstanceAs (Ends P (zoom _ _ _))⟩
  exact (h.wp f.world).mono (fun _ w hs => Peekwise.world f w hs) (fun _ w hs => Peekwise.world f w hs)

instance keeps_onWorld {R : Frame → Frame → Prop} [Worldwise R] {α : Type} (p : Java World α) :
    Keeps R (onWorld p) := by
  refine ⟨fun f => wp_onWorld.mpr (wp_iff.mpr ⟨?_, ?_⟩)⟩ <;> exact fun _ w _ => Worldwise.world f w

instance steps_onWorld {R : Frame → Frame → Prop} [Worldwise R] {α : Type} (p : Java World α)
    [h : Halts p] : Steps R (onWorld p) :=
  ⟨keeps_onWorld p, inferInstanceAs (Ends _ (zoom _ _ _))⟩

/-! ## Stack, memory and gas -/

lemma steps_setReturnData {data : Option Bytes}
    (h : ∀ f, R f { f with world := { f.world with returnData := data } }) :
    Steps R (onWorld (World.setReturnData data)) :=
  ⟨⟨fun f => wp_onWorld.mpr ((wp_modify _).mpr (h f))⟩, inferInstanceAs (Ends _ (zoom _ _ _))⟩

instance {R : Frame → Frame → Prop} [Calmwise R] (data : Option Bytes) :
    Steps R (onWorld (World.setReturnData data)) :=
  steps_setReturnData fun f => Calmwise.clears f data

instance {R : Frame → Frame → Prop} [Callwise R] (data : Option Bytes) :
    Steps R (onWorld (World.setReturnData data)) :=
  steps_setReturnData fun f => Callwise.returnData f data

section Stackwise

variable {R : Frame → Frame → Prop} [Stackwise R]

instance (g : Frame → List Word) : Steps R (Prog.modify fun f => { f with stack := g f } : Java Frame Unit) :=
  .modify fun f => Stackwise.stack f _

instance steps_push (w : Word) : Steps R (push w) := by unfold push; infer_instance

instance steps_pushBytes (bs : Bytes) : Steps R (pushBytes bs) := by
  unfold pushBytes; infer_instance

instance steps_pop : Steps R pop := by
  refine .seq inferInstance fun stack => ?_
  cases stack <;> dsimp only <;> infer_instance

lemma keeps_pop : Keeps R pop := steps_pop.keeps

instance (position : Nat) : Steps R (Frame.swap position) := by unfold Frame.swap; infer_instance

instance (position : Nat) : Steps R (dup position) := by unfold dup; infer_instance

end Stackwise

section Memwise

variable {R : Frame → Frame → Prop} [Memwise R]

instance (g : Frame → Bytes) : Steps R (Prog.modify fun f => { f with memory := g f } : Java Frame Unit) :=
  .modify fun f => Memwise.memory f _

instance (offset size : Int) : Steps R (expand offset size) := by unfold expand; infer_instance

set_option synthInstance.maxSize 1000 in
instance steps_memoryRead (offset size : Int) : Steps R (memoryRead offset size) := by
  unfold memoryRead; infer_instance

lemma keeps_memoryRead (offset size : Int) : Keeps R (memoryRead offset size) :=
  (steps_memoryRead offset size).keeps

set_option synthInstance.maxSize 1000 in
instance steps_memoryWrite (offset size : Int) (data : Option Bytes) :
    Steps R (memoryWrite offset size data) := by
  unfold memoryWrite
  cases data <;> dsimp only <;> infer_instance

end Memwise

section Gaswise

variable {R : Frame → Frame → Prop} [Gaswise R]

lemma keeps_useGas (gas : Int) : Keeps R (useGas gas) :=
  ⟨fun f => wp_useGas.mpr ⟨fun _ => refl_of R f, fun _ => Gaswise.gas f _⟩⟩

instance steps_useGas (gas : Int) : Steps R (useGas gas) := by
  refine ⟨keeps_useGas gas, fun f h => ?_, fun _ _ _ _ => trivial⟩
  unfold useGas at h
  split at h <;> cases h

instance steps_addGas (gas : Int) : Steps R (addGas gas) := .modify fun f => Gaswise.gas f _

end Gaswise

/-! ## The gas handlers -/

section Handlers

open GasTable

variable (m : Machine) {R : Frame → Frame → Prop} {P : JavaException → Prop} [Admits P]

lemma param_take_getD (s : List Word) {n i : Nat} (h : i < n) : param (s.take n) i = s.getD i 0 := by
  unfold param
  rw [List.getD_eq_getElem?_getD, List.getElem?_take_of_lt h, List.getD_eq_getElem?_getD]

section Markwise

variable [Markwise R]

instance marked_peek (num : Nat) : Settles R P (peek num) := by unfold peek; infer_instance

instance (a : Address) (k : Word) : Settles R P (onWorld (World.addWarmedSlot m.crypto a k)) :=
  marked_modify fun _ => ⟨⟨rfl, rfl, rfl, rfl, rfl⟩, rfl⟩

instance (a : Address) : Settles R P (onWorld (World.addWarmedAddress a)) :=
  marked_modify fun _ => ⟨⟨rfl, rfl, rfl, rfl, rfl⟩, rfl⟩

instance (gas : Int) : Settles R P (onWorld (World.setCallGas gas)) :=
  marked_modify fun _ => ⟨⟨rfl, rfl, rfl, rfl, rfl⟩, rfl⟩

instance marked_subMemUsage (offset length : Int) : Settles R P (subMemUsage m offset length) := by
  refine ⟨.ite (.pure _) (.bind (.liftM _) fun count => ⟨fun f => ?_⟩), ?_⟩
  swap
  · unfold subMemUsage; infer_instance
  rw [wp_bind, wp_gets]
  refine .ite (fun _ => .pure (refl_of R f)) fun hgrows => ?_
  -- the counters are only ever replaced by larger ones
  have hset : ∀ cost, R f { f with
      memoryWordCount := count
      highestMemCost := if cost > f.highestMemCost then cost else f.highestMemCost } :=
    fun cost => Markwise.counters f count _ (not_le.mp hgrows) (by split <;> omega)
  simp only [wp_bind, wp_liftM, wp_gets, wp_modify, wp_pure]
  exact ⟨fun _ _ => ⟨fun _ _ => ⟨fun _ _ => ⟨fun _ _ => hset _, fun _ _ => refl_of R f⟩,
    fun _ _ => refl_of R f⟩, fun _ _ => refl_of R f⟩, fun _ _ => refl_of R f⟩

instance marked_getMemUsageFee (offset length : Int) : Settles R P (getMemUsageFee m offset length) := by
  unfold getMemUsageFee; infer_instance

instance marked_checkStorageAccessFee (a : Address) (k : Word) :
    Settles R P (checkStorageAccessFee m a k) := by unfold checkStorageAccessFee; infer_instance

instance marked_checkAddressAccessFee (a : Address) : Settles R P (checkAddressAccessFee m a) := by
  unfold checkAddressAccessFee; infer_instance

instance : Settles R P (makeAddressAccessHandler m) := by
  unfold makeAddressAccessHandler; infer_instance

instance (n i j : Nat) : Settles R P (makeMemCopyHandler m n i j) := by
  unfold makeMemCopyHandler; infer_instance

instance (size : Int) : Settles R P (wordAccess m size) := by unfold wordAccess; infer_instance

instance : Settles R P (outputAccess m) := by unfold outputAccess; infer_instance

instance (a : Address) : Settles R P (coldCallFee m a) := by unfold coldCallFee; infer_instance

set_option synthInstance.maxSize 1000 in
instance (kind : CallKind) : Settles R P (makeCallHandler m kind) := by
  unfold makeCallHandler; infer_instance

set_option synthInstance.maxSize 1000 in
instance : Settles R P (makeStaticOrDelegateCallHandler m) := by
  unfold makeStaticOrDelegateCallHandler; infer_instance

/-- The gas handlers without refunds touch neither contract, stack, memory, store nor counter.
-/
theorem marked_gasHandler {op : Op} {handler : Java Frame Int} (h : gasHandler m op = some handler)
    (hstore : op ≠ .sstore) (hdestruct : op ≠ .selfDestruct) : Settles R P handler := by
  cases op <;> simp only [gasHandler, Option.some.injEq, reduceCtorEq] at h
  case exp => exact h ▸ (by unfold GasTable.exp; infer_instance)
  case sha3 => exact h ▸ (by unfold sha3; infer_instance)
  case extCodeCopy => exact h ▸ (by unfold extCodeCopy; infer_instance)
  case sload => exact h ▸ (by unfold sload; infer_instance)
  case log n => exact h ▸ (by unfold makeLogHandler; infer_instance)
  case sstore => exact absurd rfl hstore
  case create kind =>
    cases kind <;> cases h
    · unfold GasTable.create; infer_instance
    · unfold create2; infer_instance
  case call kind => cases kind <;> cases h <;> infer_instance
  case selfDestruct => exact absurd rfl hdestruct
  all_goals exact h ▸ inferInstance

end Markwise

variable [Peekwise R]

instance peeked_addRefundGas (gas : Int) : Settles R P (onWorld (World.addRefundGas gas)) := by
  unfold World.addRefundGas
  exact peeked_onWorld (.modify fun _ => ⟨rfl, rfl, rfl, rfl, rfl⟩)

instance peeked_subRefundGas (gas : Int) : Settles R P (onWorld (World.subRefundGas gas)) := by
  have hsub : Keeps World.Same (Prog.modify fun w : World =>
      { w with refundGas := wrap64 (w.refundGas - gas) } : Java World Unit) :=
    .modify fun _ => ⟨rfl, rfl, rfl, rfl, rfl⟩
  unfold World.subRefundGas
  exact peeked_onWorld inferInstance

instance (value : Bytes) (gas : Int) : Settles R P (refundDelete value gas) := by
  unfold refundDelete; infer_instance

instance (original current value : Bytes) (gas : Int) :
    Settles R P (refundDirty original current value gas) := by unfold refundDirty; infer_instance

instance (original value : Bytes) : Settles R P (refundReset m original value) := by
  unfold refundReset; infer_instance

set_option synthInstance.maxSize 4000 in
instance : Settles R P (makeSStoreHandlerWarmed m) := by
  unfold makeSStoreHandlerWarmed; infer_instance

variable {handler : Java Frame Int}

set_option synthInstance.maxSize 1000 in
lemma peeked_gasHandler {op : Op} (h : gasHandler m op = some handler) : Settles R P handler := by
  by_cases hstore : op = .sstore
  · subst hstore
    simp only [gasHandler] at h
    split at h <;> cases h
    · infer_instance
    · unfold makeSStoreHandlerBase; infer_instance
  by_cases hdestruct : op = .selfDestruct
  · subst hdestruct
    simp only [gasHandler] at h
    split at h <;> cases h
    unfold makeSelfDestructHandler; infer_instance
  exact marked_gasHandler m h hstore hdestruct

omit [Admits P] in
lemma keeps_gasHandler {op : Op} (h : gasHandler m op = some handler) : Keeps R handler :=
  (peeked_gasHandler (P := fun _ => True) m h).keeps

end Handlers

end GrapeDag
