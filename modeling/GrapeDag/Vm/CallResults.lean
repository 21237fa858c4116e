/-
THE RESULT OF A CALL.

The output of a callee is copied into the return window by `VmMemory.write`, which refuses data
SHORTER than the area: a callee that returns less than the caller reserved ends the caller, too.

Main result: `delivers_iff`.
-/
import GrapeDag.Vm.CallGas
import GrapeDag.Vm.Operands

namespace GrapeDag

open Imperative GrapeDag.Frame Prog Word Area List

/-! ## Windows -/

/-- The operands of a return window, the size of the output of the callee, which may be `null`, and
that of the memory of the caller: Java arrays both. -/
structure ReturnWindow where
  offset : Word
  size : Word
  output : Option Nat
  memory : Nat
  output_le : ∀ n, output = some n → n ≤ 2147483647
  memory_le : memory ≤ 2147483647

namespace ReturnWindow

def taken (r : ReturnWindow) : Nat := min r.size.toNat (r.output.getD 0)

/-- Without output the memory must be able to grow to the window. With output, the narrowed size is
what belongs into the window, and the window is within the memory. -/
def Fits (r : ReturnWindow) : Prop :=
  match r.output with
  | none => r.size.intValue = 0 ∨ Growable r.memory (wrap32 (r.offset.intValue + r.size.intValue))
  | some _ => r.size.intValue = r.taken ∧ (r.taken = 0 ∨ r.offset.toNat + r.taken ≤ maxEnd)

/-- The narrowed end of the window is an `int`; else the call is out of gas. -/
def Narrows (r : ReturnWindow) : Prop := GrapeDag.Narrows r.offset.longValue r.size.longValue

end ReturnWindow

def VmResult.bytes (result : VmResult) : Bytes := result.output.getD []

def Frame.byteAt (f : Frame) (i : Nat) : UInt8 := f.memory.getD i 0

/-- The result of a call is delivered to the frame `f` of the caller. -/
structure Delivered (offset size : Nat) (result : VmResult) (f f' : Frame) : Prop where
  output : Area.window offset (min size result.bytes.length) f'.memory = result.bytes.take size
  memory : ∀ i, (i < offset ∨ offset + min size result.bytes.length ≤ i) → f'.byteAt i = f.byteAt i
  stack : f'.stack = .ofBool result.isSuccess :: f.stack
  gas : f'.contract.gas = f.contract.gas + result.gas
  pc : f'.pc = f.pc

/-- A call instruction of frame `f` has been paid for, has started its callee in frame `f2`, and the
callee has ended with success or revert, and with some of its gas. -/
structure CallEnds (m : Machine) (calls : Calls) (kind : CallKind) (f : Frame) (p : PreparedCall)
    (f2 : Frame) (result : VmResult) : Prop where
  started : ∃ f1, charge m (.call kind) f = .ok none f1 ∧
    prepareCall kind m.callStipend f1 = .ok (.ok p) f2
  ended : ∃ w, calls.executeCall ⟨kind, f2.contract.toRef, p.toAddr, p.args, p.gasLimit,
    p.value.bigIntegerValue⟩ f2.world = .ok result w
  status : result.isSuccess = true ∨ result.status = .revert
  gas_nonneg : 0 ≤ result.gas
  gas_le : result.gas ≤ p.gasLimit

/-- After every call with this window, whatever the callee is and returns, the caller goes on with
the result. -/
def ReturnWindow.Delivers (m : Machine) (kind : CallKind) (opcode : UInt8) (r : ReturnWindow) :
    Prop :=
  ∀ (calls : Calls) (f : Frame) (c : CallOperands) (rest : List Word) (p : PreparedCall)
    (f2 : Frame) (result : VmResult), f.Metered → f.stack.length ≤ 1024 →
    f.stack = c.words kind ++ rest → c.retOffset = r.offset → c.retSize = r.size →
    CallEnds m calls kind f p f2 result → f2.memory.length = r.memory →
    result.output.map List.length = r.output →
    ∃ f', runStep m calls opcode f = .ok ⟨.success, result.output⟩ f' ∧
      Delivered r.offset.toNat r.size.toNat result f2 f'

/-! ## The copy -/

variable {result : VmResult}

section Copy

variable {r : ReturnWindow} {f : Frame} {output : Option Bytes}

lemma VmResult.length_bytes (h : result.output.map length = r.output) :
    min r.size.toNat result.bytes.length = r.taken := by
  unfold VmResult.bytes ReturnWindow.taken
  rw [← h]
  cases result.output <;> rfl

lemma memoryWrite_no_output (hnone : r.output = none) (hfits : r.Fits)
    (hmem : f.memory.length = r.memory) :
    ∃ store, memoryWrite r.offset.intValue r.size.intValue none f
        = .ok () { f with memory := store } ∧ ∀ i, store.getD i 0 = f.memory.getD i 0 := by
  unfold ReturnWindow.Fits at hfits
  rw [hnone, ← hmem] at hfits
  by_cases hzero : r.size.intValue = 0
  · refine ⟨f.memory, ?_, fun i => rfl⟩
    unfold memoryWrite
    rw [if_pos hzero]
    rfl
  · obtain ⟨n, -, -, hexpand⟩ :=
      expand_of_growable hzero (hmem ▸ r.memory_le) (hfits.resolve_left hzero)
    refine ⟨extend 0 n f.memory, ?_, fun i => getD_extend⟩
    unfold memoryWrite
    rw [if_neg hzero, bind_of_ok hexpand]
    rfl

lemma memoryWrite_output {data : Bytes} (hsome : r.output = some data.length) (hfits : r.Fits)
    (hmem : f.memory.length = r.memory) (hpos : r.taken ≠ 0) :
    memoryWrite r.offset.intValue r.size.intValue (some data) f = .ok () { f with
      memory := overwrite r.offset.toNat (data.take r.taken)
        (grown f.memory (r.offset.toNat + r.taken)) } := by
  unfold ReturnWindow.Fits at hfits
  rw [hsome] at hfits
  obtain ⟨hsize, hinside⟩ := hfits
  have hend := hinside.resolve_left hpos
  have hoffset : r.offset.intValue = r.offset.toNat := intValue_of_le (by unfold maxEnd at hend; omega)
  have htaken : r.taken ≤ data.length := by
    unfold ReturnWindow.taken
    rw [hsome]
    exact Nat.min_le_right _ _
  rw [hsize, hoffset]
  exact memoryWrite_apply hpos hend (hmem ▸ r.memory_le) htaken

lemma memoryWrite_fits (hfits : r.Fits) (hmem : f.memory.length = r.memory)
    (hout : output.map length = r.output) :
    ∃ store, memoryWrite r.offset.intValue r.size.intValue output f
        = .ok () { f with memory := store } ∧
      window r.offset.toNat r.taken store = (output.getD []).take r.size.toNat ∧
      ∀ i, (i < r.offset.toNat ∨ r.offset.toNat + r.taken ≤ i) → store.getD i 0 = f.memory.getD i 0 := by
  cases output with
  | none =>
    have htaken : r.taken = 0 := by
      unfold ReturnWindow.taken
      rw [← hout]
      exact Nat.min_zero _
    obtain ⟨store, hwrite, hsame⟩ := memoryWrite_no_output hout.symm hfits hmem
    rw [htaken, Option.getD_none, take_nil]
    exact ⟨store, hwrite, rfl, fun i _ => hsame i⟩
  | some data =>
    have htaken : r.taken = min r.size.toNat data.length := by
      unfold ReturnWindow.taken
      rw [← hout]
      rfl
    have hbytes : data.take r.taken = data.take r.size.toNat := by
      rw [htaken, ← take_take, take_length]
    have hwritten : (data.take r.taken).length = r.taken := by
      rw [length_take]
      omega
    rw [Option.getD_some, ← hbytes]
    by_cases hzero : r.taken = 0
    · have hsize : r.size.intValue = r.taken := by
        unfold ReturnWindow.Fits at hfits
        rw [← hout] at hfits
        exact hfits.1
      refine ⟨f.memory, ?_, ?_, fun i _ => rfl⟩
      · unfold memoryWrite
        rw [if_pos (by omega)]
        rfl
      · rw [hzero]
        rfl
    · have hwrite := memoryWrite_output hout.symm hfits hmem hzero
      have hcover := le_length_grown f.memory (r.offset.toNat + r.taken)
      refine ⟨_, hwrite, ?_, fun i hi => ?_⟩
      · have hread : window r.offset.toNat (data.take r.taken).length
            (overwrite r.offset.toNat (data.take r.taken)
              (grown f.memory (r.offset.toNat + r.taken))) = data.take r.taken :=
          window_overwrite (by omega)
        rw [hwritten] at hread
        exact hread
      · rw [← hwritten] at hi
        rw [getD_eq_getElem?_getD, getElem?_overwrite (by omega) hi]
        exact getD_extend

end Copy

/-! ## The end of a call -/

/-- The rest of the instruction once the flag has been pushed. -/
def deliver (retOffset retSize : Int) (result : VmResult) : Java Frame FnResult := do
  memoryWrite retOffset retSize result.output
  addGas result.gas
  onWorld (World.setReturnData result.output)
  return ⟨.success, result.output⟩

lemma finishCall_eq {p : PreparedCall} {g : Frame}
    (hstack : g.stack.length < 1024) (hstatus : result.isSuccess = true ∨ result.status = .revert) :
    finishCall p result g = deliver p.retOffset p.retSize result
      { g with stack := .ofBool result.isSuccess :: g.stack } := by
  unfold finishCall
  rw [bind_of_ok (push_apply hstack), if_pos hstatus]
  rfl

variable {opcode : UInt8}

section Ends

variable {m : Machine} {calls : Calls} {kind : CallKind} {c : CallOperands} {rest : List Word}
  {f f1 f2 : Frame} {fee : Int} {p : PreparedCall} {result : VmResult}

lemma prepareCall_eq_ok (hf : f.Metered) (hcharged : CallCharged m kind f fee f1)
    (hstack : f.stack = c.words kind ++ rest)
    (hprepare : prepareCall kind m.callStipend f1 = .ok (.ok p) f2) :
    ∃ args f', memoryRead c.inOffset.intValue c.inSize.intValue { f1 with stack := rest }
        = .ok args f' ∧
      p = c.prepared kind m.callStipend f1.world.callGas args ∧ f2 = f'.paid f1.world.callGas := by
  have hsteps := hprepare
  rw [prepareCall_eq (hcharged.stack.trans hstack)] at hsteps
  obtain ⟨args, f', hread, hrest⟩ := bind_eq_ok.mp hsteps
  have honly := onlyMemory_of_read hread
  have hworld : f'.world = f1.world := by rw [honly]
  by_cases hstatic : f1.world.readOnly = true ∧ c.Sends kind
  · rw [gets_bind, hworld, if_pos hstatic] at hrest
    cases hrest
  · rw [prepareCall_apply hf hcharged hstack hread hstatic] at hprepare
    cases hprepare
    exact ⟨args, f', hread, rfl, rfl⟩

/-- The step ends with the callee's result delivered to the caller. -/
structure Returning (m : Machine) (calls : Calls) (opcode : UInt8) (c : CallOperands) (f f2 : Frame)
    (result : VmResult) : Prop where
  run : ∃ w, runStep m calls opcode f = deliver c.retOffset.intValue c.retSize.intValue result
    { f2 with stack := .ofBool result.isSuccess :: f2.stack, world := w }
  gas : IsLong (f2.contract.gas + result.gas)

lemma CallEnds.returning (hs : m.cfg.Sound)
    (hop : m.cfg.locateOpCode opcode = some (.call kind)) (hf : f.Metered)
    (hlen : f.stack.length ≤ 1024) (hstack : f.stack = c.words kind ++ rest)
    (h : CallEnds m calls kind f p f2 result) : Returning m calls opcode c f f2 result := by
  obtain ⟨f1, hcharge, hprepare⟩ := h.started
  obtain ⟨w, hended⟩ := h.ended
  obtain ⟨fee, hcharged⟩ := callCharged hs hf hcharge
  obtain ⟨args, f', hread, rfl, rfl⟩ := prepareCall_eq_ok hf hcharged hstack hprepare
  have honly := onlyMemory_of_read hread
  constructor
  · have hroom : f'.stack.length < 1024 := by
      have hrest : f'.stack = rest := by rw [honly]
      have hwords : 0 < (c.words kind).length := Nat.succ_pos _
      rw [hstack, length_append] at hlen
      rw [hrest]
      omega
    have hcall : onWorld (calls.executeCall _) _ = .ok result _ := zoom_of_ok hended
    have hfinish := finishCall_eq (p := c.prepared kind m.callStipend f1.world.callGas args)
      (g := { f'.paid f1.world.callGas with world := w }) hroom h.status
    refine ⟨w, ?_⟩
    rw [runStep_of_prepared hop hcharge hprepare, bind_of_ok hcall, hfinish]
    dsimp only [CallOperands.prepared]
  · -- what the callee got was taken from the frame, but for a stipend that the fee covers
    have hgas : f'.contract.gas = f1.contract.gas := by rw [honly]
    have hands : HandsOver m kind c (f.contract.gas - fee)
        (c.prepared kind m.callStipend f1.world.callGas args) (f'.paid f1.world.callGas) :=
      handsOver_prepared hs hf hcharged hstack hgas
    obtain ⟨-, hmax⟩ := hands.isLong_sum
    have hkept := hands.kept
    have hfee := hcharged.le
    have hnonneg := h.gas_nonneg
    have hle := h.gas_le
    omega

variable {r : ReturnWindow}

lemma narrows_of_charge (hstack : f.stack = c.words kind ++ rest)
    (hoffset : c.retOffset = r.offset) (hsize : c.retSize = r.size)
    (hcharge : charge m (.call kind) f = .ok none f1) : r.Narrows := by
  have hareas := ((wp_charge_areas f (.call kind)).of_ok hcharge).2 rfl
  rw [hstack] at hareas
  have hpaid : AreaPaid f1.memoryWordCount c.retOffset.longValue c.retSize.longValue := by
    cases kind <;> exact hareas.tail.head
  rw [hoffset, hsize] at hpaid
  exact hpaid.imp id And.left

lemma delivers_of_fits (hs : m.cfg.Sound)
    (hop : m.cfg.locateOpCode opcode = some (.call kind)) (h : r.Fits ∨ ¬ r.Narrows) :
    r.Delivers m kind opcode := by
  intro calls f c rest p f2 result hf hlen hstack hoffset hsize hends hmem hout
  obtain ⟨f1, hcharge, -⟩ := hends.started
  have hfits : r.Fits := h.resolve_right (not_not.mpr (narrows_of_charge hstack hoffset hsize hcharge))
  have hreturning := hends.returning hs hop hf hlen hstack
  obtain ⟨w, hrun⟩ := hreturning.run
  obtain ⟨store, hwrite, hwindow, hrest⟩ := memoryWrite_fits
    (f := { f2 with stack := .ofBool result.isSuccess :: f2.stack, world := w }) hfits hmem hout
  have htaken := VmResult.length_bytes hout
  unfold deliver at hrun
  rw [hrun, hoffset, hsize, bind_of_ok hwrite]
  refine ⟨_, rfl, ?_, ?_, rfl, ?_, rfl⟩
  · rw [htaken]
    exact hwindow
  · rw [htaken]
    exact hrest
  · exact wrap64_of_isLong hreturning.gas

end Ends

/-! ## Windows that do not fit -/

variable {fee : Int} {f' : Frame}

section Facing

variable {m : Machine}

variable {handler : Java Frame Int} {f : Frame}

lemma dynamicFee_of_ok {cost : Int} (h : handler f = .ok fee f')
    (hlong : IsLong (cost + fee)) : dynamicFee handler cost f = .ok (.ok fee) f' := by
  have hbody : (do
      let fee ← handler
      let _ ← addExact cost fee
      return .ok fee : Java Frame (Except VmStatus Int)) f = .ok (.ok fee) f' := by
    rw [bind_of_ok h, liftM_bind (addExact_of_isLong hlong)]
    rfl
  unfold dynamicFee Prog.catching
  rw [hbody]

lemma dynamicFee_of_err {cost : Int} {st : VmStatus}
    (h : handler f = .err (.vm st) f') : dynamicFee handler cost f = .ok (.error st) f' := by
  unfold dynamicFee Prog.catching
  rw [bind_of_err h]
  rfl

lemma charge_dynamic {op : Op} {f1 f2 : Frame} (hhandler : gasHandler m op = some handler)
    (hstatic : useGas (m.cfg.staticFee op) f = .ok true f1)
    (hfee : dynamicFee handler (m.cfg.staticFee op) f1 = .ok (.ok fee) f2) :
    charge m op f = (useGas fee >>= fun paid => pure (if paid then none else some .outOfGas)) f2 := by
  unfold charge
  rw [bind_of_ok hstatic, hhandler]
  exact bind_of_ok hfee

open GasTable

lemma subMemUsage_covered {offset length : Int} (h : Narrows offset length)
    (hwords : 67108863 ≤ f.memoryWordCount) : subMemUsage m offset length f = .ok 0 f := by
  unfold subMemUsage
  by_cases hzero : length = 0
  · rw [if_pos hzero]
    rfl
  have hint : IsInt (wrap64 (offset + length)) := h.resolve_left hzero
  have hcount : toWordSizeLong (wrap64 (offset + length))
      = .ok (toWordSize (wrap64 (offset + length))) := by
    unfold toWordSizeLong toIntExact
    rw [if_pos hint]
    rfl
  rw [if_neg hzero]
  show ((liftM (toWordSizeLong _) : Java Frame Int) >>= _) f = _
  rw [liftM_bind hcount, gets_bind,
    if_pos ((toWordSize_le _).trans hwords)]
  rfl

lemma coldCallFee_warm {a : Address} (hwarm : f.world.isWarmedAddress a = true)
    (hgas : 0 ≤ f.contract.gas) : coldCallFee m a f = .ok 0 f := by
  have hfee : checkAddressAccessFee m a f = .ok 0 f := by
    unfold checkAddressAccessFee
    rw [gets_bind, if_pos hwarm]
    rfl
  unfold coldCallFee
  split
  · rw [bind_of_ok hfee, gets_bind, if_neg (by omega)]
    rfl
  · rfl

end Facing

def World.sampleWarm : World := { World.sampleWith 0 [] with warmedAddresses := [1] }

namespace ReturnWindow

def operands (r : ReturnWindow) : CallOperands := ⟨0, 1, 0, 0, 0, r.offset, r.size⟩

def facing (r : ReturnWindow) (kind : CallKind) : Frame :=
  { Frame.start (.new (.account 1 0) 500 0 longMax []) .sampleWarm with
    memory := List.replicate r.memory 0
    memoryWordCount := 67108863
    stack := r.operands.words kind }

def ones (r : ReturnWindow) : VmResult := ⟨.success, 0, [], r.output.map fun n => List.replicate n 1, none⟩

lemma facing_metered (r : ReturnWindow) (kind : CallKind) : (r.facing kind).Metered :=
  ⟨⟨show (0 : Int) ≤ 67108863 by decide, le_refl 0⟩, show 0 ≤ longMax by decide, le_refl longMax⟩

open GasTable in
/-- Nothing is due for the address or for memory. -/
structure Unasked (m : Machine) (r : ReturnWindow) (f : Frame) : Prop where
  cold : coldCallFee m (Word.toAddress 1) f = .ok 0 f
  args : subMemUsage m (Word.longValue 0) (Word.longValue 0) f = .ok 0 f
  window : subMemUsage m r.offset.longValue r.size.longValue f = .ok 0 f

variable {m : Machine} {r : ReturnWindow} {kind : CallKind}

open GasTable in
lemma unasked_facing (hnarrows : r.Narrows) (hfee : fee ≤ longMax) :
    Unasked m r ((r.facing kind).paid fee) := by
  have hgas : 0 ≤ ((r.facing kind).paid fee).contract.gas := Int.sub_nonneg.mpr hfee
  have hwarm : ((r.facing kind).paid fee).world.isWarmedAddress (toAddress 1) = true := by
    show World.sampleWarm.isWarmedAddress (toAddress 1) = true
    decide
  exact ⟨coldCallFee_warm hwarm hgas, subMemUsage_covered (.inl (by decide)) (le_refl _),
    subMemUsage_covered hnarrows (le_refl _)⟩

section Unasked

open GasTable

variable {m : Machine} {r : ReturnWindow} {f : Frame}

lemma liftM_addExact_zero (f : Frame) : (liftM (addExact 0 0) : Java Frame Int) f = .ok 0 f :=
  liftM_of_ok (by decide) f

lemma Unasked.makeCallHandler (h : Unasked m r f) (kind : CallKind)
    (hs : f.stack = [0, 1, 0, 0, 0, r.offset, r.size])
    (hexists : f.world.isAccountExists (toAddress 1) = true) :
    ∃ g, makeCallHandler m kind f = .ok 0 g := by
  have hnew : addFeeIf m (kind = .call ∧ !f.world.isAccountExists (toAddress 1)) 0
      .callNewAccount = .ok 0 := by
    unfold addFeeIf
    rw [hexists, if_neg (by simp)]
    rfl
  unfold GasTable.makeCallHandler
  rw [bind_of_ok (peek_apply (by rw [hs]; exact le_refl 7)), hs]
  show ∃ g, (coldCallFee m (toAddress 1) >>= _) f = .ok 0 g
  rw [bind_of_ok h.cold]
  show ∃ g, (subMemUsage m (longValue 0) (longValue 0) >>= _) f = .ok 0 g
  rw [bind_of_ok h.args, bind_of_ok (liftM_addExact_zero f)]
  show ∃ g, (subMemUsage m r.offset.longValue r.size.longValue >>= _) f = .ok 0 g
  rw [bind_of_ok h.window]
  show ∃ g, ((liftM (addFeeIf m (kind = .call ∧ !f.world.isAccountExists (toAddress 1)) 0
    .callNewAccount) : Java Frame Int) >>= _) f = .ok 0 g
  rw [liftM_bind hnew]
  show ∃ g, ((liftM (addFeeIf m (isNonZero 0) 0 .callValueTransfer) : Java Frame Int) >>= _) f = .ok 0 g
  exact ⟨_, rfl⟩

lemma Unasked.makeStaticOrDelegateCallHandler (h : Unasked m r f)
    (hs : f.stack = [0, 1, 0, 0, r.offset, r.size]) :
    ∃ g, makeStaticOrDelegateCallHandler m f = .ok 0 g := by
  unfold GasTable.makeStaticOrDelegateCallHandler
  rw [bind_of_ok (peek_apply (by rw [hs]; exact le_refl 6)), hs]
  show ∃ g, (coldCallFee m (toAddress 1) >>= _) f = .ok 0 g
  rw [bind_of_ok h.cold]
  show ∃ g, (subMemUsage m (longValue 0) (longValue 0) >>= _) f = .ok 0 g
  rw [bind_of_ok h.args, bind_of_ok (liftM_addExact_zero f)]
  show ∃ g, (subMemUsage m r.offset.longValue r.size.longValue >>= _) f = .ok 0 g
  rw [bind_of_ok h.window]
  exact ⟨_, rfl⟩

end Unasked

open GasTable in
lemma handler_facing (hnarrows : r.Narrows) (hfee : fee ≤ longMax) :
    ∃ handler g, gasHandler m (.call kind) = some handler ∧ handler ((r.facing kind).paid fee) = .ok 0 g := by
  have hunasked := @unasked_facing fee m r kind hnarrows hfee
  have hexists : ((r.facing kind).paid fee).world.isAccountExists (toAddress 1) = true := by
    show World.sampleWarm.isAccountExists (toAddress 1) = true
    decide
  cases kind with
  | call =>
    obtain ⟨g, hg⟩ := hunasked.makeCallHandler .call rfl hexists
    exact ⟨_, g, rfl, hg⟩
  | callCode =>
    obtain ⟨g, hg⟩ := hunasked.makeCallHandler .callCode rfl hexists
    exact ⟨_, g, rfl, hg⟩
  | delegateCall | staticCall =>
    obtain ⟨g, hg⟩ := hunasked.makeStaticOrDelegateCallHandler rfl
    exact ⟨_, g, rfl, hg⟩

lemma charge_facing (hs : m.cfg.Sound) (hnarrows : r.Narrows) (kind : CallKind) :
    ∃ f1, charge m (.call kind) (r.facing kind) = .ok none f1 := by
  obtain ⟨hlow, hhigh⟩ := hs.staticFee_nonneg (.call kind)
  have hle : m.cfg.staticFee (.call kind) ≤ longMax := by unfold longMax; omega
  obtain ⟨handler, g, hhandler, hrun⟩ := @handler_facing _ m r kind hnarrows hle
  have hgas : g.contract = ((r.facing kind).paid (m.cfg.staticFee (.call kind))).contract :=
    (((keeps_gasHandler (R := Peeked) m hhandler).wp _).of_ok hrun).contract
  have hleft : g.contract.gas = longMax - m.cfg.staticFee (.call kind) := by rw [hgas]; rfl
  have hstatic : useGas (m.cfg.staticFee (.call kind)) (r.facing kind) = .ok true _ :=
    useGas_of_le hlow hle (le_refl longMax)
  have hfee : dynamicFee handler (m.cfg.staticFee (.call kind)) _ = .ok (.ok 0) g :=
    dynamicFee_of_ok hrun (by omega)
  have hzero : useGas 0 g = .ok true _ :=
    useGas_of_le (le_refl 0) (by omega) (by unfold longMax at hleft; omega)
  rw [charge_dynamic hhandler hstatic hfee, bind_of_ok hzero]
  exact ⟨_, rfl⟩

lemma ends_facing (hs : m.cfg.Sound) (hnarrows : r.Narrows) (kind : CallKind) :
    ∃ p f2, CallEnds m ⟨fun _ => pure r.ones, fun _ => pure r.ones⟩ kind (r.facing kind) p f2
        r.ones ∧ f2.memory = replicate r.memory 0 := by
  obtain ⟨f1, hcharge⟩ := charge_facing hs hnarrows kind
  obtain ⟨fee, hcharged⟩ := callCharged hs (facing_metered r kind) hcharge
  have hstack : (r.facing kind).stack = r.operands.words kind ++ [] := (append_nil _).symm
  have hread : memoryRead r.operands.inOffset.intValue r.operands.inSize.intValue
      { f1 with stack := [] } = .ok [] { f1 with stack := [] } := by
    have hempty : r.operands.inSize.intValue = 0 := by
      show intValue 0 = 0
      decide
    unfold memoryRead
    rw [if_pos hempty]
    rfl
  have hsends : ¬ r.operands.Sends kind := by
    intro h
    have hvalue : isNonZero 0 = true := h.2
    exact absurd hvalue (by decide)
  have hprepare := prepareCall_apply (facing_metered r kind) hcharged hstack hread (fun h => hsends h.2)
  have hmemory : f1.memory = replicate r.memory 0 :=
    ((wp_charge_areas (r.facing kind) (.call kind)).of_ok hcharge).1.memory
  refine ⟨_, _, ⟨⟨f1, hcharge, hprepare⟩, ⟨_, rfl⟩, .inl rfl, le_refl 0, ?_⟩, hmemory⟩
  have hleft : 0 ≤ (r.facing kind).contract.gas - fee := by have := hcharged.le; omega
  have hcap := handed_nonneg hleft ((r.facing kind).operand 0)
  rw [← hcharged.callGas] at hcap
  show 0 ≤ if r.operands.Sends kind then _ else f1.world.callGas
  rw [if_neg hsends]
  exact hcap

lemma deliver_eq_ok {retOffset retSize : Int} {x : FnResult} {f : Frame}
    (h : deliver retOffset retSize result f = .ok x f') :
    ∃ g, memoryWrite retOffset retSize result.output f = .ok () g ∧ f'.memory = g.memory := by
  obtain ⟨_, g, hwrite, hrest⟩ := bind_eq_ok.mp h
  cases hrest
  exact ⟨g, hwrite, rfl⟩

lemma eq_of_ones {offset taken o t : Nat} {store : Bytes} (ht : t ≠ 0)
    (hthere : ∀ i < t, store.getD (o + i) 0 = 1)
    (hrest : ∀ i, (i < o ∨ o + t ≤ i) → store.getD i 0 = 0)
    (hmeant : ∀ i < taken, store.getD (offset + i) 0 = 1)
    (hother : ∀ i, (i < offset ∨ offset + taken ≤ i) → store.getD i 0 = 0) :
    o = offset ∧ t = taken := by
  have hinside : ∀ i, store.getD i 0 = 1 → o ≤ i ∧ i < o + t := by
    intro i hi
    by_contra hout
    rw [hrest i (by omega)] at hi
    cases hi
  have hinside' : ∀ i, store.getD i 0 = 1 → offset ≤ i ∧ i < offset + taken := by
    intro i hi
    by_contra hout
    rw [hother i (by omega)] at hi
    cases hi
  have hfirst := hinside' _ (hthere 0 (by omega))
  have hlast := hinside' _ (hthere (t - 1) (by omega))
  have hfirst' := hinside _ (hmeant 0 (by omega))
  have hlast' := hinside _ (hmeant (taken - 1) (by omega))
  omega

lemma getD_zeros (n i : Nat) : (replicate n 0 : Bytes).getD i 0 = 0 := by
  rw [getD_eq_getElem?_getD, getElem?_replicate]
  split <;> rfl

section Copied

variable {r : ReturnWindow} {f f' : Frame}

lemma growable_of_copy (hmem : f.memory.length = r.memory)
    (hwrite : memoryWrite r.offset.intValue r.size.intValue none f = .ok () f') :
    r.size.intValue = 0 ∨ Growable r.memory (wrap32 (r.offset.intValue + r.size.intValue)) := by
  by_contra hno
  rw [not_or, ← hmem] at hno
  unfold memoryWrite at hwrite
  rw [if_neg hno.1, bind_of_err (expand_of_not_growable hno.1 hno.2)] at hwrite
  cases hwrite

lemma ones_of_copy {n o t : Nat} (hmem : f.memory = replicate r.memory 0) (ht : t ≠ 0)
    (hle : t ≤ n) (hend : o + t ≤ maxEnd)
    (hwrite : memoryWrite o t (some (replicate n 1)) f = .ok () f') :
    (∀ i < t, f'.memory.getD (o + i) 0 = 1) ∧ ∀ i, (i < o ∨ o + t ≤ i) → f'.memory.getD i 0 = 0 := by
  have hmax : f.memory.length ≤ 2147483647 := by
    rw [hmem, length_replicate]
    exact r.memory_le
  have hones : (replicate n (1 : UInt8)).take t = replicate t 1 := by
    rw [take_replicate, Nat.min_eq_left hle]
  have happly := memoryWrite_apply (f := f) ht hend hmax
    (show t ≤ (replicate n (1 : UInt8)).length by rw [length_replicate]; exact hle)
  rw [hones] at happly
  have hstore : f'.memory = overwrite o (replicate t 1) (grown f.memory (o + t)) := by
    rw [happly] at hwrite
    exact congrArg Frame.memory (Outcome.ok.inj hwrite).2.symm
  have hcover := le_length_grown f.memory (o + t)
  have hlength : (replicate t (1 : UInt8)).length = t := length_replicate
  rw [hstore]
  constructor
  · intro i hi
    have hread : window o (replicate t (1 : UInt8)).length
        (overwrite o (replicate t 1) (grown f.memory (o + t))) = replicate t 1 :=
      window_overwrite (by omega)
    rw [getD_eq_getElem?_getD, ← getElem?_window (n := t) hi]
    rw [hlength] at hread
    rw [hread, getElem?_replicate, if_pos hi]
    rfl
  · intro i hi
    rw [← hlength] at hi
    rw [getD_eq_getElem?_getD, getElem?_overwrite (by omega) hi]
    refine getD_extend.trans ?_
    rw [hmem]
    exact getD_zeros _ i

lemma taken_of_copy {n : Nat} (hmem : f.memory = replicate r.memory 0)
    (hwrite : memoryWrite r.offset.intValue r.size.intValue (some (replicate n 1)) f = .ok () f')
    (hmeant : ∀ i < r.taken, f'.memory.getD (r.offset.toNat + i) 0 = 1)
    (hother : ∀ i, (i < r.offset.toNat ∨ r.offset.toNat + r.taken ≤ i) → f'.memory.getD i 0 = 0) :
    r.size.intValue = r.taken ∧ (r.taken = 0 ∨ r.offset.toNat + r.taken ≤ maxEnd) := by
  by_cases hzero : r.size.intValue = 0
  · -- nothing was copied
    have hsame : f'.memory = replicate r.memory 0 := by
      unfold memoryWrite at hwrite
      rw [if_pos hzero] at hwrite
      cases hwrite
      exact hmem
    have hnone : r.taken = 0 := by
      by_contra hne
      have hone := hmeant 0 (Nat.pos_of_ne_zero hne)
      rw [hsame, getD_zeros] at hone
      cases hone
    exact ⟨by rw [hzero, hnone]; rfl, .inl hnone⟩
  · have hmax : f.memory.length ≤ 2147483647 := by
      rw [hmem, length_replicate]
      exact r.memory_le
    obtain ⟨ho, hpos, hle, hend⟩ := memoryWrite_within hzero hmax hwrite
    obtain ⟨o, ho⟩ := Int.eq_ofNat_of_zero_le ho
    obtain ⟨t, ht⟩ := Int.eq_ofNat_of_zero_le hpos.le
    rw [ho, ht] at hwrite hend
    rw [length_replicate] at hle
    have ht0 : t ≠ 0 := by omega
    obtain ⟨hthere, hrest⟩ := ones_of_copy hmem ht0 (by omega) (by omega) hwrite
    obtain ⟨rfl, rfl⟩ := eq_of_ones ht0 hthere hrest hmeant hother
    exact ⟨ht, .inr (by omega)⟩

end Copied

lemma map_length_ones (r : ReturnWindow) : r.ones.output.map length = r.output := by
  unfold ones
  cases r.output with
  | none => rfl
  | some n => exact congrArg some length_replicate

lemma fits_of_delivers (hs : m.cfg.Sound)
    (hop : m.cfg.locateOpCode opcode = some (.call kind)) (hnarrows : r.Narrows)
    (hdelivers : r.Delivers m kind opcode) : r.Fits := by
  obtain ⟨p, f2, hends, hmemory⟩ := ends_facing hs hnarrows kind
  have hstack : (r.facing kind).stack = r.operands.words kind ++ [] := (append_nil _).symm
  have hlen : (r.facing kind).stack.length ≤ 1024 := by
    show (r.operands.words kind).length ≤ 1024
    cases kind <;> simp [CallOperands.words, CallOperands.values]
  have hlength : f2.memory.length = r.memory := by rw [hmemory, length_replicate]
  obtain ⟨f', hrun, hdelivered⟩ := hdelivers _ _ r.operands [] p f2 r.ones (facing_metered r kind)
    hlen hstack rfl rfl hends hlength r.map_length_ones
  obtain ⟨w, hreturn⟩ := (hends.returning hs hop (facing_metered r kind) hlen hstack).run
  rw [hreturn] at hrun
  obtain ⟨g, hcopy, hsame⟩ := deliver_eq_ok hrun
  obtain ⟨g0, hstart, hwrite⟩ : ∃ g0 : Frame, g0.memory = f2.memory ∧
      memoryWrite r.offset.intValue r.size.intValue r.ones.output g0 = .ok () g := by
    refine ⟨_, ?_, hcopy⟩
    rfl
  have htaken := VmResult.length_bytes r.map_length_ones
  unfold Fits
  cases hout : r.output with
  | none =>
    have hnone : r.ones.output = none := by unfold ones; rw [hout]; rfl
    rw [hnone] at hwrite
    exact growable_of_copy (by rw [hstart, hlength]) hwrite
  | some n =>
    have hones : r.ones.output = some (replicate n 1) := by unfold ones; rw [hout]; rfl
    have hbytes : r.ones.bytes = replicate n 1 := by
      unfold VmResult.bytes
      rw [hones]
      rfl
    rw [hones] at hwrite
    refine taken_of_copy (hstart.trans hmemory) hwrite (fun i hi => ?_) fun i hi => ?_
    · -- the window of the delivered memory holds the ones
      have hwindow := congrArg (fun store : Bytes => store[i]?) hdelivered.output
      rw [htaken, getElem?_window hi, hbytes, take_replicate, getElem?_replicate,
        if_pos (by rw [← htaken, hbytes, length_replicate] at hi; exact hi), hsame] at hwindow
      rw [getD_eq_getElem?_getD, hwindow]
      rfl
    · rw [← htaken] at hi
      have hkept := hdelivered.memory i hi
      unfold Frame.byteAt at hkept
      rw [← hsame, hkept, hmemory]
      exact getD_zeros _ i

end ReturnWindow

/-! ## The result of a call -/

/-- **The result of a call.** Every result is delivered into a window exactly when the window fits,
or no callee is ever started for it. -/
theorem delivers_iff {m : Machine} (hs : m.cfg.Sound) {kind : CallKind} {opcode : UInt8}
    (hop : m.cfg.locateOpCode opcode = some (.call kind)) (r : ReturnWindow) :
    r.Delivers m kind opcode ↔ r.Fits ∨ ¬ r.Narrows := by
  refine ⟨fun hdelivers => ?_, delivers_of_fits hs hop⟩
  by_cases hnarrows : r.Narrows
  · exact .inl (ReturnWindow.fits_of_delivers hs hop hnarrows hdelivers)
  · exact .inr hnarrows

theorem call_delivers_longer :
    ReturnWindow.Delivers .sample .call 0xF1 ⟨0, 32, some 64, 0, by simp, by decide⟩ :=
  (delivers_iff (configAt_sound 1700000000) rfl _).mpr
    (.inl ⟨show intValue 32 = 32 by decide, .inr (show 0 + 32 ≤ 2147483616 by decide)⟩)

set_option synthInstance.maxSize 1000 in
/-- `PUSH1 32; PUSH1 0; PUSH1 1; PUSH1 0; PUSH1 4; PUSH2 0xffff; STATICCALL`: the copying precompile
gets one byte and returns it, and the window has 32. -/
theorem staticCall_shorter : ∃ f p f2 result, Executes .sample (fun _ => True) f ∧
      f.currentOp .sample = some (.call .staticCall) ∧
      CallEnds .sample (vm .sample 1) .staticCall f p f2 result ∧ result.output = some [0] ∧
      ∃ e f', runStep .sample (vm .sample 1) 0xFA f = .err e f' := by
  obtain ⟨f, hf, hop, herr, f1, hcharge, st | p, f2, hprepare, p', hp, result, w, hended, hends⟩ :=
    @exists_executes_of (fun f => f.currentOp .sample = some (.call .staticCall) ∧
      (∃ e f', runStep .sample (vm .sample 1) 0xFA f = .err e f') ∧
      ∃ f1, charge .sample (.call .staticCall) f = .ok none f1 ∧
      ∃ x f2, prepareCall .staticCall Machine.sample.callStipend f1 = .ok x f2 ∧
      ∃ p, x.toOption = some p ∧
      ∃ result w, (vm .sample 1).executeCall ⟨.staticCall, f2.contract.toRef, p.toAddr, p.args,
          p.gasLimit, p.value.bigIntegerValue⟩ f2.world = .ok result w ∧
        result.isSuccess = true ∧ 0 ≤ result.gas ∧ result.gas ≤ p.gasLimit ∧
        result.output = some [0])
      [0x60, 32, 0x60, 0, 0x60, 1, 0x60, 0, 0x60, 4, 0x61, 0xFF, 0xFF, 0xFA] 10000 1 6 (by decide)
      (by decide +kernel)
  · cases hp
  · cases hp
    obtain ⟨hsuccess, hnonneg, hle, houtput⟩ := hends
    exact ⟨f, p, f2, result, hf, hop,
      ⟨⟨f1, hcharge, hprepare⟩, ⟨w, hended⟩, .inl hsuccess, hnonneg, hle⟩, houtput, herr⟩

end GrapeDag
