/-
WHERE THE PROGRAM COUNTER CAN BE.

A linear scan of the code that skips push data reaches the BOUNDARIES of the code. Three
instructions set the counter: `PUSHn` steps over its data; `JUMP`, `JUMPI` and `JUMPSUB` look
the destination up after a cast to `int`, so that a NEGATIVE `long` whose low 32 bits are a
destination is accepted; `RETURNSUB` goes to ONE MORE THAN ANY WORD on the stack, without a
test.

Main result: `counter_at_boundary`.
-/
import GrapeDag.Vm.Step

namespace GrapeDag

open Imperative GrapeDag.Frame Prog

/-! ## Boundaries -/

def pushSize (opcode : UInt8) : Nat :=
  if 0x60 ≤ opcode.toNat ∧ opcode.toNat ≤ 0x7f then opcode.toNat - 0x5f else 0

/-- An instruction starts here: the data of a PUSH is skipped. -/
inductive Boundary (code : Bytes) : Nat → Prop
  | start : Boundary code 0
  | next {i : Nat} {b : UInt8} (h : Boundary code i) (hb : code[i]? = some b) :
      Boundary code (i + 1 + pushSize b)

/-- At an instruction or past the end, where the code stops. -/
def ValidPc (code : Bytes) (pc : Int) : Prop := 0 ≤ pc ∧ (code.length ≤ pc ∨ Boundary code pc.toNat)

def Frame.AtBoundary (f : Frame) : Prop := ValidPc f.contract.code f.pc

def Op.dataSize : Op → Nat
  | .push n => n
  | _ => 0

variable {op : Op}

lemma pushSize_of_decode {fuelOptimization : Bool} {code : UInt8}
    (h : decode fuelOptimization code = some op) : pushSize code = op.dataSize := by
  unfold pushSize
  obtain ⟨hlo, hhi, rfl⟩ | ⟨hout, hpush, -⟩ := decode_cases h
  · exact if_pos ⟨hlo, hhi⟩
  · rw [if_neg hout]
    cases op
    case push n => exact absurd rfl (hpush n)
    all_goals rfl

/-- The mark that the scan of `getValidJumps` gives an opcode. -/
def jumpMark (opcode : UInt8) : Nat :=
  if opcode = 0x5b then 1 else if opcode = 0x5c then 2 else 0

lemma jumpMark_eq_one {opcode : UInt8} : jumpMark opcode = 1 ↔ opcode = 0x5b := by
  unfold jumpMark
  split
  · simp_all
  · split <;> simp_all

lemma pushSize_of_jumpMark {opcode : UInt8} (h : jumpMark opcode ≠ 0) : pushSize opcode = 0 := by
  unfold jumpMark at h
  split at h
  · rename_i hb; rw [hb]; rfl
  · split at h
    · rename_i hb; rw [hb]; rfl
    · exact absurd rfl h

lemma getValidJumps_cons (b : UInt8) (rest : Bytes) :
    getValidJumps 0 (b :: rest) = jumpMark b :: getValidJumps (pushSize b) rest := by
  unfold pushSize jumpMark
  rw [getValidJumps]
  by_cases hpush : 0x60 ≤ b.toNat ∧ b.toNat ≤ 0x7f
  · have h1 : b ≠ 0x5b := by rintro rfl; simp at hpush
    have h2 : b ≠ 0x5c := by rintro rfl; simp at hpush
    simp only [if_pos hpush, if_neg h1, if_neg h2]
  · simp only [if_neg hpush]
    split
    · rfl
    · split <;> rfl

variable {code : Bytes}

lemma Boundary.next_le : ∀ (n : Nat) {i j : Nat} {b : UInt8}, j ≤ n →
    Boundary code i → Boundary code j → code[i]? = some b → i < j → i + 1 + pushSize b ≤ j := by
  intro n
  induction n with
  | zero =>
    intro i j b hj _ _ _ hlt
    omega
  | succ n ih =>
    intro i j b hj hi hbj hb hlt
    cases hbj with
    | start => omega
    | @next i' b' hi' hb' =>
      -- the boundary before `j` is `i` itself: it can be neither smaller nor larger
      rcases Nat.lt_trichotomy i i' with hless | rfl | hmore
      · have := ih (by omega) hi hi' hb hless
        omega
      · rw [hb] at hb'
        cases hb'
        exact Nat.le_refl _
      · have := ih (by omega) hi' hi hb' hmore
        omega

variable {kind : Nat}

/-- The scan of `getValidJumps` marks exactly the two jump opcodes at boundaries. The scan
stands at `k`, with `skip` bytes of data before the next boundary. -/
theorem getValidJumps_eq_iff (hkind : kind ≠ 0) :
    ∀ (rest : Bytes) (k skip i : Nat), code.drop k = rest → Boundary code (k + skip) →
      (∀ j, Boundary code j → k ≤ j → k + skip ≤ j) →
      ((getValidJumps skip rest).getD i 0 = kind ↔
        Boundary code (k + i) ∧ ∃ b, code[k + i]? = some b ∧ jumpMark b = kind) := by
  intro rest
  induction rest with
  | nil =>
    intro k skip i hdrop _ _
    have hend : code.length ≤ k + i := by
      have := List.drop_eq_nil_iff.mp hdrop
      omega
    simp only [getValidJumps, List.getD_nil, List.getElem?_eq_none hend, reduceCtorEq, false_and,
      exists_false, and_false, iff_false]
    exact hkind.symm
  | cons b rest ih =>
    intro k skip i hdrop hscan hnone
    have hb : code[k]? = some b := by
      have := congrArg List.head? hdrop
      simpa using this
    have htail : code.drop (k + 1) = rest := by
      have := congrArg List.tail hdrop
      simpa using this
    cases skip with
    | succ skip =>
      -- a byte of data: never marked
      cases i with
      | zero =>
        have hdata : ¬ Boundary code (k + 0) := fun hk => by
          have := hnone _ hk (Nat.le_refl _)
          omega
        simp only [hdata, false_and, iff_false]
        exact fun hmark => hkind hmark.symm
      | succ i =>
        have hnext := ih (k + 1) skip i htail (by rw [Nat.add_right_comm]; exact hscan)
          (fun j hj hle => by have := hnone j hj (by omega); omega)
        rw [Nat.add_right_comm k 1 i] at hnext
        exact hnext
    | zero =>
      rw [getValidJumps_cons]
      cases i with
      | zero =>
        simp only [List.getD_cons_zero, Nat.add_zero, hb, Option.some.injEq, exists_eq_left']
        exact ⟨fun hmark => ⟨hscan, hmark⟩, fun h => h.2⟩
      | succ i =>
        have hnext := ih (k + 1) (pushSize b) i htail (Boundary.next hscan hb)
          (fun j hj hle => Boundary.next_le j (Nat.le_refl j) hscan hj hb (by omega))
        rw [Nat.add_right_comm k 1 i] at hnext
        exact hnext

lemma getValidJumps_iff {i : Nat} (hkind : kind ≠ 0) : (getValidJumps 0 code).getD i 0 = kind ↔
      Boundary code i ∧ ∃ b, code[i]? = some b ∧ jumpMark b = kind := by
  have hscan := getValidJumps_eq_iff hkind code 0 0 i rfl Boundary.start (fun j _ _ => Nat.zero_le j)
  rwa [Nat.zero_add] at hscan

/-! ## Instructions that leave the counter alone -/

structure PcKept (f f' : Frame) : Prop where
  pc : f'.pc = f.pc
  code : f'.contract.code = f.contract.code

instance : IsPreorder Frame PcKept where
  refl _ := ⟨rfl, rfl⟩
  trans _ _ _ h1 h2 := ⟨h2.pc.trans h1.pc, h2.code.trans h1.code⟩

instance : Callwise PcKept where
  stack _ _ := ⟨rfl, rfl⟩
  memory _ _ := ⟨rfl, rfl⟩
  gas _ _ := ⟨rfl, rfl⟩
  returnData _ _ := ⟨rfl, rfl⟩

instance : Worldwise PcKept where
  world _ _ := ⟨rfl, rfl⟩

lemma pcKept_locateFn (m : Machine) (calls : Calls) (op : Op) (h : op.setsPc = false) :
    Keeps PcKept (locateFn m calls op) := by
  cases op with
  | jump | jumpI | returnSub | jumpSub | push n => cases h
  | sstore => exact steps_opSStore.keeps
  | tstore => exact steps_opTStore.keeps
  | log n => exact (steps_opLog m n).keeps
  | selfDestruct => exact steps_opSelfDestruct.keeps
  | create kind =>
    refine .bind (steps_prepareCreate kind).keeps fun r => ?_
    cases r <;> dsimp only <;> infer_instance
  | call kind =>
    refine .bind (steps_prepareCall kind _).keeps fun r => ?_
    cases r <;> dsimp only <;> infer_instance
  | revert => unfold locateFn opRevert; infer_instance
  | sha3 | callDataCopy | codeCopy | extCodeCopy | returnDataCopy | mload | mstore | mstore8
  | return_ => exact (steps_memoryOp m calls _ rfl).keeps
  | _ => exact (steps_plain m calls _ rfl).keeps

structure Fetched (f f' : Frame) : Prop extends PcKept f f' where
  stack : f'.stack = f.stack

instance : Peekwise Fetched where
  refl _ := ⟨⟨rfl, rfl⟩, rfl⟩
  trans _ _ _ h1 h2 := ⟨trans_of PcKept h1.toPcKept h2.toPcKept, h2.stack.trans h1.stack⟩
  world _ _ _ := ⟨⟨rfl, rfl⟩, rfl⟩
  counters _ _ _ _ _ := ⟨⟨rfl, rfl⟩, rfl⟩

instance : Gaswise Fetched where
  gas _ _ := ⟨⟨rfl, rfl⟩, rfl⟩

/-! ## One turn -/

/-- The next turn fetches an instruction, if there is one. -/
def Lands (code : Bytes) (rc : FnResult) (f' : Frame) : Prop :=
  rc.hasError = true ∨ rc.status = .stopToken ∨ (f'.contract.code = code ∧ ValidPc code (wrap64 (f'.pc + 1)))

lemma ValidPc.of_boundary {pc : Int} {i : Nat} (h : Boundary code i)
    (hpc : pc = i) : ValidPc code pc := by
  subst hpc
  exact ⟨Int.natCast_nonneg i, .inr h⟩

/-- The instruction to execute has `n` bytes of data, and the next one starts behind them. -/
structure Frame.Faces (f : Frame) (n : Nat) : Prop where
  pc : 0 ≤ f.pc
  lt : f.pc.toNat < f.contract.code.length
  next : Boundary f.contract.code (f.pc.toNat + 1 + n)

lemma Frame.Faces.of_kept {f f' : Frame} {n : Nat} (hf : f.Faces n) (h : PcKept f f') :
    f'.Faces n := by
  obtain ⟨hpc, hlt, hnext⟩ := hf
  rw [← h.pc, ← h.code] at hlt hnext
  exact ⟨h.pc ▸ hpc, hlt, hnext⟩

section Flow

variable {f : Frame} (hlen : f.contract.code.length ≤ 2147483647)
include hlen

lemma wp_isValidJumpDest {dest : Int} (hkind : kind ≠ 0) (hdest : 0 ≤ dest) :
    wpRet (isValidJumpDest dest kind) (fun valid f' => f' = f ∧ (valid = true →
      Boundary f.contract.code dest.toNat ∧ dest < f.contract.code.length ∧
      ∃ b, f.contract.code[dest.toNat]? = some b ∧ pushSize b = 0)) f := by
  unfold isValidJumpDest
  rw [wpRet, wp_bind, wp_gets]
  refine .ite (fun _ => .pure ⟨rfl, by simp⟩) fun hlt => ?_
  rw [wp_bind, wp_liftM]
  refine ⟨fun _ _ => .pure ⟨rfl, fun hmark => ?_⟩, fun _ _ => trivial⟩
  have hint : wrap32 dest = dest := wrap32_of_isInt (by omega)
  rw [hint, decide_eq_true_eq] at hmark
  obtain ⟨hb, b, hbyte, hjump⟩ := (getValidJumps_iff hkind).mp hmark
  exact ⟨hb, not_le.mp hlt, b, hbyte, pushSize_of_jumpMark (hjump ▸ hkind)⟩

lemma lands_jumpTo {pos : Int} (hpos : 0 ≤ pos) : wpRet (jumpTo pos) (Lands f.contract.code) f := by
  refine wp_bind.mpr ((wp_isValidJumpDest hlen (by decide) hpos).post ?_)
  intro valid f1 hvalid
  obtain ⟨rfl, hvalid⟩ := hvalid
  refine .ite (fun hv => ?_) fun _ => .pure (.inl rfl)
  obtain ⟨hb, hlt, -⟩ := hvalid hv
  simp only [wp_bind, wp_modify, success, wp_pure]
  refine .inr (.inr ⟨rfl, ValidPc.of_boundary hb ?_⟩)
  have hback : wrap64 (pos - 1) = pos - 1 := wrap64_of_isLong (by omega)
  have hthere : wrap64 (pos - 1 + 1) = pos := by
    rw [Int.sub_add_cancel]
    exact wrap64_of_isLong (by omega)
  show wrap64 (wrap64 (pos - 1) + 1) = pos.toNat
  rw [hback]
  omega

lemma lands_opJumpSub (h : ∀ dest rest, f.stack = dest :: rest → 0 ≤ dest.longValue) :
    wpRet opJumpSub (Lands f.contract.code) f := by
  unfold opJumpSub
  rw [wpRet, wp_bind, wp_pop]
  refine ⟨fun _ => trivial, fun dest rest hs => wp_bind.mpr ?_⟩
  refine (wp_isValidJumpDest (f := { f with stack := rest }) hlen (by decide) (h dest rest hs)).mono
    ?_ (fun _ _ h => h)
  intro valid f1 hvalid
  obtain ⟨rfl, hvalid⟩ := hvalid
  refine .ite (fun hv => ?_) fun _ => .pure (.inl rfl)
  obtain ⟨hb, hlt, b, hbyte, hsize⟩ := hvalid hv
  -- the push leaves the code alone, and the counter is then set
  refine Keeps.wp_bind (R := PcKept) (steps_push _).keeps (fun _ _ _ => trivial) fun _ f2 h2 => ?_
  simp only [wp_bind, wp_modify, success, wp_pure]
  refine .inr (.inr ⟨h2.code, ValidPc.of_boundary (hb.next hbyte) ?_⟩)
  have hnext : wrap64 (dest.longValue + 1) = dest.longValue + 1 :=
    wrap64_of_isLong (by unfold IsLong; have := h dest rest hs; simp only at hlt; omega)
  have hpos := h dest rest hs
  dsimp only
  omega

lemma lands_opPush {n : Nat} (hf : f.Faces n) : wpRet (opPush n) (Lands f.contract.code) f := by
  have hpc := hf.pc
  unfold opPush
  rw [wpRet, wp_bind, wp_gets, wp_bind, wp_gets]
  refine .ite (fun _ => .pure (.inl rfl)) fun hfits => ?_
  refine Keeps.wp_bind (R := PcKept) (.liftM _) (fun _ _ _ => trivial) fun _ f1 h1 => ?_
  refine Keeps.wp_bind (R := PcKept) (.liftM _) (fun _ _ _ => trivial) fun _ f2 h2 => ?_
  refine Keeps.wp_bind (R := PcKept) (.liftM _) (fun _ _ _ => trivial) fun _ f3 h3 => ?_
  refine Keeps.wp_bind (R := PcKept) (steps_pushBytes _).keeps (fun _ _ _ => trivial) fun _ f4 h4 => ?_
  have hkept := trans_of PcKept (trans_of PcKept h1 h2) (trans_of PcKept h3 h4)
  simp only [wp_bind, wp_modify, wp_pure]
  refine .inr (.inr ⟨hkept.code, ValidPc.of_boundary hf.next ?_⟩)
  have hover : wrap64 (f.pc + n) = f.pc + n := wrap64_of_isLong (by omega)
  have hnext : wrap64 (f.pc + n + 1) = f.pc + n + 1 := wrap64_of_isLong (by omega)
  show wrap64 (wrap64 (f4.pc + n) + 1) = _
  rw [hkept.pc, hover]
  omega

lemma lands_of_pcKept {f' : Frame} {rc : FnResult} (hf : f.Faces 0) (h : PcKept f f') :
    Lands f.contract.code rc f' := by
  obtain ⟨hpc, hlt, hb⟩ := hf
  refine .inr (.inr ⟨h.code, ValidPc.of_boundary hb ?_⟩)
  have hnext : wrap64 (f.pc + 1) = f.pc + 1 := wrap64_of_isLong (by omega)
  rw [h.pc]
  omega

end Flow

/-- The condition on the instruction about to be executed: a jump goes to a destination that is
not negative, and a return to a boundary or past the end. -/
def Frame.FlowsIn (m : Machine) (f : Frame) : Prop :=
  match f.currentOp m, f.stack with
  | some .jump, dest :: _ => 0 ≤ dest.longValue
  | some .jumpI, dest :: condition :: _ => condition.isZero = true ∨ 0 ≤ dest.longValue
  | some .jumpSub, dest :: _ => 0 ≤ dest.longValue
  | some .returnSub, dest :: _ => ValidPc f.contract.code (wrap64 (dest.longValue + 1))
  | _, _ => True

section Turn

variable {m : Machine} {calls : Calls} {f : Frame} (hlen : f.contract.code.length ≤ 2147483647)
include hlen

lemma lands_locateFn {f1 : Frame} (hop : f.currentOp m = some op) (hflow : f.FlowsIn m)
    (hf : f.Faces op.dataSize) (h1 : Fetched f f1) :
    wpRet (locateFn m calls op) (Lands f.contract.code) f1 := by
  have hf1 := hf.of_kept h1.toPcKept
  have hcode := h1.code
  rw [← hcode] at hlen
  unfold Frame.FlowsIn at hflow
  rw [hop, ← h1.stack, ← hcode] at hflow
  rw [← hcode]
  cases op with
  | push n => exact lands_opPush hlen hf1
  | jump =>
    show wp opJump _ _ f1
    unfold opJump
    rw [wp_bind, wp_pop]
    refine ⟨fun _ => trivial, fun dest rest hs => ?_⟩
    rw [hs] at hflow
    exact lands_jumpTo (f := { f1 with stack := rest }) hlen hflow
  | jumpI =>
    show wp opJumpI _ _ f1
    unfold opJumpI
    rw [wp_bind, wp_pop]
    refine ⟨fun _ => trivial, fun dest rest hs => ?_⟩
    rw [wp_bind, wp_pop]
    refine ⟨fun _ => trivial, fun condition rest' hs' => ?_⟩
    simp only at hs'
    rw [hs, hs'] at hflow
    refine .ite (fun _ => .pure ?_) fun hc => ?_
    · -- not taken
      exact lands_of_pcKept hlen hf1 ⟨rfl, rfl⟩
    · rcases hflow with hz | hpos
      · exact absurd hz hc
      · exact lands_jumpTo (f := { f1 with stack := rest' }) hlen hpos
  | returnSub =>
    show wp opReturnSub _ _ f1
    unfold opReturnSub
    rw [wp_bind, wp_pop]
    refine ⟨fun _ => trivial, fun dest rest hs => ?_⟩
    rw [hs] at hflow
    simp only [wp_bind, wp_modify, success, wp_pure]
    refine .inr (.inr ⟨rfl, ?_⟩)
    dsimp only at hflow ⊢
    exact hflow
  | jumpSub =>
    refine lands_opJumpSub hlen fun dest rest hs => ?_
    rw [hs] at hflow
    exact hflow
  | _ =>
    exact ((pcKept_locateFn m calls _ rfl).wp f1).returned fun _ _ => lands_of_pcKept hlen hf1

omit hlen in
lemma wp_charge_static (op : Op) (h : gasHandler m op = none) :
    wpRet (charge m op) (fun r f' => Fetched f f' ∧ ∀ st, r = some st → st = .outOfGas) f := by
  have hkept := (keeps_charge m op : Keeps Fetched _).wp f
  have hstatus : wpRet (charge m op) (fun r _ => ∀ st, r = some st → st = .outOfGas) f := by
    unfold charge
    rw [wpRet, wp_bind, wp_useGas, h]
    simp only [Bool.false_eq_true, if_true, if_false, wp_pure]
    exact ⟨fun _ st hst => (Option.some.inj hst).symm, fun _ _ hst => by cases hst⟩
  exact (hkept.and hstatus).returned (fun _ _ h => h)

lemma lands_of_unpaid {f1 : Frame} {st : VmStatus} (hf : f.Faces op.dataSize) (h1 : Fetched f f1)
    (hstatus : gasHandler m op = none → st = .outOfGas) : Lands f.contract.code ⟨st, none⟩ f1 := by
  by_cases hnone : gasHandler m op = none
  · rw [hstatus hnone]
    exact .inl rfl
  -- only instructions without data have a handler
  have hdata : op.dataSize = 0 := by
    cases op with
    | push n => exact absurd rfl hnone
    | _ => rfl
  rw [hdata] at hf
  exact lands_of_pcKept hlen hf h1.toPcKept

lemma lands_runStep_boundary (hpc : 0 ≤ f.pc) (hb : Boundary f.contract.code f.pc.toNat)
    (hlt : f.pc < f.contract.code.length) (hflow : f.FlowsIn m) :
    wpRet (runStep m calls f.opcode) (Lands f.contract.code) f := by
  have hint : wrap32 f.pc = f.pc := wrap32_of_isInt (by omega)
  have hin : f.pc.toNat < f.contract.code.length := by omega
  have hopcode : f.opcode = f.contract.code[f.pc.toNat] := by
    unfold Frame.opcode
    rw [if_pos hlt, hint]
    simp [hin]
  have hbyte : f.contract.code[f.pc.toNat]? = some f.opcode := by
    rw [hopcode]
    exact List.getElem?_eq_getElem hin
  unfold runStep
  cases hop : m.cfg.locateOpCode f.opcode with
  | none => exact .pure (.inl rfl)
  | some op =>
    have hf : f.Faces op.dataSize := ⟨hpc, hin, pushSize_of_decode hop ▸ hb.next hbyte⟩
    have hpaid : wpRet (charge m op) (fun r f' => Fetched f f' ∧
        ∀ st, r = some st → gasHandler m op = none → st = .outOfGas) f := by
      by_cases hnone : gasHandler m op = none
      · exact (wp_charge_static op hnone).post (fun _ _ h => ⟨h.1, fun st hst _ => h.2 st hst⟩)
      · exact ((keeps_charge m op : Keeps Fetched _).wp f).returned
          (fun _ _ h => ⟨h, fun _ _ h' => absurd h' hnone⟩)
    refine wp_bind.mpr (hpaid.post ?_)
    intro paid f1 hf1
    obtain ⟨h1, hstatus⟩ := hf1
    cases paid with
    | some st => exact .pure (lands_of_unpaid hlen hf h1 (hstatus st rfl))
    | none => exact lands_locateFn hlen hop hflow hf h1

lemma turn_atBoundary (hf : f.AtBoundary) (hflow : f.FlowsIn m) :
    wpRet (turn m calls) (fun r f' => r = none →
      f'.contract.code = f.contract.code ∧ f'.AtBoundary) f := by
  have hstep : wpRet (runStep m calls f.opcode) (Lands f.contract.code) f := by
    obtain ⟨hpc, hvalid⟩ := hf
    by_cases hlt : f.pc < f.contract.code.length
    · have hb := hvalid.resolve_left (not_le.mpr hlt)
      exact lands_runStep_boundary hlen hpc hb hlt hflow
    -- past the end the loop reads `STOP`
    have hstop : f.opcode = 0 := by
      unfold Frame.opcode
      rw [if_neg hlt]
    rw [hstop]
    refine wp_bind.mpr ((wp_charge_static .stop rfl).post ?_)
    intro paid f1 hf1
    cases paid with
    | some st =>
      rw [hf1.2 st rfl]
      exact .pure (.inl rfl)
    | none => exact .pure (.inr (.inl rfl))
  refine wp_turn_of (fun _ _ => trivial) fun _ => hstep.post (fun rc f' hlands => ?_)
  refine ⟨fun _ => nofun, fun hgoes _ => ?_⟩
  rcases hlands with herr | hstop | ⟨hcode, hvalid⟩
  · exact absurd (.inl herr) hgoes
  · exact absurd (.inr hstop) hgoes
  · exact ⟨hcode, by show ValidPc f'.contract.code _; rw [hcode]; exact hvalid⟩

end Turn

/-! ## Runs -/

/-- **Control-flow integrity.** In every run in which no jump goes to a negative position and no
`RETURNSUB` leaves the boundaries, every instruction executed is at a boundary or past the end of
the code. -/
theorem counter_at_boundary {m : Machine} {f : Frame} (h : Executes m (Frame.FlowsIn m) f) :
    f.AtBoundary := by
  have hinv : f.contract.code.length ≤ 2147483647 ∧ f.AtBoundary := by
    -- the code never changes, so that its length stays that of an array
    induction h with
    | start contract w hcode => exact ⟨hcode, le_refl 0, .inr .start⟩
    | next h hflow hturn ih =>
      obtain ⟨hlen, hf⟩ := ih
      obtain ⟨hcode, hf'⟩ := (turn_atBoundary hlen hf hflow).of_ok hturn rfl
      exact ⟨by rw [hcode]; exact hlen, hf'⟩
  exact hinv.2

theorem jump_at_boundary : ∃ f, Executes .sample (Frame.FlowsIn .sample) f ∧ f.pc = 4 ∧ f.AtBoundary := by
  let test : Frame → Bool := fun f => f.currentOp .sample == some (.push 1)
    || (f.currentOp .sample == some .jump && f.stack == [4])
  have htest : ∀ f, test f = true → f.FlowsIn .sample := by
    intro f hf
    unfold Frame.FlowsIn
    rcases (Bool.or_eq_true _ _).mp hf with h | h
    · rw [beq_iff_eq.mp h]
      trivial
    · obtain ⟨hop, hstack⟩ := (Bool.and_eq_true _ _).mp h
      rw [beq_iff_eq.mp hop, beq_iff_eq.mp hstack]
      show 0 ≤ Word.longValue 4
      decide
  obtain ⟨f, hf, hpc⟩ := @exists_executes _ (·.pc = 4) test [0x60, 0x04, 0x56, 0xfe, 0x5b] 1000 1 2
    htest (by decide) (by decide +kernel)
  exact ⟨f, hf, hpc, counter_at_boundary hf⟩

lemma not_boundary_one {b : UInt8} {rest : Bytes} : ¬ Boundary (0x60 :: b :: rest) 1 := by
  intro h
  generalize hi : 1 = i at h
  cases h with
  | start => cases hi
  | @next i b' h hb' =>
    have hzero : i = 0 ∧ pushSize b' = 0 := by omega
    obtain ⟨rfl, hsize⟩ := hzero
    cases hb'
    exact absurd hsize (by decide)

/-- `PUSH1 0; RETURNSUB` goes on inside the push data, and a jump to `2^64 - 2^32 + 10` goes to the
`JUMPDEST` at 10 with a negative counter. -/
theorem counter_off_boundary : (∃ f, Executes .sample (fun _ => True) f ∧ ¬ f.AtBoundary ∧
      f.contract.code = [0x60, 0x00, 0x5d] ∧ f.pc = 1) ∧
    (∃ f, Executes .sample (fun _ => True) f ∧ f.pc < 0 ∧ f.currentOp .sample = some .jumpDest) := by
  refine ⟨?_, ?_⟩
  · obtain ⟨f, hf, hpc, hcode⟩ := @exists_executes_of
      (fun f => f.pc = 1 ∧ f.contract.code = [0x60, 0x00, 0x5d]) [0x60, 0x00, 0x5d] 1000 1 2
      (by decide) (by decide +kernel)
    refine ⟨f, hf, ?_, hcode, hpc⟩
    unfold Frame.AtBoundary
    rw [hpc, hcode]
    intro hvalid
    rcases hvalid.2 with hend | hb
    · exact absurd hend (by decide)
    · exact not_boundary_one hb
  · exact exists_executes_of [0x67, 0xff, 0xff, 0xff, 0xff, 0, 0, 0, 0x0a, 0x56, 0x5b] 1000 1 2
      (by decide) (by decide +kernel)

end GrapeDag
