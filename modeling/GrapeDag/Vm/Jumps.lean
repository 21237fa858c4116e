/-
JUMPS TO 256-BIT DESTINATIONS.

`JUMP` and `JUMPI` narrow the destination twice: `longValue` keeps its low 64 bits, SIGNED, for
the comparison with the size of the code and for the new counter, and the cast to `int` keeps
the low 32 bits for the look-up.

Main result: `jump_iff`.
-/
import GrapeDag.Vm.MemoryPaid

namespace GrapeDag

open Imperative GrapeDag.Frame Prog

/-! ## Destinations -/

/-- A position that jumps may go to: a `JUMPDEST` byte outside push data. -/
def JumpDest (code : Bytes) (i : Nat) : Prop := Boundary code i ∧ code[i]? = some 0x5b

lemma getValidJumps_eq_one {code : Bytes} {i : Nat} :
    (getValidJumps 0 code).getD i 0 = 1 ↔ JumpDest code i := by
  rw [getValidJumps_iff (by decide)]
  unfold JumpDest
  simp only [jumpMark_eq_one, exists_eq_right]

instance (code : Bytes) (i : Nat) : Decidable (JumpDest code i) := decidable_of_iff _ getValidJumps_eq_one

lemma JumpDest.lt_length {code : Bytes} {i : Nat} (h : JumpDest code i) : i < code.length := by
  by_contra hge
  have hbyte := h.2
  rw [List.getElem?_eq_none (by omega)] at hbyte
  cases hbyte

lemma isValidJumpDest_apply (dest : Int) (f : Frame) : isValidJumpDest dest 1 f =
      if dest ≥ f.contract.code.length then .ok false f
      else if 0 ≤ wrap32 dest ∧ wrap32 dest < f.contract.code.length then
        .ok (decide (JumpDest f.contract.code (wrap32 dest).toNat)) f
      else .err .indexOutOfBounds f := by
  unfold isValidJumpDest checkElementIndex
  rw [gets_bind]
  by_cases hend : dest ≥ f.contract.code.length
  · rw [if_pos hend, if_pos hend]
    rfl
  · rw [if_neg hend]
    split
    · simp only [← getValidJumps_eq_one]
      rfl
    · rfl

lemma jumpTo_apply (pos : Int) (f : Frame) : jumpTo pos f =
      if pos ≥ f.contract.code.length then .ok ⟨.badJumpDestination, none⟩ f
      else if 0 ≤ wrap32 pos ∧ wrap32 pos < f.contract.code.length then
        if JumpDest f.contract.code (wrap32 pos).toNat then
          .ok ⟨.success, none⟩ { f with pc := wrap64 (pos - 1) }
        else .ok ⟨.badJumpDestination, none⟩ f
      else .err .indexOutOfBounds f := by
  have hvalid := isValidJumpDest_apply pos f
  unfold jumpTo
  by_cases hend : pos ≥ f.contract.code.length
  · rw [if_pos hend] at hvalid ⊢
    rw [bind_of_ok hvalid]
    rfl
  rw [if_neg hend] at hvalid ⊢
  by_cases hin : 0 ≤ wrap32 pos ∧ wrap32 pos < f.contract.code.length
  · rw [if_pos hin] at hvalid ⊢
    rw [bind_of_ok hvalid]
    by_cases hdest : JumpDest f.contract.code (wrap32 pos).toNat
    · rw [if_pos hdest, if_pos (decide_eq_true hdest)]
      rfl
    · rw [if_neg hdest, if_neg (by simpa using hdest)]
      rfl
  · rw [if_neg hin] at hvalid ⊢
    exact bind_of_err hvalid

/-! ## Jumps that do what they should -/

/-- What a jump of frame `f` to `dest` should end in: the frame goes on at `dest` (the loop raises
the counter once more), or with a bad destination. -/
def JumpsRight (f : Frame) (dest : Word) (rest : List Word) (o : Outcome JavaException Frame FnResult) :
    Prop :=
  if JumpDest f.contract.code dest.toNat then
    o = .ok ⟨.success, none⟩ { f with stack := rest, pc := (dest.toNat : Int) - 1 }
  else o = .ok ⟨.badJumpDestination, none⟩ { f with stack := rest }

/-- The jump instructions that are taken, with the destination on top of the stack. -/
inductive TakesJump (f : Frame) (dest : Word) (rest : List Word) : Java Frame FnResult → Prop
  | jump (h : f.stack = dest :: rest) : TakesJump f dest rest opJump
  | jumpI {condition : Word} (h : f.stack = dest :: condition :: rest) (hcond : condition ≠ 0) :
      TakesJump f dest rest opJumpI

lemma TakesJump.apply {f : Frame} {dest : Word} {rest : List Word} {op : Java Frame FnResult}
    (h : TakesJump f dest rest op) : op f = jumpTo dest.longValue { f with stack := rest } := by
  cases h with
  | jump h =>
    unfold opJump
    rw [pop_bind h]
  | @jumpI condition h hcond =>
    unfold opJumpI
    have htaken : ¬ condition.isZero = true := by
      unfold Word.isZero
      simpa using hcond
    rw [pop_bind h, pop_bind rfl, if_neg htaken]

/-- A destination that the two casts do not turn into a wrong one: it is smaller than `2^63`, or its
low 64 bits are past the end, or its low 32 bits are a position of the code but no destination. -/
def NarrowsRight (code : Bytes) (dest : Word) : Prop :=
  dest.toNat < 2 ^ 63 ∨ code.length ≤ dest.longValue ∨
    (0 ≤ dest.intValue ∧ dest.intValue < code.length ∧ ¬ JumpDest code dest.intValue.toNat)

lemma jumpsRight_of_lt {f : Frame} (hlen : f.contract.code.length ≤ 2147483647) {dest : Word}
    {rest : List Word} (hsmall : dest.toNat < 2 ^ 63) :
    JumpsRight f dest rest (jumpTo dest.longValue { f with stack := rest }) := by
  have hlong : dest.longValue = dest.toNat := wrap64_of_isLong (by omega)
  unfold JumpsRight
  rw [jumpTo_apply, hlong]
  by_cases hend : (dest.toNat : Int) ≥ f.contract.code.length
  · have hno : ¬ JumpDest f.contract.code dest.toNat := fun h => by
      have := h.lt_length
      omega
    rw [if_neg hno, if_pos hend]
  · have hint : wrap32 dest.toNat = dest.toNat := wrap32_of_isInt (by omega)
    have hback : wrap64 ((dest.toNat : Int) - 1) = dest.toNat - 1 := wrap64_of_isLong (by omega)
    have hin : (0 : Int) ≤ dest.toNat ∧ (dest.toNat : Int) < f.contract.code.length := by omega
    rw [if_neg hend, hint, hback, if_pos hin, Int.toNat_natCast]
    by_cases hdest : JumpDest f.contract.code dest.toNat
    · rw [if_pos hdest, if_pos hdest]
    · rw [if_neg hdest, if_neg hdest]

/-- **Jumps.** A taken `JUMP` or `JUMPI` goes on at its destination, or fails with a bad
destination, exactly when the casts do not turn the destination into a wrong one. -/
theorem jump_iff {f : Frame} (hlen : f.contract.code.length ≤ 2147483647) {dest : Word}
    {rest : List Word} {op : Java Frame FnResult} (hop : TakesJump f dest rest op) :
    JumpsRight f dest rest (op f) ↔ NarrowsRight f.contract.code dest := by
  rw [hop.apply]
  by_cases hsmall : dest.toNat < 2 ^ 63
  · exact ⟨fun _ => .inl hsmall, fun _ => jumpsRight_of_lt hlen hsmall⟩
  -- no position of the code: only the bad destination would be right
  have hno : ¬ JumpDest f.contract.code dest.toNat := fun h => by
    have := h.lt_length
    omega
  unfold JumpsRight NarrowsRight
  rw [if_neg hno, jumpTo_apply, wrap32_longValue]
  simp only [hsmall, false_or]
  by_cases hend : dest.longValue ≥ f.contract.code.length
  · simp only [hend, if_true, true_or]
  simp only [hend, if_false, false_or]
  by_cases hin : 0 ≤ dest.intValue ∧ dest.intValue < f.contract.code.length
  · simp only [hin, and_self, if_true, true_and]
    by_cases hdest : JumpDest f.contract.code dest.intValue.toNat
    · simp [hdest]
    · simp [hdest]
  · rw [if_neg hin, ← and_assoc]
    simp only [hin, reduceCtorEq, false_and]

theorem jumpI_over_invalid :
    JumpsRight { Frame.sample [0x60, 0x04, 0x57, 0xfe, 0x5b] 1000 with stack := [4, 1] } 4 []
      (opJumpI { Frame.sample [0x60, 0x04, 0x57, 0xfe, 0x5b] 1000 with stack := [4, 1] }) :=
  (jump_iff (by decide) (.jumpI rfl (by decide))).mpr (.inl (by decide))

/-- `PUSH9 (2^64 + 11); JUMP; JUMPDEST; STOP`: the code has 13 bytes, and the jump goes to the
`JUMPDEST` at 11. -/
theorem jump_beyond_code :
    ∃ f, Executes .sample (fun _ => True) f ∧ f.currentOp .sample = some .jump ∧
      f.stack = [18446744073709551627] ∧ f.contract.code.length = 13 ∧
      ¬ JumpsRight f 18446744073709551627 [] (opJump f) := by
  obtain ⟨f, hf, hop, hstack, hcode⟩ := @exists_executes_of
    (fun f => f.currentOp .sample = some .jump ∧ f.stack = [18446744073709551627] ∧
      f.contract.code = [0x68, 1, 0, 0, 0, 0, 0, 0, 0, 11, 0x56, 0x5b, 0x00])
    [0x68, 1, 0, 0, 0, 0, 0, 0, 0, 11, 0x56, 0x5b, 0x00] 1000 1 1 (by decide) (by decide +kernel)
  refine ⟨f, hf, hop, hstack, by rw [hcode]; rfl, ?_⟩
  unfold JumpsRight
  rw [(TakesJump.jump hstack).apply, jumpTo_apply]
  rw [hcode, if_neg (by decide), if_neg (by decide), if_pos (by decide), if_pos (by decide)]
  simp

end GrapeDag
