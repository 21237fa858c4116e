/-
THE JAVA THE VM IS WRITTEN IN.

Statuses, exceptions and machine integers of the Java side. A Java `int` or `long` is an `Int`
that the operations keep in range (`Math.*Exact` throws where plain arithmetic wraps); a
`BigInteger` is an `Int` without any range.
-/
import Mathlib.Data.Int.Init
import Mathlib.Tactic.Linarith
import GrapeDag.Lib.Prog

namespace GrapeDag

open Imperative

/-! ## Statuses -/

/-- `VmStatus.java`. `stopToken` ends the interpreter loop and counts as success. -/
inductive VmStatus where
  | success | stopToken | failure | outOfGas | codestoreOutOfGas | callDepthExceeded
  | insufficientBalance | contractAddressCollision | revert | codesizeExceedsMaximum
  | badJumpDestination | invalidBeginsub | invalidJumpsub | staticModeViolation
  | returnDataOutOfBounds | gasUnitOverflow | nonceUnitOverflow | invalidContractCode
  | invalidInstruction | stackOverflow | stackUnderflow | argumentOutOfRange
  | invalidArgument | precompileError | internalError | rejected | outOfMemory
  | memoryCapacityExceeds | unexpectedBehavior | inconsistentState
  deriving Repr, DecidableEq

namespace VmStatus

/-- The error code given to each constant of the enumeration. -/
def code : VmStatus → Int
  | success => 0 | stopToken => 0 | failure => 1 | outOfGas => 2 | codestoreOutOfGas => 3
  | callDepthExceeded => 4 | insufficientBalance => 5 | contractAddressCollision => 6
  | revert => 7 | codesizeExceedsMaximum => 8 | badJumpDestination => 9
  | invalidBeginsub => 10 | invalidJumpsub => 11 | staticModeViolation => 12
  | returnDataOutOfBounds => 13 | gasUnitOverflow => 14 | nonceUnitOverflow => 15
  | invalidContractCode => 16 | invalidInstruction => 17 | stackOverflow => 18
  | stackUnderflow => 19 | argumentOutOfRange => 20 | invalidArgument => 21
  | precompileError => 22 | internalError => -1 | rejected => -2 | outOfMemory => -3
  | memoryCapacityExceeds => -4 | unexpectedBehavior => -5 | inconsistentState => -6

def isSuccess (st : VmStatus) : Bool := st.code = 0

def isFailure (st : VmStatus) : Bool := st.code ≠ 0

end VmStatus

/-! ## Exceptions -/

/-- The checked `ExecutionException`s a message can be refused with. -/
inductive ExecutionException where
  | nonceModification | senderNoEOA | insufficientFounds | intrinsicGas
  deriving Repr, DecidableEq

/-- What a modelled Java method can throw. The text of an exception is not kept; `vm` and
`interpreter` carry the status the source gives them. -/
inductive JavaException where
  | vm (status : VmStatus)
  | interpreter (status : VmStatus)
  | execution (kind : ExecutionException)
  | arithmetic
  | nullPointer
  | indexOutOfBounds
  | negativeArraySize
  | illegalArgument
  | illegalState
  /-- a gRPC call answered with an error -/
  | statusRuntime
  deriving Repr, DecidableEq

/-- A Java method over the mutable state `σ`. -/
abbrev Java (σ α : Type) := Prog JavaException σ α

/-! ## Machine integers -/

/-- The value of an `int` expression whose exact value is `x`. -/
def wrap32 (x : Int) : Int := x.bmod 4294967296

/-- The value of a `long` expression whose exact value is `x`. -/
def wrap64 (x : Int) : Int := x.bmod 18446744073709551616

def intMax : Int := 2147483647

def longMax : Int := 9223372036854775807

abbrev IsInt (x : Int) : Prop := -2147483648 ≤ x ∧ x ≤ 2147483647

abbrev IsLong (x : Int) : Prop := -9223372036854775808 ≤ x ∧ x ≤ 9223372036854775807

lemma isInt_wrap32 (x : Int) : IsInt (wrap32 x) := by
  have h1 := Int.le_bmod (x := x) (m := 4294967296) (by decide)
  have h2 := Int.bmod_lt (x := x) (m := 4294967296) (by decide)
  unfold wrap32
  omega

lemma isLong_wrap64 (x : Int) : IsLong (wrap64 x) := by
  have h1 := Int.le_bmod (x := x) (m := 18446744073709551616) (by decide)
  have h2 := Int.bmod_lt (x := x) (m := 18446744073709551616) (by decide)
  unfold wrap64
  omega

lemma wrap32_of_isInt {x : Int} (h : IsInt x) : wrap32 x = x :=
  Int.bmod_eq_of_le (by have := h.1; omega) (by have := h.2; omega)

lemma wrap64_of_isLong {x : Int} (h : IsLong x) : wrap64 x = x :=
  Int.bmod_eq_of_le (by have := h.1; omega) (by have := h.2; omega)

lemma IsInt.isLong {x : Int} (h : IsInt x) : IsLong x := by
  omega

/-! ## The exact operations -/

abbrev Checked (α : Type) := Except JavaException α

lemma Checked.bind_eq_ok {α β : Type} {x : Checked α} {f : α → Checked β} {b : β} :
    (x >>= f) = .ok b ↔ ∃ a, x = .ok a ∧ f a = .ok b := by
  cases x with
  | error e =>
    constructor
    · intro h; cases h
    · rintro ⟨_, h, _⟩; cases h
  | ok a =>
    constructor
    · intro h; exact ⟨a, rfl, h⟩
    · rintro ⟨_, h, hf⟩; cases h; exact hf

section Exact

/-- `Math.toIntExact(long)` and `BigInteger.intValueExact()`. -/
def toIntExact (x : Int) : Checked Int :=
  if IsInt x then .ok x else .error .arithmetic

/-- `BigInteger.longValueExact()`, and the overflow test of the `long` operations. -/
def toLongExact (x : Int) : Checked Int :=
  if IsLong x then .ok x else .error .arithmetic

def addExact (x y : Int) : Checked Int := toLongExact (x + y)

def subtractExact (x y : Int) : Checked Int := toLongExact (x - y)

def multiplyExact (x y : Int) : Checked Int := toLongExact (x * y)

def addExactInt (x y : Int) : Checked Int := toIntExact (x + y)

def divide (x y : Int) : Checked Int :=
  if y = 0 then .error .arithmetic else .ok (x.tdiv y)

/-- `Math.multiplyFull(int, int)`: the product of two `int`s fits a `long`. -/
def multiplyFull (x y : Int) : Int := x * y

lemma toLongExact_eq_ok {x y : Int} : toLongExact x = .ok y ↔ IsLong x ∧ y = x := by
  unfold toLongExact
  by_cases h : IsLong x
  · rw [if_pos h]
    exact ⟨fun hy => ⟨h, (Except.ok.inj hy).symm⟩, fun hy => congrArg _ hy.2.symm⟩
  · rw [if_neg h]
    exact ⟨nofun, fun hy => absurd hy.1 h⟩

lemma toLongExact_eq_error {x : Int} (h : ¬ IsLong x) : toLongExact x = .error .arithmetic := if_neg h

lemma addExact_of_isLong {x y : Int} (h : IsLong (x + y)) : addExact x y = .ok (x + y) :=
  toLongExact_eq_ok.mpr ⟨h, rfl⟩

lemma divide_eq_ok {x y z : Int} : divide x y = .ok z ↔ y ≠ 0 ∧ z = x.tdiv y := by
  unfold divide
  by_cases h : y = 0 <;> simp [h, eq_comm]

end Exact

end GrapeDag
