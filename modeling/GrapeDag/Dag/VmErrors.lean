/-
THE ERROR TEXT OF A FAILED CONTRACT.

`parseVmError`, `newSolidityError`, `emptyHex` and the VM's answer in `executeSMCTx` of
`src/dag/pin.go`; `HexUtils.toHex`, `Receipts.from` and the answer to a failed execution in
`VmServer.java`. The output of a failed contract is parsed as a Solidity error: four bytes of
signature, an offset, a length, the data. A Go string is a sequence of bytes.

Main results: `revert_reason_decoded` (what the parser makes of `Error(string)`) and
`payload_parsed_iff` (which outputs of a failed contract do not crash the node).
-/
import GrapeDag.Vm.Message
import GrapeDag.Lib.Hex

namespace GrapeDag

open Imperative List Hex

/-! ## Go strings -/

abbrev GoString := Bytes

def ascii (s : String) : GoString := s.toList.map fun c => UInt8.ofNat c.toNat

abbrev GoPure (α : Type) := Except GoError α

def hasHexPrefix (s : GoString) : Bool := s.take 2 = ascii "0x"

/-- `s[low:high]` of a string, whose capacity is its length. Go bounds a slice of bytes by its
capacity: where this stands for one, it panics at bounds between the two, and Go does not. -/
def goSlice (s : GoString) (low high : Nat) : GoPure GoString :=
  if low ≤ high ∧ high ≤ s.length then .ok ((s.take high).drop low) else .error .panic

def wrapU64 (n : Nat) : Nat := n % 18446744073709551616

def parseUint (s : GoString) : Option Nat := (Hex.number? s).filter (· < 18446744073709551616)

lemma GoPure.bind_eq_ok {α β : Type} {x : GoPure α} {f : α → GoPure β} {b : β} :
    (x >>= f) = .ok b ↔ ∃ a, x = .ok a ∧ f a = .ok b := by
  cases x with
  | error e | ok a => simp [bind, Except.bind]

def orPanic {α : Type} : Option α → GoPure α
  | none => .error .panic
  | some a => .ok a

/-! ## Parsing -/

/-- What the hex text of a Solidity error says. -/
structure SolidityError where
  signature : GoString
  offset : Nat
  dataLen : Nat
  data : GoString
  raw : GoString
  deriving Repr, DecidableEq

/-- `newSolidityError` for an error with parameters. The positions are `uint64` values; the length
is read from the `offset` bytes behind the offset. -/
def errorWithParameters (hexErr trimmedErr : GoString) : GoPure SolidityError := do
  let offset ← orPanic (parseUint (← goSlice trimmedErr 8 72))
  let start := wrapU64 (72 + wrapU64 (offset * 2))
  let length ← orPanic (parseUint (← goSlice trimmedErr 72 start))
  let stop := wrapU64 (start + wrapU64 (length * 2))
  let errData ← orPanic (Hex.decode (← goSlice trimmedErr start stop))
  return ⟨← goSlice trimmedErr 0 8, offset, length, errData, hexErr⟩

def newSolidityError (hexErr : GoString) : GoPure SolidityError :=
  if hasHexPrefix hexErr then
    let trimmedErr := hexErr.drop 2
    match Hex.decode trimmedErr with
    | none => .error .panic
    | some bytes =>
        if bytes.length < 4 then .error .panic
        else if bytes.length < 100 then do
          return ⟨← goSlice trimmedErr 0 8, 0, 0, [], []⟩
        else errorWithParameters hexErr trimmedErr
  else .error .panic

/-- The error values of `parseVmError`. -/
inductive VmError where
  | solidity (e : SolidityError)
  | system (text : GoString)
  deriving Repr, DecidableEq

def parseVmError (err : GoString) : GoPure VmError := do
  if hasHexPrefix err then return .solidity (← newSolidityError err)
  else return .system (ascii "system VM error during tx execution: " ++ err)

/-- The method `Error` of the error values. -/
def VmError.text : VmError → GoString
  | .solidity e => e.data
  | .system text => text

def emptyHex (hex : GoString) : Bool := hex = [] ∨ hex = ascii "0x" ∨ hex.length ≤ 2

/-! ## The answer of the VM -/

/-- `HexUtils.toHex(value, true)` for a value that is not `null`. -/
def toHex (value : Bytes) : GoString :=
  if value.length = 0 then [] else ascii "0x" ++ Hex.encode value

def VmStatus.getName : VmStatus → String
  | success => "VM_SUCCESS" | stopToken => "VM_STOP_TOKEN" | failure => "VM_FAILURE"
  | outOfGas => "VM_OUT_OF_GAS" | codestoreOutOfGas => "VM_CODESTORE_OUT_OF_GAS"
  | callDepthExceeded => "VM_CALL_DEPTH_EXCEEDED"
  | insufficientBalance => "VM_INSUFFICIENT_BALANCE"
  | contractAddressCollision => "VM_CONTRACT_ADDRESS_COLLISION" | revert => "VM_REVERT"
  | codesizeExceedsMaximum => "VM_CODESIZE_EXCEEDS_MAXIMUM"
  | badJumpDestination => "VM_BAD_JUMP_DESTINATION" | invalidBeginsub => "VM_INVALID_BEGINSUB"
  | invalidJumpsub => "VM_INVALID_JUMPSUB" | staticModeViolation => "VM_STATIC_MODE_VIOLATION"
  | returnDataOutOfBounds => "VM_RETURN_DATA_OUT_OF_BOUNDS"
  | gasUnitOverflow => "VM_GAS_UNIT_OVERFLOW" | nonceUnitOverflow => "VM_NONCE_UNIT_OVERFLOW"
  | invalidContractCode => "VM_INVALID_CONTRACT_CODE"
  | invalidInstruction => "VM_INVALID_INSTRUCTION" | stackOverflow => "VM_STACK_OVERFLOW"
  | stackUnderflow => "VM_STACK_UNDERFLOW" | argumentOutOfRange => "VM_ARGUMENT_OUT_OF_RANGE"
  | invalidArgument => "VM_INVALID_ARGUMENT" | precompileError => "VM_PRECOMPILE_ERROR"
  | internalError => "VM_INTERNAL_ERROR" | rejected => "VM_REJECTED"
  | outOfMemory => "VM_OUT_OF_MEMORY" | memoryCapacityExceeds => "VM_MEMORY_CAPACITY_EXCEEDS"
  | unexpectedBehavior => "VM_UNEXPECTED_BEHAVIOR" | inconsistentState => "VM_INCONSISTENT_SATE"

def VmStatus.fullName (st : VmStatus) : GoString :=
  ascii st.getName ++ ascii "(" ++ ascii (toString st.code) ++ ascii ")"

/-- `pb.CallResponse`; `gasUsed` is the number that `strconv.ParseInt` reads, if it is one. -/
structure CallResponse where
  error : GoString
  msg : GoString
  status : Int
  gasUsed : Option Int
  deriving Repr, DecidableEq

/-- How Java makes texts: `new String(bytes)`, as it is sent in UTF-8, and `Exception.getMessage`.
The decoder goes from left to right, keeps the ASCII bytes, and starts with another byte where
one stands; no message that `Abi.unpackRevert` fails with starts with `0x`. -/
structure JavaText where
  text : Bytes → GoString
  message : JavaException → GoString
  text_nil : text [] = []
  text_ascii : ∀ b bs, b < 128 → text (b :: bs) = b :: text bs
  text_other : ∀ b bs, 128 ≤ b → ∃ c rest, text (b :: bs) = c :: rest ∧ 128 ≤ c
  message_revert : ∀ data e, unpackRevert data = .error e → hasHexPrefix (message e) = false

/-- `hexOutput`; the text for no output is `null`. -/
def hexOutput : Option Bytes → GoString
  | none => ascii "null"
  | some output => toHex output

/-- The answer to a failed execution, by `Receipts.from` and `prepareResponse`: `Msg` is the reason
that `Abi.unpackRevert` takes out of a revert, else the hex text of the output. Where `unpackRevert`
throws, the answer is a system error. -/
def failedResponse (java : JavaText) (result : VmResult) (usedGas : Int) : CallResponse :=
  match revertReason result with
  | .error e => ⟨java.message e, ascii "0x", -2, some 0⟩
  | .ok reason => ⟨result.status.fullName,
      match reason with
      | some (.revert text) => java.text text
      | _ => hexOutput result.output,
      if result.status.code < 0 then -2 else result.status.code, some usedGas⟩

/-! ## The node -/

structure ExecutionResult where
  hash : Bytes
  successful : Bool
  output : GoString
  gasUsed : Int
  deriving Repr, DecidableEq

/-- The text that `executeSMCTx` keeps of a failed execution. -/
def failureOutput (error msg : GoString) : GoPure GoString := do
  if emptyHex msg then return (← parseVmError error).text
  else return (← parseVmError msg).text

/-- `executeSMCTx` from the VM's answer on; the hash is the transaction's. -/
def readResponse (hash : Bytes) (response : CallResponse) : GoPure ExecutionResult := do
  if response.status = -2 then
    let _ ← parseVmError response.error
    throw .error
  else
    match response.gasUsed with
    | none => throw .error
    | some gasUsed =>
        if response.status > 0 ∨ response.status = -1 then
          return ⟨hash, false, ← failureOutput response.error response.msg, gasUsed⟩
        else return ⟨hash, true, response.msg, gasUsed⟩

/-! ## Payloads that can be parsed -/

def payloadOffset (payload : Bytes) : Nat := bytesToNat ((payload.take 36).drop 4)

/-- Where the parser looks for the data, in bytes. The positions in the text are twice as large and
wrap at `2 ^ 64`. -/
def payloadStart (payload : Bytes) : Nat := (36 + payloadOffset payload) % 9223372036854775808

def payloadLength (payload : Bytes) : Nat := bytesToNat ((payload.take (payloadStart payload)).drop 36)

def payloadStop (payload : Bytes) : Nat :=
  (payloadStart payload + payloadLength payload) % 9223372036854775808

/-- Every part of the payload is where it says, and the numbers fit an `uint64`. -/
structure Located (payload : Bytes) : Prop where
  offset : payloadOffset payload < 18446744073709551616
  start : 36 < payloadStart payload ∧ payloadStart payload ≤ payload.length
  length : payloadLength payload < 18446744073709551616
  stop : payloadStart payload ≤ payloadStop payload ∧ payloadStop payload ≤ payload.length

instance (payload : Bytes) : Decidable (Located payload) :=
  decidable_of_iff (payloadOffset payload < 18446744073709551616 ∧
      (36 < payloadStart payload ∧ payloadStart payload ≤ payload.length) ∧
      payloadLength payload < 18446744073709551616 ∧
      payloadStart payload ≤ payloadStop payload ∧ payloadStop payload ≤ payload.length)
    ⟨fun h => ⟨h.1, h.2.1, h.2.2.1, h.2.2.2⟩, fun h => ⟨h.offset, h.start, h.length, h.stop⟩⟩

/-- The payloads the node can read: none, a signature with less than three words behind it, or a
longer one in which everything can be located. -/
def Parsable (payload : Bytes) : Prop :=
  payload = [] ∨ 4 ≤ payload.length ∧ (payload.length < 100 ∨ Located payload)

instance (payload : Bytes) : Decidable (Parsable payload) := inferInstanceAs (Decidable (_ ∨ _ ∧ (_ ∨ _)))

/-- The reasons of a revert the node can read: a text that is not hex, or the hex text of what it
can parse. -/
def Readable (reason : Bytes) : Prop :=
  hasHexPrefix reason = false ∨ ∃ payload, Hex.decode (reason.drop 2) = some payload ∧ Parsable payload

instance (reason : Bytes) : Decidable (Readable reason) := by
  unfold Readable
  cases Hex.decode (reason.drop 2) with
  | none => exact decidable_of_iff (hasHexPrefix reason = false) (by simp)
  | some payload => exact decidable_of_iff (hasHexPrefix reason = false ∨ Parsable payload) (by simp)

/-- THE CONDITION ON FAILED EXECUTIONS: the reason of a revert is readable if there is one; else the
output is parsable, or none, or the status is one that has the output thrown away. -/
def Answerable (result : VmResult) : Prop :=
  match revertReason result with
  | .error _ => True
  | .ok (some (.revert reason)) => Readable reason
  | .ok _ => result.status.code < 0 ∨ ∀ payload, result.output = some payload → Parsable payload

def GoPure.Returns {α : Type} (x : GoPure α) : Prop := ∃ a, x = .ok a

variable {α : Type} {low high : Nat} {bs : Bytes}

lemma returns_ok (a : α) : GoPure.Returns (.ok a : GoPure α) := ⟨a, rfl⟩

lemma not_returns_error (e : GoError) : ¬ GoPure.Returns (.error e : GoPure α) := nofun

lemma returns_bind {β : Type} {x : GoPure α} {f : α → GoPure β} :
    GoPure.Returns (x >>= f) ↔ ∃ a, x = .ok a ∧ GoPure.Returns (f a) := by
  simp only [GoPure.Returns, GoPure.bind_eq_ok]
  rw [exists_comm]
  simp only [exists_and_left]

/-- What is made of a result does not matter. -/
lemma returns_map {β : Type} {x : GoPure α} {g : α → β} :
    GoPure.Returns (do return g (← x) : GoPure β) ↔ GoPure.Returns x := by
  rw [returns_bind]
  exact exists_congr fun a => and_iff_left (returns_ok _)

/-! ### Slices of hex text -/

variable {t : GoString}

/-- A slice of hex text at even positions is the hex text of a slice. -/
lemma goSlice_hex (ht : Hex.decode t = some bs) (h : low ≤ high ∧ high ≤ bs.length) :
    ∃ t', goSlice t (2 * low) (2 * high) = .ok t' ∧ Hex.decode t' = some ((bs.take high).drop low) := by
  have hlen := length_of_decode ht
  exact ⟨_, if_pos (by omega), decode_drop (decode_take ht high) low⟩

lemma goSlice_hex_eq_ok (ht : Hex.decode t = some bs) {t' : GoString}
    (h : goSlice t (2 * low) (2 * high) = .ok t') :
    (low ≤ high ∧ high ≤ bs.length) ∧ Hex.decode t' = some ((bs.take high).drop low) := by
  have hlen := length_of_decode ht
  have hbounds : low ≤ high ∧ high ≤ bs.length := by
    by_contra hno
    rw [goSlice, if_neg (by omega)] at h
    cases h
  obtain ⟨t'', ht'', hdecode⟩ := goSlice_hex ht hbounds
  rw [ht''] at h
  cases h
  exact ⟨hbounds, hdecode⟩

lemma orPanic_eq_ok {o : Option α} {a : α} : orPanic o = .ok a ↔ o = some a := by
  cases o with
  | none | some b => simp [orPanic]

lemma parseUint_hex (ht : Hex.decode t = some bs) {n : Nat} :
    parseUint t = some n ↔ bs ≠ [] ∧ bytesToNat bs < 18446744073709551616 ∧ n = bytesToNat bs := by
  unfold parseUint
  by_cases hbs : bs = []
  · subst hbs
    rw [decode_eq_nil ht]
    simp [number?]
  have hvalue : bigEndian bs = bytesToNat bs := rfl
  rw [number?_of_decode ht hbs]
  simp only [Option.filter_eq_some_iff, Option.some.injEq, decide_eq_true_eq]
  constructor
  · rintro ⟨rfl, hlt⟩
    exact ⟨hbs, hlt, rfl⟩
  · rintro ⟨_, hlt, rfl⟩
    exact ⟨rfl, hlt⟩

lemma readNumber_eq_ok (ht : Hex.decode t = some bs) {n : Nat} :
    (∃ t', goSlice t (2 * low) (2 * high) = .ok t' ∧ orPanic (parseUint t') = .ok n) ↔
      (low < high ∧ high ≤ bs.length) ∧
        bytesToNat ((bs.take high).drop low) < 18446744073709551616 ∧
        n = bytesToNat ((bs.take high).drop low) := by
  have hempty : high ≤ bs.length → ((bs.take high).drop low ≠ [] ↔ low < high) := by
    intro hle
    rw [Ne, drop_eq_nil_iff, length_take]
    omega
  constructor
  · rintro ⟨t', ht', hn⟩
    obtain ⟨hbounds, hdecode⟩ := goSlice_hex_eq_ok ht ht'
    obtain ⟨hne, hlt, rfl⟩ := (parseUint_hex hdecode).mp (orPanic_eq_ok.mp hn)
    exact ⟨⟨(hempty hbounds.2).mp hne, hbounds.2⟩, hlt, rfl⟩
  · rintro ⟨⟨hlow, hhigh⟩, hlt, hn⟩
    obtain ⟨t', ht', hdecode⟩ := goSlice_hex ht (show low ≤ high ∧ high ≤ bs.length by omega)
    exact ⟨t', ht', orPanic_eq_ok.mpr ((parseUint_hex hdecode).mpr ⟨(hempty hhigh).mpr hlow, hlt, hn⟩)⟩

/-! ### The parser on hex text -/

lemma wrapU64_double (x n : Nat) :
    wrapU64 (2 * x + wrapU64 (n * 2)) = 2 * ((x + n) % 9223372036854775808) := by
  unfold wrapU64
  omega

lemma hasHexPrefix_append (s : GoString) : hasHexPrefix (ascii "0x" ++ s) = true := by
  simp [hasHexPrefix, ascii]

lemma drop_hexPrefix (s : GoString) : (ascii "0x" ++ s).drop 2 = s := by
  simp [ascii]

section Payload

variable {payload : Bytes} (ht : Hex.decode t = some payload)
include ht

lemma readOffset (h : 100 ≤ payload.length) (n : Nat) :
    (∃ t', goSlice t 8 72 = .ok t' ∧ orPanic (parseUint t') = .ok n) ↔
      payloadOffset payload < 18446744073709551616 ∧ n = payloadOffset payload := by
  rw [show (8 : Nat) = 2 * 4 from rfl, show (72 : Nat) = 2 * 36 from rfl, readNumber_eq_ok ht]
  exact ⟨fun hn => hn.2, fun hn => ⟨by omega, hn⟩⟩

lemma readLength (n : Nat) :
    (∃ t', goSlice t 72 (wrapU64 (72 + wrapU64 (payloadOffset payload * 2))) = .ok t' ∧
      orPanic (parseUint t') = .ok n) ↔
      (36 < payloadStart payload ∧ payloadStart payload ≤ payload.length) ∧
        payloadLength payload < 18446744073709551616 ∧ n = payloadLength payload := by
  rw [show (72 : Nat) = 2 * 36 from rfl, wrapU64_double]
  exact readNumber_eq_ok ht

omit ht in
lemma readData : goSlice t (wrapU64 (72 + wrapU64 (payloadOffset payload * 2)))
      (wrapU64 (wrapU64 (72 + wrapU64 (payloadOffset payload * 2)) + wrapU64 (payloadLength payload * 2)))
    = goSlice t (2 * payloadStart payload) (2 * payloadStop payload) := by
  rw [show (72 : Nat) = 2 * 36 from rfl, wrapU64_double, wrapU64_double]
  rfl

lemma errorWithParameters_located (h : 100 ≤ payload.length) (hexErr : GoString)
    (hloc : Located payload) : ∃ e, errorWithParameters hexErr t = .ok e ∧
      e.data = (payload.take (payloadStop payload)).drop (payloadStart payload) := by
  obtain ⟨t1, ht1, hread⟩ := (readOffset ht h _).mpr ⟨hloc.offset, rfl⟩
  obtain ⟨t2, ht2, hread2⟩ := (readLength ht _).mpr ⟨hloc.start, hloc.length, rfl⟩
  obtain ⟨t3, ht3, hdata⟩ := goSlice_hex ht hloc.stop
  obtain ⟨t4, ht4, _⟩ := goSlice_hex ht (show 0 ≤ 4 ∧ 4 ≤ payload.length by omega)
  unfold errorWithParameters
  rw [ht1]
  show ∃ e, (orPanic (parseUint t1) >>= _) = .ok e ∧ _
  rw [hread]
  show ∃ e, (goSlice _ 72 _ >>= _) = .ok e ∧ _
  rw [ht2]
  show ∃ e, (orPanic (parseUint t2) >>= _) = .ok e ∧ _
  rw [hread2]
  show ∃ e, (goSlice _ _ _ >>= _) = .ok e ∧ _
  rw [readData, ht3]
  show ∃ e, (orPanic (Hex.decode _) >>= _) = .ok e ∧ _
  rw [hdata, show goSlice t 0 8 = .ok t4 from ht4]
  exact ⟨_, rfl, rfl⟩

lemma errorWithParameters_returns (h : 100 ≤ payload.length) (hexErr : GoString) :
    GoPure.Returns (errorWithParameters hexErr t) ↔ Located payload := by
  constructor
  · unfold errorWithParameters
    simp only [returns_bind]
    rintro ⟨t1, ht1, offset, hread, t2, ht2, length, hread2, t3, ht3, _⟩
    obtain ⟨hfits, rfl⟩ := (readOffset ht h offset).mp ⟨t1, ht1, hread⟩
    obtain ⟨hstart, hfits2, rfl⟩ := (readLength ht length).mp ⟨t2, ht2, hread2⟩
    rw [readData] at ht3
    exact ⟨hfits, hstart, hfits2, (goSlice_hex_eq_ok ht ht3).1⟩
  · intro hloc
    obtain ⟨e, he, -⟩ := errorWithParameters_located ht h hexErr hloc
    exact ⟨e, he⟩

end Payload

/-- The parser on a text that starts with `0x`, by the bytes behind it. -/
lemma newSolidityError_returns {text : GoString} (hhex : hasHexPrefix text = true) :
    GoPure.Returns (newSolidityError text) ↔ ∃ payload, Hex.decode (text.drop 2) = some payload ∧
      4 ≤ payload.length ∧ (payload.length < 100 ∨ Located payload) := by
  unfold newSolidityError
  simp only [hhex, if_true]
  cases ht : Hex.decode (text.drop 2) with
  | none => simp [not_returns_error]
  | some payload =>
    simp only [Option.some.injEq, exists_eq_left']
    split
    · next hfour => exact iff_of_false (not_returns_error _) (by omega)
    split
    · next hshort =>
      obtain ⟨t4, ht4, _⟩ := goSlice_hex ht (show 0 ≤ 4 ∧ 4 ≤ payload.length by omega)
      exact iff_of_true (returns_map.mpr ⟨t4, ht4⟩) ⟨by omega, .inl hshort⟩
    · next hlong =>
      rw [errorWithParameters_returns ht (by omega)]
      exact ⟨fun h => ⟨by omega, .inr h⟩, fun h => h.2.resolve_left hlong⟩

lemma parseVmError_returns_iff (err : GoString) :
    GoPure.Returns (parseVmError err) ↔ hasHexPrefix err = false ∨ GoPure.Returns (newSolidityError err) := by
  unfold parseVmError
  cases hasHexPrefix err with
  | false => simp [GoPure.Returns, pure, Except.pure]
  | true =>
    simp only [if_true, Bool.true_eq_false, false_or]
    exact returns_map

lemma hasHexPrefix_fullName (st : VmStatus) : hasHexPrefix st.fullName = false := by
  cases st <;> decide +kernel

/-- The ABI encoding of `Error(string)`. -/
def abiError (text : Bytes) : Bytes :=
  revertSelector ++ natToBytes 32 32 ++ natToBytes 32 text.length ++ text ++
    List.replicate ((text.length + 31) / 32 * 32 - text.length) 0

lemma length_abiError (text : Bytes) : (abiError text).length = 68 + (text.length + 31) / 32 * 32 := by
  simp only [abiError, revertSelector, length_append, length_cons, length_nil, length_natToBytes,
    length_replicate]
  omega

lemma slice_middle (before middle after : Bytes) {low high : Nat} (hlow : before.length = low)
    (hhigh : low + middle.length = high) : ((before ++ middle ++ after).take high).drop low = middle := by
  rw [take_left' (by rw [length_append]; omega), drop_left' hlow]

lemma located_abiError {text : Bytes} (hlen : text.length < 4611686018427387904) :
    Located (abiError text) ∧ payloadStart (abiError text) = 68 ∧
      payloadStop (abiError text) = 68 + text.length := by
  have hpos := length_abiError text
  have hoffset : payloadOffset (abiError text) = 32 := by
    unfold payloadOffset abiError
    rw [append_assoc _ text, append_assoc _ (natToBytes 32 text.length),
      slice_middle _ _ _ (show revertSelector.length = 4 from rfl)
        (show 4 + (natToBytes 32 32).length = 36 from rfl)]
    decide
  have hstart : payloadStart (abiError text) = 68 := by
    rw [payloadStart, hoffset]
  have hlength : payloadLength (abiError text) = text.length := by
    have hword : 36 + (natToBytes 32 text.length).length = 68 := by rw [length_natToBytes]
    rw [payloadLength, hstart, abiError, append_assoc _ text,
      slice_middle _ _ _ (show (revertSelector ++ natToBytes 32 32).length = 36 from rfl) hword,
      bytesToNat_natToBytes]
    exact Nat.mod_eq_of_lt (hlen.trans (by decide))
  have hstop : payloadStop (abiError text) = 68 + text.length := by
    rw [payloadStop, hstart, hlength]
    omega
  exact ⟨⟨by omega, by omega, by omega, by omega⟩, hstart, hstop⟩

/-- **REVERT REASONS** are decoded, as long as the hex text is a Go string. -/
theorem revert_reason_decoded (text : Bytes)
    (hlen : (ascii "0x" ++ Hex.encode (abiError text)).length < 9223372036854775808) :
    ∃ e, newSolidityError (ascii "0x" ++ Hex.encode (abiError text)) = .ok e ∧
      (VmError.solidity e).text = text := by
  have hpayload := length_abiError text
  have hdecode := decode_encode (abiError text)
  unfold newSolidityError
  simp only [hasHexPrefix_append, drop_hexPrefix, hdecode, if_true]
  rw [if_neg (by omega)]
  by_cases hempty : text = []
  · -- without data the encoding is too short for parameters
    obtain ⟨t, ht, _⟩ := goSlice_hex hdecode (show 0 ≤ 4 ∧ 4 ≤ (abiError text).length by omega)
    rw [if_pos (by rw [hpayload, hempty]; decide), show goSlice _ 0 8 = .ok t from ht]
    exact ⟨_, rfl, hempty.symm⟩
  · have hwords : 0 < text.length := length_pos_iff.mpr hempty
    rw [length_append, length_encode] at hlen
    obtain ⟨hloc, hstart, hstop⟩ := located_abiError (show text.length < 4611686018427387904 by omega)
    obtain ⟨e, he, hdata⟩ := errorWithParameters_located hdecode (by omega)
      (ascii "0x" ++ encode (abiError text)) hloc
    refine ⟨e, ?_, hdata.trans ?_⟩
    · rw [if_neg (by omega)]
      exact he
    · rw [hstart, hstop, abiError]
      exact slice_middle _ _ _ rfl rfl

theorem hi_decoded : ∃ e, newSolidityError (ascii "0x" ++ Hex.encode (abiError (ascii "Hi"))) = .ok e ∧
    (VmError.solidity e).text = ascii "Hi" :=
  revert_reason_decoded (ascii "Hi") (by decide +kernel)

/-! ## The answer to a failed execution -/

lemma Hex.value?_other {c : UInt8} (h : 128 ≤ c) : Hex.value? c = none := by
  have hc : 128 ≤ c.toNat := h
  unfold Hex.value?
  rw [if_neg (by omega), if_neg (by omega), if_neg (by omega)]

lemma ascii_or_not (b : UInt8) : b < 128 ∨ 128 ≤ b := (Decidable.em (b < 128)).imp_right UInt8.not_lt.mp

namespace JavaText

variable (java : JavaText)

/-- What Java makes of bytes decodes as they do: a byte that is not ASCII is no digit, and neither
is what stands for it. -/
lemma decode_text (bs : Bytes) : Hex.decode (java.text bs) = Hex.decode bs := by
  induction bs using Hex.decode.induct with
  | case1 => rw [java.text_nil]
  | case2 b =>
    rcases ascii_or_not b with hb | hb
    · rw [java.text_ascii b [] hb, java.text_nil]
    · obtain ⟨c, rest, htext, hc⟩ := java.text_other b [] hb
      rw [htext, Hex.decode_bad_first (Hex.value?_other hc)]
      rfl
  | case3 b c rest ih =>
    rcases ascii_or_not b with hb | hb
    · rw [java.text_ascii b _ hb]
      rcases ascii_or_not c with hc | hc
      · rw [java.text_ascii c _ hc]
        simp only [Hex.decode, ih]
      · obtain ⟨d, rest', htext, hd⟩ := java.text_other c rest hc
        rw [htext, Hex.decode_bad_second (Hex.value?_other hd), Hex.decode_bad_second (Hex.value?_other hc)]
    · obtain ⟨d, rest', htext, hd⟩ := java.text_other b (c :: rest) hb
      rw [htext, Hex.decode_bad_first (Hex.value?_other hd), Hex.decode_bad_first (Hex.value?_other hb)]

lemma hasHexPrefix_text (bs : Bytes) : hasHexPrefix (java.text bs) = hasHexPrefix bs := by
  have hne : ∀ {a b : UInt8}, 128 ≤ a → b < 128 → a ≠ b := fun ha hb heq => UInt8.not_lt.mpr (heq ▸ ha) hb
  have hfirst : ∀ (c : UInt8) rest, 128 ≤ c → hasHexPrefix (c :: rest) = false := by
    intro c rest hc
    refine decide_eq_false fun h => ?_
    exact hne hc (by decide) (List.cons.inj h).1
  have hsecond : ∀ (b c : UInt8) rest, 128 ≤ c → hasHexPrefix (b :: c :: rest) = false := by
    intro b c rest hc
    refine decide_eq_false fun h => ?_
    exact hne hc (by decide) (List.cons.inj (List.cons.inj h).2).1
  match bs with
  | [] => rw [java.text_nil]
  | b :: bs =>
    rcases ascii_or_not b with hb | hb
    swap
    · obtain ⟨c, rest, htext, hc⟩ := java.text_other b bs hb
      rw [htext, hfirst c rest hc, hfirst b bs hb]
    rw [java.text_ascii b bs hb]
    match bs with
    | [] => rw [java.text_nil]
    | c :: bs =>
      rcases ascii_or_not c with hc | hc
      · rw [java.text_ascii c bs hc]
        rfl
      · obtain ⟨d, rest, htext, hd⟩ := java.text_other c bs hc
        rw [htext, hsecond b d rest hd, hsecond b c bs hc]

lemma readable_text (reason : Bytes) : Readable (java.text reason) ↔ Readable reason := by
  unfold Readable
  rw [hasHexPrefix_text]
  cases hhex : hasHexPrefix reason with
  | false => exact ⟨fun _ => .inl rfl, fun _ => .inl rfl⟩
  | true =>
    -- the two bytes in front are ASCII
    have hdrop : (java.text reason).drop 2 = java.text (reason.drop 2) := by
      match reason, of_decide_eq_true hhex with
      | b :: c :: rest, h =>
        obtain ⟨hb, h⟩ := List.cons.inj h
        rw [java.text_ascii b _ (hb ▸ by decide), java.text_ascii c _ ((List.cons.inj h).1 ▸ by decide)]
        rfl
    rw [hdrop, decode_text]

end JavaText

/-- The parsers fail with a panic or not at all. -/
def OnlyPanics {α : Type} (x : GoPure α) : Prop := ∀ e, x = .error e → e = .panic

lemma OnlyPanics.bind {β : Type} {x : GoPure α} {f : α → GoPure β} (hx : OnlyPanics x)
    (hf : ∀ a, OnlyPanics (f a)) : OnlyPanics (x >>= f) := by
  cases x with
  | error e => exact fun e' h => by cases h; exact hx e rfl
  | ok a => exact hf a

lemma onlyPanics_ok (a : α) : OnlyPanics (.ok a : GoPure α) := nofun

lemma onlyPanics_panic : OnlyPanics (.error .panic : GoPure α) := fun _ h => (Except.error.inj h).symm

lemma onlyPanics_goSlice (s : GoString) : OnlyPanics (goSlice s low high) := by
  unfold goSlice
  split
  · exact onlyPanics_ok _
  · exact onlyPanics_panic

lemma onlyPanics_orPanic (o : Option α) : OnlyPanics (orPanic o) := by
  cases o with
  | none => exact onlyPanics_panic
  | some a => exact onlyPanics_ok a

lemma onlyPanics_failureOutput (error msg : GoString) : OnlyPanics (failureOutput error msg) := by
  have hslice : ∀ (s : GoString) low high, OnlyPanics (goSlice s low high) := fun s _ _ => onlyPanics_goSlice s
  have hparameters : ∀ hexErr t, OnlyPanics (errorWithParameters hexErr t) := fun hexErr t =>
    .bind (hslice _ _ _) fun _ => .bind (onlyPanics_orPanic _) fun _ => .bind (hslice _ _ _) fun _ =>
      .bind (onlyPanics_orPanic _) fun _ => .bind (hslice _ _ _) fun _ =>
        .bind (onlyPanics_orPanic _) fun _ => .bind (hslice _ _ _) fun _ => onlyPanics_ok _
  have hsolidity : ∀ t, OnlyPanics (newSolidityError t) := by
    intro t
    unfold newSolidityError
    dsimp only
    split
    · split
      · exact onlyPanics_panic
      · split
        · exact onlyPanics_panic
        · split
          · exact .bind (hslice _ _ _) fun _ => onlyPanics_ok _
          · exact hparameters _ _
    · exact onlyPanics_panic
  have hparse : ∀ t, OnlyPanics (do return (← parseVmError t).text : GoPure GoString) := by
    intro t
    refine .bind ?_ fun _ => onlyPanics_ok _
    unfold parseVmError
    split
    · exact .bind (hsolidity t) fun _ => onlyPanics_ok _
    · exact onlyPanics_ok _
  unfold failureOutput
  split
  · exact hparse error
  · exact hparse msg

lemma revertReason_cases (result : VmResult) :
    (∃ data, result.status = .revert ∧ result.output = some data ∧
      revertReason result = (unpackRevert data).map fun reason => some (.revert reason)) ∨
    revertReason result = .ok none := by
  unfold revertReason
  cases result.output with
  | none => exact .inr rfl
  | some data =>
    simp only
    split
    · next h => exact .inl ⟨data, h.1, rfl, rfl⟩
    · exact .inr rfl

lemma failureOutput_returns (st : VmStatus) (msg : GoString) :
    GoPure.Returns (failureOutput st.fullName msg) ↔ Readable msg := by
  unfold failureOutput Readable
  cases hhex : hasHexPrefix msg with
  | false =>
    refine ⟨fun _ => .inl rfl, fun _ => ?_⟩
    split <;> rw [returns_map, parseVmError_returns_iff]
    · exact .inl (hasHexPrefix_fullName st)
    · exact .inl hhex
  | true =>
    simp only [Bool.true_eq_false, false_or]
    by_cases hempty : emptyHex msg = true
    · -- `0x` alone leaves the name of the status to be parsed
      rw [if_pos hempty, returns_map, parseVmError_returns_iff]
      refine ⟨fun _ => ⟨[], ?_, .inl rfl⟩, fun _ => .inl (hasHexPrefix_fullName st)⟩
      have hshort : msg.length ≤ 2 := by
        simp only [emptyHex, decide_eq_true_eq] at hempty
        rcases hempty with h | h | h <;> simp [h, ascii]
      rw [drop_eq_nil_iff.mpr hshort]
      rfl
    · rw [if_neg hempty, returns_map, parseVmError_returns_iff, hhex, newSolidityError_returns hhex]
      simp only [Bool.true_eq_false, false_or]
      refine exists_congr fun payload => and_congr_right fun hdecode => ?_
      have hlen := length_of_decode hdecode
      have hlong : ¬ msg.length ≤ 2 := fun hle => hempty (decide_eq_true (.inr (.inr hle)))
      have hne : payload ≠ [] := by
        rintro rfl
        rw [length_drop, length_nil] at hlen
        omega
      simp only [Parsable, hne, false_or]

lemma readable_hexOutput (output : Option Bytes) :
    Readable (hexOutput output) ↔ ∀ payload, output = some payload → Parsable payload := by
  cases output with
  | none => exact ⟨fun _ => nofun, fun _ => .inl (by decide)⟩
  | some payload =>
    simp only [Option.some.injEq, forall_eq', hexOutput, toHex]
    by_cases hempty : payload.length = 0
    · rw [if_pos hempty]
      exact ⟨fun _ => .inl (length_eq_zero_iff.mp hempty), fun _ => .inl rfl⟩
    · rw [if_neg hempty]
      simp [Readable, hasHexPrefix_append, drop_hexPrefix, decode_encode]

lemma readResponse_failed {hash : Bytes} {response : CallResponse} {gas : Int}
    (hstatus : 0 < response.status) (hgas : response.gasUsed = some gas) :
    readResponse hash response ≠ .error .panic ↔
      GoPure.Returns (failureOutput response.error response.msg) := by
  unfold readResponse
  rw [if_neg (by omega), hgas]
  dsimp only
  rw [if_pos (.inl hstatus)]
  cases hout : failureOutput response.error response.msg with
  | error e =>
    obtain rfl := onlyPanics_failureOutput _ _ e hout
    exact ⟨fun h => absurd rfl h, fun h => absurd h (not_returns_error _)⟩
  | ok text => exact ⟨fun _ => returns_ok text, fun _ => nofun⟩

lemma readResponse_system {hash : Bytes} {response : CallResponse} (hstatus : response.status = -2)
    (htext : hasHexPrefix response.error = false) : readResponse hash response = .error .error := by
  unfold readResponse parseVmError
  rw [if_pos hstatus, htext]
  rfl

/-- **FAILED EXECUTIONS.** The node reads the answer to a failed execution without a panic exactly
if it is answerable. -/
theorem payload_parsed_iff (java : JavaText) (hash : Bytes) {result : VmResult}
    (hfailed : result.hasError = true) (usedGas : Int) :
    readResponse hash (failedResponse java result usedGas) ≠ .error .panic ↔ Answerable result := by
  have hcode : result.status.code ≠ 0 := of_decide_eq_true hfailed
  have hsystem : ∀ response : CallResponse, response.status = -2 → hasHexPrefix response.error = false →
      readResponse hash response ≠ .error .panic := by
    intro response hstatus htext
    rw [readResponse_system hstatus htext]
    exact nofun
  rcases revertReason_cases result with ⟨data, hstatus, -, hreason⟩ | hreason
  · unfold failedResponse Answerable
    rw [hreason]
    cases hunpack : unpackRevert data with
    | error e => exact ⟨fun _ => trivial, fun _ => hsystem _ rfl (java.message_revert data e hunpack)⟩
    | ok reason =>
      have hpositive : 0 < if result.status.code < 0 then -2 else result.status.code := by
        rw [hstatus]
        decide
      refine (readResponse_failed hpositive rfl).trans ?_
      exact (failureOutput_returns _ _).trans (java.readable_text reason)
  · unfold failedResponse Answerable
    rw [hreason]
    by_cases hinternal : result.status.code < 0
    · refine ⟨fun _ => .inl hinternal, fun _ => hsystem _ (if_pos hinternal) (hasHexPrefix_fullName _)⟩
    · have hpositive : 0 < if result.status.code < 0 then -2 else result.status.code := by
        rw [if_neg hinternal]
        omega
      refine (readResponse_failed hpositive rfl).trans ((failureOutput_returns _ _).trans ?_)
      refine (readable_hexOutput result.output).trans ⟨.inr, fun h => h.resolve_left hinternal⟩

/-- Texts in which every byte is ASCII or stays as it is. -/
def JavaText.sample : JavaText where
  text := id
  message _ := []
  text_nil := rfl
  text_ascii _ _ _ := rfl
  text_other b bs h := ⟨b, bs, rfl, h⟩
  message_revert _ _ _ := rfl

def VmResult.sampleRevert (payload : Bytes) : VmResult := ⟨.revert, 0, [], some payload, none⟩

/-- `Error(string)` with the text `Hi` is read. -/
theorem hi_answered :
    readResponse [] (failedResponse .sample (.sampleRevert (abiError (ascii "Hi"))) 21000) ≠ .error .panic := by
  refine (payload_parsed_iff .sample [] rfl 21000).mpr ?_
  have hreason : revertReason (.sampleRevert (abiError (ascii "Hi"))) = .ok (some (.revert (ascii "Hi"))) := by
    decide +kernel
  unfold Answerable
  rw [hreason]
  exact .inl (by decide)

/-- **A contract that reverts with a single byte crashes the node**, and so does one that reverts
with the reason `0xzz`. -/
theorem short_payload_panics :
    readResponse [] (failedResponse .sample (.sampleRevert [1]) 21000) = .error .panic ∧
    readResponse [] (failedResponse .sample (.sampleRevert (abiError (ascii "0xzz"))) 21000)
      = .error .panic := by
  decide +kernel

end GrapeDag
