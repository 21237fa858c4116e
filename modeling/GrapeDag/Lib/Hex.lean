/-
HEXADECIMAL TEXT.

Text is a list of bytes (ASCII). Two digits stand for one byte; a run of digits also stands for
a number.
-/
import Mathlib.Data.List.Basic
import Mathlib.Tactic.Common

namespace Hex

/-! ## Digits -/

def digit (d : Nat) : UInt8 := if d < 10 then UInt8.ofNat (48 + d) else UInt8.ofNat (87 + d)

def value? (c : UInt8) : Option Nat :=
  if 48 ≤ c.toNat ∧ c.toNat ≤ 57 then some (c.toNat - 48)
  else if 97 ≤ c.toNat ∧ c.toNat ≤ 102 then some (c.toNat - 87)
  else if 65 ≤ c.toNat ∧ c.toNat ≤ 70 then some (c.toNat - 55)
  else none

lemma value?_digit {d : Nat} (h : d < 16) : value? (digit d) = some d := by
  have hall : ∀ d : Fin 16, value? (digit d) = some d.val := by decide
  exact hall ⟨d, h⟩

/-! ## Bytes -/

def encode : List UInt8 → List UInt8
  | [] => []
  | b :: bs => digit (b.toNat / 16) :: digit (b.toNat % 16) :: encode bs

/-- The bytes of a text with an even number of digits and nothing else. -/
def decode : List UInt8 → Option (List UInt8)
  | [] => some []
  | [_] => none
  | c :: d :: rest => do
      let high ← value? c
      let low ← value? d
      return UInt8.ofNat (16 * high + low) :: (← decode rest)

@[simp] lemma encode_nil : encode [] = [] := rfl

@[simp] lemma length_encode (bs : List UInt8) : (encode bs).length = 2 * bs.length := by
  induction bs with
  | nil => rfl
  | cons b bs ih =>
    simp only [encode, List.length_cons, ih]
    omega

lemma decode_encode (bs : List UInt8) : decode (encode bs) = some bs := by
  induction bs with
  | nil => rfl
  | cons b bs ih =>
    have hb := b.toNat_lt
    have hhigh : value? (digit (b.toNat / 16)) = some (b.toNat / 16) := value?_digit (by omega)
    have hlow : value? (digit (b.toNat % 16)) = some (b.toNat % 16) := value?_digit (by omega)
    have hbyte : 16 * (b.toNat / 16) + b.toNat % 16 = b.toNat := by omega
    simp only [encode, decode, hhigh, hlow, ih, Option.bind_eq_bind, Option.bind_some, hbyte,
      UInt8.ofNat_toNat]
    rfl

lemma encode_take (n : Nat) (bs : List UInt8) : (encode bs).take (2 * n) = encode (bs.take n) := by
  induction n generalizing bs with
  | zero => simp
  | succ n ih =>
    cases bs with
    | nil => simp
    | cons b bs =>
      have htwo : 2 * (n + 1) = 2 * n + 1 + 1 := by omega
      simp only [encode, htwo, List.take_succ_cons, ih]

lemma value?_lt {c : UInt8} {v : Nat} (h : value? c = some v) : v < 16 := by
  unfold value? at h
  split at h
  · cases h
    omega
  split at h
  · cases h
    omega
  split at h
  · cases h
    omega
  · cases h

variable {t bs : List UInt8}

/-- What decodes to at least one byte: two digits, and what decodes to the rest. -/
lemma decode_eq_cons {b : UInt8} (h : decode t = some (b :: bs)) :
    ∃ c d rest high low, t = c :: d :: rest ∧ value? c = some high ∧ value? d = some low ∧
      b.toNat = 16 * high + low ∧ decode rest = some bs := by
  match t, h with
  | c :: d :: rest, h =>
    simp only [decode, Option.bind_eq_bind, Option.bind_eq_some_iff] at h
    obtain ⟨high, hc, low, hd, bs', hrest, heq⟩ := h
    cases heq
    have hhigh := value?_lt hc
    have hlow := value?_lt hd
    refine ⟨c, d, rest, high, low, rfl, hc, hd, ?_, hrest⟩
    rw [UInt8.toNat_ofNat']
    omega

lemma decode_eq_nil (h : decode t = some []) : t = [] := by
  match t, h with
  | [], _ => rfl
  | c :: d :: rest, h => simp [decode, Option.bind_eq_some_iff] at h

lemma decode_bad_first {c : UInt8} (h : value? c = none) (rest : List UInt8) : decode (c :: rest) = none := by
  cases rest with
  | nil => rfl
  | cons d rest => simp only [decode, h, Option.bind_eq_bind, Option.bind_none]

lemma decode_bad_second {d : UInt8} (h : value? d = none) (c : UInt8) (rest : List UInt8) :
    decode (c :: d :: rest) = none := by
  cases hc : value? c <;> simp only [decode, hc, h, Option.bind_eq_bind, Option.bind_none, Option.bind_some]

section Decoded

variable {t bs : List UInt8}

lemma length_of_decode (h : decode t = some bs) : t.length = 2 * bs.length := by
  induction bs generalizing t with
  | nil => rw [decode_eq_nil h, List.length_nil]
  | cons b bs ih =>
    obtain ⟨c, d, rest, _, _, rfl, _, _, _, hrest⟩ := decode_eq_cons h
    simp only [List.length_cons, ih hrest]
    omega

lemma decode_take (h : decode t = some bs) (n : Nat) : decode (t.take (2 * n)) = some (bs.take n) := by
  induction n generalizing t bs with
  | zero => simp [decode]
  | succ n ih =>
    cases bs with
    | nil =>
      rw [decode_eq_nil h]
      rfl
    | cons b bs =>
      obtain ⟨c, d, rest, high, low, rfl, hc, hd, _, hrest⟩ := decode_eq_cons h
      simp only [decode, hc, hd, hrest, Option.bind_eq_bind, Option.bind_some] at h
      have htwo : 2 * (n + 1) = 2 * n + 1 + 1 := by omega
      simp only [htwo, List.take_succ_cons, decode, hc, hd, ih hrest, Option.bind_eq_bind, Option.bind_some]
      cases h
      rfl

lemma decode_drop (h : decode t = some bs) (n : Nat) : decode (t.drop (2 * n)) = some (bs.drop n) := by
  induction n generalizing t bs with
  | zero => simpa using h
  | succ n ih =>
    cases bs with
    | nil =>
      rw [decode_eq_nil h]
      simp [decode]
    | cons b bs =>
      obtain ⟨c, d, rest, _, _, rfl, _, _, _, hrest⟩ := decode_eq_cons h
      have htwo : 2 * (n + 1) = 2 * n + 1 + 1 := by omega
      simp only [htwo, List.drop_succ_cons]
      exact ih hrest

end Decoded

/-! ## Numbers -/

def bigEndian (bs : List UInt8) : Nat := bs.foldl (fun n b => n * 256 + b.toNat) 0

/-- The number of a run of digits, read on behind the digits of `n`. -/
def numberFrom (n : Nat) : List UInt8 → Option Nat
  | [] => some n
  | c :: cs => do numberFrom (16 * n + (← value? c)) cs

/-- The number that a run of digits denotes; no digits denote none. -/
def number? : List UInt8 → Option Nat
  | [] => none
  | cs => numberFrom 0 cs

lemma numberFrom_of_decode (h : decode t = some bs) (n : Nat) :
    numberFrom n t = some (bs.foldl (fun n b => n * 256 + b.toNat) n) := by
  induction bs generalizing t n with
  | nil =>
    rw [decode_eq_nil h]
    rfl
  | cons b bs ih =>
    obtain ⟨c, d, rest, high, low, rfl, hc, hd, hb, hrest⟩ := decode_eq_cons h
    have hnext : 16 * (16 * n + high) + low = n * 256 + b.toNat := by omega
    simp only [numberFrom, hc, hd, Option.bind_eq_bind, Option.bind_some, hnext, ih hrest, List.foldl_cons]

/-- THE DIGITS OF BYTES DENOTE THEIR BIG-ENDIAN VALUE. -/
theorem number?_of_decode (h : decode t = some bs) (hne : bs ≠ []) :
    number? t = some (bigEndian bs) := by
  cases t with
  | nil => exact absurd (Option.some.inj h).symm hne
  | cons c cs => exact numberFrom_of_decode h 0

end Hex
