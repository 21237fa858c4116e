/-
TRANSACTIONS AS TEXT.

`MarshalJSON`, `UnmarshalJSON` and `DecodeSignature` of `src/tx/txvX.go`, with the addresses of
`src/crypto/wallet.go`.

Main results: `json_roundTrip_iff` and `signature_misread`.
-/
import GrapeDag.Dag.Transaction
import GrapeDag.Dag.VmErrors

namespace GrapeDag

open List

/-! ## JSON -/

def addressText (address : Bytes) : GoPure GoString :=
  if address.length = 20 then .ok (ascii "0x" ++ Hex.encode address) else .error .panic

def zeroBytesToAddress (address : Bytes) : GoPure GoString :=
  if address.length = 0 then .ok (ascii "0x") else addressText address

def addressToBytes (address : GoString) : GoPure Bytes :=
  let address := if hasHexPrefix address then address.drop 2 else address
  if address.length = 0 then .ok (List.replicate 20 0) else orPanic (Hex.decode address)

/-- The record that `encoding/json` writes and reads; the numbers are `uint64`s. -/
structure TxJson where
  txType : TransactionType
  chainType : Nat
  senderPubk : GoString
  sender : GoString
  recepient : GoString
  amount : Nat
  nonce : Nat
  timestamp : Int
  fuelLimit : Nat
  fuelPrice : Nat
  data : Bytes

namespace Txv1

/-- `MarshalJSON`; a time has a text if its year has at most four digits. -/
def marshalJSON (t : Txv1) : GoPure TxJson := do
  let sender ← addressText t.sender
  let recepient ← zeroBytesToAddress t.recepient
  if -62167219200000 ≤ t.timestamp ∧ t.timestamp < 253402300800000 then
    return { t with
      senderPubk := Hex.encode t.senderPubk
      sender := sender
      recepient := recepient
      amount := wrapU64 (bytesToNat t.amount)
      fuelLimit := wrapU64 (bytesToNat t.fuelLimit)
      fuelPrice := wrapU64 (bytesToNat t.fuelPrice) }
  else .error .error

/-- `UnmarshalJSON` on a new transaction; the fuel price is made from the fuel limit. -/
def unmarshalJSON (v : TxJson) : GoPure Txv1 := do
  return { v with
    senderPubk := v.senderPubk
    sender := ← addressToBytes v.sender
    recepient := ← addressToBytes v.recepient
    amount := bigBytes v.amount
    fuelLimit := bigBytes v.fuelLimit
    fuelPrice := bigBytes v.fuelLimit
    signature := [] }

/-- All but the time and the signature came back. -/
def Restored (t t' : Txv1) : Prop := t' = { t with timestamp := t'.timestamp, signature := t'.signature }

end Txv1

lemma bytesToNat_bigBytes (n : Nat) : bytesToNat (bigBytes n) = n := by
  unfold bigBytes
  split
  · rename_i hzero
    exact hzero.symm
  · rw [bytesToNat_natToBytes]
    refine Nat.mod_eq_of_lt (Nat.lt_log2_self.trans_le ?_)
    rw [show 256 = 2 ^ 8 from rfl, ← Nat.pow_mul]
    exact Nat.pow_le_pow_right (by decide) (by omega)

lemma bigBytes_wrapU64 {bs : Bytes} (hbs : bigBytes (bytesToNat bs) = bs) :
    bigBytes (wrapU64 (bytesToNat bs)) = bs ↔ bytesToNat bs < 18446744073709551616 := by
  unfold wrapU64
  constructor
  · intro h
    have hvalue := congrArg bytesToNat h
    rw [bytesToNat_bigBytes] at hvalue
    omega
  · intro h
    rw [Nat.mod_eq_of_lt h, hbs]

lemma addressToBytes_text {bs : Bytes} (h : bs ≠ []) : addressToBytes (ascii "0x" ++ Hex.encode bs) = .ok bs := by
  have hpos := length_pos_iff.mpr h
  unfold addressToBytes
  rw [hasHexPrefix_append, drop_hexPrefix, if_pos rfl]
  dsimp only
  rw [if_neg (by rw [Hex.length_encode]; omega), Hex.decode_encode]
  rfl

lemma encode_eq_self {bs : Bytes} : Hex.encode bs = bs ↔ bs = [] := by
  constructor
  · intro h
    have hlen := congrArg length h
    rw [Hex.length_encode] at hlen
    exact length_eq_zero_iff.mp (by omega)
  · rintro rfl
    rfl

/-- **JSON ROUND TRIPS**: what comes back is the transaction exactly if it has no key, has a
recipient, its amount and fuel limit are `uint64`s, and the fuel price is the fuel limit. -/
theorem json_roundTrip_iff {t : Txv1} (hsender : t.sender.length = 20)
    (hrecepient : t.recepient.length = 0 ∨ t.recepient.length = 20)
    (hamount : bigBytes (bytesToNat t.amount) = t.amount)
    (hlimit : bigBytes (bytesToNat t.fuelLimit) = t.fuelLimit) :
    (∃ v t', t.marshalJSON = .ok v ∧ Txv1.unmarshalJSON v = .ok t' ∧ t.Restored t') ↔
      (-62167219200000 ≤ t.timestamp ∧ t.timestamp < 253402300800000) ∧ t.senderPubk = [] ∧ t.recepient ≠ [] ∧
        bytesToNat t.amount < 18446744073709551616 ∧ bytesToNat t.fuelLimit < 18446744073709551616 ∧
        t.fuelPrice = t.fuelLimit := by
  have hback := addressToBytes_text (ne_nil_of_length_pos (by omega : 0 < t.sender.length))
  obtain ⟨text, htext, hrec⟩ : ∃ text, zeroBytesToAddress t.recepient = .ok text ∧ addressToBytes text
      = .ok (if t.recepient = [] then replicate 20 0 else t.recepient) := by
    unfold zeroBytesToAddress
    by_cases hnil : t.recepient = []
    · rw [hnil]
      exact ⟨_, rfl, rfl⟩
    · have hlen := hrecepient.resolve_left (by rwa [length_eq_zero_iff])
      refine ⟨_, ?_, (addressToBytes_text hnil).trans (by rw [if_neg hnil])⟩
      rw [if_neg (by omega), addressText, if_pos hlen]
  have hback' : ∀ v : TxJson, v.sender = ascii "0x" ++ Hex.encode t.sender → v.recepient = text →
      Txv1.unmarshalJSON v = .ok { v with
        sender := t.sender
        recepient := if t.recepient = [] then replicate 20 0 else t.recepient
        amount := bigBytes v.amount
        fuelLimit := bigBytes v.fuelLimit
        fuelPrice := bigBytes v.fuelLimit
        signature := [] } := by
    intro v hv hv'
    unfold Txv1.unmarshalJSON
    rw [hv, hv', hback, hrec]
    rfl
  unfold Txv1.marshalJSON
  rw [addressText, if_pos hsender, htext]
  by_cases htime : -62167219200000 ≤ t.timestamp ∧ t.timestamp < 253402300800000
  · rw [and_iff_right htime]
    constructor
    · rintro ⟨v, t', hv, ht', hrestored⟩
      obtain rfl := Except.ok.inj ((if_pos htime).symm.trans hv)
      rw [hback' _ rfl rfl] at ht'
      obtain rfl := Except.ok.inj ht'
      simp only [Txv1.Restored, Txv1.mk.injEq, true_and, and_true] at hrestored
      obtain ⟨hkey, hsame, hamount', hlimit', hprice'⟩ := hrestored
      refine ⟨encode_eq_self.mp hkey, fun hnil => ?_, (bigBytes_wrapU64 hamount).mp hamount',
        (bigBytes_wrapU64 hlimit).mp hlimit', hprice'.symm.trans hlimit'⟩
      rw [if_pos hnil, hnil] at hsame
      cases hsame
    · rintro ⟨hkey, hnil, hamount', hlimit', hprice'⟩
      refine ⟨_, _, if_pos htime, hback' _ rfl rfl, ?_⟩
      rw [Txv1.Restored, if_neg hnil, encode_eq_self.mpr hkey, (bigBytes_wrapU64 hamount).mpr hamount',
        (bigBytes_wrapU64 hlimit).mpr hlimit', ← hprice']
  · refine iff_of_false ?_ fun h => htime h.1
    rintro ⟨v, t', hv, -⟩
    have hv : (if _ then _ else Except.error GoError.error : GoPure TxJson) = .ok v := hv
    rw [if_neg htime] at hv
    cases hv

def Txv1.sampleJson (key recepient amount price : Bytes) : Txv1 :=
  ⟨.payment, 0, key, List.replicate 20 1, recepient, amount, 3, 0, [5], price, [6], []⟩

theorem plain_roundTrip : ∃ v t', (Txv1.sampleJson [] (List.replicate 20 2) [4] [5]).marshalJSON = .ok v ∧
    Txv1.unmarshalJSON v = .ok t' ∧ (Txv1.sampleJson [] (List.replicate 20 2) [4] [5]).Restored t' :=
  (json_roundTrip_iff rfl (.inr rfl) rfl rfl).mpr ⟨by decide, rfl, nofun, by decide, by decide, rfl⟩

/-- **Another key, recipient, amount and price** come back. -/
theorem json_changes_four : ∃ v, (Txv1.sampleJson [7] [] (1 :: List.replicate 8 0) [9]).marshalJSON = .ok v ∧
    Txv1.unmarshalJSON v = .ok (Txv1.sampleJson (ascii "07") (List.replicate 20 0) [] [5]) :=
  ⟨_, rfl, rfl⟩

/-! ## Signatures -/

/-- The loop of `DecodeSignature` over 32 bytes: behind the first byte that is not zero. -/
def skipZeros (bs : Bytes) : Bytes :=
  match bs.dropWhile (· = 0) with
  | [] => bs
  | _ :: rest => rest

def decodeSignature (sig : Bytes) (chainId : Nat) : GoPure (Bytes × Bytes × Bytes) := do
  let r ← goSlice sig 0 32
  let s ← goSlice sig 32 64
  return (skipZeros r, skipZeros s, [UInt8.ofNat (35 + (chainId + 1) * 2)])

/-- Signed under EIP-155, for one of the three chains. -/
structure EthTx.Eip155 (t : EthTx) : Prop where
  chain : t.chainId = 1 ∨ t.chainId = 2 ∨ t.chainId = 3
  v : t.v = 35 + 2 * t.chainId ∨ t.v = 36 + 2 * t.chainId
  r : 0 < t.r ∧ t.r < 2 ^ 256
  s : 0 < t.s ∧ t.s < 2 ^ 256

lemma bytesToNat_skipZeros {bs : Bytes} (h : 0 < bytesToNat bs) : bytesToNat (skipZeros bs) < bytesToNat bs := by
  induction bs with
  | nil => cases h
  | cons b bs ih =>
    by_cases hb : b = 0
    · subst hb
      have hvalue : bytesToNat (0 :: bs) = bytesToNat bs := by
        rw [bytesToNat_cons]
        simp
      rw [hvalue] at h ⊢
      have hdrop : (0 :: bs).dropWhile (· = 0) = bs.dropWhile (· = 0) := dropWhile_cons_of_pos (by decide)
      have hless := ih h
      unfold skipZeros at hless ⊢
      rw [hdrop]
      cases hrest : bs.dropWhile (· = 0) with
      | nil =>
        rw [hrest] at hless
        exact absurd hless (Nat.lt_irrefl _)
      | cons b' rest =>
        rw [hrest] at hless
        exact hless
    · have hpos : 0 < b.toNat := Nat.pos_of_ne_zero fun hzero => hb (UInt8.toNat_inj.mp hzero)
      have hmul := Nat.mul_pos hpos (Nat.pow_pos (show 0 < 256 by decide) : 0 < 256 ^ bs.length)
      rw [skipZeros, dropWhile_cons_of_neg (by simpa using hb), bytesToNat_cons]
      dsimp only
      omega

lemma skipZeros_ne_bigBytes {n : Nat} (h : 0 < n ∧ n < 2 ^ 256) : skipZeros (natToBytes 32 n) ≠ bigBytes n := by
  have hvalue : bytesToNat (natToBytes 32 n) = n := by
    rw [bytesToNat_natToBytes]
    exact Nat.mod_eq_of_lt h.2
  intro heq
  have hless := bytesToNat_skipZeros (hvalue.symm ▸ h.1)
  rw [heq, bytesToNat_bigBytes, hvalue] at hless
  exact Nat.lt_irrefl n hless

lemma goSlice_middle (before middle after : Bytes) {low high : Nat} (hlow : before.length = low)
    (hhigh : low + middle.length = high) : goSlice (before ++ middle ++ after) low high = .ok middle := by
  rw [goSlice, if_pos (by simp only [length_append]; omega), slice_middle before middle after hlow hhigh]

/-- **SIGNATURE FIELDS** are never read back: `R` and `S` each lose a byte, and `V` is right for one
of the two recovery bits. -/
theorem signature_misread {t : EthTx} (h : t.Eip155) : ∃ sig chainType R S V,
    t.encodeSignature = .ok sig ∧ (Transaction.eth t).getChainType = .ok chainType ∧
      decodeSignature sig chainType = .ok (R, S, V) ∧
      R ≠ bigBytes t.r ∧ S ≠ bigBytes t.s ∧ (V = bigBytes t.v ↔ t.v = 35 + 2 * t.chainId) := by
  obtain ⟨v, hsig⟩ : ∃ v, t.encodeSignature = .ok (natToBytes 32 t.r ++ natToBytes 32 t.s ++ [v]) :=
    ⟨_, (if_pos h.r.2).trans (if_pos h.s.2)⟩
  have hr : goSlice (natToBytes 32 t.r ++ natToBytes 32 t.s ++ [v]) 0 32 = .ok (natToBytes 32 t.r) := by
    have hslice := goSlice_middle [] (natToBytes 32 t.r) (natToBytes 32 t.s ++ [v]) rfl
      (show 0 + (natToBytes 32 t.r).length = 32 by rw [length_natToBytes])
    rwa [nil_append, ← append_assoc] at hslice
  have hs : goSlice (natToBytes 32 t.r ++ natToBytes 32 t.s ++ [v]) 32 64 = .ok (natToBytes 32 t.s) :=
    goSlice_middle _ _ _ (length_natToBytes 32 _) (by rw [length_natToBytes])
  have hchain : (Transaction.eth t).getChainType = .ok (t.chainId - 1) := by
    rcases h.chain with hid | hid | hid <;> simp [Transaction.getChainType, hid]
  have hbits : [UInt8.ofNat (35 + (t.chainId - 1 + 1) * 2)] = bigBytes t.v ↔ t.v = 35 + 2 * t.chainId := by
    rcases h.chain with hid | hid | hid <;> rcases h.v with hv | hv <;> rw [hv, hid] <;> decide
  refine ⟨_, _, _, _, _, hsig, hchain, ?_, skipZeros_ne_bigBytes h.r, skipZeros_ne_bigBytes h.s, hbits⟩
  unfold decodeSignature
  rw [hr, hs]
  rfl

def EthTx.sampleSigned (v r s : Nat) : EthTx := ⟨0, 1, 21000, none, 0, [], 1, v, r, s⟩

/-- **Three signature values**: 258 comes back as 2, 7 as nothing, and 38 as 37. -/
theorem signature_fields_lost :
    ((EthTx.sampleSigned 38 258 7).encodeSignature.bind fun sig => decodeSignature sig 0)
    = .ok ([2], [], [37]) := by
  decide +kernel

theorem first_bytes_lost : ∃ sig chainType R S V,
    (EthTx.sampleSigned 37 258 7).encodeSignature = .ok sig ∧
      (Transaction.eth (.sampleSigned 37 258 7)).getChainType = .ok chainType ∧
      decodeSignature sig chainType = .ok (R, S, V) ∧ R ≠ bigBytes 258 ∧ S ≠ bigBytes 7 ∧
      (V = bigBytes 37 ↔ 37 = 35 + 2 * 1) :=
  @signature_misread (.sampleSigned 37 258 7) ⟨.inl rfl, .inl rfl, by decide, by decide⟩

end GrapeDag
