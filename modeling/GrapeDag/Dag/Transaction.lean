/-
TRANSACTIONS AND THEIR SIGNATURES.

`src/tx/txvX.go`, `src/crypto/dsa.go`, `AddressFromPulicKey` and `BytesToAddress` of
`src/crypto/wallet.go`. Nothing relates the sender field of a `Txv1` to the public key that the
signature is verified under; the sender of an `EthTx` is recovered by go-ethereum.
-/
import GrapeDag.Dag.Ledger

namespace GrapeDag

open Imperative

/-! ## Data -/

/-- `TransactionType`; a decoded message may hold a number that has no name. -/
inductive TransactionType where
  | payment | publishContract | callContract | serviceGenesis | service | servicePin
  | unknown (code : Nat)
  deriving Repr, DecidableEq

structure Txv1 where
  txType : TransactionType
  chainType : Nat
  senderPubk : Bytes
  sender : Bytes
  recepient : Bytes
  amount : Bytes
  nonce : Nat
  timestamp : Int
  fuelLimit : Bytes
  fuelPrice : Bytes
  data : Bytes
  signature : Bytes
  deriving Repr, DecidableEq

/-- `eth.Transaction` with its raw signature values. -/
structure EthTx where
  nonce : Nat
  gasPrice : Nat
  gas : Nat
  /-- `To`, absent for a contract creation -/
  recipient : Option Address
  value : Nat
  data : Bytes
  chainId : Nat
  v : Nat
  r : Nat
  s : Nat
  deriving Repr, DecidableEq

inductive Transaction where
  | v1 (tx : Txv1)
  | eth (tx : EthTx)
  deriving Repr, DecidableEq

/-- The libraries: SHA-256 over the protobuf encoding, ed25519, keccak256, and of go-ethereum the
hashes, the recovery of a key and the sender of a transaction. -/
structure Crypto where
  hash : Txv1 → Bytes
  ed25519Verify : (key message signature : Bytes) → Bool
  keccak256 : Bytes → Bytes
  ethHash : EthTx → Bytes
  /-- the hash that the EIP-2930 signer signs -/
  signingHash : EthTx → Bytes
  ecrecover : (hash signature : Bytes) → Option Bytes
  secp256k1Verify : (key hash signature : Bytes) → Bool
  /-- `eth.Sender` with the EIP-155 signer -/
  ethSender : EthTx → Option Address

/-- `big.Int.Bytes`: no leading zeros. -/
def bigBytes (n : Nat) : Bytes := if n = 0 then [] else natToBytes (n.log2 / 8 + 1) n

/-- `BytesToAddress`: the wallet of 20 bytes; any other length panics. -/
def bytesToAddress (bs : Bytes) : Except GoError Address :=
  if bs.length = 20 then .ok (BitVec.ofNat 160 (bytesToNat bs)) else .error .panic

def addressFromPublicKey (c : Crypto) (key : Bytes) : Bytes := (c.keccak256 key).drop 12

/-- The address of an uncompressed secp256k1 key, as Ethereum derives it. -/
def ethAddress (c : Crypto) (key : Bytes) : Bytes := (c.keccak256 (key.drop 1)).drop 12

/-! ## Signatures -/

/-- `Ed25519DSA.Verify`; `ed25519.Verify` panics on a key that is not 32 bytes long. -/
def dsaVerify (c : Crypto) (key signature message : Bytes) : Except GoError Bool :=
  if key.length = 0 ∨ signature.length = 0 ∨ message.length = 0 then .ok false
  else if key.length = 32 then .ok (c.ed25519Verify key message signature)
  else .error .panic

/-- `Txv1.String`, of which only the panics count: the sender has to be a wallet, and the recipient
one or nothing. -/
def Txv1.string (t : Txv1) : Except GoError Unit := do
  let _ ← bytesToAddress t.sender
  if t.recepient.length = 0 then .ok ()
  else
    let _ ← bytesToAddress t.recepient
    .ok ()

/-- `Txv1.Verify`: the hash is that of the transaction without its signature. The error holds the
text of the transaction. -/
def Txv1.verify (c : Crypto) (t : Txv1) : Except GoError Unit := do
  if t.signature.length < 64 then .error .error
  else
    let payload := c.hash { t with signature := [] }
    if ← dsaVerify c t.senderPubk t.signature payload then .ok ()
    else
      t.string
      .error .error

/-- `encodeSignature`: `r`, `s` and the recovery id. A value that does not fit panics; an `s` of
more than 32 bytes is written over the end of `r`. -/
def EthTx.encodeSignature (t : EthTx) : Except GoError Bytes :=
  let v : BitVec 8 :=
    if t.chainId = 0 then BitVec.ofInt 8 ((t.v % 2 ^ 64 : Nat) - 27)
    else BitVec.ofNat 8 t.v - 35 - 2 * BitVec.ofNat 8 t.chainId
  if t.r < 2 ^ 256 then
    if t.s < 2 ^ 256 then .ok (natToBytes 32 t.r ++ natToBytes 32 t.s ++ [UInt8.ofNat v.toNat])
    else if t.s < 2 ^ 512 then
      let s := bigBytes t.s
      .ok ((natToBytes 32 t.r).take (64 - s.length) ++ s ++ [UInt8.ofNat v.toNat])
    else .error .panic
  else .error .panic

/-- The key that `EthTx.VerifySignature` recovers. -/
def EthTx.recoveredKey (c : Crypto) (t : EthTx) : Except GoError Bytes := do
  match c.ecrecover (c.signingHash t) (← t.encodeSignature) with
  | none => .error .error
  | some key => .ok key

def EthTx.verifySignature (c : Crypto) (t : EthTx) : Except GoError Unit := do
  let sig ← t.encodeSignature
  let key ← t.recoveredKey c
  if c.secp256k1Verify key (c.signingHash t) (sig.take 64) then .ok () else .error .error

namespace Transaction

def string : Transaction → Except GoError Unit
  | .v1 t => t.string
  | .eth _ => .ok ()

def verifySignature (c : Crypto) : Transaction → Except GoError Unit
  | .v1 t => t.verify c
  | .eth t => t.verifySignature c

/-- The address that belongs to the key under which the signature has been verified. -/
def signer (c : Crypto) : Transaction → Except GoError Bytes
  | .v1 t => .ok (addressFromPublicKey c t.senderPubk)
  | .eth t => do return ethAddress c (← t.recoveredKey c)

/-! ## What the ledger reads -/

def getTransactionType : Transaction → TransactionType
  | .v1 t => t.txType
  | .eth t =>
      if t.recipient = none then .publishContract
      else if t.data.length > 0 then .callContract
      else .payment

/-- `GetChainType`; the chain id of an Ethereum transaction is one more. -/
def getChainType : Transaction → Except GoError Nat
  | .v1 t => .ok t.chainType
  | .eth t =>
      if t.chainId = 1 then .ok 0
      else if t.chainId = 2 then .ok 1
      else if t.chainId = 3 then .ok 2
      else .error .panic

def getHash (c : Crypto) : Transaction → Bytes
  | .v1 t => c.hash t
  | .eth t => c.ethHash t

def getAmount : Transaction → Nat
  | .v1 t => bytesToNat t.amount
  | .eth t => t.value

/-- `GetFuelLimit`; the gas of an Ethereum transaction is converted to an `int64`. -/
def getFuelLimit : Transaction → Int
  | .v1 t => bytesToNat t.fuelLimit
  | .eth t => wrap64 t.gas

def getFuelPrice : Transaction → Nat
  | .v1 t => bytesToNat t.fuelPrice
  | .eth t => t.gasPrice

def senderWallet (c : Crypto) : Transaction → Except GoError Address
  | .v1 t => bytesToAddress t.sender
  | .eth t =>
      match c.ethSender t with
      | none => .error .panic
      | some a => .ok a

/-- The wallet of `GetRecipient`; a contract creation has none. -/
def recipientWallet : Transaction → Except GoError Address
  | .v1 t => bytesToAddress t.recepient
  | .eth t =>
      match t.recipient with
      | none => .error .panic
      | some a => .ok a

def payment (c : Crypto) (tx : Transaction) (id : NodeId) (time : Int) : Except GoError Payment := do
  let sender ← tx.senderWallet c
  let recipient ← tx.recipientWallet
  return ⟨id, time, tx.getHash c, sender, recipient, tx.getAmount,
    match tx with | .v1 _ => false | .eth _ => true⟩

/-- `IsService` with the payload `TX_SERVICE_STOP` ("stop"). -/
def isStop : Transaction → Bool
  | .v1 t => t.txType = .service && t.data = [0x73, 0x74, 0x6f, 0x70]
  | .eth _ => false

/-- The sender authorised the payment: the wallet it is debited from is the signer's, or nothing
is debited. -/
def Authorised (c : Crypto) : Transaction → Prop
  | .v1 t => bytesToAddress t.sender = bytesToAddress (addressFromPublicKey c t.senderPubk) ∨
      bytesToAddress t.sender = bytesToAddress t.recepient ∨ bytesToNat t.amount = 0
  | .eth _ => True

end Transaction

end GrapeDag
