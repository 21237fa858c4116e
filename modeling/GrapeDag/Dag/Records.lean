/-
THE RECORDS THAT PEERS SEND EACH OTHER.

`src/tx/sync.go`, `src/tx/grapetx.go` and `src/tx/ids.go`. `ToProtobuf` of a sync message,
which `MarshalRecord` uses, leaves the sync hash out, and `Syncv1FromProtobuf` does not read it.
A gossiped transaction sends the BINARY form of its peer id and reads it as the TEXT form,
ignoring the error. The protobuf, peer-id, multiaddr and transaction codecs are parameters.

Main results: `syncRecord_roundTrip_iff` and `grapeTx_never_roundTrips`.
-/
import GrapeDag.Dag.VmErrors
import GrapeDag.Dag.Ledger
import GrapeDag.Lib.Base58
import GrapeDag.Lib.Codec

namespace GrapeDag

/-! ## Identifiers and times -/

def uuidToBytes (id : NodeId) : Bytes := natToBytes 16 id.toNat

/-- `uuid.FromBytes` and `UUID.UnmarshalBinary`: an error unless there are 16 bytes. -/
def uuidFromBytes (bs : Bytes) : Option NodeId :=
  if bs.length = 16 then some (BitVec.ofNat 128 (bytesToNat bs)) else none

@[simp] lemma uuidFromBytes_uuidToBytes (id : NodeId) : uuidFromBytes (uuidToBytes id) = some id := by
  have hlt : id.toNat < 256 ^ 16 := id.isLt
  unfold uuidFromBytes uuidToBytes
  rw [bytesToNat_natToBytes, Nat.mod_eq_of_lt hlt]
  simp

/-- `time.Time` as an instant; the seconds since 1970 are an `int64`. -/
structure GoTime where
  unix : Int
  nanosecond : Nat
  unix_isLong : IsLong unix
  nanosecond_lt : nanosecond < 1000000000
  deriving Repr, DecidableEq

structure PbTimestamp where
  seconds : Int
  nanos : Int
  deriving Repr, DecidableEq

def PbTimestamp.new (t : GoTime) : PbTimestamp := ⟨t.unix, t.nanosecond⟩

/-- `AsTime`, that is `time.Unix`: nanoseconds beyond a second are carried over. -/
def PbTimestamp.asTime (x : PbTimestamp) : GoTime where
  unix := wrap64 (x.seconds + x.nanos / 1000000000)
  nanosecond := (x.nanos % 1000000000).toNat
  unix_isLong := isLong_wrap64 _
  nanosecond_lt := by omega

@[simp] lemma PbTimestamp.asTime_new (t : GoTime) : (PbTimestamp.new t).asTime = t := by
  obtain ⟨unix, nanosecond, hunix, hlt⟩ := t
  have hcarry : (nanosecond : Int) / 1000000000 = 0 := by omega
  have hrest : ((nanosecond : Int) % 1000000000).toNat = nanosecond := by omega
  unfold PbTimestamp.asTime PbTimestamp.new
  simp only [hcarry, hrest, Int.add_zero, wrap64_of_isLong hunix]

/-! ## Sync messages -/

structure PbAny where
  typeUrl : GoString
  value : Bytes
  deriving Repr, DecidableEq

/-- `Syncv1`; the three types are `uint8`s. -/
structure Syncv1 where
  verType : BitVec 8
  syncType : BitVec 8
  msgType : BitVec 8
  trackingId : NodeId
  senderPubk : Bytes
  timestamp : GoTime
  data : Bytes
  details : List PbAny
  syncHash : Bytes
  signature : Bytes
  deriving Repr, DecidableEq

/-- `pb.Syncv1`; enumerations are `int32`s, and the time may be missing. -/
structure PbSyncv1 where
  ver : BitVec 32
  syncType : BitVec 32
  msgType : BitVec 32
  trackingId : Bytes
  senderPubk : Bytes
  timestamp : Option PbTimestamp
  data : Bytes
  details : List PbAny
  syncHash : Bytes
  signature : Bytes
  deriving Repr, DecidableEq

/-- `GetTimestamp().AsTime()`; a missing time is the epoch. -/
def PbSyncv1.time (m : PbSyncv1) : GoTime := (m.timestamp.getD ⟨0, 0⟩).asTime

/-- Protobuf only encodes strings that are UTF-8. -/
def PbSyncv1.Utf8 (validUtf8 : GoString → Bool) (m : PbSyncv1) : Prop :=
  ∀ d ∈ m.details, validUtf8 d.typeUrl = true

instance (validUtf8 : GoString → Bool) : DecidablePred (PbSyncv1.Utf8 validUtf8) :=
  fun m => inferInstanceAs (Decidable (∀ d ∈ m.details, _))

namespace Syncv1

def marshalBinary (t : Syncv1) : PbSyncv1 where
  ver := t.verType.setWidth 32
  syncType := t.syncType.setWidth 32
  msgType := t.msgType.setWidth 32
  trackingId := uuidToBytes t.trackingId
  senderPubk := t.senderPubk
  timestamp := some (.new t.timestamp)
  data := t.data
  details := t.details
  syncHash := t.syncHash
  signature := t.signature

/-- `UnmarshalBinary`; a tracking id of the wrong length is read as the nil one. -/
def unmarshalBinary (m : PbSyncv1) : Syncv1 where
  verType := m.ver.setWidth 8
  syncType := m.syncType.setWidth 8
  msgType := m.msgType.setWidth 8
  trackingId := (uuidFromBytes m.trackingId).getD 0
  senderPubk := m.senderPubk
  timestamp := m.time
  data := m.data
  details := m.details
  syncHash := m.syncHash
  signature := m.signature

/-- `ToProtobuf`: the field `SyncHash` is not set. -/
def toProtobuf (t : Syncv1) : PbSyncv1 where
  ver := t.verType.setWidth 32
  syncType := t.syncType.setWidth 32
  msgType := t.msgType.setWidth 32
  trackingId := uuidToBytes t.trackingId
  senderPubk := t.senderPubk
  timestamp := some (.new t.timestamp)
  data := t.data
  details := t.details
  syncHash := []
  signature := t.signature

/-- `Syncv1FromProtobuf`: the field `SyncHash` is not read. -/
def fromProtobuf (m : PbSyncv1) : Syncv1 where
  verType := m.ver.setWidth 8
  syncType := m.syncType.setWidth 8
  msgType := m.msgType.setWidth 8
  trackingId := (uuidFromBytes m.trackingId).getD 0
  senderPubk := m.senderPubk
  timestamp := m.time
  data := m.data
  details := m.details
  syncHash := []
  signature := m.signature

lemma unmarshalBinary_marshalBinary (t : Syncv1) : unmarshalBinary t.marshalBinary = t := by
  unfold unmarshalBinary marshalBinary PbSyncv1.time
  simp

lemma fromProtobuf_toProtobuf (t : Syncv1) : fromProtobuf t.toProtobuf = { t with syncHash := [] } := by
  have hbinary := unmarshalBinary_marshalBinary { t with syncHash := [] }
  exact hbinary

/-! ### The record -/

section

variable {ω : Type} {validUtf8 : GoString → Bool} (proto : Codec (PbSyncv1.Utf8 validUtf8) ω)

def marshalRecord (t : Syncv1) : Option ω := proto.encode t.toProtobuf

/-- `UnmarshalRecord`; a nil receiver is refused. -/
def unmarshalRecord (receiver : Option Syncv1) (bytes : ω) : Option Syncv1 :=
  receiver.bind fun _ => (proto.decode bytes).map fromProtobuf

/-- The record reads back in every field that `MarshalBinary` carries. -/
def RoundTrips (t : Syncv1) : Prop :=
  ∃ bytes, t.marshalRecord proto = some bytes ∧
    ∀ receiver, ∃ t', unmarshalRecord proto (some receiver) bytes = some t' ∧
      t'.marshalBinary = t.marshalBinary

/-- **The record of a sync message reads back exactly if its sync hash is empty**, given that
protobuf encodes its type URLs. -/
theorem syncRecord_roundTrip_iff (t : Syncv1) :
    RoundTrips proto t ↔ t.syncHash = [] ∧ ∀ d ∈ t.details, validUtf8 d.typeUrl = true := by
  constructor
  · rintro ⟨bytes, hbytes, hread⟩
    obtain ⟨t', ht', hsame⟩ := hread t
    have hthrough : ((proto.encode t.toProtobuf).bind proto.decode).map fromProtobuf = some t' := by
      unfold marshalRecord at hbytes
      rw [hbytes]
      exact ht'
    obtain ⟨hutf8, hback⟩ := (proto.through_eq_some_iff toProtobuf fromProtobuf t t').mp hthrough
    refine ⟨?_, hutf8⟩
    rw [fromProtobuf_toProtobuf] at hback
    -- the hash that comes back is empty, and it is the one that was sent
    have hhash : t'.syncHash = t.syncHash := congrArg PbSyncv1.syncHash hsame
    rw [← hhash, ← hback]
  · rintro ⟨hhash, hutf8⟩
    obtain ⟨bytes, hbytes, hdecode⟩ := proto.decode_encode t.toProtobuf hutf8
    refine ⟨bytes, hbytes, fun receiver => ⟨t, ?_, rfl⟩⟩
    show (proto.decode bytes).map fromProtobuf = some t
    rw [hdecode, Option.map_some, fromProtobuf_toProtobuf, ← hhash]

end

def sampleVote (syncHash : Bytes) : Syncv1 :=
  ⟨1, 2, 3, 7, [1], ⟨1700000000, 5, by decide, by decide⟩, [2], [⟨ascii "t", [3]⟩], syncHash, [4]⟩

/-- **The hash of the pin is lost**: the record of a message with a sync hash comes back without it.
-/
theorem syncHash_lost :
    (((sampleVote [9]).marshalRecord (.identity (PbSyncv1.Utf8 fun _ => true))).bind
        (unmarshalRecord (.identity (PbSyncv1.Utf8 fun _ => true)) (some (sampleVote []))))
      = some (sampleVote []) ∧
    ¬ RoundTrips (.identity (PbSyncv1.Utf8 fun _ => true)) (sampleVote [9]) := by
  have hlost : (((sampleVote [9]).marshalRecord (.identity (PbSyncv1.Utf8 fun _ => true))).bind
      (unmarshalRecord (.identity (PbSyncv1.Utf8 fun _ => true)) (some (sampleVote []))))
      = some (sampleVote []) := by
    decide +kernel
  refine ⟨hlost, ?_⟩
  rintro ⟨bytes, hbytes, hread⟩
  obtain ⟨t', ht', hsame⟩ := hread (sampleVote [])
  rw [hbytes, Option.bind_some, ht'] at hlost
  rw [Option.some.inj hlost] at hsame
  have hhash : ([] : Bytes) = [9] := congrArg PbSyncv1.syncHash hsame
  cases hhash

end Syncv1

/-! ## Target ids -/

structure UuidSlice where
  isEmpty : Bool
  id : NodeId
  deriving Repr, DecidableEq

structure PbUuidSlice where
  isEmpty : Bool
  uuid : Bytes
  deriving Repr, DecidableEq

structure Ids where
  ids : List UuidSlice
  signatures : FinMap GoString Bytes

structure PbIds where
  ids : List PbUuidSlice
  signatures : FinMap GoString Bytes

namespace Ids

def marshalBinary (i : Ids) : PbIds :=
  ⟨i.ids.map fun slice => ⟨slice.isEmpty, uuidToBytes slice.id⟩, i.signatures⟩

/-- One turn of the loop in `UnmarshalBinary`: bytes that are no id count as empty. -/
def readSlice (p : PbUuidSlice) : UuidSlice :=
  if p.isEmpty then ⟨true, 0⟩
  else
    match uuidFromBytes p.uuid with
    | some id => ⟨false, id⟩
    | none => ⟨true, 0⟩

/-- `UnmarshalBinary`, which appends to the ids that are there. -/
def unmarshalBinary (i : Ids) (p : PbIds) : Ids := ⟨i.ids ++ p.ids.map readSlice, p.signatures⟩

/-- The ids that are flagged empty are the nil ones. -/
def Flagged (i : Ids) : Prop := ∀ slice ∈ i.ids, slice.isEmpty = true ↔ slice.id = 0

lemma readSlice_marshalled {slice : UuidSlice} (h : slice.isEmpty = true ↔ slice.id = 0) :
    readSlice ⟨slice.isEmpty, uuidToBytes slice.id⟩ = slice := by
  obtain ⟨isEmpty, id⟩ := slice
  unfold readSlice
  cases isEmpty with
  | false => simp
  | true =>
    have hnil : id = 0 := h.mp rfl
    simp [hnil]

lemma unmarshalBinary_marshalBinary {i : Ids} (h : i.Flagged) :
    unmarshalBinary ⟨[], ∅⟩ i.marshalBinary = i := by
  obtain ⟨ids, signatures⟩ := i
  show Ids.mk ([] ++ (ids.map _).map readSlice) signatures = ⟨ids, signatures⟩
  rw [List.map_map]
  congr 1
  conv_rhs => rw [← List.map_id ids]
  exact List.map_congr_left fun slice hmem => readSlice_marshalled (h slice hmem)

end Ids

/-! ## Gossiped transactions -/

/-- `GrapeTx`, over the types of multiaddresses and of transactions. The transaction is an
interface and may be nil. -/
structure GrapeTx (A T : Type) where
  peerID : Bytes
  seq : BitVec 64
  tx : GoString
  addrs : List A
  version : BitVec 8
  ids : Ids
  transaction : Option T
  txIdMajor : BitVec 64
  txIdMinor : BitVec 32
  txIdId : NodeId

/-- `pb.GrapeTxRecord`, over the type of transaction messages. -/
structure PbGrapeTxRecord (P : Type) where
  peerId : Bytes
  tx : Bytes
  addresses : List Bytes
  seq : BitVec 64
  version : BitVec 32
  ids : Option PbIds
  txv1 : Option P
  txidmajor : BitVec 64
  txidminor : BitVec 32
  txidid : Bytes

/-- The libraries of a gossiped transaction: libp2p peer ids, base-58, multiaddresses, and the
transaction codec, with what it takes for them to be faithful. -/
structure GossipLibs (A T P : Type) where
  /-- `mh.Cast`: the bytes are a multihash, which is what a peer id consists of -/
  isMultihash : Bytes → Bool
  /-- `peer.Decode`: the peer id of a text -/
  peerDecode : GoString → Option Bytes
  base58Encode : Bytes → GoString
  /-- `base58.Decode`; the empty text is an error -/
  base58Decode : GoString → Option Bytes
  multiaddrBytes : A → Bytes
  newMultiaddrBytes : Bytes → Option A
  marshalTransaction : T → P
  unmarshalTransaction : P → T
  isMultihash_nil : isMultihash [] = false
  /-- no text is the text of itself -/
  peerDecode_ne : ∀ text, peerDecode text ≠ some text
  base58Decode_encode : ∀ bs, (base58Decode (base58Encode bs)).getD [] = bs
  newMultiaddrBytes_bytes : ∀ a, newMultiaddrBytes (multiaddrBytes a) = some a
  unmarshalTransaction_marshal : ∀ t, unmarshalTransaction (marshalTransaction t) = t

namespace GrapeTx

variable {A T P : Type} (lib : GossipLibs A T P)

/-- `ToProtobuf`: a nil transaction panics. -/
def toProtobuf (r : GrapeTx A T) : GoPure (PbGrapeTxRecord P) :=
  match r.transaction with
  | none => .error .panic
  | some t => .ok {
      peerId := r.peerID
      tx := lib.base58Encode r.tx
      addresses := r.addrs.map lib.multiaddrBytes
      seq := r.seq
      version := r.version.setWidth 32
      ids := some r.ids.marshalBinary
      txv1 := some (lib.marshalTransaction t)
      txidmajor := r.txIdMajor
      txidminor := r.txIdMinor
      txidid := uuidToBytes r.txIdId }

/-- The transaction of a message, of the one version there is; without it `UnmarshalBinary` panics.
-/
def readTransaction (version : BitVec 8) (txv1 : Option P) : GoPure (Option T) :=
  if version = 1 then
    match txv1 with
    | some p => .ok (some (lib.unmarshalTransaction p))
    | none => .error .panic
  else .ok none

/-- `GrapeTxFromProtobuf`. The errors of `UnmarshalText` and of `base58.Decode` are ignored. -/
def grapeTxFromProtobuf (msg : PbGrapeTxRecord P) : GoPure (GrapeTx A T) := do
  let version := msg.version.setWidth 8
  let transaction ← readTransaction lib version msg.txv1
  match msg.ids with
  | none => .error .panic
  | some ids => .ok {
      peerID := (lib.peerDecode msg.peerId).getD []
      seq := msg.seq
      tx := (lib.base58Decode msg.tx).getD []
      addrs := msg.addresses.filterMap lib.newMultiaddrBytes
      version := version
      ids := Ids.unmarshalBinary ⟨[], ∅⟩ ids
      transaction := transaction
      txIdMajor := msg.txidmajor
      txIdMinor := msg.txidminor
      txIdId := (uuidFromBytes msg.txidid).getD 0 }

/-- A record survives the way through protobuf. -/
def RoundTrips (r : GrapeTx A T) : Prop :=
  ∃ msg, r.toProtobuf lib = .ok msg ∧ grapeTxFromProtobuf lib msg = .ok r

/-! ### What comes back -/

variable {lib}

lemma addresses_readBack (addrs : List A) :
    (addrs.map lib.multiaddrBytes).filterMap lib.newMultiaddrBytes = addrs := by
  rw [List.filterMap_map]
  have hsome : lib.newMultiaddrBytes ∘ lib.multiaddrBytes = some :=
    funext lib.newMultiaddrBytes_bytes
  rw [hsome, List.filterMap_some]

lemma grapeTxFromProtobuf_toProtobuf {r : GrapeTx A T} {msg : PbGrapeTxRecord P}
    (hversion : r.version = 1) (hids : r.ids.Flagged) (hmsg : r.toProtobuf lib = .ok msg) :
    grapeTxFromProtobuf lib msg = .ok { r with peerID := (lib.peerDecode r.peerID).getD [] } := by
  obtain ⟨peerID, seq, tx, addrs, version, ids, transaction, major, minor, id⟩ := r
  obtain rfl : version = 1 := hversion
  cases transaction with
  | none => cases hmsg
  | some t =>
    obtain rfl := Except.ok.inj hmsg
    have hids' := Ids.unmarshalBinary_marshalBinary hids
    simp only [grapeTxFromProtobuf, readTransaction, lib.unmarshalTransaction_marshal,
      lib.base58Decode_encode, addresses_readBack, uuidFromBytes_uuidToBytes, Option.getD_some]
    show Except.ok (GrapeTx.mk _ _ _ _ _ (Ids.unmarshalBinary ⟨[], ∅⟩ ids.marshalBinary) _ _ _ _) = _
    rw [hids']
    rfl

/-- **No gossiped transaction comes back with its peer id**: its bytes are read as a text, and no
text is the text of itself. -/
theorem grapeTx_never_roundTrips (lib : GossipLibs A T P) (r : GrapeTx A T)
    (hversion : r.version = 1) (hpeer : lib.isMultihash r.peerID = true) (hids : r.ids.Flagged) :
    ¬ RoundTrips lib r := by
  rintro ⟨msg, hmsg, hback⟩
  have hread := grapeTxFromProtobuf_toProtobuf hversion hids hmsg
  rw [hback] at hread
  have hid : r.peerID = (lib.peerDecode r.peerID).getD [] :=
    congrArg GrapeTx.peerID (Except.ok.inj hread)
  cases hdecode : lib.peerDecode r.peerID with
  | none =>
    -- the record comes back without a peer id
    rw [hdecode] at hid
    rw [hid] at hpeer
    exact absurd hpeer (by rw [Option.getD_none, lib.isMultihash_nil]; decide)
  | some id =>
    rw [hdecode, Option.getD_some] at hid
    rw [← hid] at hdecode
    exact lib.peerDecode_ne r.peerID hdecode

end GrapeTx

/-! ## A record -/

def isSampleMultihash (bs : Bytes) : Bool := bs.length ≥ 2 && bs.getD 1 0 = UInt8.ofNat (bs.length - 2)

/-- Multihashes with a code and a length of one byte, in base 58, and no CIDs; the transactions and
addresses are sent as they are. -/
def GossipLibs.sample : GossipLibs Bytes Nat Nat where
  isMultihash := isSampleMultihash
  peerDecode text := (Base58.decode text).filter isSampleMultihash
  base58Encode := Base58.encode
  base58Decode := Base58.decode
  multiaddrBytes a := a
  newMultiaddrBytes := some
  marshalTransaction := id
  unmarshalTransaction := id
  isMultihash_nil := rfl
  peerDecode_ne text h := Base58.decode_ne text (Option.filter_eq_some_iff.mp h).1
  base58Decode_encode bs := by
    by_cases h : bs = []
    · subst h
      rfl
    · rw [Base58.decode_encode h]
      rfl
  newMultiaddrBytes_bytes _ := rfl
  unmarshalTransaction_marshal _ := rfl

def GrapeTx.sample : GrapeTx Bytes Nat :=
  ⟨0x12 :: 0x20 :: List.replicate 32 7, 5, [], [[4, 127, 0, 0, 1]], 1,
    ⟨[⟨false, 3⟩, ⟨true, 0⟩], ∅⟩, some 9, 1, 2, 11⟩

theorem GrapeTx.sample_never_roundTrips :
    GossipLibs.sample.isMultihash GrapeTx.sample.peerID = true ∧ GrapeTx.sample.ids.Flagged ∧
      ¬ GrapeTx.RoundTrips .sample GrapeTx.sample := by
  have hids : GrapeTx.sample.ids.Flagged := by
    intro slice hmem
    have hcases : slice = ⟨false, 3⟩ ∨ slice = ⟨true, 0⟩ := by simpa [GrapeTx.sample] using hmem
    rcases hcases with rfl | rfl <;> decide
  exact ⟨by decide, hids, GrapeTx.grapeTx_never_roundTrips .sample .sample rfl (by decide) hids⟩

/-- **The peer id is lost**: the record comes back without one. -/
theorem GrapeTx.peerID_lost :
    (GrapeTx.sample.toProtobuf GossipLibs.sample).bind (grapeTxFromProtobuf GossipLibs.sample)
      = .ok { GrapeTx.sample with peerID := [] } ∧
    GrapeTx.sample.peerID ≠ [] := by
  refine ⟨?_, by decide⟩
  rfl

end GrapeDag
