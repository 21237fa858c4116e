/-
VERTICES THAT PEERS SEND EACH OTHER.

`ToPbNode` and `FromPbNode` of `src/dag/node.go`, with `MarshalBinary` and `UnmarshalBinary` of
`src/tx/txvX.go`. The references of a vertex are sent as missing targets: those that are linked,
and NOT those that it still misses itself.

Main result: `siteExchange_iff`.
-/
import GrapeDag.Dag.Graph
import GrapeDag.Dag.PinHash
import GrapeDag.Dag.ReceiptLogs
import GrapeDag.Dag.Records

namespace GrapeDag

open GoPure

/-! ## Messages -/

structure NodeID extends VersionedId where
  address : GoString
  deriving DecidableEq

structure PbNodeId where
  id : Bytes
  idMajor : Nat
  idMinor : Nat
  address : GoString

structure Height where
  minheight : Nat
  maxheight : Nat

/-- `Node`; of a target only the id is read, and the missing targets are the keys of a map. -/
structure SentNode (F : Type) where
  id : NodeID
  cumWeight : F
  txWeight : F
  time : GoTime
  valid : Bool
  height : Height
  tx : Transaction
  targets : List NodeId
  missingTargets : List GoString

/-- `pb.Txv1`, with the RLP encoding that only an Ethereum transaction has. -/
structure PbTx (W : Type) where
  fields : Txv1
  rlpEthTx : Option W

/-- `pb.Node`; what a message leaves out is nil. -/
structure PbNode (G W : Type) where
  id : Option PbNodeId
  cumWeight : G
  txWeight : G
  time : Option PbTimestamp
  valid : Bool
  height : Option Height
  tx : Option (PbTx W)
  missingTargets : List GoString

/-- The libraries, over the types `F` and `G` of floats with 64 and 32 bits, and `W` of RLP
encodings. -/
structure SiteLibs (F G W : Type) where
  crypto : Crypto
  now : Int
  rlp : Codec (fun _ : EthTx => True) W
  float32 : F → G
  float64 : G → F

variable {F G W : Type} (lib : SiteLibs F G W)

def Transaction.toPb (tx : Transaction) : GoPure (PbTx W) := do
  let fields ← tx.marshalBinary lib.crypto lib.now
  match tx with
  | .v1 _ => return ⟨fields, none⟩
  | .eth t => return ⟨fields, some (← orPanic (lib.rlp.encode t))⟩

def Transaction.ofPb (p : PbTx W) : GoPure Transaction :=
  match p.rlpEthTx with
  | some rlp => do return .eth (← orPanic (lib.rlp.decode rlp))
  | none => .ok (.v1 p.fields)

namespace SentNode

/-- The texts of the linked targets' ids. -/
def targetTexts (n : SentNode F) : List GoString := n.targets.map fun id => uuidString (uuidToBytes id)

def toPbNode (n : SentNode F) : GoPure (PbNode G W) := do
  let tx ← n.tx.toPb lib
  return {
    id := some ⟨uuidToBytes n.id.id, n.id.idMajor, n.id.idMinor, n.id.address⟩
    cumWeight := lib.float32 n.cumWeight
    txWeight := lib.float32 n.txWeight
    time := some (.new n.time)
    valid := n.valid
    height := some n.height
    tx := some tx
    missingTargets := n.targetTexts }

/-- `FromPbNode`: targets and sources of the receiver stay. A nil part panics, but not the time;
the error of an id that does not have 16 bytes is ignored. -/
def fromPbNode (n : SentNode F) (pbn : PbNode G W) : GoPure (SentNode F) := do
  let height ← orPanic pbn.height
  let id ← orPanic pbn.id
  let tx ← Transaction.ofPb lib (← orPanic pbn.tx)
  return { n with
    id := ⟨⟨(uuidFromBytes id.id).getD 0, id.idMajor, id.idMinor⟩, id.address⟩
    cumWeight := lib.float64 pbn.cumWeight
    txWeight := lib.float64 pbn.txWeight
    time := (pbn.time.getD ⟨0, 0⟩).asTime
    valid := pbn.valid
    height := height
    tx := tx
    missingTargets := pbn.missingTargets }

/-- The vertex arrives with its references: as missing targets, all of the sites that it
references. -/
def Arrives (n : SentNode F) : Prop :=
  ∃ pbn, n.toPbNode lib = .ok pbn ∧ ∀ receiver : SentNode F, ∃ n', receiver.fromPbNode lib pbn = .ok n' ∧
    n'.id = n.id ∧ n'.height = n.height ∧ n'.valid = n.valid ∧ n'.tx = n.tx ∧ n'.time = n.time ∧
      ∀ key, key ∈ n'.missingTargets ↔ key ∈ n.targetTexts ∨ key ∈ n.missingTargets

/-! ## What arrives -/

variable {lib}

lemma ofPb_toPb {tx : Transaction} {sent : Txv1}
    (h : tx.marshalBinary lib.crypto lib.now = .ok sent) :
    ∃ p, tx.toPb lib = .ok p ∧ Transaction.ofPb lib p = .ok tx := by
  unfold Transaction.toPb
  rw [h]
  cases tx with
  | v1 t =>
    obtain rfl := Except.ok.inj h
    exact ⟨_, rfl, rfl⟩
  | eth t =>
    obtain ⟨bytes, hencode, hdecode⟩ := lib.rlp.decode_encode t trivial
    refine ⟨⟨sent, some bytes⟩, ?_, ?_⟩
    · simp only [hencode]
      rfl
    · simp only [Transaction.ofPb, hdecode]
      rfl

lemma missingTargets_fromPbNode {receiver n' : SentNode F} {pbn : PbNode G W}
    (h : receiver.fromPbNode lib pbn = .ok n') : n'.missingTargets = pbn.missingTargets := by
  obtain ⟨height, -, h⟩ := bind_eq_ok.mp h
  obtain ⟨id, -, h⟩ := bind_eq_ok.mp h
  obtain ⟨p, -, h⟩ := bind_eq_ok.mp h
  obtain ⟨tx, -, h⟩ := bind_eq_ok.mp h
  rw [← Except.ok.inj h]

/-- **A vertex arrives with its references exactly if it has no missing target that is not linked as
well**, given that its transaction can be written at all. -/
theorem siteExchange_iff (lib : SiteLibs F G W) (n : SentNode F) :
    n.Arrives lib ↔
      (∃ sent, n.tx.marshalBinary lib.crypto lib.now = .ok sent) ∧
        ∀ key ∈ n.missingTargets, key ∈ n.targetTexts := by
  constructor
  · rintro ⟨pbn, hpbn, harrives⟩
    unfold toPbNode at hpbn
    obtain ⟨p, hp, hpbn⟩ := bind_eq_ok.mp hpbn
    obtain ⟨sent, hsent, -⟩ := bind_eq_ok.mp hp
    obtain ⟨n', hn', -, -, -, -, -, hkeys⟩ := harrives n
    refine ⟨⟨sent, hsent⟩, fun key hkey => ?_⟩
    -- the receiver knows the linked targets only
    have harrived := (hkeys key).mpr (.inr hkey)
    rw [missingTargets_fromPbNode hn', ← Except.ok.inj hpbn] at harrived
    exact harrived
  · rintro ⟨⟨sent, hsent⟩, hlinked⟩
    obtain ⟨p, hp, hback⟩ := ofPb_toPb hsent
    unfold Arrives toPbNode
    rw [hp]
    refine ⟨_, rfl, fun receiver => ?_⟩
    refine ⟨_, bind_eq_ok.mpr ⟨_, rfl, bind_eq_ok.mpr ⟨_, rfl, bind_eq_ok.mpr
      ⟨p, rfl, bind_eq_ok.mpr ⟨_, hback, rfl⟩⟩⟩⟩, ?_, rfl, rfl, rfl,
      PbTimestamp.asTime_new n.time, fun key => ?_⟩
    · show NodeID.mk ⟨(uuidFromBytes (uuidToBytes n.id.id)).getD 0, _, _⟩ _ = n.id
      rw [uuidFromBytes_uuidToBytes]
      rfl
    · exact ⟨.inl, fun h => h.elim (fun h => h) (hlinked key)⟩

end SentNode

/-! ## A vertex -/

def SentNode.sample : SentNode Unit where
  id := ⟨⟨7, 1, 0⟩, []⟩
  cumWeight := ()
  txWeight := ()
  time := ⟨0, 0, by decide, by decide⟩
  valid := true
  height := ⟨1, 1⟩
  tx := .v1 ⟨.payment, 0, [], [], [], [], 0, 0, [], [], [], []⟩
  targets := []
  missingTargets := [uuidString (uuidToBytes 5)]

def SiteLibs.sample : SiteLibs Unit Unit EthTx := ⟨.sample, 0, .identity _, id, id⟩

/-- **The reference is lost**: the vertex arrives without any missing target. -/
theorem SentNode.missing_target_lost :
    (SentNode.sample.toPbNode SiteLibs.sample).bind (SentNode.sample.fromPbNode SiteLibs.sample)
      = .ok { SentNode.sample with missingTargets := [] } ∧
    ¬ SentNode.sample.Arrives SiteLibs.sample := by
  refine ⟨rfl, ?_⟩
  rintro ⟨pbn, hpbn, harrives⟩
  obtain ⟨n', hn', -, -, -, -, -, hkeys⟩ := harrives sample
  have harrived := (hkeys _).mpr (.inr (List.mem_singleton.mpr rfl))
  rw [missingTargets_fromPbNode hn', ← Except.ok.inj hpbn] at harrived
  cases harrived

end GrapeDag
