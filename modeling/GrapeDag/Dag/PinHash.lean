/-
THE HASHES OF A PIN.

`GetHash`, `SignTx` and `VerifyTx` of `src/tx/pb/txpin.go` hash what `proto.Marshal` returns,
which has the entries of the balance map and of the map of targets of every site in whatever order
the maps are walked this time.
`pinMerkelHash` of `src/dag/sync.go` sorts the ids of the sites before it hashes them.

Main results: `pin_hash_iff` and `pinMerkelHash_iff`.
-/
import Mathlib.Logic.Encodable.Basic
import Mathlib.Logic.Equiv.List
import GrapeDag.Dag.PinAuthenticity

namespace GrapeDag

open List

/-! ## The order of the maps -/

/-- The entries of a pin's maps, one after the other: those of the balance map and those of the
map `missingTargets` of each site. -/
@[ext]
structure MapEntries where
  balance : List BalanceEntry
  missingTargets : List (List (Sigma fun _ : NodeId => Bool))
deriving DecidableEq

/-- The entries as they are stored. -/
def SignedPin.mapEntries (pin : SignedPin) : MapEntries :=
  ⟨pin.balance.entries, pin.missingTargets.map (·.entries)⟩

/-- The entries backwards, map by map. -/
def MapEntries.reverse (es : MapEntries) : MapEntries :=
  ⟨es.balance.reverse, es.missingTargets.map List.reverse⟩

/-- `es'` has the entries of every map of `es`, each in some order. -/
structure MapEntries.Perm (es' es : MapEntries) : Prop where
  balance : es'.balance.Perm es.balance
  missingTargets : List.Forall₂ List.Perm es'.missingTargets es.missingTargets

/-- An order in which a call of `proto.Marshal` walks the maps of a pin. -/
abbrev WalkOrder := { walk : SignedPin → MapEntries // ∀ pin, (walk pin).Perm pin.mapEntries }

/-- No map of the pin has two entries. -/
structure SignedPin.Unordered (pin : SignedPin) : Prop where
  balance : pin.balance.entries.length ≤ 1
  missingTargets : ∀ m ∈ pin.missingTargets, m.entries.length ≤ 1

/-- `proto.Marshal` and `proto.Unmarshal`: an encoding by values of `D` has the entries of the
maps one after the other. -/
structure PinWire (D : Type) where
  marshal : SignedPin → MapEntries → D
  unmarshal : D → Option (SignedPin × MapEntries)
  faithful : ∀ pin entries,
    unmarshal (marshal pin entries) = some ({ pin with balance := ∅, missingTargets := [] }, entries)

section Wire

variable {D : Type} (wire : PinWire D) (sha256 : D → Bytes) (dsa : PinCrypto Unit)

/-- `proto.Unmarshal`, which makes the maps of their entries. -/
def PinWire.decode (data : D) : Option SignedPin := (wire.unmarshal data).map fun p => { p.1 with
    balance := FinMap.writeAll p.2.balance ∅
    missingTargets := p.2.missingTargets.map (FinMap.writeAll · ∅) }

/-- `Hash`, with the signatures of `dsa`. -/
def PinWire.crypto : PinCrypto WalkOrder :=
  { dsa with hash := fun walk pin => sha256 (wire.marshal pin (walk.1 pin)) }

/-- The hash is the same at every call, and what is signed verifies, also at its recipient. -/
structure WellDefined (pin : SignedPin) : Prop where
  repeated : pin.Steady (wire.crypto sha256 dsa)
  signed : ∀ key walk walk', (pin.signTx (wire.crypto sha256 dsa) walk key).verifyTx
    (wire.crypto sha256 dsa) walk' = true
  sent : ∀ key walk (sent : WalkOrder) walk', ∃ received,
    wire.decode (wire.marshal (pin.signTx (wire.crypto sha256 dsa) walk key)
      (sent.1 (pin.signTx (wire.crypto sha256 dsa) walk key))) = some received ∧
    received.verifyTx (wire.crypto sha256 dsa) walk' = true

variable {wire sha256 dsa}

lemma eq_of_perm_of_le_one {α : Type} {l l' : List α} (hperm : l'.Perm l) (h : l.length ≤ 1) : l' = l := by
  rcases Nat.le_one_iff_eq_zero_or_eq_one.mp h with h | h
  · rw [length_eq_zero_iff.mp h] at hperm ⊢
    exact hperm.eq_nil
  · obtain ⟨e, he⟩ := length_eq_one_iff.mp h
    rw [he] at hperm ⊢
    exact hperm.eq_singleton

lemma eq_of_forall₂_perm {α : Type} {ls ls' : List (List α)} (hperm : List.Forall₂ List.Perm ls' ls)
    (h : ∀ l ∈ ls, l.length ≤ 1) : ls' = ls := by
  induction hperm with
  | nil => rfl
  | cons hl _ ih =>
    rw [forall_mem_cons] at h
    rw [eq_of_perm_of_le_one hl h.1, ih h.2]

/-- A list without repetitions that reads the same backwards has at most one element. -/
lemma length_le_one_of_reverse {α : Type} {l : List α} (hnodup : l.Nodup) (hsame : l = l.reverse) :
    l.length ≤ 1 := by
  cases l with
  | nil => exact Nat.zero_le _
  | cons e es =>
    -- the first element is the last one
    have hlast := congrArg getLast? hsame
    rw [getLast?_reverse, head?_cons] at hlast
    cases es with
    | nil => exact le_refl 1
    | cons e' es =>
      rw [getLast?_cons_cons] at hlast
      exact absurd (mem_of_getLast? hlast) (nodup_cons.mp hnodup).1

lemma writeAll_entries {κ ν : Type} [DecidableEq κ] {m : FinMap κ ν} (h : m.entries.length ≤ 1) :
    FinMap.writeAll m.entries ∅ = m := by
  obtain ⟨entries, hnodup⟩ := m
  cases entries with
  | nil => rfl
  | cons e es =>
    have hes : es = [] := length_eq_zero_iff.mp (Nat.le_zero.mp (Nat.le_of_succ_le_succ h))
    subst hes
    rfl

lemma MapEntries.perm_reverse (es : MapEntries) : es.reverse.Perm es where
  balance := es.balance.reverse_perm
  missingTargets := by
    show List.Forall₂ List.Perm (es.missingTargets.map List.reverse) es.missingTargets
    exact forall₂_map_left_iff.mpr (forall₂_same.mpr fun l _ => l.reverse_perm)

/-- The stored order and its reverse are two orders of a walk. -/
def WalkOrder.forth : WalkOrder := ⟨SignedPin.mapEntries, fun _ => ⟨.refl _, forall₂_same.mpr fun _ _ => .refl _⟩⟩

def WalkOrder.back : WalkOrder := ⟨fun pin => pin.mapEntries.reverse, fun _ => MapEntries.perm_reverse _⟩

namespace SignedPin

variable {pin : SignedPin}

lemma unordered_of_reverse (h : pin.mapEntries = pin.mapEntries.reverse) : pin.Unordered where
  balance := length_le_one_of_reverse pin.balance.nodupKeys.nodup (congrArg MapEntries.balance h)
  missingTargets m hm := by
    have hmaps := congrArg MapEntries.missingTargets h
    simp only [mapEntries, MapEntries.reverse, map_map] at hmaps
    exact length_le_one_of_reverse m.nodupKeys.nodup (map_inj_left.mp hmaps m hm)

lemma Unordered.walk_eq (h : pin.Unordered) (walk : WalkOrder) : walk.1 pin = pin.mapEntries := by
  obtain ⟨hbalance, hmissing⟩ := walk.2 pin
  refine MapEntries.ext (eq_of_perm_of_le_one hbalance h.balance) (eq_of_forall₂_perm hmissing ?_)
  exact forall_mem_map.mpr h.missingTargets

lemma Unordered.steady (h : pin.Unordered) : pin.Steady (wire.crypto sha256 dsa) := by
  intro walk walk'
  show sha256 (wire.marshal pin (walk.1 pin)) = sha256 (wire.marshal pin (walk'.1 pin))
  rw [h.walk_eq walk, h.walk_eq walk']

lemma Unordered.decode_marshal (h : pin.Unordered) :
    wire.decode (wire.marshal pin pin.mapEntries) = some pin := by
  have hmaps : pin.missingTargets.map (fun m => FinMap.writeAll m.entries ∅) = pin.missingTargets :=
    (map_congr_left fun m hm => writeAll_entries (h.missingTargets m hm)).trans (map_id _)
  simp only [PinWire.decode, wire.faithful, mapEntries, Option.map_some, map_map, Function.comp_def,
    writeAll_entries h.balance, hmaps]

end SignedPin

/-- **THE HASH OF A PIN** is well defined if and only if the pin has at most one balance and
every site of it at most one target. -/
theorem pin_hash_iff (hcollision : ∀ pin es es', sha256 (wire.marshal pin es)
      = sha256 (wire.marshal pin es') → es = es') (pin : SignedPin) :
    WellDefined wire sha256 dsa pin ↔ pin.balance.entries.length ≤ 1 ∧
      ∀ m ∈ pin.missingTargets, m.entries.length ≤ 1 := by
  constructor
  · intro h
    have hsame := hcollision _ _ _ (h.repeated WalkOrder.forth WalkOrder.back)
    obtain ⟨hbalance, hmissing⟩ := SignedPin.unordered_of_reverse hsame
    exact ⟨hbalance, hmissing⟩
  · rintro ⟨hbalance, hmissing⟩
    have hone : pin.Unordered := ⟨hbalance, hmissing⟩
    have hverified : ∀ key walk walk', (pin.signTx (wire.crypto sha256 dsa) walk key).verifyTx
        (wire.crypto sha256 dsa) walk' = true :=
      fun key walk walk' => (SignedPin.verified_signTx _ walk key
        (SignedPin.Unordered.steady ⟨hbalance, hmissing⟩)).2 walk'
    refine ⟨hone.steady, hverified, fun key walk sent walk' => ?_⟩
    -- the signature changes no map
    have hsigned : (pin.signTx (wire.crypto sha256 dsa) walk key).Unordered := ⟨hbalance, hmissing⟩
    refine ⟨_, ?_, hverified key walk walk'⟩
    rw [hsigned.walk_eq sent]
    exact hsigned.decode_marshal

end Wire

def PinWire.sample : PinWire (SignedPin × MapEntries) :=
  ⟨fun pin entries => ({ pin with balance := ∅, missingTargets := [] }, entries), some, fun _ _ => rfl⟩

def sampleSha256 (data : SignedPin × MapEntries) : Bytes :=
  List.replicate (Encodable.encode (data.2.balance.map fun e => (e.1.toNat, e.2),
    data.2.missingTargets.map fun es => es.map fun e => (e.1.toNat, e.2))) 0

def PinCrypto.sampleDsa : PinCrypto Unit :=
  ⟨fun _ _ => [], id, fun _ _ => List.replicate 64 0, fun _ _ _ => true, fun _ _ => rfl,
    fun _ _ => le_of_eq List.length_replicate.symm⟩

def SignedPin.sample (balance : FinMap Address Nat) (targets : FinMap NodeId Bool) : SignedPin :=
  { nodes := [], balance := balance, diffs := [], pinNumber := 1, ts := 0, smcTxs := [], prev := [],
    pk := [], sign := [], missingTargets := [targets] }

lemma entry_injective {w : Nat} {ν : Type} :
    Function.Injective fun e : (Sigma fun _ : BitVec w => ν) => (e.1.toNat, e.2) := by
  rintro ⟨a, n⟩ ⟨a', n'⟩ heq
  simp only [Prod.mk.injEq] at heq
  rw [BitVec.eq_of_toNat_eq heq.1, heq.2]

lemma sampleSha256_injective (pin : SignedPin) (es es' : MapEntries)
    (h : sampleSha256 (PinWire.sample.marshal pin es) = sampleSha256 (PinWire.sample.marshal pin es')) :
    es = es' := by
  have hcode := congrArg length h
  simp only [sampleSha256, length_replicate] at hcode
  obtain ⟨hbalance, hmissing⟩ := Prod.mk.inj (Encodable.encode_injective hcode)
  exact MapEntries.ext (map_injective_iff.mpr entry_injective hbalance)
    (map_injective_iff.mpr (map_injective_iff.mpr entry_injective) hmissing)

theorem one_balance_well_defined : WellDefined PinWire.sample sampleSha256 PinCrypto.sampleDsa
    (SignedPin.sample ((∅ : FinMap Address Nat).insert 1 10) ((∅ : FinMap NodeId Bool).insert 3 true)) :=
  (pin_hash_iff sampleSha256_injective _).mpr (by decide)

/-- With two balances the hash depends on the order, and so it does with two targets. -/
theorem two_balances_not_steady :
    ¬ (SignedPin.sample (((∅ : FinMap Address Nat).insert 1 10).insert 2 20) ∅).Steady
      (PinWire.sample.crypto sampleSha256 PinCrypto.sampleDsa) ∧
    ¬ (SignedPin.sample ((∅ : FinMap Address Nat).insert 1 10)
        (((∅ : FinMap NodeId Bool).insert 3 true).insert 4 true)).Steady
      (PinWire.sample.crypto sampleSha256 PinCrypto.sampleDsa) := by
  constructor <;> intro h <;>
    exact absurd (sampleSha256_injective _ _ _ (h WalkOrder.forth WalkOrder.back)) (by decide)

/-! ## The hash of the sites -/

def uuidString (id : Bytes) : GoString :=
  Hex.encode (id.take 4) ++ ascii "-" ++ Hex.encode ((id.drop 4).take 2) ++ ascii "-" ++
    Hex.encode ((id.drop 6).take 2) ++ ascii "-" ++ Hex.encode ((id.drop 8).take 2) ++ ascii "-" ++
      Hex.encode (id.drop 10)

def hashTexts (md5 : Bytes → Bytes) (buf : List GoString) : Bytes :=
  buf.foldl (fun prevHash id => md5 (prevHash ++ id)) (md5 (List.replicate 16 0))

/-- `pinMerkelHash`; `uuid.FromBytes` makes the nil UUID of what has not 16 bytes. -/
def pinMerkelHash (md5 : Bytes → Bytes) (ids : List Bytes) : Bytes :=
  hashTexts md5 ((ids.map fun id =>
    uuidString (if id.length = 16 then id else List.replicate 16 0)).insertionSort (· ≤ ·))

lemma uuidString_inj {a b : Bytes} (ha : a.length = 16) (hb : b.length = 16)
    (h : uuidString a = uuidString b) : a = b := by
  -- the fields have fixed lengths, so they are the same one by one
  have hencode : ∀ {x y : Bytes}, Hex.encode x = Hex.encode y → x = y := fun hxy =>
    Option.some.inj ((Hex.decode_encode _).symm.trans ((congrArg Hex.decode hxy).trans (Hex.decode_encode _)))
  unfold uuidString at h
  obtain ⟨h, h4⟩ := append_inj' h (by simp [ha, hb])
  obtain ⟨h, _⟩ := append_inj' h rfl
  obtain ⟨h, h3⟩ := append_inj' h (by simp [ha, hb])
  obtain ⟨h, _⟩ := append_inj' h rfl
  obtain ⟨h, h2⟩ := append_inj' h (by simp [ha, hb])
  obtain ⟨h, _⟩ := append_inj' h rfl
  obtain ⟨h, h1⟩ := append_inj' h (by simp [ha, hb])
  obtain ⟨h0, _⟩ := append_inj' h rfl
  have hcut : ∀ (x : Bytes) (i : Nat), (x.drop i).take 2 ++ x.drop (i + 2) = x.drop i := by
    intro x i
    rw [← drop_drop, take_append_drop]
  have hparts : ∀ x : Bytes, x.take 4 ++ ((x.drop 4).take 2 ++ ((x.drop 6).take 2
      ++ ((x.drop 8).take 2 ++ x.drop 10))) = x := by
    intro x
    rw [hcut x 8, hcut x 6, hcut x 4, take_append_drop]
  rw [← hparts a, ← hparts b, hencode h0, hencode h1, hencode h2, hencode h3, hencode h4]

lemma hashTexts_inj {md5 : Bytes → Bytes} (hmd5 : Function.Injective md5) (l : List GoString) :
    ∀ l', (∀ s ∈ l, s.length = 36) → (∀ s ∈ l', s.length = 36) →
      hashTexts md5 l = hashTexts md5 l' → l = l' := by
  -- the last hash is over the last text; the first one is over fewer bytes than any text has
  induction l using reverseRecOn with
  | nil =>
    intro l' _ h' h
    rcases eq_nil_or_concat l' with rfl | ⟨l', x, rfl⟩
    · rfl
    · rw [concat_eq_append, hashTexts, hashTexts, foldl_append] at h
      have hlength := congrArg length (hmd5 h)
      rw [length_append, h' x (by simp), length_replicate] at hlength
      omega
  | append_singleton l x ih =>
    intro l' hl h' h
    rcases eq_nil_or_concat l' with rfl | ⟨l', y, rfl⟩
    · rw [hashTexts, foldl_append] at h
      have hlength := congrArg length (hmd5 h)
      rw [length_append, hl x (by simp), length_replicate] at hlength
      omega
    · rw [concat_eq_append] at h h' ⊢
      rw [hashTexts, hashTexts, foldl_append, foldl_append] at h
      obtain ⟨hprev, hlast⟩ := append_inj' (hmd5 h) ((hl x (by simp)).trans (h' y (by simp)).symm)
      rw [ih l' (fun s hs => hl s (by simp [hs])) (fun s hs => h' s (by simp [hs])) hprev, hlast]

/-- **THE HASH OF THE SITES** tells lists of 16-byte ids apart up to their order. -/
theorem pinMerkelHash_iff {md5 : Bytes → Bytes} (hmd5 : Function.Injective md5)
    {ids ids' : List Bytes} (h : ∀ id ∈ ids, id.length = 16) (h' : ∀ id ∈ ids', id.length = 16) :
    pinMerkelHash md5 ids = pinMerkelHash md5 ids' ↔ ids.Perm ids' := by
  have htexts : ∀ {l : List Bytes}, (∀ id ∈ l, id.length = 16) →
      (l.map fun id => uuidString (if id.length = 16 then id else replicate 16 0)) = l.map uuidString :=
    fun hl => map_congr_left fun id hid => by rw [if_pos (hl id hid)]
  unfold pinMerkelHash
  rw [htexts h, htexts h']
  constructor
  · intro heq
    have hlength : ∀ {l : List Bytes}, (∀ id ∈ l, id.length = 16) →
        ∀ s ∈ (l.map uuidString).insertionSort (· ≤ ·), s.length = 36 := by
      intro l hl s hs
      obtain ⟨id, hid, rfl⟩ := mem_map.mp ((perm_insertionSort _ _).mem_iff.mp hs)
      have hdash : (ascii "-").length = 1 := rfl
      simp only [uuidString, length_append, Hex.length_encode, length_take,
        length_drop, hl id hid, hdash]
      decide
    have hsorted := hashTexts_inj hmd5 _ _ (hlength h) (hlength h') heq
    have hperm : (ids.map uuidString).Perm (ids'.map uuidString) :=
      (perm_insertionSort _ _).symm.trans (hsorted.symm ▸ perm_insertionSort (· ≤ ·) _)
    -- a text of 16 bytes can be read back
    have hinj : Set.InjOn uuidString {id | id.length = 16} := fun a ha b hb => uuidString_inj ha hb
    have hback : ∀ {l : List Bytes}, (∀ id ∈ l, id.length = 16) →
        (l.map uuidString).map (Function.invFunOn uuidString {id | id.length = 16}) = l := by
      intro l hl
      rw [map_map]
      exact (map_congr_left fun id hid => hinj.leftInvOn_invFunOn (hl id hid)).trans (map_id l)
    rw [← hback h, ← hback h']
    exact hperm.map _
  · intro hperm
    have hsorted : (ids.map uuidString).insertionSort (· ≤ ·) = (ids'.map uuidString).insertionSort (· ≤ ·) :=
      List.Perm.eq_of_pairwise (fun a b _ _ => List.le_antisymm)
        (pairwise_insertionSort _ _) (pairwise_insertionSort _ _)
        (((perm_insertionSort _ _).trans (hperm.map _)).trans (perm_insertionSort _ _).symm)
    rw [hsorted]

theorem two_sites_exchanged : pinMerkelHash id [List.replicate 16 1, List.replicate 16 2]
    = pinMerkelHash id [List.replicate 16 2, List.replicate 16 1] :=
  (pinMerkelHash_iff Function.injective_id (by decide) (by decide)).mpr (List.Perm.swap _ _ _)

end GrapeDag
