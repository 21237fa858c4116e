/-
PINS ARE NEVER VERIFIED.

`GetHash`, `SignTx` and `VerifyTx` of `src/tx/pb/txpin.go`; `set`, `add` and `insertIfNotFound`
of `src/dag/pin.go`; `processPin` of `src/dag/syncmngr.go`; `handleLatestBalances` of
`src/dag/sync.go`. `VerifyTx` has no caller: what another node sends is appended or inserted as
it is.

Main result: `authentic_of_run`.
-/
import GrapeDag.Dag.PinAssembly
import GrapeDag.Dag.Snapshot

namespace GrapeDag

open Imperative

/-! ## Signatures -/

/-- The hash of a pin's protobuf encoding and the signatures of a wallet. The encoding of a Go map
depends on the order `O` in which it is walked. -/
structure PinCrypto (O : Type) where
  hash : O → SignedPin → Bytes
  publicKey : (key : Bytes) → Bytes
  sign : (key payload : Bytes) → Bytes
  verify : (publicKey signature payload : Bytes) → Bool
  verify_sign : ∀ key payload, verify (publicKey key) (sign key payload) payload = true
  length_sign : ∀ key payload, 64 ≤ (sign key payload).length

section Crypto

variable {O : Type} (c : PinCrypto O)

def SignedPin.signTx (walk : O) (key : Bytes) (pin : SignedPin) : SignedPin :=
  let t := { pin with sign := [], pk := c.publicKey key }
  { t with sign := c.sign key (c.hash walk t) }

def SignedPin.verifyTx (walk : O) (pin : SignedPin) : Bool :=
  decide (64 ≤ pin.sign.length) && c.verify pin.pk pin.sign (c.hash walk { pin with sign := [] })

/-- The pin verifies against the leader's key, in whatever order its maps are walked. -/
def SignedPin.Verified (leader : Bytes) (pin : SignedPin) : Prop :=
  pin.pk = leader ∧ ∀ walk, pin.verifyTx c walk = true

/-- The encoding of the pin does not depend on the order in which its maps are walked. -/
def SignedPin.Steady (pin : SignedPin) : Prop := ∀ walk walk', c.hash walk pin = c.hash walk' pin

lemma SignedPin.verified_signTx (walk : O) (key : Bytes) {pin : SignedPin}
    (h : ({ pin with sign := [], pk := c.publicKey key } : SignedPin).Steady c) :
    (pin.signTx c walk key).Verified c (c.publicKey key) := by
  refine ⟨rfl, fun walk' => ?_⟩
  have hpayload := h walk' walk
  simp only [verifyTx, signTx, Bool.and_eq_true]
  exact ⟨decide_eq_true (c.length_sign _ _), hpayload ▸ c.verify_sign _ _⟩

end Crypto

/-! ## The five ways in -/

/-- The pins of a node, and whether it takes announced ones. -/
structure PinHolder where
  pins : List SignedPin
  ready : Bool

namespace PinHolder

variable {O : Type} (c : PinCrypto O)

def set (walk : O) (wallet : Bytes) (content : PinContent) (s : PinHolder) : PinHolder :=
  { s with pins := s.pins ++
      [SignedPin.signTx c walk wallet { content with prev := [], pk := [], sign := [] }] }

/-- `add`: a pin over what the ledger and the contract stage made of it. -/
def add (walk : O) (wallet : Bytes) (content : PinContent) (s : PinHolder) : PinHolder :=
  let prev := (s.pins.getLast?.map (·.sign)).getD []
  { s with pins := s.pins ++
      [SignedPin.signTx c walk wallet { content with prev := prev, pk := [], sign := [] }] }

def contents (s : PinHolder) : List TxPin := s.pins.map (·.toTxPin)

/-- An announced pin: `processPin` on a node that is ready. Behind a gap no pin is appended. -/
def processPin (pin : SignedPin) (s : PinHolder) : PinHolder :=
  if s.ready ∧ currentHeight s.contents + 1 = pin.pinNumber then
    { s with pins := s.pins ++ [pin] }
  else s

/-- `handleLatestBalances`, whichever way it ends: the pin of the message, with the balances that
were read into it. -/
def handleLatestBalances (details : List SnapshotValue) (latest : SignedPin) (s : PinHolder) :
    PinHolder :=
  if s.ready then s
  else
    match applySnapshot details latest.toTxPin ⟨s.contents ++ [latest.toTxPin], false⟩ with
    | .ok _ t =>
        let balance := (t.pins.getLast?.map (·.balance)).getD latest.balance
        { pins := s.pins ++ [{ latest with balance := balance }], ready := t.ready }
    | _ => { s with pins := s.pins ++ [latest] }

/-- `processMissPinResponse`, `handleSyncPinResponse`: the pin is inserted, or the node panics. -/
def insertIfNotFound (ptx : SignedPin) (s : PinHolder) : PinHolder :=
  match GrapeDag.insertIfNotFound ptx s.pins with
  | .ok pins => { s with pins := pins }
  | .error _ => s

/-- What can add a pin to a node. -/
inductive Step (O : Type) where
  | create (walk : O) (wallet : Bytes) (content : PinContent)
  | form (walk : O) (wallet : Bytes) (content : PinContent)
  | announced (pin : SignedPin)
  | snapshot (details : List SnapshotValue) (latest : SignedPin)
  | missing (ptx : SignedPin)

def step (s : PinHolder) : Step O → PinHolder
  | .create walk wallet content => s.set c walk wallet content
  | .form walk wallet content => s.add c walk wallet content
  | .announced pin => s.processPin pin
  | .snapshot details latest => s.handleLatestBalances details latest
  | .missing ptx => s.insertIfNotFound ptx

/-- Each pin after the first names its predecessor and carries the leader's signature. -/
def Authentic (leader : Bytes) (s : PinHolder) : Prop :=
  s.pins.IsChain fun p q => q.prev = p.sign ∧ q.Verified c leader

/-! ## Admissible steps -/

/-- The pin follows the last one held, under the key of the leader. -/
def Continues (leader : Bytes) (pin : SignedPin) (s : PinHolder) : Prop :=
  ∀ last, s.pins.getLast? = some last → pin.prev = last.sign ∧ pin.Verified c leader

/-- Inserting the pin where it belongs breaks no link. -/
def Insertable (leader : Bytes) (ptx : SignedPin) (s : PinHolder) : Prop :=
  (∃ p ∈ s.pins, p.sign = ptx.sign) ∨
  ((s.pins = [] ∨ ptx.prev ≠ []) ∧ (∀ x ∈ s.pins, x.prev ≠ ptx.sign) ∧ Continues c leader ptx s) ∨
  ∃ x, s.pins.head? = some x ∧ x.prev ≠ [] ∧ x.prev = ptx.sign ∧ x.Verified c leader

/-- What a step needs for the chain to stay authentic. -/
def Admissible (leader : Bytes) (s : PinHolder) : Step O → Prop
  | .create _ _ _ => s.pins = []
  | .form _ wallet content => c.publicKey wallet = leader ∧ ({ content with
        prev := (s.pins.getLast?.map (·.sign)).getD [], pk := leader, sign := [] } : SignedPin).Steady c
  | .announced pin => Continues c leader pin s
  | .snapshot _ _ => s.ready = true ∨ s.pins = []
  | .missing ptx => Insertable c leader ptx s

/-- The states that admissible steps lead to. -/
inductive Run (leader : Bytes) : PinHolder → Prop
  | start (ready : Bool) : Run leader ⟨[], ready⟩
  | step {s : PinHolder} (e : Step O) (h : Run leader s) (he : Admissible c leader s e) :
      Run leader (s.step c e)

variable {c} {leader : Bytes} {s : PinHolder}

lemma authentic_of_nil (h : s.pins = []) : s.Authentic c leader := by
  rw [Authentic, h]
  exact List.IsChain.nil

lemma Authentic.concat (h : s.Authentic c leader) {pin : SignedPin}
    (hpin : Continues c leader pin s) (ready : Bool) :
    Authentic c leader ⟨s.pins ++ [pin], ready⟩ := by
  refine List.isChain_append.mpr ⟨h, List.IsChain.singleton _, ?_⟩
  intro last hlast q hq
  obtain rfl := Option.some.inj hq
  exact hpin last hlast

lemma continues_of_nil (h : s.pins = []) (pin : SignedPin) : Continues c leader pin s := by
  intro last hlast
  rw [h] at hlast
  cases hlast

lemma Authentic.set (h : s.Authentic c leader) (hnil : s.pins = []) (walk : O)
    (wallet : Bytes) (content : PinContent) : (s.set c walk wallet content).Authentic c leader :=
  h.concat (continues_of_nil hnil _) s.ready

lemma Authentic.add (h : s.Authentic c leader) (walk : O) {wallet : Bytes}
    {content : PinContent} (hkey : c.publicKey wallet = leader)
    (hsteady : ({ content with
      prev := (s.pins.getLast?.map (·.sign)).getD [], pk := leader, sign := [] } : SignedPin).Steady c) :
    (s.add c walk wallet content).Authentic c leader := by
  subst hkey
  refine h.concat (fun last hlast => ?_) s.ready
  refine ⟨?_, SignedPin.verified_signTx c walk wallet hsteady⟩
  show (s.pins.getLast?.map (·.sign)).getD [] = last.sign
  rw [hlast]
  rfl

lemma Authentic.processPin (h : s.Authentic c leader) {pin : SignedPin}
    (hpin : Continues c leader pin s) : (s.processPin pin).Authentic c leader := by
  unfold PinHolder.processPin
  split
  · exact h.concat hpin s.ready
  · exact h

lemma Authentic.handleLatestBalances (h : s.Authentic c leader)
    (hfresh : s.ready = true ∨ s.pins = []) (details : List SnapshotValue) (latest : SignedPin) :
    (s.handleLatestBalances details latest).Authentic c leader := by
  unfold PinHolder.handleLatestBalances
  split
  · exact h
  · next hready =>
    have hnil := hfresh.resolve_left hready
    split
    · exact h.concat (continues_of_nil hnil _) _
    · exact h.concat (continues_of_nil hnil _) _

lemma inserted_of_insertable {ptx : SignedPin} (h : Insertable c leader ptx s) :
    inserted ptx s.pins = s.pins ∨
      (inserted ptx s.pins = s.pins ++ [ptx] ∧ Continues c leader ptx s) ∨
      ∃ x, s.pins.head? = some x ∧ x.prev = ptx.sign ∧ x.Verified c leader ∧
        inserted ptx s.pins = ptx :: s.pins := by
  by_cases hknown : (s.pins.any fun p => p.sign = ptx.sign) = true
  · exact Or.inl (if_pos hknown)
  right
  rcases h with ⟨p, hp, hps⟩ | ⟨hprev, hnamed, hcont⟩ | ⟨x, hx, hxprev, hxs, hver⟩
  · exact absurd (List.any_eq_true.mpr ⟨p, hp, decide_eq_true hps⟩) hknown
  · left
    refine ⟨?_, hcont⟩
    have hnone : Assembly.insertBefore (fun x => decide (x.prev = ptx.sign)) ptx s.pins = none :=
      Assembly.insertBefore_eq_none.mpr fun x hx => decide_eq_false (hnamed x hx)
    rw [inserted, if_neg hknown, hnone]
    rcases hprev with hnil | hprev
    · simp [hnil, insertedGenesis]
    · rw [if_neg fun hlen => hprev (List.length_eq_zero_iff.mp hlen)]
      rfl
  · right
    refine ⟨x, hx, hxs, hver, ?_⟩
    obtain ⟨rest, hpins⟩ := List.head?_eq_some_iff.mp hx
    have hsome : Assembly.insertBefore (fun x => decide (x.prev = ptx.sign)) ptx s.pins =
        some (ptx :: s.pins) := by
      rw [hpins, Assembly.insertBefore, if_pos (decide_eq_true hxs)]
    have hxlen : x.prev.length ≠ 0 := fun hlen => hxprev (List.length_eq_zero_iff.mp hlen)
    rw [inserted, if_neg hknown]
    split
    · rw [hpins, insertedGenesis, if_neg hxlen, ← hpins, hsome]
      rfl
    · rw [hsome]
      rfl

lemma Authentic.insertIfNotFound (h : s.Authentic c leader) {ptx : SignedPin}
    (hptx : Insertable c leader ptx s) : (s.insertIfNotFound ptx).Authentic c leader := by
  unfold PinHolder.insertIfNotFound
  split
  · next pins hok =>
    obtain ⟨-, rfl⟩ := insertIfNotFound_eq_ok.mp hok
    rcases inserted_of_insertable hptx with heq | ⟨heq, hcont⟩ | ⟨x, hx, hxs, hver, heq⟩
    · rw [heq]
      exact h
    · rw [heq]
      exact h.concat hcont s.ready
    · rw [heq]
      refine List.isChain_cons.mpr ⟨fun y hy => ?_, h⟩
      rw [hx] at hy
      obtain rfl := Option.some.inj hy
      exact ⟨hxs, hver⟩
  · exact h

theorem Authentic.step (h : s.Authentic c leader) {e : Step O} (he : Admissible c leader s e) :
    (s.step c e).Authentic c leader := by
  cases e with
  | create walk wallet content => exact h.set he walk wallet content
  | form walk wallet content => exact h.add walk he.1 he.2
  | announced pin => exact h.processPin he
  | snapshot details latest => exact h.handleLatestBalances he details latest
  | missing ptx => exact h.insertIfNotFound he

/-- **Run.** Over every run of admissible steps, the pins are authentic. -/
theorem authentic_of_run {O : Type} {c : PinCrypto O} {leader : Bytes} {s : PinHolder}
    (h : Run c leader s) : s.Authentic c leader := by
  induction h with
  | start ready => exact authentic_of_nil rfl
  | step e _ he ih => exact ih.step he

def plainCrypto : PinCrypto Unit where
  hash _ pin := pin.prev ++ pin.pk ++ [UInt8.ofNat pin.pinNumber]
  publicKey key := key
  sign key payload := List.replicate 64 0 ++ key ++ payload
  verify key signature payload := decide (signature = List.replicate 64 0 ++ key ++ payload)
  verify_sign _ _ := decide_eq_true rfl
  length_sign key payload := by
    simp only [List.length_append, List.length_replicate]
    omega

def bareContent (number : Nat) : PinContent := ⟨⟨⟨[], ∅, [], number⟩, 0, []⟩, []⟩

theorem leader_authentic : Authentic plainCrypto [7] (((⟨[], false⟩ : PinHolder).step plainCrypto
      (.create () [7] (bareContent 0))).step plainCrypto (.form () [7] (bareContent 1))) :=
  authentic_of_run (.step _ (.step _ (.start false) rfl) ⟨rfl, fun _ _ => rfl⟩)

def sentPin : SignedPin := SignedPin.signTx plainCrypto () [7] ⟨bareContent 4, [], [], []⟩

def forgedPin : SignedPin := ⟨bareContent 5, [], [], []⟩

/-- **A node that is ready appends a pin that nobody signed.** -/
theorem forged_pin_appended :
    (((⟨[], false⟩ : PinHolder).step plainCrypto (.snapshot [.int64 4, .int32 0] sentPin)).step
        plainCrypto (.announced forgedPin)).pins = [sentPin, forgedPin] ∧
      ¬ forgedPin.Verified plainCrypto [7] ∧ forgedPin.prev ≠ sentPin.sign := by
  refine ⟨rfl, ?_, ?_⟩
  · intro h
    exact absurd h.1 (by decide)
  · intro h
    have hlen := congrArg List.length h
    exact absurd hlen (by decide)

end PinHolder

end GrapeDag
