/-
CATCHING UP WITH THE LEADER.

`processPin` of `src/dag/syncmngr.go` with its loop over the download channel,
`openPinDownloading`, `AddDownloadedPin` and `ClosePinDownloading` of `src/dag/pin.go`. The
loop reads the second value of a receive as "closed", where Go means "there was a value": the
first pin that arrives ends the loop, and the end of the channel is taken for a pin.

Main result: `gap_recovered_iff`.
-/
import GrapeDag.Dag.Unconfirmed

namespace GrapeDag

open Imperative

namespace Follower

variable (env : NodeEnv) (type : NodeType)

/-! ## The loop -/

/-- `<-downloadedPins` on a closed channel that still holds these pins: the next pin and `true`, or
nil and `false` once it is drained. -/
def receive : List ContractPin → (Option ContractPin × Bool) × List ContractPin
  | [] => ((none, false), [])
  | pin :: pins => ((some pin, true), pins)

def takePin (pin : ContractPin) : Go Follower Unit := do
  .zoom Follower.toPeer (fun p s => { s with toPeer := p }) (Peer.syncPinsAs env pin type)
  .modify fun s => { s with pins := s.pins ++ [pin.toTxPin] }

/-- The loop `pinProcessing`. `patience` is how often `select` takes the channel before it takes
the timer; `closed` is the source's name for the second value of the receive. -/
def pinProcessing : (patience : Nat) → List ContractPin → (height : Nat) → Go Follower Nat
  | 0, _, height => return height
  | patience + 1, channel, height =>
      let ((downloadedPin, closed), rest) := receive channel
      if closed then return height
      else
        match downloadedPin with
        | none => .raise .panic
        | some pin =>
            if pin.pinNumber = height + 1 then do
              takePin env type pin
              pinProcessing patience rest (height + 1)
            else return height

/-- `processPin`, where `requested` says whether the request for the missing pins could be sent and
`downloaded` what the channel holds when it is closed. -/
def processPinDownloading (requested : Bool) (patience : Nat) (downloaded : List ContractPin)
    (pin : ContractPin) : Go Follower Unit := do
  let height ← .gets fun s => currentHeight s.pins
  if height + 1 = pin.pinNumber then
    .zoom Follower.toPeer (fun p s => { s with toPeer := p }) (Peer.syncPinsAs env pin type)
    .modify copyConfirmed
    .modify fun s => { s with pins := s.pins ++ [pin.toTxPin] }
  else if requested then
    let _ ← pinProcessing env type patience downloaded height
    .modify copyConfirmed
  else return ()

def gapOutcome (requested : Bool) (patience : Nat) (downloaded : List ContractPin) : GapOutcome :=
  if requested then
    match patience, downloaded with
    | 0, _ => .timeout
    | _ + 1, [] => .channelClosed
    | _ + 1, _ :: _ => .pinReceived
  else .requestFailed

/-! ## What the loop does -/

/-- The loop in full refines its outcome: `processPin` with the loop does what `processPin` does
with the outcome of the download given. -/
theorem processPinDownloading_eq (requested : Bool) (patience : Nat)
    (downloaded : List ContractPin) (pin : ContractPin) (s : Follower) :
    processPinDownloading env type requested patience downloaded pin s
      = processPin env type (gapOutcome requested patience downloaded) pin s := by
  unfold processPinDownloading processPin
  rw [Prog.gets_bind, Prog.gets_bind]
  by_cases horder : currentHeight s.pins + 1 = pin.pinNumber
  · rw [if_pos horder, if_pos horder]
  cases requested with
  | false => rfl
  | true =>
    cases patience with
    | zero => rfl
    | succ patience =>
      cases downloaded with
      | nil => rfl
      | cons p ps => rfl

lemma processPinDownloading_gap {patience : Nat} {downloaded : List ContractPin}
    {pin : ContractPin} {s : Follower} (hgap : currentHeight s.pins + 1 ≠ pin.pinNumber) :
    processPinDownloading env type true patience downloaded pin s = (do
          let _ ← pinProcessing env type patience downloaded (currentHeight s.pins)
          .modify copyConfirmed : Go Follower Unit) s := by
  unfold processPinDownloading
  rw [Prog.gets_bind, if_neg hgap, if_pos rfl]

/-! ## Recovery -/

def takeAll : List ContractPin → Go Follower Unit
  | [] => return ()
  | pin :: pins => do
      takePin env type pin
      takeAll pins

variable {env type}

/-- The gap is closed: the run returns, with what applying and appending the downloaded pins in
order gives, at the height of the last of them. -/
structure Recovered (env : NodeEnv) (type : NodeType) (downloaded : List ContractPin)
    (s : Follower) (run : Outcome GoError Follower Unit) (s' : Follower) : Prop where
  returned : run = .ok () s'
  applied : ∃ t, takeAll env type downloaded s = .ok () t ∧ s' = t.copyConfirmed
  appended : s'.pins = s.pins ++ downloaded.map (·.toTxPin)
  height : currentHeight s'.pins = currentHeight s.pins + downloaded.length

lemma gap_unchanged {patience : Nat} {downloaded : List ContractPin} {pin : ContractPin}
    {s s' : Follower} (hgap : currentHeight s.pins + 1 ≠ pin.pinNumber)
    (hrun : processPinDownloading env type true patience downloaded pin s = .ok () s') :
    s' = s.copyConfirmed ∧ (patience = 0 ∨ downloaded ≠ []) := by
  rw [processPinDownloading_gap env type hgap] at hrun
  cases patience with
  | zero =>
    obtain ⟨-, rfl⟩ := Outcome.ok.inj hrun
    exact ⟨rfl, .inl rfl⟩
  | succ patience =>
    cases downloaded with
    | nil => cases hrun
    | cons p ps =>
      obtain ⟨-, rfl⟩ := Outcome.ok.inj hrun
      exact ⟨rfl, .inr (List.cons_ne_nil p ps)⟩

/-- **A gap is closed exactly if there is none to close**, and the timer fires before the loop looks
at the closed channel. -/
theorem gap_recovered_iff (patience : Nat) (downloaded : List ContractPin) (pin : ContractPin)
    (s : Follower) (hgap : currentHeight s.pins + 1 ≠ pin.pinNumber) :
    (∃ s', Recovered env type downloaded s
      (processPinDownloading env type true patience downloaded pin s) s') ↔
      downloaded = [] ∧ patience = 0 := by
  constructor
  · rintro ⟨s', h⟩
    obtain ⟨rfl, hends⟩ := gap_unchanged hgap h.returned
    have hlength := congrArg List.length h.appended
    have hnone : downloaded = [] := by
      apply List.eq_nil_of_length_eq_zero
      rw [List.length_append, List.length_map] at hlength
      have hsame : s.copyConfirmed.pins.length = s.pins.length := rfl
      omega
    exact ⟨hnone, hends.resolve_right fun hne => hne hnone⟩
  · rintro ⟨rfl, rfl⟩
    refine ⟨s.copyConfirmed, ?_, ⟨s, rfl, rfl⟩, ?_, ?_⟩
    · rw [processPinDownloading_gap env type hgap]
      rfl
    · exact (List.append_nil _).symm
    · rfl

def sampleNumbered (n : Nat) : ContractPin := ⟨⟨[], ∅, [], n⟩, 0, []⟩

theorem nothing_to_recover : ∃ s', Recovered silentNode .peerNode [] samplePaid
      (processPinDownloading silentNode .peerNode true 0 [] (sampleNumbered 3) samplePaid) s' :=
  (gap_recovered_iff 0 [] (sampleNumbered 3) samplePaid (by decide)).mpr ⟨rfl, rfl⟩

/-- **Pins 1 and 2 are lost**: the peer at height 0 has downloaded them, and stays at height 0;
where the leader sends none, it panics. -/
theorem downloaded_pins_lost :
    (∃ s', processPinDownloading silentNode .peerNode true 5 [sampleNumbered 1, sampleNumbered 2]
        (sampleNumbered 3) samplePaid = .ok () s' ∧ currentHeight s'.pins = 0) ∧
      processPinDownloading silentNode .peerNode true 5 [] (sampleNumbered 3) samplePaid
        = .err .panic samplePaid ∧
      ∀ s', ¬ Recovered silentNode .peerNode [sampleNumbered 1, sampleNumbered 2] samplePaid
        (processPinDownloading silentNode .peerNode true 5 [sampleNumbered 1, sampleNumbered 2]
          (sampleNumbered 3) samplePaid) s' := by
  refine ⟨⟨samplePaid.copyConfirmed, rfl, rfl⟩, rfl, fun s' h => ?_⟩
  obtain ⟨rfl, -⟩ := gap_unchanged (by decide) h.returned
  have hheight : currentHeight samplePaid.copyConfirmed.pins = 0 := rfl
  have := h.height.symm.trans hheight
  cases this

end Follower

end GrapeDag
