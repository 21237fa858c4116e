/-
THE PINS THAT A FULL NODE APPENDS.

A full node compares the receipts of a pin with its own. The comparison reads claimed logs by
position, and of each log only the data, which receipts never contain; and `SyncPins` ignores
the error of a difference, so that `processPin` appends the pin anyway.

Main result: `only_reproducible_iff`.
-/
import GrapeDag.Dag.FullNode

namespace GrapeDag

open Imperative Prog Peer

/-! ## What the execution gives -/

def fullReceipt (env : NodeEnv) (s : Storage) (r : ExecutionResult) : TxReceipt :=
  { execResultToReceipt env s r with
    logs := (getLogsForTx env s r.hash).map fun l => ⟨l.log.contractAddress, l.log.topics, l.log.data⟩ }

section

variable (env : NodeEnv) (header : PinTxHeader)

/-- The transactions reproduce their receipts: fuel, status, message and all logs. -/
def Reproduces : List ExecutedSmcTx → Storage → Prop
  | [], _ => True
  | t :: ts, s =>
      ∃ r, env.vm.result t.tx header s.observed = .ok r ∧
        fullReceipt env (env.vm.storeAfter t.tx header s) r = t.receipt ∧
        Reproduces ts (env.vm.storeAfter t.tx header s)

/-- Executing one of the transactions panics, and no comparison has failed before. -/
def Stops : List ExecutedSmcTx → Storage → Prop
  | [], _ => False
  | t :: ts, s =>
      env.vm.result t.tx header s.observed = .error .panic ∨
      ∃ r, env.vm.result t.tx header s.observed = .ok r ∧
        compareReceipt (execResultToReceipt env (env.vm.storeAfter t.tx header s) r) t.receipt = .ok () ∧
        Stops ts (env.vm.storeAfter t.tx header s)

/-- A comparison panics, and none has failed before it. -/
def ComparePanics : List ExecutedSmcTx → Storage → Prop
  | [], _ => False
  | t :: ts, s =>
      ∃ r, env.vm.result t.tx header s.observed = .ok r ∧
        (compareReceipt (execResultToReceipt env (env.vm.storeAfter t.tx header s) r) t.receipt
            = .error .panic ∨
          compareReceipt (execResultToReceipt env (env.vm.storeAfter t.tx header s) r) t.receipt
              = .ok () ∧
            ComparePanics ts (env.vm.storeAfter t.tx header s))

end

/-! ## The loop -/

section

variable {env : NodeEnv} {header : PinTxHeader} {t : ExecutedSmcTx} {ts : List ExecutedSmcTx}
  {s : Storage} {r : ExecutionResult} {e : GoError}

lemma reexecute_failed (h : env.vm.result t.tx header s.observed = .error e) :
    reexecute env header (t :: ts) s = .err e (env.vm.storeAfter t.tx header s) := by
  exact bind_of_err (executeSMCTx_err h)

lemma reexecute_differs (h : env.vm.result t.tx header s.observed = .ok r)
    (hcompare : compareReceipt (execResultToReceipt env (env.vm.storeAfter t.tx header s) r)
      t.receipt = .error e) :
    reexecute env header (t :: ts) s = .err e (env.vm.storeAfter t.tx header s) := by
  unfold reexecute
  rw [bind_of_ok (executeSMCTx_ok h), gets_bind]
  exact bind_of_err (liftM_of_error hcompare _)

lemma reexecute_passes (h : env.vm.result t.tx header s.observed = .ok r)
    (hcompare : compareReceipt (execResultToReceipt env (env.vm.storeAfter t.tx header s) r)
      t.receipt = .ok ()) :
    reexecute env header (t :: ts) s = reexecute env header ts (env.vm.storeAfter t.tx header s) := by
  rw [reexecute, bind_of_ok (executeSMCTx_ok h)]
  exact liftM_bind hcompare

end

section

variable {env : NodeEnv} {header : PinTxHeader}

lemma panics_of_stops (ts : List ExecutedSmcTx) :
    ∀ s, Stops env header ts s → ∃ s', reexecute env header ts s = .err .panic s' := by
  induction ts with
  | nil =>
    intro s h
    exact h.elim
  | cons t ts ih =>
    intro s h
    rcases h with hpanic | ⟨r, hresult, hcompare, hrest⟩
    · exact ⟨_, reexecute_failed hpanic⟩
    · rw [reexecute_passes hresult hcompare]
      exact ih _ hrest

lemma ends_of_not_panics (ts : List ExecutedSmcTx) :
    ∀ s, ¬ Stops env header ts s → ¬ ComparePanics env header ts s →
      (∃ s', reexecute env header ts s = .ok () s') ∨ ∃ s', reexecute env header ts s = .err .error s' := by
  induction ts with
  | nil =>
    intro s _ _
    exact .inl ⟨s, rfl⟩
  | cons t ts ih =>
    intro s hstops hpanics
    cases hresult : env.vm.result t.tx header s.observed with
    | error e =>
      cases e with
      | error => exact .inr ⟨_, reexecute_failed hresult⟩
      | panic => exact absurd (Or.inl hresult) hstops
    | ok r =>
      cases hcompare : compareReceipt
          (execResultToReceipt env (env.vm.storeAfter t.tx header s) r) t.receipt with
      | error e =>
        cases e with
        | error => exact .inr ⟨_, reexecute_differs hresult hcompare⟩
        | panic => exact absurd ⟨r, hresult, .inl hcompare⟩ hpanics
      | ok u =>
        rw [reexecute_passes hresult hcompare]
        refine ih _ (fun hs => hstops ?_) (fun hp => hpanics ?_)
        · exact .inr ⟨r, hresult, hcompare, hs⟩
        · exact ⟨r, hresult, .inr ⟨hcompare, hp⟩⟩

lemma not_comparePanics_of_stops (ts : List ExecutedSmcTx) :
    ∀ s, Stops env header ts s → ¬ ComparePanics env header ts s := by
  induction ts with
  | nil =>
    intro s h
    exact h.elim
  | cons t ts ih =>
    rintro s hstops ⟨r, hresult, hpanics⟩
    rcases hstops with hpanic | ⟨r', hresult', hcompare, hrest⟩
    · rw [hpanic] at hresult
      cases hresult
    · obtain rfl : r = r' := Except.ok.inj (hresult.symm.trans hresult')
      rcases hpanics with hpanic | ⟨-, hpanics⟩
      · rw [hcompare] at hpanic
        cases hpanic
      · exact ih _ hrest hpanics

lemma compareLogs_ne_panic (ls : List TxExecLog) :
    ∀ cs : List TxExecLog, ls.length ≤ cs.length → compareLogs ls cs ≠ .error .panic := by
  induction ls with
  | nil =>
    intro cs _ h
    cases h
  | cons l ls ih =>
    intro cs hlen
    cases cs with
    | nil => simp at hlen
    | cons c cs =>
      show (if l.data = c.data then compareLogs ls cs else throw .error) ≠ .error .panic
      split
      · exact ih cs (by simpa using hlen)
      · intro h
        cases h

lemma not_comparePanics_of_reproduces (ts : List ExecutedSmcTx) :
    ∀ s, Reproduces env header ts s → ¬ ComparePanics env header ts s := by
  induction ts with
  | nil =>
    intro s _ h
    exact h
  | cons t ts ih =>
    rintro s ⟨r, hresult, hreceipt, hrest⟩ ⟨r', hresult', hpanics⟩
    obtain rfl : r = r' := Except.ok.inj (hresult.symm.trans hresult')
    rcases hpanics with hpanic | ⟨-, hpanics⟩
    · have hlength : (execResultToReceipt env (env.vm.storeAfter t.tx header s) r).logs.length
          ≤ t.receipt.logs.length := by
        rw [← hreceipt]
        simp [fullReceipt, execResultToReceipt]
      unfold compareReceipt at hpanic
      split_ifs at hpanic
      · cases hpanic
      · cases hpanic
      · cases hpanic
      · exact compareLogs_ne_panic _ _ hlength hpanic
    · exact ih _ hrest hpanics

end

/-! ## `processPin` on a full node -/

namespace Follower

/-- The pin reaches the contract stage: it is in order, its payments are replayed, and the
capture of diffs begins, with the store `start`. -/
structure Reaches (s : Follower) (pin : ContractPin) (start : Storage) : Prop where
  order : currentHeight s.pins + 1 = pin.pinNumber
  stage : ∃ balances P1, Peer.replay pin.nodes ∅ s.toPeer = .ok balances P1 ∧
    Storage.captureStateStoreDiffs (P1.store.syncBalances balances) = .ok () start

section

variable {env : NodeEnv} {gap : GapOutcome} {pin : ContractPin} {s : Follower} {start : Storage}

lemma Reaches.start_unique {start' : Storage} (h : Reaches s pin start)
    (h' : Reaches s pin start') : start = start' := by
  obtain ⟨b, P, hreplay, hcapture⟩ := h.stage
  obtain ⟨b', P', hreplay', hcapture'⟩ := h'.stage
  obtain ⟨rfl, rfl⟩ := Outcome.ok.inj (hreplay.symm.trans hreplay')
  exact (Outcome.ok.inj (hcapture.symm.trans hcapture')).2

lemma processPin_in_order (h : currentHeight s.pins + 1 = pin.pinNumber) :
    processPin env .fullNode gap pin s = (do
          zoom Follower.toPeer (fun p s => { s with toPeer := p }) (syncPinsFullNode env pin)
          modify copyConfirmed
          modify fun s => { s with pins := s.pins ++ [pin.toTxPin] } : Go Follower Unit) s := by
  unfold processPin
  rw [gets_bind, if_pos h]
  rfl

lemma processPin_appends (h : Reaches s pin start)
    (hends : (∃ last, reexecute env (nextHeader s.pins pin.ts) pin.smcTxs start = .ok () last) ∨
      ∃ last, reexecute env (nextHeader s.pins pin.ts) pin.smcTxs start = .err .error last) :
    ∃ s', processPin env .fullNode gap pin s = .ok () s' ∧ s'.pins = s.pins ++ [pin.toTxPin] := by
  obtain ⟨balances, P1, hreplay, hcapture⟩ := h.stage
  have hpins : P1.pins = s.pins := (replay_keeps hreplay).2
  have hattempt : ∃ r P2, attempt (runSmartContractStageFullNode env balances pin) P1
      = .ok r P2 ∧ P2.pins = s.pins := by
    rw [← hpins] at hends
    rcases hends with ⟨last, hok⟩ | ⟨last, herr⟩
    · obtain ⟨wc, hstage⟩ := stage_of_reexecuted hcapture hok
      exact ⟨_, _, attempt_of_ok hstage, hpins⟩
    · exact ⟨_, _, attempt_of_error (stage_of_failed hcapture herr), hpins⟩
  obtain ⟨r, P2, hstage, hpins2⟩ := hattempt
  have hsync : syncPinsFullNode env pin s.toPeer = .ok () P2 := by
    unfold syncPinsFullNode
    rw [bind_of_ok hreplay, bind_of_ok hstage]
    rfl
  rw [processPin_in_order h.order, bind_of_ok (zoom_of_ok hsync)]
  refine ⟨_, rfl, ?_⟩
  show P2.pins ++ [pin.toTxPin] = _
  rw [hpins2]

lemma processPin_panics (h : Reaches s pin start) {last : Storage}
    (hpanic : reexecute env (nextHeader s.pins pin.ts) pin.smcTxs start = .err .panic last) :
    ∃ s', processPin env .fullNode gap pin s = .err .panic s' := by
  obtain ⟨balances, P1, hreplay, hcapture⟩ := h.stage
  rw [← (replay_keeps hreplay).2] at hpanic
  have hsync : syncPinsFullNode env pin s.toPeer
      = .err .panic { P1 with store := last.resetCaptureStateStoreDiffs } := by
    unfold syncPinsFullNode
    rw [bind_of_ok hreplay]
    exact bind_of_err (attempt_of_panic (stage_of_failed hcapture hpanic))
  rw [processPin_in_order h.order]
  exact ⟨_, bind_of_err (zoom_of_err hsync)⟩

lemma reaches_of_appended {s' : Follower} (hrun : processPin env .fullNode gap pin s = .ok () s')
    (hpins : s'.pins = s.pins ++ [pin.toTxPin]) : ∃ start, Reaches s pin start := by
  by_cases horder : currentHeight s.pins + 1 = pin.pinNumber
  · rw [processPin_in_order horder] at hrun
    obtain ⟨_, s1, hzoom, -⟩ := bind_eq_ok.mp hrun
    cases hsync : syncPinsFullNode env pin s.toPeer with
    | err e P =>
      rw [zoom_of_err hsync] at hzoom
      cases hzoom
    | diverge =>
      unfold zoom at hzoom
      rw [hsync] at hzoom
      cases hzoom
    | ok u P =>
      obtain ⟨balances, P1, hreplay, hrest⟩ := bind_eq_ok.mp hsync
      obtain ⟨r, P2, hattempt, -⟩ := bind_eq_ok.mp hrest
      cases hcapture : Storage.captureStateStoreDiffs (P1.store.syncBalances balances) with
      | ok v start => exact ⟨start, horder, balances, P1, hreplay, hcapture⟩
      | diverge =>
        unfold Storage.captureStateStoreDiffs at hcapture
        split at hcapture <;> cases hcapture
      | err e t =>
        -- a capture that is already running panics
        exfalso
        have hpanic : e = .panic := by
          unfold Storage.captureStateStoreDiffs at hcapture
          split at hcapture <;> cases hcapture
          rfl
        subst hpanic
        have hstage : runSmartContractStageFullNode env balances pin P1
            = .err .panic { P1 with store := t } := by
          unfold runSmartContractStageFullNode
          rw [gets_bind]
          refine bind_of_err (zoom_of_err ?_)
          rw [modify_bind, bind_of_err hcapture]
        cases (attempt_of_panic hstage).symm.trans hattempt
  · -- out of order nothing is appended
    exfalso
    unfold processPin at hrun
    rw [gets_bind, if_neg horder] at hrun
    have hsame : s'.pins = s.pins := by
      cases gap with
      | channelClosed => cases hrun
      | requestFailed | pinReceived | timeout =>
        obtain ⟨-, rfl⟩ := Outcome.ok.inj hrun
        rfl
    have hlength := congrArg List.length (hsame.symm.trans hpins)
    simp at hlength

end

/-! ## Appended and reproduced -/

/-- A full node only appends what it could reproduce, and comparing never panics. -/
structure OnlyReproducible (env : NodeEnv) (gap : GapOutcome) (pin : ContractPin) (s : Follower) :
    Prop where
  appended : ∀ s', processPin env .fullNode gap pin s = .ok () s' →
    s'.pins = s.pins ++ [pin.toTxPin] →
    ∃ start, Reaches s pin start ∧ Reproduces env (nextHeader s.pins pin.ts) pin.smcTxs start
  compares : ∀ start, Reaches s pin start →
    ¬ ComparePanics env (nextHeader s.pins pin.ts) pin.smcTxs start

/-- **A full node only appends reproducible pins if and only if**, whenever the pin reaches the
stage, its transactions reproduce their receipts, or executing one of them panics before a
comparison has failed. -/
theorem only_reproducible_iff (env : NodeEnv) (gap : GapOutcome) (pin : ContractPin)
    (s : Follower) :
    OnlyReproducible env gap pin s ↔ ∀ start, Reaches s pin start →
      Reproduces env (nextHeader s.pins pin.ts) pin.smcTxs start ∨
        Stops env (nextHeader s.pins pin.ts) pin.smcTxs start := by
  constructor
  · intro h start hreach
    by_cases hstops : Stops env (nextHeader s.pins pin.ts) pin.smcTxs start
    · exact .inr hstops
    · left
      have hends := ends_of_not_panics pin.smcTxs start hstops (h.compares start hreach)
      obtain ⟨s', hrun, hpins⟩ := processPin_appends hreach hends
      obtain ⟨start', hreach', hreproduces⟩ := h.appended s' hrun hpins
      rwa [hreach.start_unique hreach']
  · intro h
    constructor
    · intro s' hrun hpins
      obtain ⟨start, hreach⟩ := reaches_of_appended hrun hpins
      refine ⟨start, hreach, (h start hreach).resolve_right fun hstops => ?_⟩
      obtain ⟨last, hpanic⟩ := panics_of_stops pin.smcTxs start hstops
      obtain ⟨s1, herr⟩ := processPin_panics hreach hpanic
      rw [herr] at hrun
      cases hrun
    · intro start hreach
      rcases h start hreach with hreproduces | hstops
      · exact not_comparePanics_of_reproduces pin.smcTxs start hreproduces
      · exact not_comparePanics_of_stops pin.smcTxs start hstops

def sampleFullNode : Follower := ⟨Peer.sampleGenesis, ∅, []⟩

def sampleWrongFuel : ContractPin := ⟨⟨[], ∅, [], 1⟩, 0, [⟨⟨[2], [2], []⟩, ⟨1, 0, [], []⟩⟩]⟩

/-- **A pin with a wrong receipt is appended**: the transaction has used 21000. -/
theorem wrong_receipt_appended :
    ∃ s', processPin Ledger.tippingNode .fullNode .timeout sampleWrongFuel sampleFullNode
        = .ok () s' ∧
      s'.pins = sampleFullNode.pins ++ [sampleWrongFuel.toTxPin] ∧
      ¬ OnlyReproducible Ledger.tippingNode .timeout sampleWrongFuel sampleFullNode := by
  have hreach : Reaches sampleFullNode sampleWrongFuel
      { sampleFullNode.store.syncBalances ∅ with collectDiffs := true } :=
    ⟨rfl, ∅, sampleFullNode.toPeer, rfl, rfl⟩
  have hstage : reexecute Ledger.tippingNode (nextHeader sampleFullNode.pins sampleWrongFuel.ts)
      sampleWrongFuel.smcTxs { sampleFullNode.store.syncBalances ∅ with collectDiffs := true }
      = .err .error _ := rfl
  obtain ⟨s', hrun, hpins⟩ := processPin_appends hreach (.inr ⟨_, hstage⟩)
  refine ⟨s', hrun, hpins, fun h => ?_⟩
  obtain ⟨start, -, r, hresult, hreceipt, -⟩ := h.appended s' hrun hpins
  cases hresult
  have hfuel : wrap32 21000 = 1 := congrArg TxReceipt.fuelUsed hreceipt
  exact absurd hfuel (by decide)

end Follower

end GrapeDag
