/-
WHAT A PIN SAYS ABOUT BALANCES.

A pin is meant to hold the balances of the pins before it, with the payments of its own sites.
A follower computes them so (`SyncPins`); the leader reads them from its live wallet cache,
which also has the unconfirmed payments, and forgets the history of a wallet once one of its
payments is pinned.

Main results: `pins_confirmed` and `dag_adds_up`.
-/
import GrapeDag.Dag.Follower

namespace GrapeDag

open Imperative Folding WalletCache List Payment Peer

/-! ## The net effect of payments -/

def Payment.effect (p : Payment) (w : Address) : Int :=
  (if w = p.recipient then (p.amount : Int) else 0) - (if w = p.sender then (p.amount : Int) else 0)

def net (ps : List Payment) (w : Address) : Int := (ps.map (·.effect w)).sum

@[simp] lemma net_nil (w : Address) : net [] w = 0 := rfl

@[simp] lemma net_cons (p : Payment) (ps : List Payment) (w : Address) :
    net (p :: ps) w = p.effect w + net ps w := rfl

@[simp] lemma net_append (ps qs : List Payment) (w : Address) : net (ps ++ qs) w = net ps w + net qs w := by
  simp [net]

lemma move_eq_effect (b : Address → Int) (p : Payment) (w : Address) :
    Bank.move b p.sender p.recipient p.amount w = b w + p.effect w := by
  unfold Bank.move effect
  omega

/-- The payment is made to another wallet, and `w` is one of the two. -/
def Payment.moves (w : Address) (p : Payment) : Bool :=
  decide (p.sender ≠ p.recipient) && decide (p.Touches w)

lemma effect_of_not_moves {p : Payment} {w : Address} (h : p.moves w = false) : p.effect w = 0 := by
  unfold effect
  by_cases hself : p.sender = p.recipient
  · rw [hself]
    omega
  · have hnot : ¬ p.Touches w := by simpa [moves, hself] using h
    rw [if_neg fun hr => hnot (.inr hr), if_neg fun hs => hnot (.inl hs)]
    rfl

lemma net_filter_moves (ps : List Payment) (w : Address) : net (ps.filter (·.moves w)) w = net ps w := by
  induction ps with
  | nil => rfl
  | cons p ps ih =>
    cases hp : p.moves w with
    | true =>
      rw [filter_cons_of_pos hp, net_cons, net_cons, ih]
    | false =>
      rw [filter_cons_of_neg (by simp [hp]), net_cons, effect_of_not_moves hp]
      omega

def pinnedNodes (pins : List TxPin) : List Payment := pins.flatMap (·.nodes)

def confirmed (pins : List TxPin) (w : Address) : Int := (getLatestBalance pins w).getD 0

lemma confirmed_nonneg (pins : List TxPin) (w : Address) : 0 ≤ confirmed pins w := by
  unfold confirmed
  omega

/-! ## The leader -/

/-- The sites a pin should be formed over. -/
structure Confirms (sites : List Payment) (L : Ledger) : Prop where
  noSelf : ∀ p ∈ sites, p.sender ≠ p.recipient
  complete : ∀ w, Touched sites w → L.dag.filter (·.moves w)
    = (pinnedNodes L.pins).filter (·.moves w) ++ (Ledger.inOrder sites).filter (·.moves w)

/-- Each payment is within its sender's balance at its place in the dag. -/
def Covers (base : Address → Int) (dag : List Payment) : Prop :=
  ∀ before p, before ++ [p] <+: dag → p.sender ≠ p.recipient →
    (p.amount : Int) ≤ base p.sender + net before p.sender

/-- The caches, the dag and the pins tell the same balances. -/
structure Accounted (base : Address → Int) (L : Ledger) : Prop where
  nonneg : ∀ w, 0 ≤ L.effective w
  idle : L.store.Idle
  effective : ∀ w, L.effective w = base w + net L.dag w
  covers : Covers base L.dag
  confirmed : ∀ w, GrapeDag.confirmed L.pins w = base w + net (pinnedNodes L.pins) w

namespace Ledger

lemma addToDag_pins (p : Payment) (L : Ledger) : (L.addToDag p).2.pins = L.pins := by
  unfold addToDag updateBalanceIfValid
  dsimp only
  split_ifs <;> rfl

lemma addToDag_dag (p : Payment) (L : Ledger) :
    (L.addToDag p).2.dag = if (L.addToDag p).1 = true then L.dag ++ [p] else L.dag := by
  have hdag : (L.updateBalanceIfValid p).2.dag = L.dag := by
    unfold updateBalanceIfValid
    dsimp only
    split_ifs <;> rfl
  unfold addToDag
  revert hdag
  obtain ⟨valid, L'⟩ := L.updateBalanceIfValid p
  intro hdag
  cases valid with
  | true | false => simpa using hdag

lemma accounted_genesis (wallet : Address) (hash : Bytes) {store : Storage} (h : store.Idle) :
    Accounted (fun w => if w = wallet then (initialOffering : Int) else 0) (genesis wallet hash store) := by
  have hbalanced := balanced_genesis wallet hash h
  have hself : ∀ w, net [Payment.genesis wallet hash] w = 0 := by
    intro w
    simp [Payment.effect, Payment.genesis]
  refine ⟨hbalanced.nonneg, h, fun w => ?_, ?_, fun w => ?_⟩
  · rw [effective_genesis]
    show _ = _ + net [Payment.genesis wallet hash] w
    rw [hself]
    omega
  · intro before p hpre hne
    have hmem : p ∈ [Payment.genesis wallet hash] := hpre.mem (by simp)
    rw [mem_singleton] at hmem
    rw [hmem] at hne
    exact absurd rfl hne
  · have heffective := effective_genesis wallet hash store w
    show GrapeDag.confirmed [.genesis wallet] w = _ + 0
    rw [Int.add_zero]
    exact heffective

variable {base : Address → Int} {L : Ledger} {sites : List Payment}

lemma accounted_addToDag (h : Accounted base L) (p : Payment) : Accounted base (L.addToDag p).2 := by
  obtain ⟨L', hrun, hbalanced⟩ := balanced_run_event (.payment p) ⟨h.nonneg, rfl, h.idle⟩
  obtain ⟨_, rfl⟩ := Outcome.ok.inj hrun
  rcases effective_addToDag p h.nonneg with ⟨hv, hcovered, hmove⟩ | ⟨hv, hkeep⟩
  · have hdag : (L.addToDag p).2.dag = L.dag ++ [p] := by
      rw [addToDag_dag, if_pos hv]
    refine ⟨hbalanced.nonneg, hbalanced.idle, fun w => ?_, ?_, fun w => ?_⟩
    · rw [hmove, hdag, move_eq_effect, h.effective, net_append]
      simp only [net_cons, net_nil]
      omega
    · rw [hdag]
      intro before q hpre hne
      rcases prefix_concat_iff.mp hpre with hlast | hearlier
      · obtain ⟨rfl, hq⟩ := append_inj' hlast rfl
        obtain rfl : q = p := by simpa using hq
        rw [← h.effective]
        exact hcovered hne
      · exact h.covers before q hearlier hne
    · rw [addToDag_pins]
      exact h.confirmed w
  · have hdag : (L.addToDag p).2.dag = L.dag := by
      rw [addToDag_dag, hv]
      rfl
    refine ⟨hbalanced.nonneg, hbalanced.idle, fun w => ?_, ?_, fun w => ?_⟩
    · rw [hkeep, hdag, h.effective]
    · rw [hdag]
      exact h.covers
    · rw [addToDag_pins]
      exact h.confirmed w

lemma net_inOrder (sites : List Payment) (w : Address) : net (inOrder sites) w = net sites w := by
  have hperm : (inOrder sites).Perm sites := perm_insertionSort _ _
  exact (hperm.map _).sum_eq

lemma effective_of_confirms (h : Accounted base L) (hconfirms : Confirms sites L) {w : Address}
    (hw : Touched sites w) : L.effective w = GrapeDag.confirmed L.pins w + net sites w := by
  have hdag : net L.dag w = net (pinnedNodes L.pins) w + net sites w := by
    rw [← net_filter_moves L.dag w, hconfirms.complete w hw, net_append, net_filter_moves,
      net_filter_moves, net_inOrder]
  rw [h.effective, h.confirmed]
  omega

lemma accounted_pinned {L' : Ledger} {pin : TxPin} (h : Accounted base L)
    (hconfirms : Confirms sites L) (hpinned : Pinned sites L pin L') : Accounted base L' := by
  have hkeep := effective_pinned h.nonneg hpinned
  refine ⟨fun w => hkeep ▸ h.nonneg w, hpinned.idle, fun w => ?_, ?_, fun w => ?_⟩
  · rw [hkeep, hpinned.dag]
    exact h.effective w
  · rw [hpinned.dag]
    exact h.covers
  have hnodes : pinnedNodes L'.pins = pinnedNodes L.pins ++ inOrder sites := by
    unfold pinnedNodes
    rw [hpinned.pins]
    simp [hpinned.nodes]
  rw [hnodes, net_append, net_inOrder]
  unfold GrapeDag.confirmed
  rw [hpinned.pins, getLatestBalance_concat, hpinned.balance]
  by_cases hw : Touched sites w
  · have heffective := effective_of_confirms h hconfirms hw
    have hw0 := h.nonneg w
    have hbase := h.confirmed w
    rw [if_pos hw]
    show (((L.effective w).natAbs : Nat) : Int) = _
    omega
  · -- the pin does not mention the wallet
    have hnone : net sites w = 0 := by
      rw [← net_filter_moves]
      have hempty : sites.filter (·.moves w) = [] := by
        rw [filter_eq_nil_iff]
        intro p hp hmoves
        have htouches : p.Touches w := by
          simp only [moves, Bool.and_eq_true, decide_eq_true_eq] at hmoves
          exact hmoves.2
        exact hw ⟨p, hp, htouches⟩
      rw [hempty]
      rfl
    rw [if_neg hw, hnone, Int.add_zero, ← h.confirmed w]
    rfl

end Ledger

/-! ## The follower -/

/-- The follower is in step with the pins: it has them, and the balances it works with are
theirs. -/
structure Follows (pins : List TxPin) (peer : Peer) : Prop where
  same : peer.pins = pins
  cache : ∀ w, WalletCache.loaded peer.pins peer.walletCacheConfirmed w = confirmed pins w

namespace Peer

lemma loaded_paid {pins : List TxPin} {wc : WalletCache} {p : Payment}
    (hnonneg : ∀ w, 0 ≤ loaded pins wc w)
    (hcovered : (p.amount : Int) ≤ loaded pins wc p.sender) (w : Address) :
    loaded pins (paid pins p wc) w = loaded pins wc w + p.effect w := by
  have hreceives := hnonneg p.recipient
  simp only [paid, add, sub, loaded_change, effect]
  grind

lemma loaded_paidAll {pins : List TxPin} (ps : List Payment)
    (hne : ∀ p ∈ ps, p.sender ≠ p.recipient) :
    ∀ wc, (∀ w, 0 ≤ loaded pins wc w) → Covers (loaded pins wc) ps → Solvent pins ps wc ∧ ∀ w,
        loaded pins (paidAll pins ps wc) w = loaded pins wc w + net ps w := by
  induction ps with
  | nil =>
    intro wc _ _
    exact ⟨trivial, fun w => (Int.add_zero _).symm⟩
  | cons p ps ih =>
    intro wc hnonneg hcovers
    have hp : (p.amount : Int) ≤ loaded pins wc p.sender := by
      have hfirst := hcovers [] p (prefix_append [p] ps) (hne p (by simp))
      simpa using hfirst
    have hpaid := loaded_paid hnonneg hp
    -- what the first payment moves is there for the others
    have hcovers' : Covers (loaded pins (paid pins p wc)) ps := by
      intro before q hpre hq
      have hlater := hcovers (p :: before) q (prefix_cons_inj p |>.mpr hpre) hq
      rw [net_cons] at hlater
      rw [hpaid]
      omega
    have hnonneg' : ∀ w, 0 ≤ loaded pins (paid pins p wc) w := by
      intro w
      rw [hpaid, ← move_eq_effect (loaded pins wc) p w]
      exact Bank.move_nonneg hnonneg (by omega) hp w
    obtain ⟨hsolvent, hsum⟩ := ih (fun q hq => hne q (by simp [hq])) _ hnonneg' hcovers'
    refine ⟨⟨.inr (.inr hp), hsolvent⟩, fun w => ?_⟩
    show loaded pins (paidAll pins ps (paid pins p wc)) w = _
    rw [hsum, hpaid, net_cons]
    omega

lemma checkBalances_passes (es : List (Sigma fun _ : Address => Nat)) {s : Peer}
    (h : ∀ e ∈ es, get s.walletCacheConfirmed e.1 = some (e.2 : Int) ∧
      ∀ acc, s.store.getAccount e.1 = some acc → acc.balance = (e.2 : Nat)) :
    checkBalances es s = .ok true s := by
  induction es with
  | nil => rfl
  | cons e es ih =>
    obtain ⟨hcached, hstored⟩ := h e (by simp)
    have hone : checkBalance e.1 e.2 s = .ok true s := by
      unfold checkBalance
      rw [hcached]
      cases hacc : s.store.getAccount e.1 with
      | none => simp
      | some acc => simp [hstored acc hacc]
    exact (Prog.bind_of_ok hone).trans (ih fun e' he' => h e' (by simp [he']))

end Peer

lemma prefix_of_filter {α : Type} {keep : α → Bool} {l kept : List α} {x : α}
    (h : kept ++ [x] <+: l.filter keep) :
    ∃ before, before ++ [x] <+: l ∧ before.filter keep = kept := by
  obtain ⟨rest, hrest⟩ := h
  have hsplit : l.filter keep = kept ++ (x :: rest) := by
    rw [← hrest]
    simp
  obtain ⟨l1, l2, rfl, hl1, hl2⟩ := filter_eq_append_iff.mp hsplit
  obtain ⟨m1, m2, rfl, hm1, _, _⟩ := filter_eq_cons_iff.mp hl2
  refine ⟨l1 ++ m1, ⟨m2, by simp⟩, ?_⟩
  have hnone : m1.filter keep = [] := filter_eq_nil_iff.mpr hm1
  rw [filter_append, hl1, hnone, append_nil]

variable {base : Address → Int}

/-- The payments of the pin are covered on the follower: in its own order each of them meets the
balance that it met on the leader. -/
theorem covers_of_confirms {L : Ledger} (h : Accounted base L) {sites : List Payment}
    (hconfirms : Confirms sites L) : Covers (confirmed L.pins) (Ledger.inOrder sites) := by
  intro before p hpre hne
  have hp : p ∈ sites := Ledger.mem_inOrder.mp (hpre.mem (by simp))
  have hmoves : p.moves p.sender = true := by
    simp [moves, Payment.Touches, hne]
  -- the payments of the sender, on the leader and in the pins
  have hcomplete := hconfirms.complete p.sender ⟨p, hp, .inl rfl⟩
  have hkept : (pinnedNodes L.pins).filter (·.moves p.sender) ++
      before.filter (·.moves p.sender) ++ [p] <+: L.dag.filter (·.moves p.sender) := by
    rw [hcomplete, append_assoc]
    have hfiltered : before.filter (·.moves p.sender) ++ [p]
        <+: (Ledger.inOrder sites).filter (·.moves p.sender) := by
      have := hpre.filter (·.moves p.sender)
      rw [filter_append, filter_cons_of_pos hmoves] at this
      exact this
    exact (prefix_append_right_inj _).mpr hfiltered
  obtain ⟨before', hpre', hfilter'⟩ := prefix_of_filter hkept
  have hcovered := h.covers before' p hpre' hne
  rw [← net_filter_moves before', hfilter', net_append, net_filter_moves, net_filter_moves]
    at hcovered
  rw [h.confirmed]
  omega

section

variable {base : Address → Int} {sites : List Payment} {L L' : Ledger} {pin : TxPin} {peer : Peer}

lemma mapped_of_confirming (h : Ledger.Confirming pin.balance pin.diffs) : Peer.Mapped pin peer := by
  intro a k v hv
  obtain ⟨_, _, hd, _⟩ := h _ hv
  cases hd

variable {w : Address} {b : Nat}

lemma lookup_of_lastWrite_balance (h : Ledger.Confirming pin.balance pin.diffs)
    (hb : lastWrite (Diff.balance? w) pin.diffs = some b) : pin.balance.lookup w = some b := by
  obtain ⟨d, hd, hwrites⟩ := exists_of_lastWrite hb
  obtain ⟨a, acc, rfl, b', hb', hacc⟩ := h d hd
  by_cases hw : w = a
  · subst hw
    have hsame : acc.balance.natAbs = b := by simpa [Diff.balance?] using hwrites
    rw [hb', ← hsame, hacc]
    rfl
  · simp [Diff.balance?, hw] at hwrites

lemma replay_of_confirms (h : Accounted base L) (hconfirms : Confirms sites L)
    (hpinned : Ledger.Pinned sites L pin L') (hfollows : Follows L.pins peer) :
    Peer.Solvent peer.pins pin.nodes peer.walletCacheConfirmed ∧ ∀ w, loaded peer.pins
          (paidAll peer.pins pin.nodes peer.walletCacheConfirmed) w
        = confirmed L.pins w + net sites w := by
  have hloaded : loaded peer.pins peer.walletCacheConfirmed = confirmed L.pins :=
    funext hfollows.cache
  obtain ⟨hsolvent, hsum⟩ := @loaded_paidAll peer.pins (Ledger.inOrder sites)
    (fun p hp => hconfirms.noSelf p (Ledger.mem_inOrder.mp hp)) peer.walletCacheConfirmed
    (fun w => hloaded ▸ confirmed_nonneg L.pins w) (hloaded ▸ covers_of_confirms h hconfirms)
  rw [← hpinned.nodes] at hsolvent hsum
  refine ⟨hsolvent, fun w => ?_⟩
  rw [hsum w, hfollows.cache, hpinned.nodes, Ledger.net_inOrder]

lemma touched_of_lookup (hpinned : Ledger.Pinned sites L pin L') :
    (pin.balance.lookup w).isSome = true ↔ Touched pin.nodes w := by
  rw [hpinned.balance, hpinned.nodes, Ledger.touched_inOrder]
  by_cases hw : Touched sites w <;> simp [hw]

lemma get_replayed (h : Accounted base L) (hconfirms : Confirms sites L)
    (hpinned : Ledger.Pinned sites L pin L') (hfollows : Follows L.pins peer)
    (hb : pin.balance.lookup w = some b) :
    get (paidAll peer.pins pin.nodes peer.walletCacheConfirmed) w = some (b : Int) := by
  obtain ⟨hsolvent, hsum⟩ := replay_of_confirms h hconfirms hpinned hfollows
  have hnodes : Touched pin.nodes w := (touched_of_lookup hpinned).mp (by rw [hb]; rfl)
  have hw : Touched sites w := by
    rwa [hpinned.nodes, Ledger.touched_inOrder] at hnodes
  obtain ⟨v, hv⟩ := Option.isSome_iff_exists.mp (isSome_get_of_touched pin.nodes _ hsolvent hnodes)
  have hload : loaded peer.pins (paidAll peer.pins pin.nodes peer.walletCacheConfirmed) w = v := by
    unfold loaded
    rw [hv]
    rfl
  have hpin : (L.effective w).natAbs = b := by
    rw [hpinned.balance, if_pos hw] at hb
    exact Option.some.inj hb
  have heffective := Ledger.effective_of_confirms h hconfirms hw
  have hsum := hsum w
  have hw0 := h.nonneg w
  have hvb : v = (b : Int) := by omega
  exact hvb ▸ hv

variable {balances diffBalances : FinMap Address Nat} {s2 : Peer}

lemma balance_checked (hpinned : Ledger.Pinned sites L pin L')
    (hcheck : Peer.ReachesCheck pin peer balances diffBalances s2)
    (hb : pin.balance.lookup w = some b)
    (hreplayed : get (paidAll peer.pins pin.nodes peer.walletCacheConfirmed) w = some (b : Int)) :
    get s2.walletCacheConfirmed w = some (b : Int) ∧
      (s2.store.syncBalances diffBalances).getAccount w
        = some { (peer.store.getAccount w).getD .blank with balance := (b : Int) } := by
  have hbalance : balances.lookup w = some b := by
    rw [hcheck.replayed, if_pos ((touched_of_lookup hpinned).mp (by rw [hb]; rfl)), hreplayed]
    rfl
  rw [hcheck.applied.cache w, hcheck.getAccount w]
  cases hlast : lastWrite (Diff.balance? w) pin.diffs with
  | none =>
    rw [hbalance]
    exact ⟨hreplayed, rfl⟩
  | some b' =>
    have hsame := lookup_of_lastWrite_balance hpinned.diffs hlast
    rw [hb] at hsame
    rw [Option.some.inj hsame]
    exact ⟨rfl, rfl⟩

lemma get_unmentioned (hpinned : Ledger.Pinned sites L pin L')
    (hcheck : Peer.ReachesCheck pin peer balances diffBalances s2)
    (hb : pin.balance.lookup w = none) :
    get s2.walletCacheConfirmed w = get peer.walletCacheConfirmed w := by
  have hnot : ¬ Touched pin.nodes w := by
    rw [← touched_of_lookup hpinned, hb]
    simp
  rw [hcheck.applied.cache w]
  cases hlast : lastWrite (Diff.balance? w) pin.diffs with
  | none => exact get_paidAll_of_not_touched pin.nodes _ hnot
  | some b =>
    rw [lookup_of_lastWrite_balance hpinned.diffs hlast] at hb
    cases hb

/-- A FOLLOWER REPLAYS A CONFIRMED PIN: it obtains the balances stated in the pin, passes
`checkBalances`, and is in step with the leader's pins again. -/
theorem follower_agrees (h : Accounted base L) (hconfirms : Confirms sites L)
    (hpinned : Ledger.Pinned sites L pin L') (hfollows : Follows L.pins peer) :
    ∃ peer', syncPins pin peer = .ok true peer' ∧ (∀ w b, pin.balance.lookup w = some b →
        get peer'.walletCacheConfirmed w = some (b : Int) ∧
        ∃ acc, peer'.store.getAccount w = some acc ∧ acc.balance = (b : Int)) ∧
      Follows L'.pins { peer' with pins := peer'.pins ++ [pin] } := by
  obtain ⟨hsolvent, _⟩ := replay_of_confirms h hconfirms hpinned hfollows
  obtain ⟨balances, diffBalances, s2, hcheck⟩ :=
    syncPins_reaches_check hsolvent (mapped_of_confirming hpinned.diffs)
  have hchecked := fun w b (hb : pin.balance.lookup w = some b) =>
    balance_checked hpinned hcheck hb (get_replayed h hconfirms hpinned hfollows hb)
  have hpins : s2.pins = L.pins := hcheck.applied.pins.trans hfollows.same
  refine ⟨{ s2 with store := s2.store.syncBalances diffBalances }, hcheck.run.trans ?_,
    fun w b hb => ⟨(hchecked w b hb).1, _, (hchecked w b hb).2, rfl⟩, ?_, fun w => ?_⟩
  · refine checkBalances_passes _ fun e he => ?_
    have hb : pin.balance.lookup e.1 = some e.2 := AList.mem_lookup_iff.mpr he
    refine ⟨(hchecked e.1 e.2 hb).1, fun acc hacc => ?_⟩
    rw [(hchecked e.1 e.2 hb).2] at hacc
    rw [← Option.some.inj hacc]
  · show s2.pins ++ [pin] = L'.pins
    rw [hpins, hpinned.pins]
  · show (get s2.walletCacheConfirmed w).getD
      ((getLatestBalance (s2.pins ++ [pin]) w).getD 0) = confirmed L'.pins w
    unfold confirmed
    rw [hpins, hpinned.pins, Ledger.getLatestBalance_concat]
    cases hb : pin.balance.lookup w with
    | some b =>
      rw [(hchecked w b hb).1]
      rfl
    | none =>
      have hload := hfollows.cache w
      rw [hfollows.same] at hload
      rw [get_unmentioned hpinned hcheck hb]
      exact hload

end

/-! ## Runs -/

/-- What a pin event asks of the ledger. -/
def LedgerEvent.Meets : LedgerEvent → Ledger → Prop
  | .payment _, _ => True
  | .pin sites, L => Confirms sites L

/-- Every pin of the run meets `Confirms` in the state in which it is formed. -/
def MeetsAll : List LedgerEvent → Ledger → Prop
  | [], _ => True
  | e :: es, L => e.Meets L ∧ ∀ L', e.run L = .ok () L' → MeetsAll es L'

lemma accounted_run (events : List LedgerEvent) (last : LedgerEvent) :
    ∀ L, Accounted base L → MeetsAll (events ++ [last]) L →
      ∃ L', Ledger.run events L = .ok () L' ∧ Accounted base L' ∧ last.Meets L' := by
  induction events with
  | nil =>
    intro L h hmeets
    exact ⟨L, rfl, h, hmeets.1⟩
  | cons e es ih =>
    intro L h hmeets
    cases e with
    | payment p =>
      obtain ⟨L', hrun, hrest⟩ := ih _ (Ledger.accounted_addToDag h p) (hmeets.2 _ rfl)
      exact ⟨L', (Prog.bind_of_ok rfl).trans hrun, hrest⟩
    | pin sites =>
      obtain ⟨pin, L1, hadd, hpinned⟩ := Ledger.add_pure sites h.idle
      obtain ⟨L', hrun, hrest⟩ := ih _ (Ledger.accounted_pinned h hmeets.1 hpinned) (hmeets.2 _ hadd)
      exact ⟨L', (Prog.bind_of_ok hadd).trans hrun, hrest⟩

/-- **PINS CONTAIN CONFIRMED BALANCES ONLY**, in every run whose pins meet `Confirms`: a newly
formed pin states, for the wallets of its sites, the balances of the pins before it plus and minus
the payments of its sites; a follower in step with the pins before it obtains these balances by
`SyncPins`, passes `checkBalances`, and is in step again. -/
theorem pins_confirmed (wallet : Address) (hash : Bytes) (store : Storage) (hidle : store.Idle)
    (events : List LedgerEvent) (sites : List Payment)
    (hmeets : MeetsAll (events ++ [.pin sites]) (.genesis wallet hash store)) :
    ∃ L L' pin, Ledger.run events (.genesis wallet hash store) = .ok () L ∧
      Ledger.add sites (pure ()) L = .ok () L' ∧ L'.pins = L.pins ++ [pin] ∧
      pin.nodes.Perm sites ∧
      (∀ w, (pin.balance.lookup w).isSome = true ↔ Touched sites w) ∧
      (∀ w (b : Nat), pin.balance.lookup w = some b → (b : Int) = confirmed L.pins w + net sites w) ∧
      ∀ peer, Follows L.pins peer → ∃ peer', Peer.syncPins pin peer = .ok true peer' ∧
        (∀ w b, pin.balance.lookup w = some b →
          WalletCache.get peer'.walletCacheConfirmed w = some (b : Int) ∧
          ∃ acc, peer'.store.getAccount w = some acc ∧ acc.balance = (b : Int)) ∧
        Follows L'.pins { peer' with pins := peer'.pins ++ [pin] } := by
  obtain ⟨L, hrun, h, hconfirms⟩ := accounted_run events (.pin sites) _
    (Ledger.accounted_genesis wallet hash hidle) hmeets
  obtain ⟨pin, L', hadd, hpinned⟩ := Ledger.add_pure sites h.idle
  refine ⟨L, L', pin, hrun, hadd, hpinned.pins, ?_, fun w => ?_, fun w b hb => ?_,
    fun peer hfollows => follower_agrees h hconfirms hpinned hfollows⟩
  · rw [hpinned.nodes]
    exact perm_insertionSort _ _
  · rw [touched_of_lookup hpinned, hpinned.nodes, Ledger.touched_inOrder]
  have hw : Touched sites w := by
    by_contra hnot
    rw [hpinned.balance, if_neg hnot] at hb
    cases hb
  have heffective := Ledger.effective_of_confirms h hconfirms hw
  have hw0 := h.nonneg w
  have hpin : (L.effective w).natAbs = b := by
    rw [hpinned.balance, if_pos hw] at hb
    exact Option.some.inj hb
  omega

def firstPayment : Payment := ⟨1, 1, [1], 500, 501, 10, false⟩

def secondPayment : Payment := ⟨2, 2, [2], 500, 502, 5, false⟩

def earlyPin : TxPin :=
  ⟨[firstPayment], ((∅ : FinMap Address Nat).insert 500 (initialOffering - 15)).insert 501 10, [], 0⟩

/-- **A pin states unconfirmed balances.** Two payments are applied and the first of them is
pinned: the pin takes both from the sender's balance, and a follower that starts from the same pins
fails `checkBalances`. -/
theorem pin_states_unconfirmed_balance :
    ∃ L', Ledger.run [.payment firstPayment, .payment secondPayment, .pin [firstPayment]]
        (.genesis 500 [] .new) = .ok () L' ∧
      L'.pins = [.genesis 500, earlyPin] ∧
      (earlyPin.balance.lookup 500).map Int.ofNat
        = some (confirmed [.genesis 500] 500 + net [firstPayment] 500 - 5) ∧
      ∃ peer', Peer.syncPins earlyPin ⟨[.genesis 500], ∅, .new⟩ = .ok false peer' :=
  ⟨_, rfl, rfl, rfl, _, rfl⟩

lemma meetsAll_firstPayment :
    MeetsAll [.payment firstPayment, .pin [firstPayment]] (.genesis 500 [] .new) := by
  refine ⟨trivial, fun L' hrun => ⟨⟨fun p hp => ?_, fun w hw => ?_⟩, fun _ _ => trivial⟩⟩
  · obtain rfl : p = firstPayment := by simpa using hp
    decide
  · obtain ⟨_, rfl⟩ := Outcome.ok.inj hrun
    obtain ⟨p, hp, htouches⟩ := hw
    rcases htouches with rfl | rfl
    · rfl
    · rfl

theorem first_payment_confirmed :
    ∃ L L' pin, Ledger.run [.payment firstPayment] (.genesis 500 [] .new) = .ok () L ∧
      Ledger.add [firstPayment] (pure ()) L = .ok () L' ∧ L'.pins = L.pins ++ [pin] ∧
      pin.nodes.Perm [firstPayment] ∧
      (∀ w, (pin.balance.lookup w).isSome = true ↔ Touched [firstPayment] w) ∧
      (∀ w (b : Nat), pin.balance.lookup w = some b → (b : Int) = confirmed L.pins w + net [firstPayment] w) ∧
      ∀ peer, Follows L.pins peer → ∃ peer', Peer.syncPins pin peer = .ok true peer' ∧
        (∀ w b, pin.balance.lookup w = some b →
          WalletCache.get peer'.walletCacheConfirmed w = some (b : Int) ∧
          ∃ acc, peer'.store.getAccount w = some acc ∧ acc.balance = (b : Int)) ∧
        Follows L'.pins { peer' with pins := peer'.pins ++ [pin] } :=
  pins_confirmed 500 [] .new Storage.idle_new [.payment firstPayment] [firstPayment] meetsAll_firstPayment

lemma adds_up_run {total : Int} (events : List LedgerEvent) : ∀ L, Ledger.Balanced total L →
    (∀ w, L.effective w = base w + net L.dag w) → ∃ L', Ledger.run events L = .ok () L' ∧
      ∀ w, 0 ≤ L'.effective w ∧ L'.effective w = base w + net L'.dag w := by
  induction events with
  | nil => exact fun L hL h => ⟨L, rfl, fun w => ⟨hL.nonneg w, h w⟩⟩
  | cons e es ih =>
    intro L hL h
    obtain ⟨L1, hrun, hL₁⟩ := Ledger.balanced_run_event e hL
    refine (ih L1 hL₁ fun w => ?_).imp fun L' h' => ⟨(Prog.bind_of_ok hrun).trans h'.1, h'.2⟩
    cases e with
    | payment p =>
      obtain ⟨_, rfl⟩ := Outcome.ok.inj hrun
      rw [Ledger.addToDag_dag]
      rcases Ledger.effective_addToDag p hL.nonneg with ⟨hv, _, hmove⟩ | ⟨hv, hkeep⟩
      · rw [if_pos hv, hmove, move_eq_effect, h, net_append, net_cons, net_nil]
        omega
      · rw [hv, hkeep]
        exact h w
    | pin sites =>
      obtain ⟨pin, _, hadd, hpinned⟩ := Ledger.add_pure sites hL.idle
      obtain ⟨_, rfl⟩ := Outcome.ok.inj (hadd.symm.trans hrun)
      rw [Ledger.effective_pinned hL.nonneg hpinned, hpinned.dag]
      exact h w

/-- **NO WALLET SPENDS MORE THAN IT HAS.** After every sequence of payments and of pins over any
sites, the balances are the initial offering plus and minus the payments in the DAG, and none is
negative. -/
theorem dag_adds_up (wallet : Address) (hash : Bytes) (store : Storage) (hidle : store.Idle)
    (events : List LedgerEvent) :
    ∃ L, Ledger.run events (.genesis wallet hash store) = .ok () L ∧ ∀ w, 0 ≤ L.effective w ∧
      L.effective w = (if w = wallet then (initialOffering : Int) else 0) + net L.dag w :=
  adds_up_run events _ (Ledger.balanced_genesis wallet hash hidle)
    (Ledger.accounted_genesis wallet hash hidle).effective

theorem sample_adds_up : ∃ L, Ledger.run Ledger.sampleEvents (.genesis 500 [] .new) = .ok () L ∧
    L.effective 501 = net L.dag 501 := by
  obtain ⟨L, hrun, h⟩ := dag_adds_up 500 [] .new Storage.idle_new Ledger.sampleEvents
  exact ⟨L, hrun, (h 501).2.trans (Int.zero_add _)⟩

end GrapeDag
