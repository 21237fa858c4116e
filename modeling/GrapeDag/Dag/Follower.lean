/-
A PEER REPLAYS A PIN.

`SyncPins` and `checkBalances` of `src/dag/pin.go` on a peer (node type 1), `DumpMappingDiffs`
of `src/vm/server.go`. A peer writes the diffs instead of replaying the contract stage: of an
account only the balance, and the slots before it, so that a slot of a new account has no map to
be written to.

Main result: `diffs_replicated_iff`.
-/
import GrapeDag.Dag.Conservation

namespace GrapeDag

open Imperative Folding Storage Prog WalletCache Diff List

/-! ## The peer -/

/-- A follower's pins, `walletCacheConfirmed` and state store. -/
structure Peer where
  pins : List TxPin
  walletCacheConfirmed : WalletCache
  store : Storage

namespace Storage

/-- `DumpMappingDiffs` writes to the map that is there; a write to a nil map panics. -/
def dumpMappingDiffs (a : Address) (k : Word) (v : Bytes) : Go Storage Unit := fun s =>
  match s.mappings.lookup a with
  | none => .err .panic s
  | some m => .ok () { s with mappings := s.mappings.insert a (m.insert k v) }

end Storage

namespace Peer

/-- The cache after a payment of the pin; a failed `sub` is ignored. -/
def paid (pins : List TxPin) (p : Payment) (wc : WalletCache) : WalletCache :=
  (WalletCache.add pins p.recipient p.amount (WalletCache.sub pins p.sender p.amount wc).2).2

/-- One turn of the loop over the payments; `Bytes` of a nil balance panics. -/
def replayOne (p : Payment) (balances : FinMap Address Nat) : Go Peer (FinMap Address Nat) := do
  .modify fun s => { s with walletCacheConfirmed := paid s.pins p s.walletCacheConfirmed }
  let wc ← .gets walletCacheConfirmed
  match WalletCache.get wc p.sender, WalletCache.get wc p.recipient with
  | some sender, some recipient =>
      return (balances.insert p.sender sender.natAbs).insert p.recipient recipient.natAbs
  | _, _ => .raise .panic

def replay : List Payment → FinMap Address Nat → Go Peer (FinMap Address Nat)
  | [], balances => return balances
  | p :: ps, balances => do replay ps (← replayOne p balances)

def appendBalance (a : Address) (b : Int) (wc : WalletCache) : WalletCache :=
  wc.insert a ((wc.lookup a).getD [] ++ [b])

/-- One turn of the loop over the diffs; `diffToPb` has sent the balance without its sign. -/
def applyDiff (balances : FinMap Address Nat) : Diff → Go Peer (FinMap Address Nat)
  | .account a acc => do
      .modify fun s => { s with
        walletCacheConfirmed := appendBalance a acc.balance.natAbs s.walletCacheConfirmed }
      return balances.insert a acc.balance.natAbs
  | .mapping a k v => do
      .zoom Peer.store (fun t s => { s with store := t }) (Storage.dumpMappingDiffs a k v)
      return balances

def applyDiffs : List Diff → FinMap Address Nat → Go Peer (FinMap Address Nat)
  | [], balances => return balances
  | d :: ds, balances => do applyDiffs ds (← applyDiff balances d)

/-- `checkBalances` for one wallet: the confirmed balance, and the one of the store if it has the
account, are the pin's; a nil balance panics. -/
def checkBalance (a : Address) (b : Nat) : Go Peer Bool := fun s =>
  match WalletCache.get s.walletCacheConfirmed a with
  | none => .err .panic s
  | some cached =>
      .ok (cached == b && ((s.store.getAccount a).map (·.balance)).all (· == (b : Int))) s

def checkBalances : List (Sigma fun _ : Address => Nat) → Go Peer Bool
  | [] => return true
  | e :: es => do
      if ← checkBalance e.1 e.2 then checkBalances es else return false

/-- `SyncPins` on a peer node, with the result of `checkBalances`, which it ignores. -/
def syncPins (pin : TxPin) : Go Peer Bool := do
  let balances ← replay pin.nodes ∅
  .modify fun s => { s with store := s.store.syncBalances balances }
  let diffsPinBalances ← applyDiffs pin.diffs ∅
  .modify fun s => { s with store := s.store.syncBalances diffsPinBalances }
  checkBalances pin.balance.entries

end Peer

/-! ## Replaying the payments -/

namespace WalletCache

variable {pins : List TxPin} {wc : WalletCache} {wallet w : Address}

lemma isSome_get_of_neg (h : loaded pins wc w < 0) : (get wc w).isSome = true := by
  unfold loaded at h
  cases hget : get wc w with
  | some b => rfl
  | none =>
    rw [hget] at h
    simp only [Option.getD_none] at h
    omega

lemma isSome_get_add (amount : Nat) : (get (add pins wallet amount wc).2 wallet).isSome = true := by
  unfold add
  rw [get_change]
  split_ifs with h
  · rfl
  · have hneg := not_and.mp h rfl
    exact isSome_get_of_neg (show loaded pins wc wallet < 0 by omega)

end WalletCache

variable {w : Address} {pins : List TxPin} {s : Peer} {balances : FinMap Address Nat}

namespace Peer

/-- The payment does not run into a nil balance. -/
def Payable (pins : List TxPin) (p : Payment) (wc : WalletCache) : Prop :=
  p.sender = p.recipient ∨ (WalletCache.get wc p.sender).isSome = true ∨
    (p.amount : Int) ≤ WalletCache.loaded pins wc p.sender

instance (pins : List TxPin) (p : Payment) (wc : WalletCache) : Decidable (Payable pins p wc) :=
  inferInstanceAs (Decidable (_ ∨ _ ∨ _))

/-- No payment runs into a nil balance: each in its turn is made to oneself, by a wallet with a
confirmed history, or is covered. -/
def Solvent (pins : List TxPin) : List Payment → WalletCache → Prop
  | [], _ => True
  | p :: ps, wc => Payable pins p wc ∧ Solvent pins ps (paid pins p wc)

instance decidableSolvent (pins : List TxPin) :
    (ps : List Payment) → (wc : WalletCache) → Decidable (Solvent pins ps wc)
  | [], _ => isTrue trivial
  | p :: ps, wc =>
      let _ := decidableSolvent pins ps (paid pins p wc)
      inferInstanceAs (Decidable (Payable pins p wc ∧ Solvent pins ps (paid pins p wc)))

section

variable (pins : List TxPin) (p : Payment) (wc : WalletCache)

lemma isSome_get_paid_recipient : (get (paid pins p wc) p.recipient).isSome = true :=
  isSome_get_add _

lemma isSome_get_paid_sender :
    (get (paid pins p wc) p.sender).isSome = true ↔ Payable pins p wc := by
  by_cases hself : p.sender = p.recipient
  · rw [hself]
    exact ⟨fun _ => .inl hself, fun _ => isSome_get_paid_recipient pins p wc⟩
  · unfold paid add sub
    rw [get_change, if_neg fun h => hself h.1, get_change]
    have hcovers : (0 ≤ loaded pins wc p.sender + -(p.amount : Int)) ↔
        (p.amount : Int) ≤ loaded pins wc p.sender := by omega
    by_cases h : (p.amount : Int) ≤ loaded pins wc p.sender <;> simp [Payable, hself, hcovers, h]

lemma get_paid_of_not_touches (h : ¬ p.Touches w) : get (paid pins p wc) w = get wc w := by
  unfold paid add sub
  rw [get_change, if_neg fun hr => h (.inr hr.1), get_change, if_neg fun hs => h (.inl hs.1)]

lemma isSome_get_paid (h : (get wc w).isSome = true) : (get (paid pins p wc) w).isSome = true := by
  unfold paid add sub
  rw [get_change, get_change]
  split_ifs <;> first | rfl | exact h

end

def paidAll (pins : List TxPin) (ps : List Payment) (wc : WalletCache) : WalletCache :=
  ps.foldl (fun wc p => paid pins p wc) wc

lemma get_paidAll_of_not_touched (ps : List Payment) :
    ∀ wc, ¬ Touched ps w → get (paidAll pins ps wc) w = get wc w := by
  induction ps with
  | nil =>
    intro wc _
    rfl
  | cons p ps ih =>
    intro wc h
    rw [touched_cons] at h
    show get (paidAll pins ps (paid pins p wc)) w = _
    rw [ih _ fun hps => h (.inr hps), get_paid_of_not_touches pins p wc fun hp => h (.inl hp)]

lemma isSome_get_paidAll (ps : List Payment) {wc : WalletCache}
    (h : (get wc w).isSome = true) : (get (paidAll pins ps wc) w).isSome = true :=
  foldlRecOn (motive := fun wc => (get wc w).isSome = true) ps _ h fun wc h p _ =>
    isSome_get_paid pins p wc h

/-- The peer after the payment, and after payments in turn. -/
def pay (s : Peer) (p : Payment) : Peer :=
  { s with walletCacheConfirmed := paid s.pins p s.walletCacheConfirmed }

def payAll (s : Peer) (ps : List Payment) : Peer := ps.foldl pay s

lemma payAll_eq (ps : List Payment) : ∀ s : Peer, s.payAll ps
      = { s with walletCacheConfirmed := paidAll s.pins ps s.walletCacheConfirmed } := by
  induction ps with
  | nil => exact fun s => rfl
  | cons p ps ih => exact fun s => ih (s.pay p)

lemma replayOne_ok {p : Payment} (balances : FinMap Address Nat)
    (h : Payable s.pins p s.walletCacheConfirmed) :
    ∃ sender recipient, get (paid s.pins p s.walletCacheConfirmed) p.sender = some sender ∧
      get (paid s.pins p s.walletCacheConfirmed) p.recipient = some recipient ∧
      replayOne p balances s
        = .ok ((balances.insert p.sender sender.natAbs).insert p.recipient recipient.natAbs)
            (s.pay p) := by
  obtain ⟨sender, hsender⟩ := Option.isSome_iff_exists.mp
    ((isSome_get_paid_sender s.pins p s.walletCacheConfirmed).mpr h)
  obtain ⟨recipient, hrecipient⟩ := Option.isSome_iff_exists.mp
    (isSome_get_paid_recipient s.pins p s.walletCacheConfirmed)
  refine ⟨sender, recipient, hsender, hrecipient, ?_⟩
  unfold replayOne
  rw [modify_bind, gets_bind]
  simp only [hsender, hrecipient]
  rfl

lemma replayOne_err {p : Payment} (balances : FinMap Address Nat)
    (h : ¬ Payable s.pins p s.walletCacheConfirmed) :
    ∃ s', replayOne p balances s = .err .panic s' := by
  have hnone : get (paid s.pins p s.walletCacheConfirmed) p.sender = none := by
    rw [← Option.not_isSome_iff_eq_none]
    exact fun hsome => h ((isSome_get_paid_sender _ _ _).mp hsome)
  refine ⟨s.pay p, ?_⟩
  unfold replayOne
  rw [modify_bind, gets_bind]
  simp only [hnone]
  rfl

/-- The replay of solvent payments: every wallet the payments touch gets the balance that the
confirmed cache ends with. -/
theorem replay_ok (ps : List Payment) :
    ∀ (balances : FinMap Address Nat) (s : Peer), Solvent s.pins ps s.walletCacheConfirmed →
      ∃ balances', replay ps balances s = .ok balances'
          { s with walletCacheConfirmed := paidAll s.pins ps s.walletCacheConfirmed } ∧
        ∀ w, balances'.lookup w = if Touched ps w then
              (get (paidAll s.pins ps s.walletCacheConfirmed) w).map Int.natAbs
            else balances.lookup w := by
  induction ps with
  | nil =>
    intro balances s _
    exact ⟨balances, rfl, fun w => by simp [Touched]⟩
  | cons p ps ih =>
    intro balances s h
    obtain ⟨sender, recipient, hsender, hrecipient, hone⟩ := replayOne_ok balances h.1
    obtain ⟨balances', hrest, hlookup⟩ := ih _ (s.pay p) h.2
    refine ⟨balances', (bind_of_ok hone).trans hrest, fun w => ?_⟩
    rw [hlookup w]
    by_cases hps : Touched ps w
    · rw [if_pos hps, if_pos (touched_cons.mpr (.inr hps))]
      rfl
    -- no later payment touches the wallet
    have hkept : get (paidAll s.pins (p :: ps) s.walletCacheConfirmed) w
        = get (paid s.pins p s.walletCacheConfirmed) w :=
      get_paidAll_of_not_touched ps _ hps
    rw [if_neg hps, FinMap.lookup_insert_eq_ite, FinMap.lookup_insert_eq_ite, hkept]
    simp only [touched_cons, hps, or_false, Payment.Touches]
    by_cases hr : w = p.recipient
    · simp [hr, hrecipient]
    by_cases hs : w = p.sender
    · subst hs
      simp [hr, hsender]
    · simp [hr, hs]

lemma replay_err (ps : List Payment) :
    ∀ (balances : FinMap Address Nat) (s : Peer), ¬ Solvent s.pins ps s.walletCacheConfirmed →
      ∃ s', replay ps balances s = .err .panic s' := by
  induction ps with
  | nil =>
    intro balances s h
    exact absurd trivial h
  | cons p ps ih =>
    intro balances s h
    by_cases hp : Payable s.pins p s.walletCacheConfirmed
    · obtain ⟨sender, recipient, _, _, hone⟩ := replayOne_ok balances hp
      obtain ⟨s', hrest⟩ := ih _ (s.pay p) fun hps => h ⟨hp, hps⟩
      exact ⟨s', (bind_of_ok hone).trans hrest⟩
    · obtain ⟨s', hone⟩ := replayOne_err balances hp
      exact ⟨s', bind_of_err hone⟩

/-- A replay that ends has made solvent payments. -/
lemma replay_eq_ok {ps : List Payment} {balances' : FinMap Address Nat} {s' : Peer}
    (h : replay ps balances s = .ok balances' s') :
    Solvent s.pins ps s.walletCacheConfirmed ∧ s' = s.payAll ps ∧
      ∀ w, balances'.lookup w = if Touched ps w then
        (get (paidAll s.pins ps s.walletCacheConfirmed) w).map Int.natAbs else balances.lookup w := by
  by_cases hsolvent : Solvent s.pins ps s.walletCacheConfirmed
  · obtain ⟨b, hok, hlookup⟩ := replay_ok ps balances s hsolvent
    rw [hok] at h
    obtain ⟨rfl, rfl⟩ := Outcome.ok.inj h
    exact ⟨hsolvent, (payAll_eq ps s).symm, hlookup⟩
  · obtain ⟨s1, herr⟩ := replay_err ps balances s hsolvent
    rw [herr] at h
    cases h

end Peer

/-! ## Writing the diffs -/

def Diff.balance? (a : Address) : Diff → Option Nat
  | .account address acc => if a = address then some acc.balance.natAbs else none
  | .mapping _ _ _ => none

variable {a : Address}

lemma Diff.balance?_eq_some {d : Diff} {v : Nat} :
    d.balance? a = some v ↔ ∃ acc, d = .account a acc ∧ v = acc.balance.natAbs := by
  cases d with
  | mapping address key value => simp [balance?]
  | account address acc =>
    by_cases h : a = address <;> simp [balance?, h, eq_comm]

/-- Every slot diff finds a mapping; without one Go panics. -/
def SlotsMapped (diffs : List Diff) (s : Storage) : Prop :=
  ∀ a k v, Diff.mapping a k v ∈ diffs → (s.mappings.lookup a).isSome = true

lemma Storage.dumpMappingDiffs_ok {s : Storage} (k : Word) (v : Bytes)
    (h : (s.mappings.lookup a).isSome = true) :
    dumpMappingDiffs a k v s = .ok () { s with mappings := setMapping s.mappings a k v } := by
  obtain ⟨m, hm⟩ := Option.isSome_iff_exists.mp h
  unfold dumpMappingDiffs setMapping
  simp only [hm]
  rfl

namespace Peer

/-- What applying the diffs of a pin makes of a follower. -/
structure Applied (diffs : List Diff) (balances : FinMap Address Nat) (s : Peer)
    (balances' : FinMap Address Nat) (s' : Peer) : Prop where
  pins : s'.pins = s.pins
  accounts : s'.store.accounts = s.store.accounts
  slots : ∀ a k, Storage.rawValue s'.store.mappings a k
    = (lastWrite (Diff.slot? a k) diffs).getD (Storage.rawValue s.store.mappings a k)
  balances : ∀ a, balances'.lookup a = (lastWrite (Diff.balance? a) diffs).or (balances.lookup a)
  cache : ∀ a, WalletCache.get s'.walletCacheConfirmed a
    = ((lastWrite (Diff.balance? a) diffs).map Int.ofNat).or
        (WalletCache.get s.walletCacheConfirmed a)

lemma get_appendBalance (a x : Address) (b : Int) (wc : WalletCache) :
    get (appendBalance a b wc) x = if x = a then some b else get wc x := by
  unfold appendBalance
  rw [get_insert]
  simp

lemma applyDiff_mapping_ok (balances : FinMap Address Nat) (k : Word)
    (v : Bytes) (h : (s.store.mappings.lookup a).isSome = true) :
    applyDiff balances (.mapping a k v) s = .ok balances { s with
      store := { s.store with mappings := setMapping s.store.mappings a k v } } :=
  bind_of_ok (zoom_of_ok (dumpMappingDiffs_ok k v h))

lemma applyDiffs_ok (diffs : List Diff) :
    ∀ (balances : FinMap Address Nat) (s : Peer), SlotsMapped diffs s.store →
      ∃ balances' s', applyDiffs diffs balances s = .ok balances' s' ∧
        Applied diffs balances s balances' s' := by
  induction diffs with
  | nil =>
    intro balances s _
    exact ⟨balances, s, rfl, rfl, rfl, fun _ _ => rfl, fun _ => rfl, fun _ => rfl⟩
  | cons d diffs ih =>
    intro balances s h
    cases d with
    | account a acc =>
      obtain ⟨balances', s', hrest, happlied⟩ := ih (balances.insert a acc.balance.natAbs)
        { s with walletCacheConfirmed := appendBalance a acc.balance.natAbs s.walletCacheConfirmed }
        fun x k v hx => h x k v (by simp [hx])
      refine ⟨balances', s', (bind_of_ok rfl).trans hrest, happlied.pins, happlied.accounts,
        fun x k => ?_, fun x => ?_, fun x => ?_⟩
      · rw [happlied.slots, lastWrite_cons]
        simp [slot?]
      · rw [happlied.balances, lastWrite_cons, FinMap.lookup_insert_eq_ite]
        by_cases hx : x = a <;> cases lastWrite (balance? x) diffs <;> simp [balance?, hx]
      · rw [happlied.cache, lastWrite_cons, get_appendBalance]
        by_cases hx : x = a <;> cases lastWrite (balance? x) diffs <;> simp [balance?, hx]
    | mapping a k v =>
      obtain ⟨balances', s', hrest, happlied⟩ := ih balances
        { s with store := { s.store with mappings := setMapping s.store.mappings a k v } }
        fun x k' v' hx => (mapped_setMapping _ _ _ _ _).mpr (.inl (h x k' v' (by simp [hx])))
      have hone := applyDiff_mapping_ok balances k v (h a k v (by simp))
      refine ⟨balances', s', (bind_of_ok hone).trans hrest, happlied.pins, happlied.accounts,
        fun x k' => ?_, fun x => ?_, fun x => ?_⟩
      · rw [happlied.slots, lastWrite_cons]
        show (lastWrite (slot? x k') diffs).getD
          (rawValue (setMapping s.store.mappings a k v) x k') = _
        rw [rawValue_setMapping]
        by_cases hx : x = a ∧ k' = k <;> cases lastWrite (slot? x k') diffs <;> simp [slot?, hx]
      · rw [happlied.balances]
        simp [balance?]
      · rw [happlied.cache]
        simp [balance?]

lemma applyDiffs_err (diffs : List Diff) :
    ∀ (balances : FinMap Address Nat) (s : Peer), ¬ SlotsMapped diffs s.store →
      ∃ s', applyDiffs diffs balances s = .err .panic s' := by
  induction diffs with
  | nil =>
    intro balances s h
    exact absurd nofun h
  | cons d diffs ih =>
    intro balances s h
    cases d with
    | account a acc =>
      obtain ⟨s', hrest⟩ := ih (balances.insert a acc.balance.natAbs)
        { s with walletCacheConfirmed := appendBalance a acc.balance.natAbs s.walletCacheConfirmed }
        fun hmapped => h fun x k v hx => hmapped x k v (by simpa using hx)
      exact ⟨s', (bind_of_ok rfl).trans hrest⟩
    | mapping a k v =>
      by_cases ha : (s.store.mappings.lookup a).isSome = true
      · obtain ⟨s', hrest⟩ := ih balances
          { s with store := { s.store with mappings := setMapping s.store.mappings a k v } }
          fun hmapped => h fun x k' v' hx => by
            by_cases hxa : x = a
            · exact hxa ▸ ha
            have hin : mapping x k' v' ∈ diffs := by
              simpa [hxa] using hx
            exact ((mapped_setMapping _ _ _ _ _).mp (hmapped x k' v' hin)).resolve_right hxa
        exact ⟨s', (bind_of_ok (applyDiff_mapping_ok balances k v ha)).trans hrest⟩
      · have hnone : s.store.mappings.lookup a = none := by simpa using ha
        refine ⟨s, bind_of_err ?_⟩
        refine bind_of_err ?_
        unfold zoom dumpMappingDiffs
        simp only [hnone]

end Peer

/-! ## The store after `SyncPins` -/

namespace Storage

lemma mappings_syncBalances (balances : FinMap Address Nat) (s : Storage) (a : Address) :
    (((s.syncBalances balances).mappings.lookup a).isSome = true ↔
      (s.mappings.lookup a).isSome = true ∨ (balances.lookup a).isSome = true) ∧
    ∀ k, rawValue (s.syncBalances balances).mappings a k = rawValue s.mappings a k := by
  have hmem : (balances.lookup a).isSome = true ↔ ∃ e ∈ balances.entries, e.1 = a := by
    rw [AList.lookup_isSome]
    show a ∈ balances.entries.keys ↔ _
    simp [keys]
  rw [hmem]
  unfold syncBalances
  generalize balances.entries = l
  induction l generalizing s with
  | nil => simp
  | cons e l ih =>
    obtain ⟨hmapped, hraw⟩ := ih (s.syncBalance e.1 e.2)
    refine ⟨?_, fun k => ?_⟩
    · rw [foldl_cons, hmapped]
      unfold syncBalance
      rw [mapped_putAccount]
      simp only [mem_cons, exists_eq_or_imp]
      rw [or_assoc, eq_comm (b := e.1)]
    · rw [foldl_cons, hraw]
      exact rawValue_putAccount _ _ _ _ _

end Storage

/-- Every balance of the pin has a payment or a diff for it. -/
def TxPin.Covered (pin : TxPin) : Prop :=
  ∀ a, (pin.balance.lookup a).isSome = true → Touched pin.nodes a ∨ ∃ acc, Diff.account a acc ∈ pin.diffs

namespace Peer

lemma checkBalances_returns (es : List (Sigma fun _ : Address => Nat))
    (h : ∀ e ∈ es, (get s.walletCacheConfirmed e.1).isSome = true) :
    ∃ agree, checkBalances es s = .ok agree s := by
  induction es with
  | nil => exact ⟨true, rfl⟩
  | cons e es ih =>
    obtain ⟨cached, hcached⟩ := Option.isSome_iff_exists.mp (h e (by simp))
    obtain ⟨agree, hrest⟩ := ih fun e' he' => h e' (by simp [he'])
    have hone : ∃ same, checkBalance e.1 e.2 s = .ok same s := by
      unfold checkBalance
      rw [hcached]
      exact ⟨_, rfl⟩
    obtain ⟨same, hsame⟩ := hone
    cases same with
    | true => exact ⟨agree, (bind_of_ok hsame).trans hrest⟩
    | false => exact ⟨false, bind_of_ok hsame⟩

/-- What `SyncPins` leaves of the store. -/
structure SyncedStore (pin : TxPin) (s s' : Storage) : Prop where
  written : ∀ a b, lastWrite (Diff.balance? a) pin.diffs = some b →
    s'.getAccount a = some { (s.getAccount a).getD .blank with balance := b }
  known : ∀ a, (s'.getAccount a).isSome = true ↔ (s.getAccount a).isSome = true ∨
    Touched pin.nodes a ∨ (lastWrite (Diff.balance? a) pin.diffs).isSome = true
  slots : ∀ a k, Storage.rawValue s'.mappings a k
    = (lastWrite (Diff.slot? a k) pin.diffs).getD (Storage.rawValue s.mappings a k)

lemma lastWrite_balance_isSome {diffs : List Diff} :
    (lastWrite (balance? a) diffs).isSome = true ↔ ∃ acc, account a acc ∈ diffs := by
  constructor
  · intro h
    obtain ⟨b, hb⟩ := Option.isSome_iff_exists.mp h
    obtain ⟨d, hd, hwrites⟩ := exists_of_lastWrite hb
    obtain ⟨acc, rfl, -⟩ := balance?_eq_some.mp hwrites
    exact ⟨acc, hd⟩
  · rintro ⟨acc, hacc⟩
    refine Option.ne_none_iff_isSome.mp fun hnone => ?_
    simpa [balance?] using lastWrite_eq_none.mp hnone _ hacc

/-- The pin's slot diffs find a mapping once its payments are replayed. -/
def Mapped (pin : TxPin) (s : Peer) : Prop :=
  ∀ a k v, Diff.mapping a k v ∈ pin.diffs → (s.store.mappings.lookup a).isSome = true ∨ Touched pin.nodes a

lemma isSome_get_of_touched (ps : List Payment) :
    ∀ wc, Solvent pins ps wc → Touched ps w → (get (paidAll pins ps wc) w).isSome = true := by
  induction ps with
  | nil =>
    intro wc _ htouched
    simp [Touched] at htouched
  | cons p ps ih =>
    intro wc hsolvent htouched
    rcases touched_cons.mp htouched with (rfl | rfl) | hps
    · exact isSome_get_paidAll ps ((isSome_get_paid_sender pins p wc).mpr hsolvent.1)
    · exact isSome_get_paidAll ps (isSome_get_paid_recipient pins p wc)
    · exact ih _ hsolvent.2 hps

section

variable {pin : TxPin} {s : Peer}

lemma isSome_replayed {ps : List Payment} {s' : Peer}
    (h : replay ps ∅ s = .ok balances s') (w : Address) :
    (balances.lookup w).isSome = true ↔ Touched ps w := by
  obtain ⟨hsolvent, -, hlookup⟩ := replay_eq_ok h
  rw [hlookup]
  by_cases hw : Touched ps w
  · simp [hw, isSome_get_of_touched ps _ hsolvent hw]
  · simp [hw]

lemma replayed (hsolvent : Solvent s.pins pin.nodes s.walletCacheConfirmed) :
    ∃ balances, replay pin.nodes ∅ s = .ok balances
        { s with walletCacheConfirmed := paidAll s.pins pin.nodes s.walletCacheConfirmed } ∧
      (∀ a, (balances.lookup a).isSome = true ↔ Touched pin.nodes a) ∧
      (∀ a, balances.lookup a = if Touched pin.nodes a then
        (get (paidAll s.pins pin.nodes s.walletCacheConfirmed) a).map Int.natAbs
        else none) ∧
      (SlotsMapped pin.diffs (s.store.syncBalances balances) ↔ Mapped pin s) := by
  obtain ⟨balances, hreplay, hlookup⟩ := replay_ok pin.nodes ∅ s hsolvent
  have hsome := isSome_replayed hreplay
  refine ⟨balances, hreplay, hsome, hlookup, ?_⟩
  unfold SlotsMapped Mapped
  simp only [(mappings_syncBalances balances s.store _).1, hsome]

lemma syncPins_panics (h : ¬ (Solvent s.pins pin.nodes s.walletCacheConfirmed ∧ Mapped pin s)) :
    ∃ s', syncPins pin s = .err .panic s' := by
  by_cases hsolvent : Solvent s.pins pin.nodes s.walletCacheConfirmed
  · obtain ⟨balances, hreplay, _, _, hmapped⟩ := replayed hsolvent
    obtain ⟨s', hdiffs⟩ := applyDiffs_err pin.diffs ∅ { s with
        walletCacheConfirmed := paidAll s.pins pin.nodes s.walletCacheConfirmed
        store := s.store.syncBalances balances }
      fun hslots => h ⟨hsolvent, hmapped.mp hslots⟩
    refine ⟨s', ?_⟩
    unfold syncPins
    rw [bind_of_ok hreplay, modify_bind]
    exact bind_of_err hdiffs
  · obtain ⟨s', hreplay⟩ := replay_err pin.nodes ∅ s hsolvent
    exact ⟨s', bind_of_err hreplay⟩

/-- What `SyncPins` hands to `checkBalances` when it has not panicked. -/
structure ReachesCheck (pin : TxPin) (s : Peer) (balances diffBalances : FinMap Address Nat)
    (s2 : Peer) : Prop where
  /-- the balances of the payments' wallets, as the replay leaves them -/
  replayed : ∀ a, balances.lookup a = if Touched pin.nodes a then
    (WalletCache.get (paidAll s.pins pin.nodes s.walletCacheConfirmed) a).map Int.natAbs
    else none
  touched : ∀ a, (balances.lookup a).isSome = true ↔ Touched pin.nodes a
  written : ∀ a, diffBalances.lookup a = lastWrite (Diff.balance? a) pin.diffs
  applied : Applied pin.diffs ∅ { s with
    walletCacheConfirmed := paidAll s.pins pin.nodes s.walletCacheConfirmed
    store := s.store.syncBalances balances } diffBalances s2
  run : syncPins pin s = checkBalances pin.balance.entries
    { s2 with store := s2.store.syncBalances diffBalances }

lemma syncPins_reaches_check (hsolvent : Solvent s.pins pin.nodes s.walletCacheConfirmed)
    (hmap : Mapped pin s) :
    ∃ balances diffBalances s2, ReachesCheck pin s balances diffBalances s2 := by
  obtain ⟨balances, hreplay, hsome, hlookup, hmapped⟩ := replayed hsolvent
  obtain ⟨diffBalances, s2, hdiffs, happlied⟩ := applyDiffs_ok pin.diffs ∅ { s with
      walletCacheConfirmed := paidAll s.pins pin.nodes s.walletCacheConfirmed
      store := s.store.syncBalances balances } (hmapped.mpr hmap)
  refine ⟨balances, diffBalances, s2, hlookup, hsome, fun a => ?_, happlied, ?_⟩
  · rw [happlied.balances a]
    exact Option.or_none
  · unfold syncPins
    rw [bind_of_ok hreplay, modify_bind, bind_of_ok hdiffs]
    rfl

lemma ReachesCheck.getAccount {diffBalances : FinMap Address Nat} {s2 : Peer}
    (h : ReachesCheck pin s balances diffBalances s2) (a : Address) :
    (s2.store.syncBalances diffBalances).getAccount a
      = (((lastWrite (balance? a) pin.diffs).or (balances.lookup a)).map fun b : Nat =>
          { (s.store.getAccount a).getD .blank with balance := b }).or (s.store.getAccount a) := by
  have haccounts : s2.store.getAccount a = (s.store.syncBalances balances).getAccount a :=
    congrArg (AList.lookup a) h.applied.accounts
  rw [getAccount_syncBalances, h.written, haccounts, getAccount_syncBalances]
  cases lastWrite (balance? a) pin.diffs with
  | none => rfl
  | some b => cases balances.lookup a <;> rfl

lemma syncPins_ok (hcovered : pin.Covered)
    (hsolvent : Solvent s.pins pin.nodes s.walletCacheConfirmed) (hmap : Mapped pin s) :
    ∃ agree s', syncPins pin s = .ok agree s' ∧ SyncedStore pin s.store s'.store := by
  obtain ⟨balances, diffBalances, s2, h⟩ := syncPins_reaches_check hsolvent hmap
  -- every balance of the pin has been confirmed, by a payment or by a diff
  have hconfirmed : ∀ e ∈ pin.balance.entries, (get s2.walletCacheConfirmed e.1).isSome = true := by
    intro e he
    have hin : (pin.balance.lookup e.1).isSome = true := by
      rw [AList.lookup_isSome]
      exact mem_keys_of_mem he
    rw [h.applied.cache e.1]
    rcases hcovered e.1 hin with htouched | hdiff
    · simp [isSome_get_of_touched pin.nodes _ hsolvent htouched]
    · simp [lastWrite_balance_isSome.mpr hdiff]
  obtain ⟨agree, hcheck⟩ := checkBalances_returns pin.balance.entries
    (s := { s2 with store := s2.store.syncBalances diffBalances }) hconfirmed
  refine ⟨agree, { s2 with store := s2.store.syncBalances diffBalances }, h.run.trans hcheck, ?_, ?_, ?_⟩
  · intro a b hb
    refine (h.getAccount a).trans ?_
    rw [hb]
    rfl
  · intro a
    show ((s2.store.syncBalances diffBalances).getAccount a).isSome = true ↔ _
    rw [h.getAccount a, ← h.touched a]
    cases lastWrite (balance? a) pin.diffs with
    | some b => simp
    | none => cases balances.lookup a <;> simp
  · intro a k
    show rawValue (s2.store.syncBalances diffBalances).mappings a k = _
    rw [(mappings_syncBalances _ _ a).2, h.applied.slots]
    show _ = (lastWrite (slot? a k) pin.diffs).getD (rawValue s.store.mappings a k)
    rw [← (mappings_syncBalances balances s.store a).2 k]

end

end Peer

/-! ## Replication -/

/-- The diffs of the pin describe the leader's contract stage: they give the leader's accounts
and slots, and the pin has balances for its own wallets only. -/
structure Describes (leader : Storage) (pin : TxPin) : Prop where
  accounts : ∀ a acc, Diff.account a acc ∈ pin.diffs → leader.getAccount a = some acc
  slots : ∀ a k v, Diff.mapping a k v ∈ pin.diffs → leader.getValue a k = v
  covered : pin.Covered

/-- The peer agrees with the leader on what the diff names. -/
def Replicated (leader peer : Storage) : Diff → Prop
  | .account a _ => peer.getAccount a = leader.getAccount a
  | .mapping a k _ => peer.getValue a k = leader.getValue a k

/-- When a pin can be replicated, in terms of the peer before it: the payments run into no nil
balance; an account diff changes nothing but a balance, which is not negative; the account of a slot
diff has a map, and the peer has or gets that account. -/
structure Replicable (pin : TxPin) (peer : Peer) : Prop where
  solvent : Peer.Solvent peer.pins pin.nodes peer.walletCacheConfirmed
  accounts : ∀ a acc, Diff.account a acc ∈ pin.diffs → 0 ≤ acc.balance ∧
    acc = { (peer.store.getAccount a).getD .blank with balance := acc.balance }
  mapped : Peer.Mapped pin peer
  known : ∀ a k v, Diff.mapping a k v ∈ pin.diffs → v = emptyArray ∨
    (peer.store.getAccount a).isSome = true ∨ Touched pin.nodes a ∨
    ∃ acc, Diff.account a acc ∈ pin.diffs

section

variable {leader : Storage} {pin : TxPin}

lemma lastWrite_balance_eq (h : Describes leader pin) {acc : StoredAccount}
    (hacc : account a acc ∈ pin.diffs) :
    lastWrite (balance? a) pin.diffs = some acc.balance.natAbs := by
  refine lastWrite_eq (fun d hd v hv => ?_) fun v hv => ⟨_, hacc, (if_pos rfl).trans hv⟩
  obtain ⟨acc', rfl, rfl⟩ := balance?_eq_some.mp hv
  have hsame : some acc = some acc' := (h.accounts a acc hacc).symm.trans (h.accounts a acc' hd)
  rw [Option.some.inj hsame]

lemma lastWrite_slot_eq (h : Describes leader pin) {k : Word} {v : Bytes}
    (hv : mapping a k v ∈ pin.diffs) : lastWrite (slot? a k) pin.diffs = some v := by
  refine lastWrite_eq (fun d hd w hw => ?_) fun w hw => ⟨_, hv, (if_pos ⟨rfl, rfl⟩).trans hw⟩
  rw [slot?_eq_some.mp hw] at hd
  exact congrArg some ((h.slots a k v hv).symm.trans (h.slots a k w hd))

lemma replicated_account_iff {s s' : Storage} (h : Describes leader pin)
    (hsync : Peer.SyncedStore pin s s') {acc : StoredAccount}
    (hacc : account a acc ∈ pin.diffs) :
    Replicated leader s' (.account a acc) ↔ 0 ≤ acc.balance ∧
      acc = { (s.getAccount a).getD .blank with balance := acc.balance } := by
  show s'.getAccount a = leader.getAccount a ↔ _
  rw [hsync.written a _ (lastWrite_balance_eq h hacc), h.accounts a acc hacc]
  constructor
  · intro heq
    have hsame := Option.some.inj heq
    have hbalance : (acc.balance.natAbs : Int) = acc.balance := congrArg StoredAccount.balance hsame
    refine ⟨by omega, ?_⟩
    rw [hbalance] at hsame
    exact hsame.symm
  · intro hcond
    have hbalance : (acc.balance.natAbs : Int) = acc.balance := by
      omega
    rw [hbalance, ← hcond.2]

lemma replicated_slot_iff {s s' : Storage} (h : Describes leader pin)
    (hsync : Peer.SyncedStore pin s s') {k : Word} {v : Bytes}
    (hv : mapping a k v ∈ pin.diffs) :
    Replicated leader s' (.mapping a k v) ↔ v = emptyArray ∨ (s.getAccount a).isSome = true ∨
      Touched pin.nodes a ∨ ∃ acc, account a acc ∈ pin.diffs := by
  show s'.getValue a k = leader.getValue a k ↔ _
  rw [h.slots a k v hv, ← Peer.lastWrite_balance_isSome, ← hsync.known a]
  have hraw : rawValue s'.mappings a k = v := by
    rw [hsync.slots, lastWrite_slot_eq h hv]
    rfl
  unfold getValue
  cases s'.getAccount a with
  | none => simp [eq_comm]
  | some acc => simp [hraw]

/-- **A PIN IS REPLICATED IFF IT IS REPLICABLE.** `SyncPins` does not panic and the peer's store
agrees with the leader's on every account and slot of the diffs, whatever their order, exactly under
the condition `Replicable` on the peer before the pin. -/
theorem diffs_replicated_iff (leader : Storage) (pin : TxPin) (peer : Peer)
    (h : Describes leader pin) :
    (∃ agree peer', Peer.syncPins pin peer = .ok agree peer' ∧
      ∀ d ∈ pin.diffs, Replicated leader peer'.store d) ↔ Replicable pin peer := by
  by_cases hruns : Peer.Solvent peer.pins pin.nodes peer.walletCacheConfirmed ∧ Peer.Mapped pin peer
  · obtain ⟨agree, peer', hok, hsync⟩ := Peer.syncPins_ok h.covered hruns.1 hruns.2
    constructor
    · rintro ⟨agree', peer'', hok', hall⟩
      obtain ⟨_, rfl⟩ := Outcome.ok.inj (hok.symm.trans hok')
      refine ⟨hruns.1, fun a acc hacc => ?_, hruns.2, fun a k v hv => ?_⟩
      · exact (replicated_account_iff h hsync hacc).mp (hall _ hacc)
      · exact (replicated_slot_iff h hsync hv).mp (hall _ hv)
    · intro hcond
      refine ⟨agree, peer', hok, fun d hd => ?_⟩
      cases d with
      | account a acc => exact (replicated_account_iff h hsync hd).mpr (hcond.accounts a acc hd)
      | mapping a k v => exact (replicated_slot_iff h hsync hd).mpr (hcond.known a k v hd)
  · obtain ⟨s', herr⟩ := Peer.syncPins_panics hruns
    constructor
    · rintro ⟨agree, peer', hok, _⟩
      rw [herr] at hok
      cases hok
    · intro hcond
      exact absurd ⟨hcond.solvent, hcond.mapped⟩ hruns

end

lemma wallet_of_isSome {x : Address} {b : Nat}
    (h : (((∅ : FinMap Address Nat).insert x b).lookup a).isSome = true) : a = x := by
  rw [FinMap.lookup_insert_eq_ite] at h
  by_contra hne
  simp [hne] at h

def slotSeven : Bytes := List.replicate 31 0 ++ [7]

def deployedAccount : StoredAccount := ⟨0, 0, [], [0x60]⟩

def deployment : Go Storage Unit :=
  .modify fun s => (s.putAccount 600 deployedAccount).putValue 600 1 slotSeven

def deploymentPin : TxPin :=
  ⟨[], (∅ : FinMap Address Nat).insert 600 0, [.account 600 deployedAccount, .mapping 600 1 slotSeven], 0⟩

/-- **The slot of a new contract panics on the peer**, which started from the leader's pins and the
leader's store. -/
theorem new_contract_panics : ∃ L', Ledger.add [] deployment (.genesis 500 [] .new) = .ok () L' ∧
      L'.pins = [.genesis 500, deploymentPin] ∧ Describes L'.store deploymentPin ∧
      ∃ peer', Peer.syncPins deploymentPin ⟨[.genesis 500], ∅, .new⟩ = .err .panic peer' := by
  refine ⟨_, rfl, rfl, ⟨fun a acc hacc => ?_, fun a k v hv => ?_, fun a ha => ?_⟩, _, rfl⟩
  · simp only [deploymentPin, mem_cons, not_mem_nil, account.injEq, reduceCtorEq, or_false] at hacc
    obtain ⟨rfl, rfl⟩ := hacc
    rfl
  · simp only [deploymentPin, mem_cons, not_mem_nil, mapping.injEq, reduceCtorEq,
      false_or, or_false] at hv
    obtain ⟨rfl, rfl, rfl⟩ := hv
    rfl
  · have hkey : a = 600 := wallet_of_isSome ha
    exact .inr ⟨deployedAccount, by simp [deploymentPin, hkey]⟩

def paidPin : TxPin := ⟨[], (∅ : FinMap Address Nat).insert 500 9, [.account 500 ⟨9, 0, [], []⟩], 1⟩

theorem paid_wallet_is_replicated :
    ∃ agree peer', Peer.syncPins paidPin ⟨[.genesis 500], ∅, .new⟩ = .ok agree peer' ∧
      ∀ d ∈ paidPin.diffs, Replicated (Storage.new.putAccount 500 ⟨9, 0, [], []⟩) peer'.store d := by
  refine (diffs_replicated_iff _ _ _ ⟨fun a acc hacc => ?_, fun a k v hv => ?_,
    fun a ha => ?_⟩).mpr ⟨trivial, fun a acc hacc => ?_, fun a k v hv => ?_, fun a k v hv => ?_⟩
  · obtain ⟨rfl, rfl⟩ : a = 500 ∧ acc = ⟨9, 0, [], []⟩ := by simpa [paidPin] using hacc
    rfl
  · simp [paidPin] at hv
  · have hkey : a = 500 := wallet_of_isSome ha
    exact .inr ⟨⟨9, 0, [], []⟩, by simp [paidPin, hkey]⟩
  · obtain ⟨rfl, rfl⟩ : a = 500 ∧ acc = ⟨9, 0, [], []⟩ := by simpa [paidPin] using hacc
    exact ⟨by decide, rfl⟩
  · simp [paidPin] at hv
  · simp [paidPin] at hv

end GrapeDag
