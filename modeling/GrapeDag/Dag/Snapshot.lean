/-
THE BALANCE SNAPSHOT FOR A FRESH NODE.

`respondLatestBalances` and `handleLatestBalances` of `src/dag/sync.go`, `GetPinnedBalances`,
`CurrentHeight` and `unsafe_getLatestBalance` of `src/dag/pin.go`. A leader answers a fresh
node with its latest pin, its height, the number of wallets in its pins and their balances, in
the order in which a Go map is walked.

Main result: `snapshot_iff`.
-/
import GrapeDag.Dag.PinChain
import GrapeDag.Dag.Contracts

namespace GrapeDag

open Imperative FinMap List

/-! ## The leader -/

inductive SnapshotValue where
  | int64 (value : Int)
  | int32 (value : Int)
  | string (wallet : Address)
  | bytes (balance : Nat)
  deriving Repr, DecidableEq

abbrev BalanceEntry := Sigma fun _ : Address => Nat

def overlayPins (pinNumber : Nat) : List TxPin → FinMap Address Nat → FinMap Address Nat
  | [], resp => resp
  | pin :: pins, resp =>
      if pin.pinNumber > pinNumber then resp
      else overlayPins pinNumber pins (FinMap.writeAll pin.balance.entries resp)

def getPinnedBalances (pins : List TxPin) (pinNumber : Nat) : FinMap Address Nat :=
  overlayPins pinNumber pins ∅

def encodeBalances (balances : List BalanceEntry) : List SnapshotValue :=
  balances.flatMap fun e => [.string e.1, .bytes e.2]

/-- An encoding of pins by values of `D`; what is encoded can be decoded. -/
structure PinEncoding (D : Type) where
  marshal : TxPin → D
  unmarshal : D → Option TxPin
  faithful : ∀ pin, unmarshal (marshal pin) = some pin

/-- What `respondLatestBalances` sends. -/
structure SnapshotMessage (D : Type) where
  data : D
  details : List SnapshotValue

variable {D : Type}

/-- The orders in which a Go map can be walked. -/
def Walks (walk : FinMap Address Nat → List BalanceEntry) : Prop := ∀ m, (walk m).Perm m.entries

/-- `respondLatestBalances`, where the map of balances is walked in the order `walk`; no answer
without a pin. -/
def respondLatestBalances (codec : PinEncoding D)
    (walk : FinMap Address Nat → List BalanceEntry) (pins : List TxPin) :
    Option (SnapshotMessage D) :=
  pins.getLast?.map fun latest =>
    let balances := getPinnedBalances pins latest.pinNumber
    { data := codec.marshal latest
      details := .int64 latest.pinNumber :: .int32 (wrap32 balances.entries.length) ::
        encodeBalances (walk balances) }

/-! ## The fresh node -/

/-- What `handleLatestBalances` changes of `NodeTxPin`. -/
structure PinStore where
  pins : List TxPin
  ready : Bool

/-- `balance[wallet] = …` on the map of a decoded pin; a map without entries was not sent and is
nil. -/
def assignBalance (balance : FinMap Address Nat) (wallet : Address) (amount : Nat) :
    GoPure (FinMap Address Nat) :=
  if balance.entries.length = 0 then .error .panic else .ok (balance.insert wallet amount)

/-- The loop of `handleLatestBalances` for the number of balances that are left. -/
def readBalances (details : List SnapshotValue) :
    Nat → Nat → FinMap Address Nat → GoPure (FinMap Address Nat)
  | _, 0, balance => .ok balance
  | offset, left + 1, balance =>
      match details[offset]?, details[offset + 1]? with
      | some (.string wallet), some (.bytes amount) =>
          assignBalance balance wallet amount >>= readBalances details (offset + 2) left
      | _, _ => .error .panic

def applySnapshot (details : List SnapshotValue) (latest : TxPin) : Go PinStore Unit := do
  match details[0]? with
  | some (SnapshotValue.int64 announced) =>
      if (currentHeight (← .gets PinStore.pins) : Int) ≠ announced then .raise .error
      else
        match details[1]? with
        | some (SnapshotValue.int32 balanceLength) => do
            let balance ← readBalances details 2 balanceLength.toNat latest.balance
            -- the appended pin and the decoded one are one object
            .modify fun s =>
              { pins := s.pins.dropLast ++ [{ latest with balance := balance }], ready := true }
        | _ => .raise .panic
  | _ => .raise .panic

def handleLatestBalances (codec : PinEncoding D) (rec : SnapshotMessage D) : Go PinStore Unit := do
  if ← .gets PinStore.ready then return ()
  else
    match codec.unmarshal rec.data with
    | none => .raise .error
    | some latest => do
        .modify fun s => { s with pins := s.pins ++ [latest] }
        applySnapshot rec.details latest

/-! ## The two searches -/

variable {walk : FinMap Address Nat → List BalanceEntry} {pins : List TxPin} {latest : TxPin} {n : Nat}

lemma nodupKeys_of_walks (h : Walks walk) (m : FinMap Address Nat) : (walk m).NodupKeys :=
  (perm_nodupKeys (h m)).mpr m.nodupKeys

lemma getLatestBalance_cons (pin : TxPin) (pins : List TxPin) (w : Address) :
    getLatestBalance (pin :: pins) w = (getLatestBalance pins w).or (pin.balance.lookup w) := by
  unfold getLatestBalance
  rw [reverse_cons, findSome?_append]
  cases pins.reverse.findSome? (·.balance.lookup w) with
  | some b => rfl
  | none =>
    simp only [Option.none_or, findSome?_cons, findSome?_nil]
    cases pin.balance.lookup w with
    | none => rfl
    | some b => rfl

lemma lookup_overlayPins {pinNumber : Nat} (h : ∀ pin ∈ pins, pin.pinNumber ≤ pinNumber)
    (resp : FinMap Address Nat) (w : Address) :
    (overlayPins pinNumber pins resp).lookup w = (getLatestBalance pins w).or (resp.lookup w) := by
  induction pins generalizing resp with
  | nil => rfl
  | cons pin pins ih =>
    have hpin : ¬ pin.pinNumber > pinNumber := Nat.not_lt.mpr (h pin (by simp))
    rw [overlayPins, if_neg hpin, ih fun p hp => h p (mem_cons_of_mem pin hp),
      lookup_writeAll pin.balance.nodupKeys, getLatestBalance_cons, Option.or_assoc]
    rfl

/-- The numbers of the pins do not decrease. -/
def NumbersRise (pins : List TxPin) : Prop := (pins.map (·.pinNumber)).Pairwise (· ≤ ·)

lemma lookup_getPinnedBalances (h : NumbersRise pins) (hlast : pins.getLast? = some latest)
    (w : Address) :
    (getPinnedBalances pins latest.pinNumber).lookup w = getLatestBalance pins w := by
  obtain ⟨older, rfl⟩ := getLast?_eq_some_iff.mp hlast
  have hle : ∀ pin ∈ older ++ [latest], pin.pinNumber ≤ latest.pinNumber := by
    intro pin hpin
    rcases mem_append.mp hpin with hold | hnew
    · rw [NumbersRise, map_append, pairwise_append] at h
      exact h.2.2 _ (mem_map_of_mem hold) _ (by simp)
    · rw [mem_singleton.mp hnew]
  rw [getPinnedBalances, lookup_overlayPins hle]
  exact Option.or_none

/-! ## What the node reads -/

@[simp] lemma encodeBalances_cons (e : BalanceEntry) (es : List BalanceEntry) :
    encodeBalances (e :: es) = .string e.1 :: .bytes e.2 :: encodeBalances es := rfl

lemma readBalances_encoded (sent : List BalanceEntry) (left : Nat) (hle : left ≤ sent.length)
    (front : List SnapshotValue) (balance : FinMap Address Nat)
    (hne : balance.entries.length ≠ 0) :
    readBalances (front ++ encodeBalances sent) front.length left balance =
      .ok (writeAll (sent.take left) balance) := by
  induction left generalizing sent front balance with
  | zero => rfl
  | succ left ih =>
    cases sent with
    | nil => exact absurd hle (by simp)
    | cons e sent =>
      have hwallet : (front ++ encodeBalances (e :: sent))[front.length]? = some (.string e.1) := by simp
      have hamount : (front ++ encodeBalances (e :: sent))[front.length + 1]? = some (.bytes e.2) := by
        rw [getElem?_append_right (Nat.le_add_right _ 1), Nat.add_sub_cancel_left]
        rfl
      have hassign : assignBalance balance e.1 e.2 = .ok (balance.insert e.1 e.2) := if_neg hne
      have hinsert : (balance.insert e.1 e.2).entries.length ≠ 0 := by simp
      -- the two values join what has been read
      have hfront : front ++ encodeBalances (e :: sent) =
          (front ++ [.string e.1, .bytes e.2]) ++ encodeBalances sent := by simp
      have hlength : front.length + 2 = (front ++ [SnapshotValue.string e.1, .bytes e.2]).length := by simp
      rw [readBalances, hwallet, hamount]
      show (assignBalance balance e.1 e.2 >>= _) = _
      rw [hassign, hfront, hlength]
      exact ih sent (Nat.le_of_succ_le_succ hle) _ _ hinsert

lemma toNat_wrap32_le (n : Nat) : (wrap32 n).toNat ≤ n ∧ (wrap32 n).toNat < 2147483648 := by
  unfold wrap32
  rw [Int.bmod_def]
  split <;> omega

lemma applySnapshot_encoded (sent : List BalanceEntry) {n : Int} (hle : n.toNat ≤ sent.length)
    (hne : latest.balance.entries.length ≠ 0) :
    applySnapshot (.int64 latest.pinNumber :: .int32 n :: encodeBalances sent) latest
        ⟨[latest], false⟩ =
      .ok () ⟨[{ latest with
        balance := writeAll (sent.take n.toNat) latest.balance }], true⟩ := by
  have hread : readBalances (.int64 latest.pinNumber :: .int32 n :: encodeBalances sent) 2 n.toNat
      latest.balance = .ok (writeAll (sent.take n.toNat) latest.balance) :=
    readBalances_encoded sent n.toNat hle [.int64 latest.pinNumber, .int32 n] latest.balance hne
  have hheight : ¬ ((currentHeight [latest] : Nat) : Int) ≠ (latest.pinNumber : Int) := not_not_intro rfl
  unfold applySnapshot
  simp only [getElem?_cons_zero, getElem?_cons_succ]
  rw [Prog.gets_bind, if_neg hheight, Prog.bind_of_ok (Prog.liftM_of_ok hread _)]
  rfl

lemma handle_respond_snapshot (codec : PinEncoding D) (hwalk : Walks walk)
    (hlast : pins.getLast? = some latest) (hne : latest.balance.entries.length ≠ 0)
    {msg : SnapshotMessage D} (hmsg : respondLatestBalances codec walk pins = some msg)
    {all : FinMap Address Nat} (hall : all = getPinnedBalances pins latest.pinNumber) :
    handleLatestBalances codec msg ⟨[], false⟩ = .ok () ⟨[{ latest with
      balance := writeAll ((walk all).take (wrap32 all.entries.length).toNat)
        latest.balance }], true⟩ := by
  rw [respondLatestBalances, hlast, Option.map_some, ← hall] at hmsg
  obtain rfl := Option.some.inj hmsg
  have hle : (wrap32 all.entries.length).toNat ≤ (walk all).length := by
    rw [(hwalk all).length_eq]
    exact (toNat_wrap32_le _).1
  unfold handleLatestBalances
  simp only [codec.faithful]
  exact applySnapshot_encoded (walk all) hle hne

/-! ## When the snapshot is complete -/

def pinnedWallets (pins : List TxPin) : List Address := (pins.flatMap (·.balance.keys)).dedup

/-- A fresh node that handles the leader's message ends with the leader's balances and height. -/
def SnapshotAgrees (codec : PinEncoding D) (walk : FinMap Address Nat → List BalanceEntry)
    (pins : List TxPin) : Prop :=
  ∃ msg s, respondLatestBalances codec walk pins = some msg ∧
    handleLatestBalances codec msg ⟨[], false⟩ = .ok () s ∧
    (∀ w, getLatestBalance s.pins w = getLatestBalance pins w) ∧
    currentHeight s.pins = currentHeight pins

lemma getLatestBalance_ne_none {w : Address} : getLatestBalance pins w ≠ none ↔ w ∈ pinnedWallets pins := by
  rw [pinnedWallets, mem_dedup, mem_flatMap, Option.ne_none_iff_isSome,
    getLatestBalance, findSome?_isSome_iff]
  simp only [mem_reverse, AList.lookup_isSome]
  rfl

lemma length_getPinnedBalances (h : NumbersRise pins) (hlast : pins.getLast? = some latest) :
    (getPinnedBalances pins latest.pinNumber).entries.length = (pinnedWallets pins).length := by
  have hperm : (getPinnedBalances pins latest.pinNumber).keys.Perm (pinnedWallets pins) := by
    refine (perm_ext_iff_of_nodup (AList.keys_nodup _) (nodup_dedup _)).mpr fun w => ?_
    rw [← AList.mem_keys, ← AList.lookup_isSome, lookup_getPinnedBalances h hlast,
      ← Option.ne_none_iff_isSome]
    exact getLatestBalance_ne_none
  have hlen := hperm.length_eq
  rwa [AList.keys, keys, length_map] at hlen

section

variable {codec : PinEncoding D} {walk : FinMap Address Nat → List BalanceEntry}
  {pins : List TxPin} {latest : TxPin} {all : FinMap Address Nat}
  (hrise : NumbersRise pins) (hlast : pins.getLast? = some latest)
  (hne : latest.balance.entries.length ≠ 0)
  (hall : all = getPinnedBalances pins latest.pinNumber)

include hrise hlast hall in
lemma lookup_received (hwalk : Walks walk) (k : Nat) (w : Address) :
    (writeAll ((walk all).take k) latest.balance).lookup w = getLatestBalance pins w ↔
      getLatestBalance pins w = none ∨ w ∈ ((walk all).take k).keys ∨ latest.balance.lookup w ≠ none := by
  have hkeys : ((walk all).take k).NodupKeys := (nodupKeys_of_walks hwalk all).sublist (take_sublist k _)
  have hleader : all.lookup w = getLatestBalance pins w := hall ▸ lookup_getPinnedBalances hrise hlast w
  rw [lookup_writeAll hkeys]
  cases hread : ((walk all).take k).dlookup w with
  | some b =>
    -- what was sent is what the leader has
    have hmem : ⟨w, b⟩ ∈ all.entries := (hwalk all).subset (mem_of_mem_take (of_mem_dlookup hread))
    have hsent : all.lookup w = some b := AList.mem_lookup_iff.mpr hmem
    have hkey : w ∈ ((walk all).take k).keys := dlookup_isSome.mp (by rw [hread]; rfl)
    rw [← hleader, hsent]
    simp [hkey]
  | none =>
    have hkey : w ∉ ((walk all).take k).keys := dlookup_eq_none.mp hread
    obtain ⟨older, rfl⟩ := getLast?_eq_some_iff.mp hlast
    rw [Ledger.getLatestBalance_concat]
    cases latest.balance.lookup w with
    | some b => simp
    | none =>
      simp only [Option.none_or, hkey, ne_eq, not_true_eq_false, or_false]
      exact eq_comm

include hrise hlast hne hall in
lemma snapshotAgrees_iff (hwalk : Walks walk) :
    SnapshotAgrees codec walk pins ↔ ∀ w ∈ pinnedWallets pins,
      w ∈ ((walk all).take (wrap32 all.entries.length).toNat).keys ∨ latest.balance.lookup w ≠ none := by
  obtain ⟨msg, hmsg⟩ : ∃ msg, respondLatestBalances codec walk pins = some msg := by
    rw [respondLatestBalances, hlast]
    exact ⟨_, rfl⟩
  have hhandle := handle_respond_snapshot codec hwalk hlast hne hmsg hall
  have hnode : ∀ balance w, getLatestBalance [{ latest with balance := balance }] w = balance.lookup w := by
    intro balance w
    rw [← nil_append [_], Ledger.getLatestBalance_concat]
    exact Option.or_none
  have hheight : ∀ balance, currentHeight [{ latest with balance := balance }] = currentHeight pins := by
    intro balance
    rw [currentHeight, currentHeight, hlast]
    rfl
  constructor
  · intro ⟨msg', s, hmsg', hok, hbalances, _⟩ w hw
    rw [hmsg] at hmsg'
    obtain rfl := Option.some.inj hmsg'
    rw [hhandle] at hok
    obtain ⟨-, rfl⟩ := Outcome.ok.inj hok
    have hfound := hbalances w
    rw [hnode] at hfound
    exact ((lookup_received hrise hlast hall hwalk _ w).mp hfound).resolve_left
      (getLatestBalance_ne_none.mpr hw)
  · intro hcond
    refine ⟨msg, _, hmsg, hhandle, fun w => ?_, hheight _⟩
    rw [hnode]
    refine (lookup_received hrise hlast hall hwalk _ w).mpr ?_
    by_cases hw : getLatestBalance pins w = none
    · exact Or.inl hw
    · exact Or.inr (hcond w (getLatestBalance_ne_none.mp hw))

end

def walkLast (w : Address) (m : FinMap Address Nat) : List BalanceEntry :=
  m.entries.filter (fun e => decide (e.1 ≠ w)) ++ m.entries.filter (fun e => !decide (e.1 ≠ w))

lemma walks_walkLast (w : Address) : Walks (walkLast w) :=
  fun m => filter_append_perm (fun e : BalanceEntry => decide (e.1 ≠ w)) m.entries

lemma not_mem_take_walkLast (w : Address) (m : FinMap Address Nat) {k : Nat}
    (hk : k < m.entries.length) : w ∉ ((walkLast w m).take k).keys := by
  have hlen := (walks_walkLast w m).length_eq
  -- at most one entry has the key
  have hone : (m.entries.filter (fun e => !decide (e.1 ≠ w))).length ≤ 1 := by
    have hnodup : ((m.entries.filter (fun e => !decide (e.1 ≠ w))).map Sigma.fst).Nodup :=
      List.NodupKeys.sublist filter_sublist m.nodupKeys
    have hsame : (m.entries.filter (fun e => !decide (e.1 ≠ w))).map Sigma.fst =
        replicate (m.entries.filter (fun e => !decide (e.1 ≠ w))).length w := by
      refine eq_replicate_iff.mpr ⟨by simp, ?_⟩
      intro v hv
      obtain ⟨e, he, rfl⟩ := mem_map.mp hv
      simpa using (mem_filter.mp he).2
    rw [hsame] at hnodup
    exact nodup_replicate.mp hnodup
  rw [walkLast, length_append] at hlen
  rw [walkLast, take_append_of_le_length (by omega)]
  intro hmem
  obtain ⟨e, he, hew⟩ := mem_map.mp hmem
  have := (mem_filter.mp (mem_of_mem_take he)).2
  exact of_decide_eq_true this hew

lemma not_snapshotAgrees_walkLast {codec : PinEncoding D} (hrise : NumbersRise pins)
    (hlast : pins.getLast? = some latest) (hne : latest.balance.entries.length ≠ 0)
    (hmany : 2147483648 ≤ (pinnedWallets pins).length) {w : Address}
    (hpinned : w ∈ pinnedWallets pins) (hlatest : latest.balance.lookup w = none) :
    ¬ SnapshotAgrees codec (walkLast w) pins := by
  have hcount := length_getPinnedBalances hrise hlast
  obtain ⟨all, hall⟩ : ∃ all, all = getPinnedBalances pins latest.pinNumber := ⟨_, rfl⟩
  have hk : (wrap32 all.entries.length).toNat < all.entries.length := by
    have := (toNat_wrap32_le all.entries.length).2
    rw [← hall] at hcount
    omega
  intro hagrees
  have hreads := (snapshotAgrees_iff hrise hlast hne hall (walks_walkLast w)).mp hagrees w hpinned
  exact hreads.elim (not_mem_take_walkLast w all hk) fun h => h hlatest

/-- **When a snapshot is complete, in whatever order it is sent.** -/
theorem snapshot_iff (codec : PinEncoding D) {pins : List TxPin} (hrise : NumbersRise pins)
    {latest : TxPin} (hlast : pins.getLast? = some latest)
    (hne : latest.balance.entries.length ≠ 0) :
    (∀ walk, Walks walk → SnapshotAgrees codec walk pins) ↔
      (pinnedWallets pins).length < 2147483648 ∨
        ∀ w ∈ pinnedWallets pins, latest.balance.lookup w ≠ none := by
  have hcount := length_getPinnedBalances hrise hlast
  obtain ⟨all, hall⟩ : ∃ all, all = getPinnedBalances pins latest.pinNumber := ⟨_, rfl⟩
  rw [← hall] at hcount
  constructor
  · intro hagrees
    by_contra hnot
    obtain ⟨hmany, hmissing⟩ := not_or.mp hnot
    obtain ⟨w, hw⟩ := not_forall.mp hmissing
    obtain ⟨hpinned, hlatest⟩ := Classical.not_imp.mp hw
    exact not_snapshotAgrees_walkLast hrise hlast hne (not_lt.mp hmany) hpinned
      (not_not.mp hlatest) (hagrees _ (walks_walkLast w))
  · intro hcond walk hwalk
    refine (snapshotAgrees_iff hrise hlast hne hall hwalk).mpr fun w hw => ?_
    rcases hcond with hfew | hmentioned
    · -- all balances are read
      left
      have hsize : (wrap32 all.entries.length).toNat = (walk all).length := by
        rw [(hwalk all).length_eq]
        exact (toNat_wrap32 _).mpr (by omega)
      rw [hsize, take_length]
      have hkey : w ∈ all.keys := by
        rw [← AList.mem_keys, ← AList.lookup_isSome, hall, lookup_getPinnedBalances hrise hlast,
          ← Option.ne_none_iff_isSome]
        exact getLatestBalance_ne_none.mpr hw
      exact ((hwalk all).map Sigma.fst).mem_iff.mpr hkey
    · exact Or.inr (hmentioned w hw)

def PinEncoding.identity : PinEncoding TxPin := ⟨id, some, fun _ => rfl⟩

/-- A pin that gives one unit to each of the first `n` wallets. -/
def crowdPin (n : Nat) : TxPin :=
  ⟨[], (List.range n).foldl (fun m i => m.insert (BitVec.ofNat 160 i) 1) ∅, [], 0⟩

def behindPin (n : Nat) : TxPin := ⟨[], (∅ : FinMap Address Nat).insert (BitVec.ofNat 160 n) 0, [], 1⟩

def crowdedPins (n : Nat) : List TxPin := [crowdPin n, behindPin n]

lemma numbersRise_crowded (n : Nat) : NumbersRise (crowdedPins n) := by
  simp [NumbersRise, crowdedPins, crowdPin, behindPin]

/-- The wallets 0 and 1 are in the older pin, the wallet 2 in the latest one. -/
theorem two_pins_snapshot : (pinnedWallets (crowdedPins 2)).length = 3 ∧
    SnapshotAgrees PinEncoding.identity (fun m => m.entries) (crowdedPins 2) :=
  ⟨by decide, (snapshot_iff _ (numbersRise_crowded 2) rfl (by decide)).mpr (.inl (by decide)) _
    fun m => .refl m.entries⟩

lemma lookup_crowdPin (n : Nat) (w : Address) :
    (crowdPin n).balance.lookup w ≠ none ↔ ∃ i < n, BitVec.ofNat 160 i = w := by
  show ((range n).foldl (fun (m : FinMap Address Nat) i =>
    m.insert (BitVec.ofNat 160 i) 1) ∅).lookup w ≠ none ↔ _
  induction n with
  | zero => simp
  | succ n ih =>
    rw [range_succ, foldl_append, foldl_cons, foldl_nil, lookup_insert_eq_ite]
    by_cases hw : w = BitVec.ofNat 160 n
    · simp only [hw, if_true, ne_eq, reduceCtorEq, not_false_eq_true, true_iff]
      exact ⟨n, Nat.lt_succ_self n, rfl⟩
    rw [if_neg hw, ih]
    constructor
    · intro ⟨i, hi, hiw⟩
      exact ⟨i, Nat.lt_succ_of_lt hi, hiw⟩
    · intro ⟨i, hi, hiw⟩
      have hne : i ≠ n := fun h => hw (h ▸ hiw.symm)
      exact ⟨i, by omega, hiw⟩

lemma mem_pinnedWallets_crowded {i : Nat} (hi : i < n) :
    BitVec.ofNat 160 i ∈ pinnedWallets (crowdedPins n) := by
  refine mem_dedup.mpr (mem_flatMap.mpr ⟨crowdPin n, by simp [crowdedPins], ?_⟩)
  rw [← AList.mem_keys, ← AList.lookup_isSome, ← Option.ne_none_iff_isSome]
  exact (lookup_crowdPin n _).mpr ⟨i, hi, rfl⟩

lemma ofNat_inj {i j : Nat} (hi : i < 2 ^ 160) (hj : j < 2 ^ 160)
    (h : BitVec.ofNat 160 i = BitVec.ofNat 160 j) : i = j := by
  have hval := congrArg BitVec.toNat h
  rwa [BitVec.toNat_ofNat, BitVec.toNat_ofNat, Nat.mod_eq_of_lt hi, Nat.mod_eq_of_lt hj] at hval

lemma length_pinnedWallets_crowded (hn : n < 2 ^ 160) : n ≤ (pinnedWallets (crowdedPins n)).length := by
  have hnodup : ((range n).map (BitVec.ofNat 160)).Nodup := by
    refine List.Nodup.map_on ?_ nodup_range
    intro i hi j hj hij
    exact ofNat_inj ((mem_range.mp hi).trans hn) ((mem_range.mp hj).trans hn) hij
  have hsub : (range n).map (BitVec.ofNat 160) ⊆ pinnedWallets (crowdedPins n) := by
    intro w hw
    obtain ⟨i, hi, rfl⟩ := mem_map.mp hw
    exact mem_pinnedWallets_crowded (mem_range.mp hi)
  have hlen := (hnodup.subperm hsub).length_le
  rwa [length_map, length_range] at hlen

lemma lookup_behindPin (h0 : 0 < n) (hn : n < 2 ^ 160) :
    (behindPin n).balance.lookup (BitVec.ofNat 160 0) = none := by
  have hne : BitVec.ofNat 160 0 ≠ BitVec.ofNat 160 n := by
    intro h
    exact h0.ne (ofNat_inj (h0.trans hn) hn h)
  rw [behindPin, lookup_insert_eq_ite, if_neg hne]
  rfl

/-- **A leader with more wallets than an `int32` counts**: the node does not get the balance of
the wallet that is sent last. -/
theorem crowd_misses_snapshot : NumbersRise (crowdedPins 2147483648) ∧
      ¬ SnapshotAgrees PinEncoding.identity (walkLast (BitVec.ofNat 160 0)) (crowdedPins 2147483648) := by
  have hn : 2147483648 < 2 ^ 160 := by norm_num
  refine ⟨numbersRise_crowded _, ?_⟩
  exact not_snapshotAgrees_walkLast (numbersRise_crowded _) rfl (by simp [behindPin])
    (length_pinnedWallets_crowded hn) (mem_pinnedWallets_crowded (by norm_num))
    (lookup_behindPin (by norm_num) hn)

end GrapeDag
