/-
CHOOSING CONTRACT TRANSACTIONS FOR A PIN.

`GetAllUncofirmed` of `src/smc/store.go`: a walk over the pool that takes what fits.

Main result: `getAllUncofirmed_chosen`.
-/
import GrapeDag.Dag.SmcPools

namespace GrapeDag

open List

def Transaction.getNonce : Transaction → Nat
  | .v1 t | .eth t => t.nonce

def StoredAccount.nonceUint64 (account : StoredAccount) : Nat := account.nonce.natAbs % 2 ^ 64

/-- What the filter of `GetAllUncofirmed` has selected, with its variables. -/
structure Selection where
  txs : List Transaction
  selectedSenders : List Address
  fuelLimitLeft : Int

section

variable (c : Crypto) (s : Storage)

def Selection.visit (sel : Selection) (tx : Transaction) : GoPure Selection := do
  let accountAddress ← tx.senderWallet c
  match s.getAccount accountAddress with
  | none => return sel
  | some account =>
      let txFuelLimit := wrap64 tx.getFuelLimit.natAbs
      if account.nonceUint64 = tx.getNonce ∧ accountAddress ∉ sel.selectedSenders ∧
          sel.fuelLimitLeft ≥ txFuelLimit then
        return ⟨sel.txs ++ [tx], accountAddress :: sel.selectedSenders, sel.fuelLimitLeft - txFuelLimit⟩
      else return sel

/-- `GetAllUncofirmed` for a pool that is walked in this order. -/
def getAllUncofirmed (fuelLimit : Int) (walk : List Transaction) : GoPure (List Transaction) := do
  let sel ← walk.foldlM (Selection.visit c s) ⟨[], [], fuelLimit⟩
  return sel.txs

variable (wallet : Transaction → Address) (budget : Int)

def leftOver (txs : List Transaction) : Int := budget - (txs.map Transaction.getFuelLimit).sum

/-- A good choice of the walked transactions: it is within the budget, has one transaction for a
sender and the current nonces, and nothing that was left out could be added. -/
structure Chosen (walked txs : List Transaction) : Prop where
  sublist : txs.Sublist walked
  affordable : 0 ≤ leftOver budget txs
  once : (txs.map wallet).Nodup
  current : ∀ tx ∈ txs, ∃ account, s.getAccount (wallet tx) = some account ∧ account.nonceUint64 = tx.getNonce
  maximal : ∀ tx ∈ walked, tx ∉ txs → s.getAccount (wallet tx) = none ∨
    (∃ account, s.getAccount (wallet tx) = some account ∧ account.nonceUint64 ≠ tx.getNonce) ∨
    wallet tx ∈ txs.map wallet ∨ leftOver budget txs < tx.getFuelLimit

variable {c s wallet budget} {walked : List Transaction} {sel : Selection} {tx : Transaction}

lemma leftOver_append (budget : Int) (txs : List Transaction) (tx : Transaction) :
    leftOver budget (txs ++ [tx]) = leftOver budget txs - tx.getFuelLimit := by
  unfold leftOver
  simp only [map_append, sum_append, map_cons, map_nil, sum_cons, sum_nil]
  omega

lemma Chosen.leave {txs : List Transaction} (h : Chosen s wallet budget walked txs)
    (hreason : s.getAccount (wallet tx) = none ∨
      (∃ account, s.getAccount (wallet tx) = some account ∧ account.nonceUint64 ≠ tx.getNonce) ∨
      wallet tx ∈ txs.map wallet ∨ leftOver budget txs < tx.getFuelLimit) :
    Chosen s wallet budget (walked ++ [tx]) txs := by
  refine { h with sublist := h.sublist.trans (sublist_append_left _ _), maximal := ?_ }
  intro tx' htx' hout
  rcases mem_append.mp htx' with hold | hnew
  · exact h.maximal tx' hold hout
  · rw [mem_singleton.mp hnew]
    exact hreason

lemma Chosen.take {txs : List Transaction} {account : StoredAccount} (h : Chosen s wallet budget walked txs)
    (haccount : s.getAccount (wallet tx) = some account) (hnonce : account.nonceUint64 = tx.getNonce)
    (hnew : wallet tx ∉ txs.map wallet) (hfits : tx.getFuelLimit ≤ leftOver budget txs)
    (hfuel : 0 ≤ tx.getFuelLimit) : Chosen s wallet budget (walked ++ [tx]) (txs ++ [tx]) := by
  have hleft := leftOver_append budget txs tx
  refine ⟨h.sublist.append_right [tx], by omega, ?_, ?_, ?_⟩
  · rw [map_append]
    exact h.once.append (nodup_singleton _) (disjoint_singleton.mpr hnew)
  · intro tx' htx'
    rcases mem_append.mp htx' with hold | hlast
    · exact h.current tx' hold
    · rw [mem_singleton.mp hlast]
      exact ⟨account, haccount, hnonce⟩
  · intro tx' htx' hout
    rw [mem_append, not_or] at hout
    rcases mem_append.mp htx' with hold | hlast
    · -- the budget that is left over only falls
      rcases h.maximal tx' hold hout.1 with hnone | hother | hsender | hlarge
      · exact .inl hnone
      · exact .inr (.inl hother)
      · refine .inr (.inr (.inl ?_))
        rw [map_append]
        exact mem_append_left _ hsender
      · exact .inr (.inr (.inr (by omega)))
    · exact absurd hlast hout.2

/-- The loop variables say what has been selected. -/
structure Selection.Tracks (wallet : Transaction → Address) (budget : Int) (sel : Selection) : Prop where
  senders : ∀ a, a ∈ sel.selectedSenders ↔ a ∈ sel.txs.map wallet
  left : sel.fuelLimitLeft = leftOver budget sel.txs

lemma Selection.visit_chosen (hwallet : tx.senderWallet c = .ok (wallet tx))
    (hfuel : 0 ≤ tx.getFuelLimit ∧ tx.getFuelLimit < 2 ^ 63) (htracks : sel.Tracks wallet budget)
    (h : Chosen s wallet budget walked sel.txs) :
    ∃ sel', sel.visit c s tx = .ok sel' ∧ sel'.Tracks wallet budget ∧
      Chosen s wallet budget (walked ++ [tx]) sel'.txs := by
  have hlimit : wrap64 tx.getFuelLimit.natAbs = tx.getFuelLimit := by
    rw [Int.natAbs_of_nonneg hfuel.1]
    exact wrap64_of_isLong ⟨by omega, by omega⟩
  unfold Selection.visit
  rw [hwallet, hlimit]
  dsimp only [bind, Except.bind]
  cases haccount : s.getAccount (wallet tx) with
  | none => exact ⟨sel, rfl, htracks, h.leave (.inl haccount)⟩
  | some account =>
    dsimp only
    by_cases hcond : account.nonceUint64 = tx.getNonce ∧ wallet tx ∉ sel.selectedSenders ∧
        sel.fuelLimitLeft ≥ tx.getFuelLimit
    · obtain ⟨hnonce, hsender, hfits⟩ := hcond
      rw [if_pos ⟨hnonce, hsender, hfits⟩]
      rw [htracks.left] at hfits
      refine ⟨_, rfl, ⟨fun a => ?_, ?_⟩, h.take haccount hnonce (mt (htracks.senders _).mpr hsender) hfits hfuel.1⟩
      · rw [mem_cons, htracks.senders, map_append, mem_append, or_comm]
        simp
      · show sel.fuelLimitLeft - tx.getFuelLimit = leftOver budget (sel.txs ++ [tx])
        rw [leftOver_append, htracks.left]
    · rw [if_neg hcond]
      refine ⟨sel, rfl, htracks, h.leave (.inr ?_)⟩
      by_cases hnonce : account.nonceUint64 = tx.getNonce
      · by_cases hsender : wallet tx ∈ sel.selectedSenders
        · exact .inr (.inl ((htracks.senders _).mp hsender))
        · refine .inr (.inr ?_)
          rw [← htracks.left]
          exact not_le.mp fun hfits => hcond ⟨hnonce, hsender, hfits⟩
      · exact .inl ⟨account, haccount, hnonce⟩

/-- **CHOOSING CONTRACT TRANSACTIONS.** Whatever the order of the pool is, the choice is good. -/
theorem getAllUncofirmed_chosen {pool : FinMap GoString Transaction}
    (hwallet : ∀ tx ∈ pool.values, tx.senderWallet c = .ok (wallet tx))
    (hfuel : ∀ tx ∈ pool.values, 0 ≤ tx.getFuelLimit ∧ tx.getFuelLimit < 2 ^ 63) (hbudget : 0 ≤ budget)
    {walk : List Transaction} (hwalk : walk.Perm pool.values) :
    ∃ txs, getAllUncofirmed c s budget walk = .ok txs ∧ Chosen s wallet budget walk txs := by
  have hloop : ∀ walked, walked <+: walk → ∃ sel, walked.foldlM (Selection.visit c s) ⟨[], [], budget⟩ = .ok sel ∧
      sel.Tracks wallet budget ∧ Chosen s wallet budget walked sel.txs := by
    intro walked
    induction walked using reverseRecOn with
    | nil =>
      refine fun _ => ⟨_, rfl, ⟨fun a => ?_, ?_⟩, ?_⟩
      · simp
      · simp [leftOver]
      · exact ⟨List.Sublist.refl _, by simpa [leftOver] using hbudget, nodup_nil,
          fun _ h => absurd h not_mem_nil, fun _ h => absurd h not_mem_nil⟩
    | append_singleton walked tx ih =>
      intro hbegins
      obtain ⟨sel, hrun, htracks, hchosen⟩ := ih ((prefix_append walked [tx]).trans hbegins)
      have hmem : tx ∈ pool.values := hwalk.mem_iff.mp (hbegins.subset (by simp))
      obtain ⟨sel', hvisit, htracks', hchosen'⟩ := Selection.visit_chosen (hwallet tx hmem) (hfuel tx hmem)
        htracks hchosen
      refine ⟨sel', ?_, htracks', hchosen'⟩
      rw [foldlM_append, hrun]
      exact (bind_pure _).trans hvisit
  obtain ⟨sel, hrun, -, hchosen⟩ := hloop walk (prefix_refl walk)
  refine ⟨sel.txs, ?_, hchosen⟩
  unfold getAllUncofirmed
  rw [hrun]
  rfl

end

def samplePool : FinMap GoString Transaction :=
  AList.insert [1] (sampleCall 500) (AList.insert [2] (sampleCall 700) ∅)

theorem one_call_chosen : ∃ txs,
    getAllUncofirmed .sampleEth { Storage.new with accounts := AList.insert 500 .blank ∅ } 600
        [sampleCall 700, sampleCall 500] = .ok txs ∧
      Chosen { Storage.new with accounts := AList.insert 500 .blank ∅ } (fun _ => 500) 600
        [sampleCall 700, sampleCall 500] txs :=
  getAllUncofirmed_chosen (by decide +kernel) (by decide +kernel) (by decide)
    (show List.Perm _ samplePool.values from List.Perm.swap _ _ _)

end GrapeDag
