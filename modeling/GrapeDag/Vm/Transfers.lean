/-
THE VALUE OF CALLS AND CREATES.

`CALL`, `CALLCODE`, `CREATE` and `CREATE2` hand their value on as the SIGNED integer that its
bits denote. From `2^255` on the amount is negative: every balance covers it, and moving it
takes from the target and gives to the source.

Main results: `callSafe_iff` and `createSafe_iff` (when the value that moves is the value word),
`pays_of_entry` (what that means for a whole call or create), `solvent_stable` (who cannot lose
balance in a run), all of them in `value_transfers_safe`.
-/
import GrapeDag.Vm.ControlFlow
import GrapeDag.Vm.Entry
import GrapeDag.Vm.Invariants

namespace GrapeDag

open Imperative GrapeDag.Frame Prog World Word

/-! ## Exact transfers -/

/-- The balances of `w'` are those of `w` after `value` has moved. -/
def Moved (source target : Address) (value : Int) (w w' : World) : Prop := ∀ x, w'.getBalance x
    = w.getBalance x - (if x = source then value else 0) + (if x = target then value else 0)

variable {w : World} {source target : Address} {value : Int} {v : Word}

lemma Moved.self {value' : Int} {w' : World} (h : Moved source source value w w') :
    Moved source source value' w w' := by
  intro x
  rw [h x]
  split <;> omega

lemma Moved.zero (w : World) : Moved source target 0 w w := by
  intro x
  split <;> split <;> omega

lemma Transferred.balances {w' : World} (h : Transferred source target value w w') :
    Moved source target value w w' := by
  obtain ⟨s, t, hs, ht, rfl⟩ := h.moved
  have hs' := getBalance_eq hs
  have ht' := getBalance_eq ht
  rw [getBalance_putAccount] at ht'
  intro x
  rw [getBalance_putAccount, getBalance_putAccount]
  show (if x = target then t.balance + value else if x = source then s.balance - value
    else w.getBalance x) = _
  by_cases hxt : x = target <;> by_cases hxs : x = source <;> simp_all
  all_goals omega

lemma transfer_apply (value : Int) (hs : w.getAccount source ≠ none)
    (ht : w.getAccount target ≠ none) :
    ∃ w', transfer source target value w = .ok () w' ∧ Transferred source target value w w' := by
  obtain ⟨s, hs⟩ := Option.ne_none_iff_exists'.mp hs
  have hmid : (w.putAccount source { s with balance := s.balance - value }).getAccount target ≠ none := by
    rw [getAccount_putAccount]
    split
    · exact Option.some_ne_none _
    · exact ht
  obtain ⟨t, ht⟩ := Option.ne_none_iff_exists'.mp hmid
  refine ⟨_, ?_, ⟨s, t, hs, ht, rfl⟩⟩
  have hsub : subBalance source value w
      = .ok () (w.putAccount source { s with balance := s.balance - value }) :=
    updateAccount_apply hs _
  exact (bind_of_ok hsub).trans (updateAccount_apply ht _)

/-! ## The signed reading of a word -/

lemma Word.bigIntegerValue_of_lt (h : v.toNat < 2 ^ 255) : v.bigIntegerValue = v.toNat := by
  unfold bigIntegerValue
  rw [BitVec.toInt_eq_toNat_cond, if_pos (by omega)]

lemma Word.bigIntegerValue_of_ge (h : ¬ v.toNat < 2 ^ 255) : v.bigIntegerValue = v.toNat - 2 ^ 256 := by
  unfold bigIntegerValue
  rw [BitVec.toInt_eq_toNat_cond, if_neg (by omega)]
  norm_num

lemma Word.bigIntegerValue_neg (h : ¬ v.toNat < 2 ^ 255) : v.bigIntegerValue < 0 := by
  rw [bigIntegerValue_of_ge h]
  omega

/-! ## Calls -/

/-- Who receives the value: `CALLCODE` runs foreign code on the executing account. -/
def CallArgs.payee (a : CallArgs) : Address :=
  if a.kind = .call then a.contractAddress else a.caller.address

/-- A call with the value word `v` refuses a value that is not covered; if it is entered, exactly
the value has moved. -/
structure CallSafe (m : Machine) (a : CallArgs) (v : Word) (w : World) : Prop where
  refused : w.getBalance a.caller.address < v.toNat → refusal m a.caller.address a.amount w ≠ none
  moved : refusal m a.caller.address a.amount w = none →
    ∃ early w', enterCall m a w.checkpointed = .ok early w' ∧
      Moved a.caller.address a.payee v.toNat w w'

/-- THE CONDITION ON CALLS: the value word is below `2^255` (and the balance is not negative if
the value is zero), unless the signed reading makes no difference. -/
def CallFits (m : Machine) (a : CallArgs) (v : Word) (w : World) : Prop :=
  m.cfg.callCreateDepth < w.depth ∨
  (if v.toNat < 2 ^ 255 then v.toNat ≠ 0 ∨ 0 ≤ w.getBalance a.caller.address
   else w.getBalance a.caller.address < v.bigIntegerValue ∨
    (v.toNat ≤ w.getBalance a.caller.address ∧ a.payee = a.caller.address))

lemma World.exists_of_getBalance {a : Address} (h : w.getBalance a ≠ 0) : w.getAccount a ≠ none := by
  intro hnone
  unfold World.getBalance at h
  rw [hnone] at h
  exact h rfl

lemma enterCall_apply (m : Machine) {a : CallArgs}
    (hsource : a.amount ≠ 0 → w.getAccount a.caller.address ≠ none)
    (hkind : a.kind = .call ∨ a.kind = .callCode) :
    ∃ early w', enterCall m a w = .ok early w' ∧ Moved a.caller.address a.payee a.amount w w' := by
  rcases hkind with hk | hk
  · have hpayee : a.payee = a.contractAddress := if_pos hk
    rw [hpayee]
    -- the account that is paid exists when the value moves
    have hpay : ∀ w1 : World, (∀ x, w1.getBalance x = w.getBalance x) →
        (a.amount ≠ 0 → w1.getAccount a.caller.address ≠ none) →
        w1.getAccount a.contractAddress ≠ none →
        ∃ early w', (do
          if a.amount ≠ 0 then transfer a.caller.address a.contractAddress a.amount
          return false : Java World Bool) w1 = .ok early w' ∧
          Moved a.caller.address a.contractAddress a.amount w w' := by
      intro w1 hbal hs ht
      by_cases hamount : a.amount = 0
      · rw [hamount]
        refine ⟨false, w1, rfl, fun x => ?_⟩
        rw [hbal x]
        exact Moved.zero w x
      · obtain ⟨w', hok, hmoved⟩ := transfer_apply a.amount (hs hamount) ht
        refine ⟨false, w', ?_, fun x => ?_⟩
        · rw [if_pos hamount]
          exact bind_of_ok hok
        · rw [hmoved.balances x, hbal x]
    unfold enterCall
    rw [if_neg (not_not.mpr hk)]
    by_cases habs : w.getAccount a.contractAddress = none
    · have hexists : (!w.isAccountExists a.contractAddress) = true := by simp [isAccountExists, habs]
      rw [gets_bind, if_pos hexists]
      by_cases hleak : (!isPrecompiled m.cfg a.contractAddress) = true ∧ a.amount = 0
      · rw [if_pos hleak, hleak.2]
        exact ⟨true, w, rfl, Moved.zero w⟩
      rw [if_neg hleak]
      refine hpay (w.putAccount a.contractAddress .blank) (getBalance_putBlank habs) ?_ ?_
      · intro hamount
        rw [getAccount_putAccount]
        split
        · exact Option.some_ne_none _
        · exact hsource hamount
      · rw [getAccount_putAccount, if_pos rfl]
        exact Option.some_ne_none _
    · have hexists : ¬ (!w.isAccountExists a.contractAddress) = true := by
        simp [isAccountExists, habs]
      rw [gets_bind, if_neg hexists]
      exact hpay w (fun _ => rfl) hsource habs
  · have hpayee : a.payee = a.caller.address := if_neg (by rw [hk]; decide)
    rw [hpayee]
    refine ⟨false, w, ?_, (Moved.zero w).self⟩
    unfold enterCall
    rw [if_pos (by rw [hk]; decide)]
    rfl

section CallValue

variable {m : Machine} {a : CallArgs} {v : Word} {w : World}

lemma CallSafe.fits (h : CallSafe m a v w) (hkind : a.kind = .call ∨ a.kind = .callCode)
    (hamount : a.amount = v.bigIntegerValue) : CallFits m a v w := by
  by_contra hfits
  rw [CallFits, not_or, not_lt] at hfits
  obtain ⟨hdepth, hfits⟩ := hfits
  by_cases hsmall : v.toNat < 2 ^ 255
  · -- a value of zero is not refused to a negative balance
    rw [if_pos hsmall] at hfits
    have hzero : a.amount = 0 := by rw [hamount, bigIntegerValue_of_lt hsmall]; omega
    exact h.refused (by omega) (refusal_eq_none.mpr ⟨hdepth, fun hne => absurd hzero hne⟩)
  · -- a negative amount is covered, and moves the other way
    rw [if_neg hsmall, ← hamount] at hfits
    have hnone := refusal_eq_none.mpr ⟨hdepth, fun _ => not_lt.mp (not_or.mp hfits).1⟩
    have hcovered : (v.toNat : Int) ≤ w.getBalance a.caller.address :=
      not_lt.mp fun hlt => h.refused hlt hnone
    have hother : a.payee ≠ a.caller.address := fun hself => hfits (.inr ⟨hcovered, hself⟩)
    have hexists : w.getAccount a.caller.address ≠ none := exists_of_getBalance (by omega)
    obtain ⟨early, w', hok, hmoved⟩ := h.moved hnone
    obtain ⟨_, _, hok', hmoved'⟩ := enterCall_apply m (w := w.checkpointed) (fun _ => hexists) hkind
    obtain ⟨rfl, rfl⟩ := Outcome.ok.inj (hok.symm.trans hok')
    have hbal := (hmoved a.caller.address).symm.trans (hmoved' a.caller.address)
    rw [if_neg hother.symm, if_pos rfl, if_neg hother.symm] at hbal
    have hsame : w.checkpointed.getBalance a.caller.address = w.getBalance a.caller.address := rfl
    have hneg := bigIntegerValue_neg hsmall
    omega

lemma CallFits.covered (hfits : CallFits m a v w) (hamount : a.amount = v.bigIntegerValue)
    (hnone : refusal m a.caller.address a.amount w = none) :
    (v.toNat : Int) ≤ w.getBalance a.caller.address ∧ (a.amount = v.toNat ∨ a.payee = a.caller.address) := by
  obtain ⟨hdepth, hfunds⟩ := refusal_eq_none.mp hnone
  replace hfits := hfits.resolve_left (not_lt.mpr hdepth)
  by_cases hsmall : v.toNat < 2 ^ 255
  · rw [if_pos hsmall] at hfits
    have hread : a.amount = v.toNat := hamount.trans (bigIntegerValue_of_lt hsmall)
    exact ⟨by by_cases hzero : v.toNat = 0 <;> omega, .inl hread⟩
  · rw [if_neg hsmall] at hfits
    have hneg := bigIntegerValue_neg hsmall
    obtain hlt | ⟨hle, hself⟩ := hfits
    · omega
    · exact ⟨hle, .inr hself⟩

lemma CallFits.safe (hfits : CallFits m a v w) (hkind : a.kind = .call ∨ a.kind = .callCode)
    (hamount : a.amount = v.bigIntegerValue) : CallSafe m a v w := by
  refine ⟨fun hlt hnone => absurd hlt (not_lt.mpr (hfits.covered hamount hnone).1), ?_⟩
  intro hnone
  obtain ⟨hcovered, hread⟩ := hfits.covered hamount hnone
  have hexists : a.amount ≠ 0 → w.getAccount a.caller.address ≠ none := by
    intro hne
    refine exists_of_getBalance fun hzero => hne ?_
    have hv0 : v.toNat = 0 := by omega
    rw [hamount, bigIntegerValue_of_lt (by omega), hv0]
    rfl
  obtain ⟨early, w', hok, hmoved⟩ := enterCall_apply m (w := w.checkpointed) hexists hkind
  refine ⟨early, w', hok, ?_⟩
  rcases hread with hread | hself
  · exact hread ▸ hmoved
  · rw [hself] at hmoved ⊢
    exact hmoved.self

lemma callSafe_iff (hkind : a.kind = .call ∨ a.kind = .callCode)
    (hamount : a.amount = v.bigIntegerValue) : CallSafe m a v w ↔ CallFits m a v w :=
  ⟨fun h => h.fits hkind hamount, fun h => h.safe hkind hamount⟩

end CallValue

/-! ## Creates -/

/-- A create with the value word `v` and the target `x` refuses a value that is not covered; if it
is entered, exactly the value has moved. Between the checks and the new account no balance changes.
-/
structure CreateSafe (m : Machine) (a : CreateArgs) (x : Address) (v : Word) (w : World) :
    Prop where
  refused : w.getBalance a.caller.address < v.toNat → refusal m a.caller.address a.amount w ≠ none
  moved : refusal m a.caller.address a.amount w = none →
    ∀ w1 : World, (∀ y, w1.getBalance y = w.getBalance y) →
      ∃ w', enterCreate a x w1 = .ok () w' ∧ Moved a.caller.address x v.toNat w w'

/-- THE CONDITION ON CREATES: a refusal, or a covered value word below `2^255` for a target
without balance. -/
def CreateFits (m : Machine) (a : CreateArgs) (x : Address) (v : Word) (w : World) : Prop :=
  m.cfg.callCreateDepth < w.depth ∨
  (if v.toNat < 2 ^ 255 then
    (v.toNat ≠ 0 ∧ w.getBalance a.caller.address < v.toNat) ∨
    (v.toNat ≤ w.getBalance a.caller.address ∧ w.getBalance x = 0)
   else w.getBalance a.caller.address < v.bigIntegerValue)

lemma enterCreate_apply {a : CreateArgs} {x : Address}
    (hsource : a.amount ≠ 0 → w.getAccount a.caller.address ≠ none) :
    ∃ w', enterCreate a x w = .ok () w' ∧ Moved a.caller.address x a.amount (w.putAccount x .blank) w' := by
  unfold enterCreate
  by_cases hamount : a.amount = 0
  · rw [hamount]
    exact ⟨_, rfl, Moved.zero _⟩
  rw [if_pos hamount]
  have hs : (w.putAccount x .blank).getAccount a.caller.address ≠ none := by
    rw [getAccount_putAccount]
    split
    · exact Option.some_ne_none _
    · exact hsource hamount
  have ht : (w.putAccount x .blank).getAccount x ≠ none := by
    rw [getAccount_putAccount, if_pos rfl]
    exact Option.some_ne_none _
  obtain ⟨w', hok, hmoved⟩ := transfer_apply a.amount hs ht
  exact ⟨w', hok, hmoved.balances⟩

section CreateValue

variable {m : Machine} {a : CreateArgs} {x : Address} {v : Word} {w : World}

lemma getBalance_putBlank_eq (w : World) (x y : Address) :
    (w.putAccount x .blank).getBalance y = if y = x then 0 else w.getBalance y :=
  getBalance_putAccount w x y _

lemma CreateSafe.balances (h : CreateSafe m a x v w)
    (hnone : refusal m a.caller.address a.amount w = none)
    (hsource : a.amount ≠ 0 → w.getAccount a.caller.address ≠ none) :
    ∃ w', Moved a.caller.address x v.toNat w w' ∧
      Moved a.caller.address x a.amount (w.putAccount x .blank) w' := by
  obtain ⟨w', hok, hmoved⟩ := h.moved hnone w fun _ => rfl
  obtain ⟨_, hok', hmoved'⟩ := enterCreate_apply (a := a) (x := x) (w := w) hsource
  obtain ⟨_, rfl⟩ := Outcome.ok.inj (hok.symm.trans hok')
  exact ⟨w', hmoved, hmoved'⟩

lemma CreateSafe.fits (h : CreateSafe m a x v w) (hamount : a.amount = v.bigIntegerValue) :
    CreateFits m a x v w := by
  by_contra hfits
  rw [CreateFits, not_or, not_lt] at hfits
  obtain ⟨hdepth, hfits⟩ := hfits
  by_cases hsmall : v.toNat < 2 ^ 255
  · rw [if_pos hsmall, not_or] at hfits
    have hread : a.amount = v.toNat := hamount.trans (bigIntegerValue_of_lt hsmall)
    have hnone := refusal_eq_none.mpr ⟨hdepth, fun _ : a.amount ≠ 0 =>
      show a.amount ≤ w.getBalance a.caller.address by omega⟩
    have hcovered : (v.toNat : Int) ≤ w.getBalance a.caller.address :=
      not_lt.mp fun hlt => h.refused hlt hnone
    -- what the target had is gone
    obtain ⟨w', hmoved, hmoved'⟩ := h.balances hnone fun hne => exists_of_getBalance (by omega)
    have hbal := (hmoved x).symm.trans (hmoved' x)
    simp only [getBalance_putBlank_eq, hread, if_true] at hbal
    exact hfits.2 ⟨hcovered, by omega⟩
  · -- a negative amount moves the other way
    rw [if_neg hsmall, ← hamount, not_lt] at hfits
    have hnone := refusal_eq_none.mpr ⟨hdepth, fun _ => hfits⟩
    have hcovered : (v.toNat : Int) ≤ w.getBalance a.caller.address :=
      not_lt.mp fun hlt => h.refused hlt hnone
    obtain ⟨w', hmoved, hmoved'⟩ := h.balances hnone fun hne => exists_of_getBalance (by omega)
    have hbal := (hmoved a.caller.address).symm.trans (hmoved' a.caller.address)
    rw [getBalance_putBlank_eq, if_pos rfl] at hbal
    have hneg := bigIntegerValue_neg hsmall
    split at hbal <;> omega

lemma CreateFits.covered (hfits : CreateFits m a x v w) (hamount : a.amount = v.bigIntegerValue)
    (hnone : refusal m a.caller.address a.amount w = none) :
    (v.toNat : Int) ≤ w.getBalance a.caller.address ∧ w.getBalance x = 0 ∧ a.amount = v.toNat := by
  obtain ⟨hdepth, hfunds⟩ := refusal_eq_none.mp hnone
  replace hfits := hfits.resolve_left (not_lt.mpr hdepth)
  by_cases hsmall : v.toNat < 2 ^ 255
  · rw [if_pos hsmall] at hfits
    have hread : a.amount = v.toNat := hamount.trans (bigIntegerValue_of_lt hsmall)
    obtain ⟨hne, hlt⟩ | ⟨hle, hempty⟩ := hfits
    · omega
    · exact ⟨hle, hempty, hread⟩
  · rw [if_neg hsmall] at hfits
    have hneg := bigIntegerValue_neg hsmall
    omega

lemma CreateFits.safe (hfits : CreateFits m a x v w) (hamount : a.amount = v.bigIntegerValue) :
    CreateSafe m a x v w := by
  refine ⟨fun hlt hnone => absurd hlt (not_lt.mpr (hfits.covered hamount hnone).1), ?_⟩
  intro hnone w1 hw1
  obtain ⟨hcovered, hempty, hread⟩ := hfits.covered hamount hnone
  obtain ⟨w', hok, hmoved⟩ := enterCreate_apply (a := a) (x := x) (w := w1) fun hne =>
    exists_of_getBalance (by rw [hw1]; omega)
  refine ⟨w', hok, fun y => ?_⟩
  rw [hmoved y, getBalance_putBlank_eq, hw1, hread]
  by_cases hy : y = x
  · rw [if_pos hy, hy, hempty]
  · rw [if_neg hy]

lemma createSafe_iff (hamount : a.amount = v.bigIntegerValue) :
    CreateSafe m a x v w ↔ CreateFits m a x v w :=
  ⟨fun h => h.fits hamount, fun h => h.safe hamount⟩

end CreateValue

/-! ## Whole calls and creates -/

/-- No balance has changed. -/
def SameBalances (w w' : World) : Prop := ∀ x, w'.getBalance x = w.getBalance x

instance : IsPreorder World SameBalances where
  refl _ _ := rfl
  trans _ _ _ h h' x := (h' x).trans (h x)

/-- The frame `x` moves exactly this value: if the source has less, it fails and changes nothing;
its code starts on balances from which the value has moved; and without code to run, it succeeds
with such balances or not at all. -/
structure Nested.Pays (m : Machine) (x : Nested) (source target : Address) (value : Nat) : Prop where
  refused : x.world.getBalance source < value → ∀ n, ∃ r,
    x.program (vm m (n + 1)) x.world = .ok r x.world ∧ r.hasError = true
  started : ∀ s, x.start m = some s → Moved source target value x.world s.world
  returned : x.start m = none → ∀ n r w', x.program (vm m (n + 1)) x.world = .ok r w' →
    r.isSuccess = true → Moved source target value x.world w'

/-- What the part of a frame before its code does: an error, or the value has moved. -/
def EntryPays (x : Nested) (source target : Address) (value : Nat) (e : Entry) (w1 : World) : Prop :=
  (∃ r, e = .done r ∧ r.hasError = true) ∨ Moved source target value x.world w1

section Whole

variable {m : Machine} {x : Nested} {w w1 : World}

lemma Moved.of_same {value : Int} (h : Moved source target value w w1) {w2 : World}
    (h' : SameBalances w1 w2) : Moved source target value w w2 := fun x => (h' x).trans (h x)

lemma sameBalances_update (a : Address) {g : StoredAccount → StoredAccount}
    (hg : ∀ account, (g account).balance = account.balance) :
    Keeps SameBalances (rpc (Storage.updateAccount a g)) := by
  refine ⟨fun w => wp_rpc.mpr (Storage.wp_updateAccount.mpr ⟨fun _ _ => rfl, fun account hacc x => ?_⟩)⟩
  show (w.putAccount a (g account)).getBalance x = w.getBalance x
  rw [getBalance_putAccount, hg]
  split
  · next hx => rw [hx, getBalance_eq hacc]
  · rfl

lemma sameBalances_commit : Keeps SameBalances World.commit := by
  refine ⟨fun w => wp_rpc.mpr ?_⟩
  unfold Storage.commit wp
  dsimp only
  cases w.storage.checkPoints <;> exact fun _ => rfl

lemma sameBalances_saveLog (txHash : Bytes) (logs : List Log) :
    Keeps SameBalances (World.saveLog txHash logs) := by
  refine ⟨fun w => wp_saveLog_of txHash logs w fun s htables _ _ x => ?_⟩
  have haccounts : s.accounts = w.storage.accounts := congrArg (·.accounts) htables
  unfold World.getBalance World.getAccount Storage.getAccount
  rw [haccounts]

lemma wp_end_pays (r : VmResult) :
    wpRet (endStateTransaction m r) (fun r' w' => r'.isSuccess = true → SameBalances w w') w := by
  refine wp_end_of (fun herr => .always fun _ w' hok => ?_) fun _ => ?_
  · have hstatus : (if r.status = .revert then r else { r with gas := 0 }).status = r.status := by
      split <;> rfl
    rw [VmResult.isSuccess, VmResult.hasError, hstatus, ← VmResult.hasError, herr] at hok
    cases hok
  · have hsaved : Keeps SameBalances
        (if r.eventLog.length > 0 then World.saveLog m.txHash r.eventLog else pure ()) :=
      .ite (sameBalances_saveLog _ _) (.pure _)
    refine (hsaved.wp w).returned fun _ w1 h1 => (sameBalances_commit.wp w1).returned ?_
    exact fun _ _ h2 _ => trans_of SameBalances h1 h2

lemma sameBalances_exit (x : Nested) (c : Contract) (rc : FnResult) (c' : Contract) :
    Keeps SameBalances (x.exit m c rc c') := by
  have hlog : ∀ st, Keeps SameBalances (frameLog st) := fun st => .ite (.pure _) (.gets _)
  cases x with
  | call a w => exact .bind (hlog _) fun _ => .pure _
  | create a w =>
    refine .bind (keeps_storeCode m (fun data => ?_) rc c'.gas) fun _ => .bind (hlog _) fun _ => .pure _
    exact sameBalances_update _ fun _ => rfl

/-- What holds of a frame up to its code makes it pay. -/
lemma pays_of_entry {value : Nat} (hrefused : x.world.getBalance source < value →
      ∃ r, x.entry m x.world = .ok (.done r) x.world ∧ r.hasError = true)
    (hentry : wpRet (x.entry m) (EntryPays x source target value) x.world) :
    x.Pays m source target value := by
  refine ⟨fun hless n => ?_, fun s hs => ?_, fun hnone n r w' hrun => ?_⟩
  · obtain ⟨r, he, herr⟩ := hrefused hless
    refine ⟨r, ?_, herr⟩
    show x.program (framesOver m _) x.world = _
    rw [Nested.program_eq]
    exact (bind_of_ok he).trans rfl
  · unfold Nested.start at hs
    split at hs
    · next c w1 he =>
      obtain ⟨_, h, _⟩ | hmoved := hentry.of_ok he
      · cases h
      · rw [startOn_eq hs]
        exact hmoved.of_same fun _ => rfl
    · cases hs
  · refine (?_ : wpRet (x.program (vm m (n + 1))) (fun r w' => r.isSuccess = true →
      Moved source target value x.world w') x.world).of_ok hrun
    show wp (x.program (framesOver m _)) _ _ _
    rw [Nested.program_eq]
    refine wp_framed ((hentry.and (wp.self _ _)).returned ?_)
    rintro e w1 ⟨hpays, he⟩
    have hend : ∀ {w2 : World} (r : VmResult), Moved source target value x.world w2 →
        wpRet (endStateTransaction m r)
          (fun r w' => r.isSuccess = true → Moved source target value x.world w') w2 := fun r h2 =>
      (wp_end_pays r).mono (fun _ _ h hok => h2.of_same (h hok)) fun _ _ h => h
    cases e with
    | done r =>
      obtain ⟨_, ⟨⟩, herr⟩ | hmoved := hpays
      · intro hok
        rw [VmResult.isSuccess, herr] at hok
        cases hok
      · exact fun _ => hmoved
    | ended r =>
      obtain ⟨_, h, _⟩ | hmoved := hpays
      · cases h
      · exact hend r hmoved
    | code c =>
      obtain ⟨_, h, _⟩ | hmoved := hpays
      · cases h
      have hempty : startOn c x.input x.readOnly w1 = none := by
        simpa only [Nested.start, he] using hnone
      refine GrapeDag.wp_runContract ((wp_run_world (Q := SameBalances w1) (X := fun _ => True)
        (fun _ _ => rfl) fun s hs => ?_).mono (fun r w2 h2 => ?_) fun _ _ h => h)
      · rw [hempty] at hs
        cases hs
      · exact ((sameBalances_exit x c r.1 r.2).wp w2).mono
          (fun result w3 h3 => hend result ((hmoved.of_same h2).of_same h3)) fun _ _ _ => trivial

lemma call_pays {a : CallArgs} {v : Word} (hkind : a.kind = .call ∨ a.kind = .callCode)
    (hamount : a.amount = v.bigIntegerValue) (hfits : CallFits m a v w) :
    (Nested.call a w).Pays m a.caller.address a.payee v.toNat := by
  have hsafe := hfits.safe hkind hamount
  refine pays_of_entry (fun hless => ?_) ?_
  · obtain ⟨st, hst⟩ := Option.ne_none_iff_exists'.mp (hsafe.refused hless)
    exact ⟨_, callEntry_refused hst, (refusal_status hst).1⟩
  refine wp_callEntry_of (fun st hfails => .inl ⟨_, rfl, hfails⟩) fun hnone => ?_
  obtain ⟨early, w1, hok, hmoved⟩ := hsafe.moved hnone
  -- from here on the balances stay
  exact .of_apply_eq hok (.pure ⟨.inr hmoved, .inr hmoved, fun _ _ _ => .inr hmoved,
    fun _ _ _ _ => .inr hmoved⟩)

lemma create_pays {a : CreateArgs} {v : Word} (hamount : a.amount = v.bigIntegerValue)
    (hfits : CreateFits m a (createTarget m a w) v w) :
    (Nested.create a w).Pays m a.caller.address (createTarget m a w) v.toNat := by
  have hsafe := hfits.safe hamount
  refine pays_of_entry (fun hless => ?_) ?_
  · obtain ⟨st, hst⟩ := Option.ne_none_iff_exists'.mp (hsafe.refused hless)
    exact ⟨_, createEntry_refused hst, (refusal_status hst).1⟩
  refine wp_createEntry_of (fun st _ hfails _ => .inl ⟨_, rfl, hfails⟩) fun hnone w1 h1 => ?_
  obtain ⟨w2, hok, hmoved⟩ := hsafe.moved hnone w1.checkpointed fun y => (h1.reads y).2
  exact .of_apply_eq hok (.pure (.inr hmoved))

end Whole

/-! ## The operands of the instructions -/

lemma wp_prepareCall_operands {kind : CallKind} (hkind : kind = .call ∨ kind = .callCode)
    (callStipend : Int) (f : Frame) :
    wpRet (prepareCall kind callStipend)
      (fun r _ => ∀ c, r = .ok c → c.toAddr = (f.operand 1).toAddress ∧ c.value = f.operand 2) f := by
  refine wp_prepareCall_of (fun _ => trivial) fun c rest hstack => ?_
  have hops : c.toAddr = f.operand 1 ∧ c.amount kind = f.operand 2 := by
    unfold Frame.operand
    rw [hstack]
    rcases hkind with rfl | rfl <;> exact ⟨rfl, rfl⟩
  refine .always fun args f1 => ⟨fun _ => nofun, fun _ => ?_⟩
  refine .always fun paid f2 => ?_
  cases paid with
  | false => nofun
  | true =>
    rintro _ ⟨⟩
    exact ⟨congrArg toAddress hops.1, hops.2⟩

lemma wp_prepareCreate_operand (kind : CreateKind) (f : Frame) : wpRet (prepareCreate kind)
      (fun r _ => ∀ c, r = .ok c → c.value = (f.operand 0).bigIntegerValue) f := by
  unfold prepareCreate
  rw [wpRet, wp_bind, wp_gets]
  refine .ite (fun _ => .pure fun _ h => by cases h) fun _ => ?_
  refine wp_bind.mpr (wp_pop.mpr ⟨fun _ => trivial, fun value rest h => ?_⟩)
  have hop : value = f.operand 0 := by
    unfold Frame.operand
    rw [h]
    rfl
  refine wp_skip fun _ _ => wp_skip fun offset _ => wp_skip fun _ _ => wp_skip fun size _ => ?_
  refine wp_skip fun input f6 => ?_
  rw [wpRet, wp_bind, wp_gets]
  refine wp_skip fun _ f7 => ?_
  have hsalt : ∀ input gas salt (f' : Frame), wp (pure
      (.ok ⟨value.bigIntegerValue, input, gas, salt⟩ : Except VmStatus PreparedCreate))
      (fun r _ => ∀ c, r = .ok c → c.value = (f.operand 0).bigIntegerValue)
      (fun (_ : JavaException) _ => True) f' := by
    intro input gas salt f'
    refine .pure ?_
    rintro c ⟨⟩
    rw [hop]
  cases kind with
  | create => exact hsalt _ _ _ _
  | create2 => exact wp_skip fun salt f8 => hsalt _ _ _ _

section Opened

variable {m : Machine} {f : Frame} {w : World}

/-- What the turn of a frame does with the frame `x` that it opens: it runs it from `x.world`. -/
def Frame.Runs (m : Machine) (f : Frame) (x : Nested) : Prop := ∃ f₁ finish, f₁.world = x.world ∧
    ∀ calls, runStep m calls f.opcode f = (onWorld (x.program calls) >>= finish) f₁

lemma operand_of_charged {op : Op} {f₁ : Frame} (h : charge m op f = .ok none f₁) (i : Nat) :
    f₁.operand i = f.operand i := by
  unfold Frame.operand
  rw [(((keeps_charge m op : Keeps Fetched _).wp f).of_ok h).stack]

lemma exists_charged {x : Nested} (h : f.opens m = some x) :
    ∃ op f₁, m.cfg.locateOpCode f.opcode = some op ∧ charge m op f = .ok none f₁ ∧
      openedBy m op f₁ = some x := by
  obtain ⟨⟨op, f1⟩, hcharged, hopened⟩ := Option.bind_eq_some_iff.mp h
  obtain ⟨_, hop, hpaid⟩ := charged_eq hcharged
  exact ⟨op, f1, hop, hpaid, hopened⟩

lemma runs_of_opens {x : Nested} (h : f.opens m = some x) : f.Runs m x := by
  obtain ⟨op, f1, hop, hpaid, hopened⟩ := exists_charged h
  obtain ⟨f2, finish, ho⟩ := exists_opening hopened
  exact ⟨f2, finish, ho.world.symm, fun calls => (runStep_of_paid hop hpaid).trans (ho.run calls)⟩

lemma call_operands {a : CallArgs} (h : f.opens m = some (.call a w))
    (hkind : a.kind = .call ∨ a.kind = .callCode) :
    a.caller = f.contract.toRef ∧ a.contractAddress = (f.operand 1).toAddress ∧
      a.amount = (f.operand 2).bigIntegerValue ∧ w.storage = f.world.storage := by
  obtain ⟨op, f1, -, hpaid, hopened⟩ := exists_charged h
  rcases openedBy_eq_some hopened with ⟨kind, c, f2, rfl, hprep, hx⟩ | ⟨_, _, _, _, _, hx⟩
  · cases hx
    obtain ⟨haddr, hvalue⟩ := (wp_prepareCall_operands hkind m.callStipend f1).of_ok hprep c rfl
    have hquiet : Quiet f f2 := (((still_charge m _).wp f).of_ok hpaid).trans
      ((wp_prepareCall kind m.callStipend f1).of_ok hprep).1
    rw [operand_of_charged hpaid] at haddr hvalue
    exact ⟨hquiet.contract.toRef, haddr, congrArg bigIntegerValue hvalue, hquiet.world.storage⟩
  · cases hx

lemma create_operands {a : CreateArgs} (h : f.opens m = some (.create a w)) :
    a.caller = f.contract.toRef ∧ a.amount = (f.operand 0).bigIntegerValue ∧
      w.storage = f.world.storage := by
  obtain ⟨op, f1, -, hpaid, hopened⟩ := exists_charged h
  rcases openedBy_eq_some hopened with ⟨_, _, _, _, _, hx⟩ | ⟨kind, c, f2, rfl, hprep, hx⟩
  · cases hx
  · cases hx
    have hvalue := (wp_prepareCreate_operand kind f1).of_ok hprep c rfl
    have hquiet : Quiet f f2 := (((still_charge m _).wp f).of_ok hpaid).trans
      ((wp_prepareCreate kind f1).of_ok hprep).1
    rw [operand_of_charged hpaid] at hvalue
    exact ⟨hquiet.contract.toRef, hvalue, hquiet.world.storage⟩

end Opened

/-! ## Runs -/

/-- Sound transfers, and `x` pays nobody: the amounts are not negative, those of `x` are zero, a
create does not land on a balance of `x`, and what `SELFDESTRUCT` hands out is not negative. -/
def transferGuard (m : Machine) (x : Address) : Guard where
  instruction f := f.currentOp m ≠ some .selfDestruct ∨ 0 ≤ f.world.getBalance f.contract.self
  call a _ := 0 ≤ a.amount ∧ (a.caller.address = x → a.amount = 0)
  create a w := 0 ≤ a.amount ∧ (a.caller.address = x → a.amount = 0) ∧
    (createTarget m a w = x → w.getBalance x ≤ 0)

lemma Paying.sound {m : Machine} {x : Address}
    (h : Paying m (transferGuard m x) source target value w) : 0 ≤ value ∧ (source = x → value = 0) := by
  cases h with
  | call a w0 hg hsource hvalue =>
    have hg := of_decide_eq_true hg
    exact hsource ▸ hvalue ▸ hg
  | create a w0 hg hsource htarget hvalue =>
    have hg := of_decide_eq_true hg
    exact hsource ▸ hvalue ▸ ⟨hg.1, hg.2.1⟩

/-- The balance in a table of accounts. -/
def balanceIn (accounts : Address → Option StoredAccount) (a : Address) : Int :=
  match accounts a with
  | none => 0
  | some account => account.balance

/-- IN A RUN OF SOUND TRANSFERS ONLY THE CALLER OF A FRAME LOSES BALANCE. -/
theorem solvent_stable (m : Machine) (x : Address) (b : Int) :
    StableAccounts m (transferGuard m x) (fun _ => True) (fun acc => b ≤ balanceIn acc x) := by
  have hput : ∀ {w : World} {y : Address} {account account' : StoredAccount},
      w.getAccount y = some account → account.balance ≤ account'.balance →
      b ≤ w.getBalance x → b ≤ (w.putAccount y account').getBalance x := by
    intro w y account account' hacc hle hb
    rw [getBalance_putAccount]
    by_cases hx : x = y
    · rw [if_pos hx]
      rw [hx, getBalance_eq hacc] at hb
      exact le_trans hb hle
    · rw [if_neg hx]
      exact hb
  refine ⟨fun _ => trivial, ?_, ?_, ?_, ?_, ?_, ?_⟩
  · intro chain f w beneficiary account _ hg hop hs hacc hb
    have hself : 0 ≤ w.getBalance f.contract.self := by
      have hpos := (of_decide_eq_true hg).resolve_left fun hne => hne hop
      unfold World.getBalance getAccount at hpos ⊢
      rw [hs.storage]
      exact hpos
    exact hput hacc (by show account.balance ≤ account.balance + _; omega) hb
  · intro w a habs hb
    show b ≤ World.getBalance _ x
    rw [getBalance_putBlank habs]
    exact hb
  · intro source target value w w' hpay hmoved hb
    have hb : b ≤ w.getBalance x := hb
    obtain ⟨hvalue, hsource⟩ := hpay.sound
    show b ≤ w'.getBalance x
    rw [hmoved.balances x]
    by_cases hx : x = source
    · rw [hsource hx.symm]
      split <;> split <;> omega
    · rw [if_neg hx]
      split <;> omega
  · exact fun _ _ _ hacc _ hb => hput hacc (le_refl _) hb
  · intro chain a w0 w _ hfresh hb
    have hb : b ≤ w.getBalance x := hb
    show b ≤ World.getBalance _ x
    rw [getBalance_putAccount]
    by_cases hx : x = createTarget m a w0
    · have hempty := (of_decide_eq_true hfresh.guard).2.2 hx.symm
      rw [if_pos hx]
      rw [hfresh.balance] at hb
      exact le_trans hb hempty
    · rw [if_neg hx]
      exact hb
  · exact fun _ _ _ _ _ hacc hb => hput hacc (le_refl _) hb

/-- **VALUE TRANSFERS ARE SAFE** exactly where the value word fits: the instructions run the calls
and creates of their operands, these move the value word or refuse it if and only if it fits, and
in a run of sound transfers nobody loses balance who pays nothing. -/
theorem value_transfers_safe (m : Machine) :
    (∀ (f : Frame) (a : CallArgs) (w : World), f.opens m = some (.call a w) →
      a.kind = .call ∨ a.kind = .callCode →
      f.Runs m (.call a w) ∧ a.caller = f.contract.toRef ∧ a.contractAddress = (f.operand 1).toAddress ∧
      a.amount = (f.operand 2).bigIntegerValue ∧ w.storage = f.world.storage) ∧
    (∀ (f : Frame) (a : CreateArgs) (w : World), f.opens m = some (.create a w) →
      f.Runs m (.create a w) ∧ a.caller = f.contract.toRef ∧
      a.amount = (f.operand 0).bigIntegerValue ∧ w.storage = f.world.storage) ∧
    (∀ (a : CallArgs) (v : Word) (w : World), a.kind = .call ∨ a.kind = .callCode →
      a.amount = v.bigIntegerValue → (CallSafe m a v w ↔ CallFits m a v w) ∧
      (CallFits m a v w → (Nested.call a w).Pays m a.caller.address a.payee v.toNat)) ∧
    (∀ (a : CreateArgs) (v : Word) (w : World), a.amount = v.bigIntegerValue →
      (CreateSafe m a (createTarget m a w) v w ↔ CreateFits m a (createTarget m a w) v w) ∧
      (CreateFits m a (createTarget m a w) v w →
        (Nested.create a w).Pays m a.caller.address (createTarget m a w) v.toNat)) ∧
    (∀ (x : Address) (n : Nat) (a : CallArgs) (w w' : World),
      (w.readOnly = true → a.kind = .call → a.amount = 0) →
      CallMeets m (transferGuard m x) n a w →
      ((vm m n).executeCall a w).state? = some w' → w.getBalance x ≤ w'.getBalance x) ∧
    (∀ (x : Address) (n : Nat) (a : CreateArgs) (w w' : World), w.readOnly = false →
      CreateMeets m (transferGuard m x) n a w →
      ((vm m n).create a w).state? = some w' → w.getBalance x ≤ w'.getBalance x) := by
  refine ⟨fun f a w h hkind => ⟨runs_of_opens h, call_operands h hkind⟩,
    fun f a w h => ⟨runs_of_opens h, create_operands h⟩,
    fun a v w hkind hamount => ⟨callSafe_iff hkind hamount, call_pays hkind hamount⟩,
    fun a v w hamount => ⟨createSafe_iff hamount, create_pays hamount⟩, ?_, ?_⟩
  all_goals
    intro x n a w w' hlegal hmeets hrun
    exact (hmeets.hist hlegal hrun).keeps (solvent_stable m x _).stable trivial (le_refl _)

/-- Call address 600 with this value: `PUSH1 0` four times, `PUSH32 value`, `PUSH2 600`, `PUSH2
10000`, `CALL`, `STOP`. -/
def payCode (value : Word) : Bytes :=
  [0x60, 0, 0x60, 0, 0x60, 0, 0x60, 0, 0x7f] ++ value.bytes ++ [0x61, 0x02, 0x58, 0x61, 0x27, 0x10, 0xf1, 0]

/-- The contract 500 pays the account 600. -/
def World.samplePaying (value : Word) : World :=
  .start (.holding [(1, .holding 100 []), (500, .holding 50 (payCode value)), (600, .holding 7 [])])

/-- A `CALL` with the value `2^256 - 5`, which nobody owns, is not refused: it TAKES 5 from the
account it calls. -/
theorem call_takes_from_target : (World.samplePaying (-5)).getBalance 600 = 7 ∧
    ∃ r w', (vm .sample 10).executeCall (.sample 100000 0) (.samplePaying (-5)) = .ok r w' ∧
      r.status = .success ∧ w'.getBalance 500 = 55 ∧ w'.getBalance 600 = 2 := by
  decide +kernel

/-- With the value 5 the target is paid, and the sender, who calls with no value, loses nothing. -/
theorem call_pays_target :
    (Nested.call ⟨.call, .account 500 0, 600, [], 10000, 5⟩ (.samplePaying 5)).Pays .sample 500 600 5 ∧
    ∃ r w', (vm .sample 10).executeCall (.sample 100000 0) (.samplePaying 5) = .ok r w' ∧
      (World.samplePaying 5).getBalance 1 ≤ w'.getBalance 1 := by
  have hfits : CallFits .sample ⟨.call, .account 500 0, 600, [], 10000, 5⟩ 5 (.samplePaying 5) :=
    .inr (.inl (by decide))
  obtain ⟨hmeets, r, w', hrun, -⟩ :=
    ((vmGuarded_below .sample (transferGuard .sample 1) 10).executeCall (.sample 100000 0)).returns
      (s := .samplePaying 5) (P := fun _ _ => True) (by decide +kernel)
  obtain ⟨_, _, hcalls, _, hruns, _⟩ := value_transfers_safe .sample
  exact ⟨(hcalls _ 5 _ (.inl rfl) rfl).2 hfits, r, w', hrun,
    hruns 1 10 _ _ w' (fun _ _ => rfl) hmeets (by rw [hrun]; rfl)⟩

end GrapeDag
