/-
THE CAPTURED DIFFS OF THE STORE.

While a pin is formed the leader captures what its contracts change: `putAccount` and `putValue`
record what they write, `revert` records what it restores. `revert` drops the diff of a slot
that becomes zero, as if zero were always the value at the start of the capture.

Main result: `diffs_complete_iff`.
-/
import GrapeDag.State.Operations
import GrapeDag.Lib.Fold

namespace GrapeDag

open Imperative Journalled Folding Storage Modification Outcome List FinMap

/-! ## Diffs -/

/-- `Diff`: an account, or a slot. -/
inductive Diff where
  | account (address : Address) (account : StoredAccount)
  | mapping (address : Address) (key : Word) (value : Bytes)
  deriving Repr, DecidableEq

namespace Storage

def captureStateStoreDiffs : Go Storage Unit := fun s =>
  if s.collectDiffs then .err .panic s else .ok () { s with collectDiffs := true }

/-- `Diffs.toDiffSlice`, for one order of walking the maps. -/
def toDiffSlice (s : Storage) : List Diff :=
  s.accountDiffs.entries.map (fun e => .account e.1 e.2) ++
    s.mappingDiffs.entries.map (fun e => .mapping e.1.1 e.1.2 e.2)

def getStateStoreDiffs : Go Storage (List Diff) := fun s =>
  if s.collectDiffs then .ok s.toDiffSlice s else .err .panic s

def resetCaptureStateStoreDiffs (s : Storage) : Storage :=
  { s with collectDiffs := false, accountDiffs := ∅, mappingDiffs := ∅ }

/-- No diffs are being collected. -/
structure Idle (s : Storage) : Prop where
  collect : s.collectDiffs = false
  accounts : s.accountDiffs = ∅
  mappings : s.mappingDiffs = ∅

lemma idle_new : Idle .new := ⟨rfl, rfl, rfl⟩

lemma idle_reset (s : Storage) : Idle s.resetCaptureStateStoreDiffs := ⟨rfl, rfl, rfl⟩

end Storage

def Diff.apply (o : Observed) : Diff → Observed
  | .account address acc => o.putAccount address acc
  | .mapping address key value =>
      { o with slot := fun x y => if x = address ∧ y = key then value else o.slot x y }

/-- The diffs are complete: applied to `s0`, in any order, they give `s`. -/
def DiffsComplete (s0 s : Storage) : Prop := ∃ got, Storage.getStateStoreDiffs s = .ok got s ∧
    ∀ diffs : List Diff, diffs.Perm got → diffs.foldl Diff.apply s0.observed = s.observed

/-! ## Applying diffs -/

def Diff.account? (a : Address) : Diff → Option (Option StoredAccount)
  | .account address acc => if a = address then some (some acc) else none
  | .mapping _ _ _ => none

def Diff.slot? (a : Address) (k : Word) : Diff → Option Bytes
  | .account _ _ => none
  | .mapping address key value => if a = address ∧ k = key then some value else none

variable {a : Address}

lemma Diff.account?_eq_some {d : Diff} {v : Option StoredAccount} :
    d.account? a = some v ↔ ∃ acc, d = .account a acc ∧ v = some acc := by
  cases d with
  | mapping address key value => simp [account?]
  | account address acc =>
    by_cases h : a = address <;> simp [account?, h, eq_comm]

lemma Diff.slot?_eq_some {k : Word} {d : Diff} {v : Bytes} :
    d.slot? a k = some v ↔ d = .mapping a k v := by
  cases d with
  | account address acc => simp [slot?]
  | mapping address key value =>
    by_cases h : a = address ∧ k = key
    · simp [slot?, h]
    · simpa [slot?, h] using fun ha hk => absurd ⟨ha.symm, hk.symm⟩ h

lemma account_applyAll (diffs : List Diff) (o : Observed) (a : Address) :
    (diffs.foldl Diff.apply o).account a = (lastWrite (Diff.account? a) diffs).getD (o.account a) := by
  refine foldl_writes (fun o => o.account a) (fun o d => ?_) diffs o
  cases d with
  | mapping address key value => rfl
  | account address acc =>
    by_cases h : a = address <;> simp [Diff.apply, Diff.account?, Observed.putAccount, h]

lemma slot_applyAll (diffs : List Diff) (o : Observed) (a : Address) (k : Word) :
    (diffs.foldl Diff.apply o).slot a k = (lastWrite (Diff.slot? a k) diffs).getD (o.slot a k) := by
  refine foldl_writes (fun o => o.slot a k) (fun o d => ?_) diffs o
  cases d with
  | account address acc => rfl
  | mapping address key value =>
    by_cases h : a = address ∧ k = key <;> simp [Diff.apply, Diff.slot?, h]

variable {s : Storage}

namespace Storage

lemma mem_toDiffSlice_account {account : StoredAccount} :
    Diff.account a account ∈ s.toDiffSlice ↔ s.accountDiffs.lookup a = some account := by
  have hlookup := AList.mem_lookup_iff (a := a) (b := account) (s := s.accountDiffs)
  rw [Option.mem_def] at hlookup
  simp [toDiffSlice, hlookup]

lemma mem_toDiffSlice_mapping {k : Word} {value : Bytes} :
    Diff.mapping a k value ∈ s.toDiffSlice ↔ s.mappingDiffs.lookup (a, k) = some value := by
  have hlookup := AList.mem_lookup_iff (a := (a, k)) (b := value) (s := s.mappingDiffs)
  rw [Option.mem_def] at hlookup
  simp [toDiffSlice, hlookup]

lemma lastWrite_account {diffs : List Diff} (h : diffs.Perm s.toDiffSlice) (a : Address) :
    lastWrite (Diff.account? a) diffs = (s.accountDiffs.lookup a).map some := by
  refine lastWrite_eq (fun d hd v hv => ?_) fun v hv => ?_
  · obtain ⟨acc, rfl, rfl⟩ := Diff.account?_eq_some.mp hv
    rw [mem_toDiffSlice_account.mp (h.mem_iff.mp hd)]
    rfl
  · obtain ⟨acc, hacc, rfl⟩ := Option.map_eq_some_iff.mp hv
    exact ⟨_, h.mem_iff.mpr (mem_toDiffSlice_account.mpr hacc), if_pos rfl⟩

lemma lastWrite_slot {diffs : List Diff} (h : diffs.Perm s.toDiffSlice) (a : Address) (k : Word) :
    lastWrite (Diff.slot? a k) diffs = s.mappingDiffs.lookup (a, k) := by
  refine lastWrite_eq (fun d hd v hv => ?_) fun v hv => ?_
  · rw [Diff.slot?_eq_some.mp hv] at hd
    exact mem_toDiffSlice_mapping.mp (h.mem_iff.mp hd)
  · exact ⟨_, h.mem_iff.mpr (mem_toDiffSlice_mapping.mpr hv), if_pos ⟨rfl, rfl⟩⟩

end Storage

/-- The account diffs tell what became of `s0`. -/
def AccountsComplete (s0 s : Storage) : Prop :=
  ∀ a, s.getAccount a = ((s.accountDiffs.lookup a).map some).getD (s0.getAccount a)

/-- The diffs tell what became of `s0`. -/
structure Complete (s0 s : Storage) : Prop where
  accounts : ∀ a, s.getAccount a = ((s.accountDiffs.lookup a).map some).getD (s0.getAccount a)
  slots : ∀ a k, Storage.rawValue s.mappings a k
    = (s.mappingDiffs.lookup (a, k)).getD (Storage.rawValue s0.mappings a k)

variable {s0 : Storage}

lemma diffsComplete_iff (hcollect : s.collectDiffs = true) :
    DiffsComplete s0 s ↔ Complete s0 s := by
  have hget : getStateStoreDiffs s = .ok s.toDiffSlice s := if_pos hcollect
  constructor
  · rintro ⟨got, hok, happly⟩
    obtain ⟨rfl, _⟩ := ok.inj (hget.symm.trans hok)
    have hall := happly s.toDiffSlice (List.Perm.refl _)
    refine ⟨fun a => ?_, fun a k => ?_⟩
    · have hread := congrFun (congrArg Observed.account hall) a
      rw [account_applyAll, lastWrite_account (List.Perm.refl _)] at hread
      exact hread.symm
    · have hread := congrFun (congrFun (congrArg Observed.slot hall) a) k
      rw [slot_applyAll, lastWrite_slot (List.Perm.refl _)] at hread
      exact hread.symm
  · intro h
    refine ⟨s.toDiffSlice, hget, fun diffs hperm => ?_⟩
    refine Observed.ext (funext fun a => ?_) (funext fun a => funext fun k => ?_)
    · rw [account_applyAll, lastWrite_account hperm]
      exact (h.accounts a).symm
    · rw [slot_applyAll, lastWrite_slot hperm]
      exact (h.slots a k).symm

/-! ## What a revert restores -/

/-- The account state an entry of the undo log restores at `a`. -/
def Modification.account? (a : Address) : Modification → Option (Option StoredAccount)
  | .mapping _ _ _ => none
  | .account address accountState => if a = address then some accountState else none

/-- The value an entry of the undo log restores to the slot `k` of `a`. -/
def Modification.slot? (a : Address) (k : Word) : Modification → Option Bytes
  | .mapping address key value => if a = address ∧ k = key then some value else none
  | .account _ _ => none

namespace Storage

def undone (s : Storage) : List Modification :=
  match s.checkPoints with
  | [] => []
  | c :: _ => s.modifications.take (s.modifications.length - c)

section

variable (ms : List Modification) (s : Storage)

lemma collectDiffs_foldl_revertOne : (ms.foldl revertOne s).collectDiffs = s.collectDiffs := by
  refine foldlRecOn (motive := fun t : Storage => t.collectDiffs = s.collectDiffs) _ _ rfl fun t h m _ => ?_
  cases m with
  | mapping address key value => exact h
  | account address accountState => cases accountState <;> exact h

lemma getAccount_foldl_revertOne (a : Address) :
    (ms.foldl revertOne s).getAccount a = (lastWrite (account? a) ms).getD (s.getAccount a) := by
  refine foldl_writes (fun s => s.getAccount a) (fun s m => ?_) ms s
  cases m with
  | mapping address key value => rfl
  | account address accountState =>
    cases accountState <;>
      simp only [revertOne, getAccount, lookup_erase_eq_ite, lookup_insert_eq_ite] <;>
      by_cases h : a = address <;> simp [account?, h]

lemma accountDiffs_foldl_revertOne (hcollect : s.collectDiffs = true) (a : Address) :
    (ms.foldl revertOne s).accountDiffs.lookup a
      = (lastWrite (account? a) ms).getD (s.accountDiffs.lookup a) := by
  refine (foldl_last_write (fun s => s.collectDiffs = true)
    (fun s => s.accountDiffs.lookup a) ?_ ?_ ms s hcollect).2
  · intro s m hs
    exact (collectDiffs_foldl_revertOne [m] s).trans hs
  intro s m hs
  cases m with
  | mapping address key value => rfl
  | account address accountState =>
    cases accountState <;>
      simp only [revertOne, hs, if_true, lookup_erase_eq_ite, lookup_insert_eq_ite] <;>
      by_cases h : a = address <;> simp [account?, h]

lemma rawValue_foldl_revertOne (a : Address) (k : Word) :
    rawValue (ms.foldl revertOne s).mappings a k
      = (lastWrite (slot? a k) ms).getD (rawValue s.mappings a k) := by
  refine foldl_writes (fun s => rawValue s.mappings a k) (fun s m => ?_) ms s
  cases m with
  | account address accountState => cases accountState <;> rfl
  | mapping address key value =>
    show rawValue (setMapping s.mappings address key value) a k = _
    rw [rawValue_setMapping]
    by_cases h : a = address ∧ k = key <;> simp [slot?, h]

lemma mappingDiffs_foldl_revertOne (hcollect : s.collectDiffs = true) (a : Address) (k : Word) :
    (ms.foldl revertOne s).mappingDiffs.lookup (a, k) = ((lastWrite (slot? a k) ms).map
          fun v => if emptyArray = v then none else some v).getD (s.mappingDiffs.lookup (a, k)) := by
  rw [← lastWrite_map]
  refine (foldl_last_write (fun s => s.collectDiffs = true)
    (fun s => s.mappingDiffs.lookup (a, k)) ?_ ?_ ms s hcollect).2
  · intro s m hs
    exact (collectDiffs_foldl_revertOne [m] s).trans hs
  intro s m hs
  cases m with
  | account address accountState => cases accountState <;> rfl
  | mapping address key value =>
    have hkey : (a, k) = (address, key) ↔ a = address ∧ k = key := Prod.mk_inj
    simp only [revertOne, hs, if_true]
    by_cases hempty : emptyArray = value
    · rw [if_pos hempty, lookup_erase_eq_ite]
      by_cases h : a = address ∧ k = key
      · simp [slot?, h, hempty]
      · simp [slot?, hkey, h]
    · rw [if_neg hempty, lookup_insert_eq_ite]
      by_cases h : a = address ∧ k = key
      · simp [slot?, h, hempty]
      · simp [slot?, hkey, h]

end

end Storage

/-! ## Within a capture -/

/-- The store during a capture that began at `s0`, with `depth` checkpoints opened since: what
it has journalled since then stands above what was there before. -/
structure Captured (s0 : Storage) (depth : Nat) (s : Storage) : Prop where
  collect : s.collectDiffs = true
  present : ∀ a, s.getAccount a = none → s0.getAccount a = none
  created : ∃ new, s.modifications = new ++ s0.modifications ∧
    ∀ a, .account a none ∈ new → s0.getAccount a = none
  marks : ∃ opened, s.checkPoints = opened ++ s0.checkPoints ∧ opened.length = depth ∧
    opened.Pairwise (· ≥ ·) ∧
    ∀ c ∈ opened, s0.modifications.length ≤ c ∧ c ≤ s.modifications.length

section

variable {s0 s s' : Storage} {depth : Nat}

lemma captured_start (h : s0.Idle) (hcapture : captureStateStoreDiffs s0 = .ok () s) :
    Captured s0 0 s ∧ Complete s0 s := by
  have hs : s = { s0 with collectDiffs := true } := by
    simp only [captureStateStoreDiffs, h.collect, Bool.false_eq_true, if_false,
      ok.injEq, true_and] at hcapture
    exact hcapture.symm
  subst hs
  refine ⟨⟨rfl, fun _ h => h, ⟨[], rfl, by simp⟩, ⟨[], rfl, rfl, List.Pairwise.nil, by simp⟩⟩,
    ⟨fun a => ?_, fun a k => ?_⟩⟩
  · show s0.getAccount a = ((s0.accountDiffs.lookup a).map some).getD _
    rw [h.accounts]
    rfl
  · show _ = (s0.mappingDiffs.lookup (a, k)).getD _
    rw [h.mappings]
    rfl

lemma Captured.write (h : Captured s0 depth s) {m : Modification}
    (hcollect : s'.collectDiffs = s.collectDiffs)
    (hmods : s'.modifications = m :: s.modifications) (hmarks : s'.checkPoints = s.checkPoints)
    (hpresent : ∀ a, s'.getAccount a = none → s.getAccount a = none)
    (hm : ∀ a, m = .account a none → s.getAccount a = none) : Captured s0 depth s' := by
  obtain ⟨new, hnew, hcreated⟩ := h.created
  obtain ⟨opened, hopened, hlen, hsorted, hbounds⟩ := h.marks
  refine ⟨hcollect.trans h.collect, fun a ha => h.present a (hpresent a ha),
    ⟨m :: new, by rw [hmods, hnew]; rfl, fun a ha => ?_⟩,
    ⟨opened, hmarks.trans hopened, hlen, hsorted, fun c hc => ?_⟩⟩
  · rcases mem_cons.mp ha with heq | ha
    · exact h.present a (hm a heq.symm)
    · exact hcreated a ha
  · have hle := hbounds c hc
    rw [hmods, length_cons]
    omega

lemma captured_putAccount (h : Captured s0 depth s) (x : Address) (account : StoredAccount) :
    Captured s0 depth (s.putAccount x account) := by
  refine h.write rfl rfl rfl (fun a ha => ?_) (fun a ha => ?_)
  · rw [getAccount_putAccount] at ha
    by_cases hax : a = x
    · simp [hax] at ha
    · simpa [hax] using ha
  · injection ha with haddr hstate
    rw [← haddr]
    exact hstate

lemma accounts_putAccount (hcollect : s.collectDiffs = true) (h : AccountsComplete s0 s)
    (x : Address) (account : StoredAccount) : AccountsComplete s0 (s.putAccount x account) := by
  intro a
  rw [getAccount_putAccount]
  show _ = (((if s.collectDiffs then s.accountDiffs.insert x account
    else s.accountDiffs).lookup a).map some).getD _
  rw [if_pos hcollect, lookup_insert_eq_ite]
  by_cases hax : a = x
  · simp [hax]
  · rw [if_neg hax, if_neg hax]
    exact h a

lemma complete_putAccount (hcollect : s.collectDiffs = true) (h : Complete s0 s) (x : Address)
    (account : StoredAccount) : Complete s0 (s.putAccount x account) := by
  refine ⟨accounts_putAccount hcollect h.accounts x account, fun a k => ?_⟩
  rw [rawValue_putAccount]
  exact h.slots a k

lemma captured_putSlot (h : Captured s0 depth s) (x : Address) (k : Word) (v : Bytes) :
    Captured s0 depth { s with
      modifications := .mapping x k (rawValue s.mappings x k) :: s.modifications
      mappings := setMapping s.mappings x k v
      mappingDiffs := if s.collectDiffs then s.mappingDiffs.insert (x, k) v else s.mappingDiffs } :=
  h.write rfl rfl rfl (fun _ ha => ha) nofun

lemma complete_putSlot (hcollect : s.collectDiffs = true) (h : Complete s0 s) (x : Address)
    (k : Word) (v : Bytes) :
    Complete s0 { s with
      modifications := .mapping x k (rawValue s.mappings x k) :: s.modifications
      mappings := setMapping s.mappings x k v
      mappingDiffs := if s.collectDiffs then s.mappingDiffs.insert (x, k) v else s.mappingDiffs } := by
  refine ⟨fun a => h.accounts a, fun a k' => ?_⟩
  have hkey : (a, k') = (x, k) ↔ a = x ∧ k' = k := Prod.mk_inj
  show rawValue (setMapping _ _ _ _) a k' = ((if s.collectDiffs then
    s.mappingDiffs.insert (x, k) v else s.mappingDiffs).lookup (a, k')).getD _
  rw [rawValue_setMapping, if_pos hcollect, lookup_insert_eq_ite]
  by_cases hax : a = x ∧ k' = k
  · simp [hax]
  · rw [if_neg hax, if_neg (fun heq => hax (hkey.mp heq))]
    exact h.slots a k'

lemma captured_putValue (h : Captured s0 depth s) (x : Address) (k : Word) (v : Bytes) :
    Captured s0 depth (s.putValue x k v) := by
  unfold putValue
  split
  · exact captured_putSlot h x k v
  · exact captured_putSlot (captured_putAccount h x .blank) x k v

lemma complete_putValue (h : Captured s0 depth s) (hcomplete : Complete s0 s) (x : Address)
    (k : Word) (v : Bytes) : Complete s0 (s.putValue x k v) := by
  unfold putValue
  split
  · exact complete_putSlot h.collect hcomplete x k v
  · have hblank := captured_putAccount h x .blank
    exact complete_putSlot hblank.collect (complete_putAccount h.collect hcomplete x .blank) x k v

lemma captured_checkpoint (h : Captured s0 depth s) : Captured s0 (depth + 1) s.checkpoint := by
  obtain ⟨new, hnew, _⟩ := h.created
  obtain ⟨opened, hopened, hlen, hsorted, hbounds⟩ := h.marks
  refine ⟨h.collect, h.present, h.created,
    ⟨s.modifications.length :: opened, ?_, by simp [hlen], ?_, fun c hc => ?_⟩⟩
  · show s.modifications.length :: s.checkPoints = _
    rw [hopened]
    rfl
  · exact pairwise_cons.mpr ⟨fun c hc => (hbounds c hc).2, hsorted⟩
  · rcases mem_cons.mp hc with rfl | hc
    · refine ⟨?_, le_refl _⟩
      rw [hnew, length_append]
      omega
    · exact hbounds c hc

lemma captured_commit (h : Captured s0 (depth + 1) s) :
    ∃ s', commit s = .ok () s' ∧ Captured s0 depth s' ∧
      (AccountsComplete s0 s → AccountsComplete s0 s') ∧ (Complete s0 s → Complete s0 s') := by
  obtain ⟨opened, hopened, hlen, hsorted, hbounds⟩ := h.marks
  cases opened with
  | nil => simp at hlen
  | cons c rest =>
    refine ⟨{ s with checkPoints := rest ++ s0.checkPoints }, commit_ok hopened, ?_, fun h => h,
      fun hc => ⟨hc.accounts, hc.slots⟩⟩
    refine ⟨h.collect, h.present, h.created, ⟨rest, rfl, by simpa using hlen, ?_, fun d hd => ?_⟩⟩
    · exact (pairwise_cons.mp hsorted).2
    · exact hbounds d (mem_cons_of_mem c hd)

end

/-- The revert restores no slot to zero that was not zero when the capture began. -/
def RevertSafe (s0 s : Storage) : Prop :=
  ∀ a k, lastWrite (Modification.slot? a k) s.undone = some emptyArray →
    Storage.rawValue s0.mappings a k = emptyArray

section

variable {s0 s s' : Storage} {depth : Nat}

lemma Captured.undone_subset (h : Captured s0 (depth + 1) s) {c : Nat} {rest : List Nat}
    (hmarks : s.checkPoints = c :: rest) (hc : s0.modifications.length ≤ c) :
    ∃ keep, s.modifications.drop (s.modifications.length - c) = keep ++ s0.modifications ∧
      (∀ a, .account a none ∈ keep → s0.getAccount a = none) ∧
      ∀ a, .account a none ∈ s.undone → s0.getAccount a = none := by
  obtain ⟨new, hnew, hcreated⟩ := h.created
  have hcount : s.modifications.length - c ≤ new.length := by
    rw [hnew, length_append]
    omega
  refine ⟨new.drop (s.modifications.length - c), ?_, fun a ha => ?_, fun a ha => ?_⟩
  · conv => lhs; rw [hnew]
    rw [drop_append_of_le_length (by rw [← hnew]; exact hcount), ← hnew]
  · exact hcreated a (mem_of_mem_drop ha)
  unfold undone at ha
  rw [hmarks] at ha
  simp only at ha
  rw [show s.modifications.take (s.modifications.length - c) = new.take (s.modifications.length - c) by
    conv => lhs; rw [hnew]
    rw [take_append_of_le_length (by rw [← hnew]; exact hcount), ← hnew]] at ha
  exact hcreated a (mem_of_mem_take ha)

lemma Captured.removed (h : Captured s0 (depth + 1) s) (a : Address)
    (hlast : lastWrite (account? a) s.undone = some none) :
    s0.getAccount a = none := by
  obtain ⟨opened, hopened, hlen, -, hbounds⟩ := h.marks
  cases opened with
  | nil => simp at hlen
  | cons c rest =>
    obtain ⟨hc, hle⟩ := hbounds c mem_cons_self
    obtain ⟨-, -, -, hundone⟩ := h.undone_subset hopened hc
    obtain ⟨m, hmem, hm⟩ := exists_of_lastWrite hlast
    cases m with
    | mapping address key value => cases hm
    | account address state =>
      by_cases haddr : a = address
      · simp only [account?, haddr, if_true, Option.some.injEq] at hm
        rw [hm, ← haddr] at hmem
        exact hundone a hmem
      · simp [account?, haddr] at hm

/-- The accounts' part of the diffs survives every revert: an account is restored together with
its diff. -/
theorem Captured.accounts_undone (h : Captured s0 (depth + 1) s)
    (haccounts : AccountsComplete s0 s) :
    AccountsComplete s0 (s.undone.foldl revertOne s) := by
  intro a
  rw [getAccount_foldl_revertOne, accountDiffs_foldl_revertOne _ _ h.collect]
  cases hlast : lastWrite (account? a) s.undone with
  | none => exact haccounts a
  | some state =>
    cases state with
    | none => exact (h.removed a hlast).symm
    | some account => rfl

lemma captured_revert (h : Captured s0 (depth + 1) s) :
    ∃ s', revert s = .ok () s' ∧ Captured s0 depth s' ∧
      (AccountsComplete s0 s → AccountsComplete s0 s') ∧
      (Complete s0 s → (Complete s0 s' ↔ RevertSafe s0 s)) := by
  obtain ⟨opened, hopened, hlen, hsorted, hbounds⟩ := h.marks
  cases opened with
  | nil => simp at hlen
  | cons c rest =>
  obtain ⟨hc, hle⟩ := hbounds c mem_cons_self
  obtain ⟨hhead, htail⟩ := pairwise_cons.mp hsorted
  obtain ⟨keep, hkeep, hkept, -⟩ := h.undone_subset hopened hc
  let s' : Storage := { s.undone.foldl revertOne s with
      modifications := s.modifications.drop (s.modifications.length - c)
      checkPoints := rest ++ s0.checkPoints }
  have hrun : revert s = .ok () s' := by
    unfold revert
    simp only [hopened, cons_append, hle, if_true]
    simp only [s', undone, hopened, cons_append]
  have hlength : s'.modifications.length = c := by
    show (s.modifications.drop _).length = c
    rw [length_drop]
    omega
  have haccount : ∀ a, s'.getAccount a = (lastWrite (account? a) s.undone).getD (s.getAccount a) :=
    getAccount_foldl_revertOne s.undone s
  refine ⟨s', hrun, ⟨?_, fun a ha => ?_, ⟨keep, hkeep, hkept⟩, ⟨rest, rfl, by simpa using hlen,
    htail, fun d hd => ?_⟩⟩, h.accounts_undone, fun hcomplete => ?_⟩
  · exact (collectDiffs_foldl_revertOne s.undone s).trans h.collect
  · rw [haccount] at ha
    cases hlast : lastWrite (account? a) s.undone with
    | none =>
      rw [hlast] at ha
      exact h.present a ha
    | some state =>
      rw [hlast] at ha
      obtain rfl : state = none := ha
      exact h.removed a hlast
  · rw [hlength]
    exact ⟨(hbounds d (mem_cons_of_mem c hd)).1, hhead d hd⟩
  · have hslot : ∀ a k, rawValue s'.mappings a k
        = (lastWrite (slot? a k) s.undone).getD (rawValue s.mappings a k) :=
      rawValue_foldl_revertOne s.undone s
    have hslotDiff : ∀ a k, s'.mappingDiffs.lookup (a, k) = _ :=
      mappingDiffs_foldl_revertOne s.undone s h.collect
    constructor
    · intro hafter a k hlast
      have hread := hafter.slots a k
      rw [hslot, hslotDiff, hlast] at hread
      simpa using hread.symm
    · intro hsafe
      refine ⟨fun a => ?_, fun a k => ?_⟩
      · exact h.accounts_undone hcomplete.accounts a
      rw [hslot, hslotDiff]
      cases hlast : lastWrite (slot? a k) s.undone with
      | none => exact hcomplete.slots a k
      | some v =>
        by_cases hempty : emptyArray = v
        · subst hempty
          simp [hsafe a k hlast]
        · simp [hempty]

lemma captured_run (h : Captured s0 depth s) {op : StoreOp} {ops : List StoreOp}
    (hnested : StoreOp.nested depth (op :: ops) = true) :
    ∃ s' depth', op.run s = .ok () s' ∧ Captured s0 depth' s' ∧
      StoreOp.nested depth' ops = true ∧ (AccountsComplete s0 s → AccountsComplete s0 s') ∧
      (Complete s0 s → (Complete s0 s' ↔ (op = .revert → RevertSafe s0 s))) := by
  cases op with
  | putAccount x account =>
    refine ⟨_, depth, rfl, captured_putAccount h x account, hnested,
      fun ha => accounts_putAccount h.collect ha x account, fun hc => ?_⟩
    exact iff_of_true (complete_putAccount h.collect hc x account) fun hop => by cases hop
  | putValue x k v =>
    refine ⟨_, depth, rfl, captured_putValue h x k v, hnested, fun ha => ?_, fun hc => ?_⟩
    · unfold putValue
      split
      · exact ha
      · exact accounts_putAccount h.collect ha x .blank
    exact iff_of_true (complete_putValue h hc x k v) fun hop => by cases hop
  | checkpoint =>
    refine ⟨_, depth + 1, rfl, captured_checkpoint h, hnested, fun ha => ha, fun hc => ?_⟩
    exact iff_of_true ⟨hc.accounts, hc.slots⟩ fun hop => by cases hop
  | commit =>
    cases depth with
    | zero => simp [StoreOp.nested] at hnested
    | succ depth =>
      obtain ⟨s', hrun, hcap, haccounts, hkept⟩ := captured_commit h
      refine ⟨s', depth, hrun, hcap, hnested, haccounts, fun hc => ?_⟩
      exact iff_of_true (hkept hc) fun hop => by cases hop
  | revert =>
    cases depth with
    | zero => simp [StoreOp.nested] at hnested
    | succ depth =>
      obtain ⟨s', hrun, hcap, haccounts, hiff⟩ := captured_revert h
      refine ⟨s', depth, hrun, hcap, hnested, haccounts, fun hc => ?_⟩
      exact (hiff hc).trans ⟨fun hsafe _ => hsafe, fun hsafe => hsafe rfl⟩

end

/-! ## Whole captures -/

lemma captured_runOps (ops : List StoreOp) :
    ∀ {depth : Nat} {s : Storage}, Captured s0 depth s → StoreOp.nested depth ops = true →
      ∃ s' depth', StoreOp.runOps ops s = .ok () s' ∧ Captured s0 depth' s' := by
  induction ops with
  | nil => intro depth s h _; exact ⟨s, depth, rfl, h⟩
  | cons op ops ih =>
    intro depth s h hnested
    obtain ⟨s1, depth1, hrun, h1, hrest, -⟩ := captured_run h hnested
    obtain ⟨s', depth', hruns, h'⟩ := ih h1 hrest
    exact ⟨s', depth', (Prog.bind_of_ok hrun).trans hruns, h'⟩

lemma complete_along_iff (ops : List StoreOp) :
    ∀ {depth : Nat} {s : Storage}, Captured s0 depth s → StoreOp.nested depth ops = true →
      Complete s0 s →
      ((∀ pre s', pre <+: ops → StoreOp.runOps pre s = .ok () s' → DiffsComplete s0 s') ↔
        ∀ pre s', pre ++ [.revert] <+: ops → StoreOp.runOps pre s = .ok () s' → RevertSafe s0 s') := by
  induction ops with
  | nil =>
    intro depth s h _ hcomplete
    refine iff_of_true (fun pre s' hpre hrun => ?_) (fun pre s' hpre => ?_)
    · obtain rfl := prefix_nil.mp hpre
      obtain ⟨_, rfl⟩ := ok.inj hrun
      exact (diffsComplete_iff h.collect).mpr hcomplete
    · have := prefix_nil.mp hpre
      simp at this
  | cons op ops ih =>
    intro depth s h hnested hcomplete
    obtain ⟨s1, depth1, hop, h1, hrest, -, hstep⟩ := captured_run h hnested
    have hrunCons : ∀ pre, StoreOp.runOps (op :: pre) s = StoreOp.runOps pre s1 :=
      fun pre => Prog.bind_of_ok hop
    constructor
    · intro hall pre s' hpre hrun
      have hfirst : Complete s0 s1 := by
        have hone := hall [op] s1 (by simp) (hrunCons [])
        exact (diffsComplete_iff h1.collect).mp hone
      cases pre with
      | nil =>
        obtain ⟨_, rfl⟩ := ok.inj hrun
        have hrevert : op = .revert := (cons_prefix_cons.mp hpre).1.symm
        exact (hstep hcomplete).mp hfirst hrevert
      | cons op' pre =>
        obtain ⟨rfl, htail⟩ := cons_prefix_cons.mp hpre
        rw [hrunCons] at hrun
        refine (ih h1 hrest hfirst).mp (fun pre s' hp hr => ?_) pre s' htail hrun
        exact hall (op' :: pre) s' (cons_prefix_cons.mpr ⟨rfl, hp⟩) ((hrunCons pre).trans hr)
    · intro hall pre s' hpre hrun
      cases pre with
      | nil =>
        obtain ⟨_, rfl⟩ := ok.inj hrun
        exact (diffsComplete_iff h.collect).mpr hcomplete
      | cons op' pre =>
        obtain ⟨rfl, htail⟩ := cons_prefix_cons.mp hpre
        rw [hrunCons] at hrun
        have hfirst : Complete s0 s1 := by
          refine (hstep hcomplete).mpr fun hrevert => ?_
          exact hall [] s (by simp [hrevert]) rfl
        refine (ih h1 hrest hfirst).mpr (fun pre s' hp hr => ?_) pre s' htail hrun
        exact hall (op' :: pre) s' (cons_prefix_cons.mpr ⟨rfl, hp⟩) ((hrunCons pre).trans hr)

/-- **THE DIFFS ARE COMPLETE** at every moment of a capture if and only if each of its reverts is
safe in the state it is made in. -/
theorem diffs_complete_iff (s0 s1 : Storage) (hidle : s0.Idle)
    (hcapture : Storage.captureStateStoreDiffs s0 = .ok () s1) (ops : List StoreOp)
    (hnested : StoreOp.nested 0 ops = true) :
    (∃ s, StoreOp.runOps ops s1 = .ok () s) ∧
    ((∀ pre s, pre <+: ops → StoreOp.runOps pre s1 = .ok () s → DiffsComplete s0 s) ↔
      ∀ pre s, pre ++ [.revert] <+: ops → StoreOp.runOps pre s1 = .ok () s → RevertSafe s0 s) := by
  obtain ⟨hcaptured, hcomplete⟩ := captured_start hidle hcapture
  obtain ⟨s, _, hrun, _⟩ := captured_runOps ops hcaptured hnested
  exact ⟨⟨s, hrun⟩, complete_along_iff ops hcaptured hnested hcomplete⟩

def zeroedSlotOps : List StoreOp :=
  [.putValue 1 2 emptyArray, .checkpoint, .putValue 1 2 (List.replicate 32 1), .revert]

def Storage.sampleSlot : Storage := Storage.new.putValue 1 2 (List.replicate 32 1)

/-- The slot is zero in the store, and 1 according to the diffs. -/
theorem zeroed_slot_loses_its_diff :
    ∃ s1 s, Storage.captureStateStoreDiffs .sampleSlot = .ok () s1 ∧
      StoreOp.nested 0 zeroedSlotOps = true ∧ StoreOp.runOps zeroedSlotOps s1 = .ok () s ∧
      s.observed.slot 1 2 = emptyArray ∧
      ∃ got, Storage.getStateStoreDiffs s = .ok got s ∧
        (got.foldl Diff.apply Storage.sampleSlot.observed).slot 1 2 = List.replicate 32 1 := by
  obtain ⟨s, hok, hslot, hcollect, hdiffs⟩ : ∃ s,
      StoreOp.runOps zeroedSlotOps { sampleSlot with collectDiffs := true } = .ok () s ∧
      s.observed.slot 1 2 = emptyArray ∧ s.collectDiffs = true ∧
      (s.toDiffSlice.foldl Diff.apply sampleSlot.observed).slot 1 2
        = replicate 32 1 := by decide +kernel
  exact ⟨_, s, rfl, rfl, hok, hslot, s.toDiffSlice, if_pos hcollect, hdiffs⟩

theorem restored_slot_keeps_its_diff :
    ∃ s1 s, Storage.captureStateStoreDiffs .sampleSlot = .ok () s1 ∧
      StoreOp.runOps [.checkpoint, .putValue 1 2 emptyArray, .revert] s1 = .ok () s ∧
      DiffsComplete .sampleSlot s := by
  have hidle : sampleSlot.Idle := ⟨rfl, rfl, rfl⟩
  obtain ⟨⟨s, hrun⟩, hiff⟩ := diffs_complete_iff .sampleSlot
    { sampleSlot with collectDiffs := true } hidle rfl
    [.checkpoint, .putValue 1 2 emptyArray, .revert] rfl
  refine ⟨_, s, rfl, hrun, hiff.mpr (fun pre s' hpre hrun' => ?_) _ s (prefix_refl _) hrun⟩
  -- the one revert comes after two operations
  obtain ⟨post, hsplit⟩ := hpre
  rcases pre with _ | ⟨op1, _ | ⟨op2, _ | ⟨op3, pre⟩⟩⟩
  · simp at hsplit
  · simp at hsplit
  · obtain ⟨rfl, rfl, _⟩ := hsplit
    obtain ⟨_, rfl⟩ := ok.inj hrun'
    intro a k hlast
    have hundone : undone (putValue 1 2 emptyArray
        (checkpoint { sampleSlot with collectDiffs := true }))
        = [.mapping 1 2 (replicate 32 1)] := by decide +kernel
    rw [hundone] at hlast
    obtain ⟨m, hmem, hm⟩ := exists_of_lastWrite hlast
    obtain rfl := mem_singleton.mp hmem
    by_cases hkey : a = 1 ∧ k = 2
    · exact absurd (Option.some.inj ((if_pos hkey).symm.trans hm)) (by decide)
    · cases (if_neg hkey).symm.trans hm
  · have hlen := congrArg length hsplit
    simp at hlen

end GrapeDag
