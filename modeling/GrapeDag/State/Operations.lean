/-
SEQUENCES OF STORE OPERATIONS.

What the VM does to the Go store is a sequence of account writes, slot writes, checkpoints,
commits and reverts. The store answers `getAccount` and `getValue` as if it kept a full copy at
every checkpoint.

Main result: `store_refines_snapshots`.
-/
import GrapeDag.State.StorageJournal
import GrapeDag.Lib.Snapshots

namespace GrapeDag

open Imperative Journalled Storage Option

/-! ## Operations -/

/-- The writes and checkpoints of the store. -/
inductive StoreOp where
  | putAccount (address : Address) (account : StoredAccount)
  | putValue (address : Address) (key : Word) (value : Bytes)
  | checkpoint
  | commit
  | revert
  deriving Repr, DecidableEq

namespace StoreOp

def run : StoreOp → Go Storage Unit
  | .putAccount address account => .modify (Storage.putAccount address account)
  | .putValue address key value => .modify (Storage.putValue address key value)
  | .checkpoint => .modify Storage.checkpoint
  | .commit => Storage.commit
  | .revert => Storage.revert

def runOps : List StoreOp → Go Storage Unit
  | [] => return ()
  | op :: ops => do op.run; runOps ops

/-- Properly nested, with `depth` checkpoints open: every commit and every revert has a
checkpoint of the sequence to close. -/
def nested : Nat → List StoreOp → Bool
  | _, [] => true
  | depth, .checkpoint :: ops => nested (depth + 1) ops
  | 0, .commit :: _ => false
  | depth + 1, .commit :: ops => nested depth ops
  | 0, .revert :: _ => false
  | depth + 1, .revert :: ops | depth, .putAccount _ _ :: ops | depth, .putValue _ _ _ :: ops =>
    nested depth ops

end StoreOp

/-! ## The store that copies itself -/

namespace Observed

def empty : Observed := ⟨fun _ => none, fun _ _ => emptyArray⟩

def putAccount (a : Address) (account : StoredAccount) (o : Observed) : Observed :=
  { o with account := fun x => if x = a then some account else o.account x }

/-- A slot of an account that does not exist is written to a new account. -/
def putValue (a : Address) (k : Word) (v : Bytes) (o : Observed) : Observed where
  account x := if x = a ∧ o.account a = none then some .blank else o.account x
  slot x y := if x = a ∧ y = k then v else o.slot x y

/-- An absent account has no storage. -/
def Clean (o : Observed) : Prop := ∀ a k, o.account a = none → o.slot a k = emptyArray

lemma clean_empty : Clean empty := fun _ _ _ => rfl

lemma Clean.putAccount {o : Observed} (h : o.Clean) (a : Address) (account : StoredAccount) :
    (o.putAccount a account).Clean := by
  intro x k hx
  by_cases hxa : x = a
  · simp [Observed.putAccount, hxa] at hx
  · simp only [Observed.putAccount, hxa, if_false] at hx
    exact h x k hx

lemma Clean.putValue {o : Observed} (h : o.Clean) (a : Address) (k : Word) (v : Bytes) :
    (o.putValue a k v).Clean := by
  intro x y hx
  by_cases hxa : x = a
  · -- the account that is written exists afterwards
    subst hxa
    by_cases hnone : o.account x = none
    · simp [Observed.putValue, hnone] at hx
    · simp [Observed.putValue, hnone] at hx
  · simp only [Observed.putValue, hxa, false_and, if_false] at hx ⊢
    exact h x y hx

end Observed

def StoreOp.spec : StoreOp → Snapshots Observed → Option (Snapshots Observed)
  | .putAccount address account, a => some (a.write (Observed.putAccount address account))
  | .putValue address key value, a => some (a.write (Observed.putValue address key value))
  | .checkpoint, a => some a.checkpoint
  | .commit, a => a.commit
  | .revert, a => a.revert

def StoreOp.specOps : List StoreOp → Snapshots Observed → Option (Snapshots Observed)
  | [], a => some a
  | op :: ops, a => (op.spec a).bind (StoreOp.specOps ops)

lemma StoreOp.specOps_isSome (ops : List StoreOp) :
    ∀ a : Snapshots Observed, nested a.saved.length ops = true → (specOps ops a).isSome = true := by
  induction ops with
  | nil => intro a _; rfl
  | cons op ops ih =>
    intro a hnested
    cases op with
    | putAccount address account => exact ih _ hnested
    | putValue address key value => exact ih _ hnested
    | checkpoint => exact ih a.checkpoint hnested
    | commit =>
      cases hs : a.saved with
      | nil => simp [nested, hs] at hnested
      | cons o rest =>
        rw [hs] at hnested
        simp only [specOps, spec, Snapshots.commit, hs, bind_some]
        exact ih _ hnested
    | revert =>
      cases hs : a.saved with
      | nil => simp [nested, hs] at hnested
      | cons o rest =>
        rw [hs] at hnested
        simp only [specOps, spec, Snapshots.revert, hs, bind_some]
        exact ih _ hnested

/-! ## The store stands for its snapshots -/

/-- The store stands for the stack of snapshots. -/
structure Represents (s : Storage) (a : Snapshots Observed) : Prop where
  refines : Journal.Refines Storage.undoLog s.journal a
  clean : a.All Observed.Clean
  /-- a slot that is to be restored has its account's mapping, so that the Go map written by
  `revert` is not `nil` -/
  mapped : ∀ x k v, .mapping x k v ∈ s.modifications → (s.mappings.lookup x).isSome = true

namespace Represents

variable {s : Storage} {a a' : Snapshots Observed}

lemma getAccount_eq (h : Represents s a) : s.getAccount = a.current.account :=
  congrArg Observed.account h.refines.current

lemma getValue_eq (h : Represents s a) : s.getValue = a.current.slot := by
  funext x k
  have hslot : rawValue s.mappings x k = a.current.slot x k :=
    congrFun (congrFun (congrArg Observed.slot h.refines.current) x) k
  have hacc : s.getAccount x = a.current.account x := congrFun h.getAccount_eq x
  unfold getValue
  cases hx : s.getAccount x with
  | none =>
    rw [hx] at hacc
    exact (h.clean.1 x k hacc.symm).symm
  | some account => exact hslot

lemma start (collect : Bool) : Represents { new with collectDiffs := collect } ⟨.empty, []⟩ := by
  refine ⟨Journal.refines_start _, ⟨Observed.clean_empty, by simp⟩, ?_⟩
  intro x k v h
  exact absurd h List.not_mem_nil

end Represents

lemma Storage.mapped_putAccount (s : Storage) (x a : Address) (account : StoredAccount) :
    ((s.putAccount x account).mappings.lookup a).isSome = true ↔
      (s.mappings.lookup a).isSome = true ∨ a = x := by
  show ((if (s.mappings.lookup x).isSome then s.mappings
    else s.mappings.insert x ∅).lookup a).isSome = true ↔ _
  by_cases hx : (s.mappings.lookup x).isSome = true
  · rw [if_pos hx]
    constructor
    · exact .inl
    · intro h
      exact h.elim id fun heq => heq ▸ hx
  · rw [if_neg hx, FinMap.lookup_insert_eq_ite]
    by_cases ha : a = x
    · simp [ha]
    · simp [ha]

lemma Storage.mapped_setMapping (m : FinMap Address (FinMap Word Bytes)) (x a : Address)
    (k : Word) (v : Bytes) :
    ((setMapping m x k v).lookup a).isSome = true ↔ (m.lookup a).isSome = true ∨ a = x := by
  unfold setMapping
  rw [FinMap.lookup_insert_eq_ite]
  by_cases ha : a = x <;> simp [ha]

lemma Storage.isSome_foldl_revertOne (x : Address) (ms : List Modification) (s : Storage)
    (h : (s.mappings.lookup x).isSome = true) :
    ((ms.foldl revertOne s).mappings.lookup x).isSome = true := by
  refine ms.foldlRecOn (motive := fun s : Storage => (s.mappings.lookup x).isSome = true) _ h fun s h m _ => ?_
  cases m with
  | mapping address key value => exact (mapped_setMapping _ _ _ _ _).mpr (.inl h)
  | account address state => cases state <;> exact h

variable {a a' : Snapshots Observed} {s : Storage}

lemma represents_putAccount (h : Represents s a) (x : Address) (account : StoredAccount) :
    Represents (s.putAccount x account) (a.write (Observed.putAccount x account)) := by
  have hobs : observe (s.putAccount x account).tables = Observed.putAccount x account a.current := by
    rw [← h.refines.current]
    refine Observed.ext (funext fun y => ?_) (funext fun y => funext fun k => ?_)
    · exact getAccount_putAccount s x y account
    · exact rawValue_putAccount s x y account k
  refine ⟨?_, h.clean.write (h.clean.1.putAccount x account), ?_⟩
  · exact Journal.refines_write (U := undoLog) h.refines (undo_putAccount s x account) hobs
  · intro y k v hmem
    rcases List.mem_cons.mp hmem with heq | hmem
    · cases heq
    · exact (mapped_putAccount s x y account).mpr (.inl (h.mapped y k v hmem))

lemma represents_putSlot (h : Represents s a) (x : Address) (k : Word) (v : Bytes)
    {diffs : FinMap (Address × Word) Bytes} (hx : a.current.account x ≠ none) :
    Represents { s with
        modifications := .mapping x k (rawValue s.mappings x k) :: s.modifications
        mappings := setMapping s.mappings x k v
        mappingDiffs := diffs } (a.write (Observed.putValue x k v)) := by
  have hundo : observe (undoTables (.mapping x k (rawValue s.mappings x k))
      ⟨s.accounts, setMapping s.mappings x k v⟩) = observe s.tables :=
    undo_putSlot s x k v
  have hobs : observe ⟨s.accounts, setMapping s.mappings x k v⟩
      = Observed.putValue x k v a.current := by
    refine Observed.ext (funext fun y => ?_) (funext fun y => funext fun k' => ?_)
    · show s.getAccount y = if y = x ∧ a.current.account x = none then _ else a.current.account y
      rw [if_neg fun hnone => hx hnone.2, h.getAccount_eq]
    show rawValue (setMapping _ _ _ _) y k' = _
    rw [rawValue_setMapping]
    have hslot : rawValue s.mappings y k' = a.current.slot y k' :=
      congrFun (congrFun (congrArg Observed.slot h.refines.current) y) k'
    rw [hslot]
    rfl
  refine ⟨?_, h.clean.write (h.clean.1.putValue x k v), ?_⟩
  · exact Journal.refines_write (U := undoLog) h.refines hundo hobs
  intro y k' v' hmem
  apply (mapped_setMapping _ _ _ _ _).mpr
  rcases List.mem_cons.mp hmem with heq | hmem
  · cases heq
    exact .inr rfl
  · exact .inl (h.mapped y k' v' hmem)

lemma represents_putValue (h : Represents s a) (x : Address) (k : Word) (v : Bytes) :
    Represents (s.putValue x k v) (a.write (Observed.putValue x k v)) := by
  unfold putValue
  by_cases hx : (s.getAccount x).isSome = true
  · rw [if_pos hx]
    refine represents_putSlot h x k v ?_
    rw [← h.getAccount_eq]
    exact isSome_iff_ne_none.mp hx
  · -- the missing account is created first
    rw [if_neg hx]
    have hblank := represents_putAccount h x .blank
    have hput := @represents_putSlot _ _ hblank x k v (if (s.putAccount x .blank).collectDiffs then
        (s.putAccount x .blank).mappingDiffs.insert (x, k) v
      else (s.putAccount x .blank).mappingDiffs)
      (by simp [Snapshots.write, Observed.putAccount])
    have hnone : a.current.account x = none := by
      rw [← h.getAccount_eq]
      simpa using hx
    have hsame : (a.write (Observed.putAccount x .blank)).write (Observed.putValue x k v)
        = a.write (Observed.putValue x k v) := by
      unfold Snapshots.write
      congr 1
      refine Observed.ext (funext fun y => ?_) rfl
      by_cases hy : y = x
      · simp [Observed.putValue, Observed.putAccount, hy, hnone]
      · simp [Observed.putValue, Observed.putAccount, hy]
    rw [hsame] at hput
    exact hput

lemma represents_commit (h : Represents s a) (hc : a.commit = some a') :
    ∃ s', commit s = .ok () s' ∧ Represents s' a' := by
  obtain ⟨j', hj, href⟩ := Journal.refines_commit h.refines hc
  unfold Journal.commit at hj
  unfold commit
  cases hm : s.checkPoints with
  | nil => simp [journal, hm] at hj
  | cons c rest =>
    simp only [journal, hm, some.injEq] at hj
    subst hj
    exact ⟨{ s with checkPoints := rest }, rfl, href, h.clean.commit hc, h.mapped⟩

lemma represents_revert (h : Represents s a) (hr : a.revert = some a') :
    ∃ s', revert s = .ok () s' ∧ Represents s' a' := by
  obtain ⟨j', hj, href⟩ := Journal.refines_revert h.refines hr
  cases hm : s.checkPoints with
  | nil => simp [Journal.revert, journal, hm] at hj
  | cons c rest =>
    have hl : c ≤ s.modifications.length := h.refines.bounded c (by simp [journal, hm])
    have hrun := revert_ok hm hl
    have hjournal : (s.revertTo c rest).journal = j' := some.inj ((journal_revert hrun).symm.trans hj)
    refine ⟨_, hrun, hjournal ▸ href, h.clean.revert hr, fun x k v hmem => ?_⟩
    exact isSome_foldl_revertOne x _ s (h.mapped x k v (List.mem_of_mem_drop hmem))

/-- One operation: where the copying store has an answer, the Go store does not panic and goes
on standing for it. -/
theorem represents_run (h : Represents s a) (op : StoreOp) (hspec : op.spec a = some a') :
    ∃ s', op.run s = .ok () s' ∧ Represents s' a' := by
  cases op with
  | putAccount x account =>
    obtain rfl := some.inj hspec
    exact ⟨_, rfl, represents_putAccount h x account⟩
  | putValue x k v =>
    obtain rfl := some.inj hspec
    exact ⟨_, rfl, represents_putValue h x k v⟩
  | checkpoint =>
    obtain rfl := some.inj hspec
    exact ⟨_, rfl, Journal.refines_checkpoint h.refines, h.clean.checkpoint, h.mapped⟩
  | commit => exact represents_commit h hspec
  | revert => exact represents_revert h hspec

lemma represents_runOps (ops : List StoreOp) :
    ∀ {s : Storage} {a a' : Snapshots Observed}, Represents s a →
      StoreOp.specOps ops a = some a' → ∃ s', StoreOp.runOps ops s = .ok () s' ∧ Represents s' a' := by
  induction ops with
  | nil =>
    intro s a a' h hspec
    obtain rfl := some.inj hspec
    exact ⟨s, rfl, h⟩
  | cons op ops ih =>
    intro s a a' h hspec
    obtain ⟨a1, hone, hrest⟩ := bind_eq_some_iff.mp hspec
    obtain ⟨s1, hrun, h1⟩ := represents_run h op hone
    obtain ⟨s', hruns, h'⟩ := ih h1 hrest
    exact ⟨s', (Prog.bind_of_ok hrun).trans hruns, h'⟩

/-! ## The journalled store -/

/-- **THE STORE REFINES A STACK OF SNAPSHOTS.** Nested operations on a new store never panic, and
`getAccount` and `getValue` read what the store that copies itself at every checkpoint holds: a
revert returns to the matching checkpoint, a commit changes nothing. -/
theorem store_refines_snapshots (collect : Bool) (ops : List StoreOp)
    (hnested : StoreOp.nested 0 ops = true) :
    ∃ s a, StoreOp.runOps ops { Storage.new with collectDiffs := collect } = .ok () s ∧
      StoreOp.specOps ops ⟨.empty, []⟩ = some a ∧
      s.getAccount = a.current.account ∧ s.getValue = a.current.slot ∧
      ∀ x k v, .mapping x k v ∈ s.modifications → (s.mappings.lookup x).isSome = true := by
  obtain ⟨a, hspec⟩ := isSome_iff_exists.mp (StoreOp.specOps_isSome ops ⟨.empty, []⟩ hnested)
  obtain ⟨s, hrun, h⟩ := represents_runOps ops (Represents.start collect) hspec
  exact ⟨s, a, hrun, hspec, h.getAccount_eq, h.getValue_eq, h.mapped⟩

theorem reverted_slot_reads_back :
    ∃ s, StoreOp.runOps [.putValue 1 2 [3], .checkpoint, .putValue 1 2 [4], .revert]
        { Storage.new with collectDiffs := false } = .ok () s ∧
      s.getValue 1 2 = [3] := by
  obtain ⟨s, a, hrun, hspec, _, hvalue, _⟩ := store_refines_snapshots false
    [.putValue 1 2 [3], .checkpoint, .putValue 1 2 [4], .revert] (by decide)
  refine ⟨s, hrun, ?_⟩
  obtain rfl := some.inj hspec
  rw [hvalue]
  rfl

end GrapeDag
