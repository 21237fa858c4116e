/-
THE STORE'S UNDO LOG REFINES THE LIBRARY'S JOURNAL.

The accounts and slot values of the Go store, its `modifications` and its `checkPoints` form a
`Journal`, and the library's rules apply to the store as they are.
-/
import GrapeDag.State.Storage

namespace GrapeDag

open Imperative Journalled FinMap Journal

/-! ## The journalled tables -/

/-- The part of a store that a revert restores. -/
structure Tables where
  accounts : FinMap Address StoredAccount
  mappings : FinMap Address (FinMap Word Bytes)

/-- What the VM can read of a store. -/
@[ext] structure Observed where
  account : Address → Option StoredAccount
  slot : Address → Word → Bytes

namespace Storage

def observe (t : Tables) : Observed := ⟨fun a => t.accounts.lookup a, fun a k => rawValue t.mappings a k⟩

def undoTables : Modification → Tables → Tables
  | .mapping address key value, t =>
      { t with mappings := setMapping t.mappings address key value }
  | .account address none, t => { t with accounts := t.accounts.erase address }
  | .account address (some account), t =>
      { t with accounts := t.accounts.insert address account }

lemma rawValue_setMapping (m : FinMap Address (FinMap Word Bytes)) (a a' : Address)
    (k k' : Word) (v : Bytes) :
    rawValue (setMapping m a k v) a' k' = if a' = a ∧ k' = k then v else rawValue m a' k' := by
  unfold rawValue setMapping
  rw [lookup_insert_eq_ite]
  by_cases ha : a' = a
  · subst ha
    rw [if_pos rfl, Option.bind_some, lookup_insert_eq_ite]
    by_cases hk : k' = k
    · simp [hk]
    · rw [if_neg hk, if_neg (fun h => hk h.2)]
      cases m.lookup a' with
      | none | some slots => rfl
  · rw [if_neg ha, if_neg (fun h => ha h.1)]

lemma rawValue_insert_empty {m : FinMap Address (FinMap Word Bytes)} {a : Address}
    (h : m.lookup a = none) (a' : Address) (k : Word) :
    rawValue (m.insert a ∅) a' k = rawValue m a' k := by
  unfold rawValue
  rw [lookup_insert_eq_ite]
  by_cases ha : a' = a
  · subst ha
    rw [if_pos rfl, h]
    rfl
  · rw [if_neg ha]

def undoLog : Undo Tables Modification Observed where
  undo := undoTables
  obs := observe
  undo_congr := by
    intro m t t' h
    have hacc : ∀ a, t.accounts.lookup a = t'.accounts.lookup a :=
      fun a => congrFun (congrArg Observed.account h) a
    have hslot : ∀ a k, rawValue t.mappings a k = rawValue t'.mappings a k :=
      fun a k => congrFun (congrFun (congrArg Observed.slot h) a) k
    cases m with
    | mapping address key value =>
      refine Observed.ext (funext hacc) (funext fun a => funext fun k => ?_)
      show rawValue (setMapping _ _ _ _) a k = rawValue (setMapping _ _ _ _) a k
      rw [rawValue_setMapping, rawValue_setMapping, hslot]
    | account address state =>
      cases state with
      | none =>
        refine Observed.ext (funext fun a => ?_) (funext fun a => funext (hslot a))
        show (t.accounts.erase address).lookup a = (t'.accounts.erase address).lookup a
        rw [FinMap.lookup_erase_eq_ite, FinMap.lookup_erase_eq_ite, hacc]
      | some account =>
        refine Observed.ext (funext fun a => ?_) (funext fun a => funext (hslot a))
        show (t.accounts.insert address account).lookup a = (t'.accounts.insert address account).lookup a
        rw [FinMap.lookup_insert_eq_ite, FinMap.lookup_insert_eq_ite, hacc]

def tables (s : Storage) : Tables := ⟨s.accounts, s.mappings⟩

def journal (s : Storage) : Journal Tables Modification := ⟨s.tables, s.modifications, s.checkPoints⟩

/-- Everything that can be read of the store's accounts and slots. -/
def observed (s : Storage) : Observed := observe s.tables

def Grows (s s' : Storage) : Prop := Journal.Grows undoLog s.journal s'.journal

lemma Grows.refl (s : Storage) : Grows s s := Journal.Grows.refl _

variable {s s' : Storage}

lemma Grows.trans {s1 s2 : Storage} (h1 : Grows s s1) (h2 : Grows s1 s2) :
    Grows s s2 := Journal.Grows.trans h1 h2

/-! ## Writes -/

section

variable (s : Storage) (a a' : Address) (acc : StoredAccount) (k : Word) (v : Bytes)

lemma getAccount_putAccount_self :
    (s.putAccount a acc).getAccount a = some acc := AList.lookup_insert _

lemma getAccount_putAccount :
    (putAccount a acc s).getAccount a' = if a' = a then some acc else s.getAccount a' :=
  lookup_insert_eq_ite _ _ _ _

lemma getAccount_putValue : (putValue a k v s).getAccount = s.getAccount ∨
    (s.getAccount a = none ∧ (putValue a k v s).getAccount = (putAccount a .blank s).getAccount) := by
  unfold putValue
  split
  · exact .inl rfl
  · next h => exact .inr ⟨by simpa using h, rfl⟩

lemma rawValue_putAccount :
    rawValue (putAccount a acc s).mappings a' k = rawValue s.mappings a' k := by
  show rawValue (if (s.mappings.lookup a).isSome then s.mappings
    else s.mappings.insert a ∅) a' k = _
  cases h : s.mappings.lookup a with
  | none => exact rawValue_insert_empty h a' k
  | some _ => rfl

lemma undo_putAccount :
    observe (undoTables (.account a (s.getAccount a)) (putAccount a acc s).tables) = observe s.tables := by
  have hslot : ∀ a' k, rawValue (putAccount a acc s).mappings a' k = rawValue s.mappings a' k :=
    fun a' k => rawValue_putAccount s a a' acc k
  have haccount : ∀ a', (if a' = a then s.getAccount a else (putAccount a acc s).accounts.lookup a')
      = s.accounts.lookup a' := by
    intro a'
    by_cases ha : a' = a
    · subst ha; rw [if_pos rfl]; rfl
    · rw [if_neg ha]
      exact (getAccount_putAccount s a a' acc).trans (if_neg ha)
  cases h : s.getAccount a with
  | none =>
    rw [h] at haccount
    exact Observed.ext (funext fun a' => (lookup_erase_eq_ite _ a a').trans (haccount a'))
      (funext fun a' => funext (hslot a'))
  | some old =>
    rw [h] at haccount
    exact Observed.ext (funext fun a' => (lookup_insert_eq_ite _ a a' old).trans (haccount a'))
      (funext fun a' => funext (hslot a'))

lemma grows_putAccount : Grows s (putAccount a acc s) :=
  grows_write (U := undoLog) (undo_putAccount s a acc)

lemma undo_putSlot : observe (undoTables (.mapping a k (rawValue s.mappings a k))
      ⟨s.accounts, setMapping s.mappings a k v⟩) = observe s.tables := by
  refine Observed.ext rfl (funext fun a' => funext fun k' => ?_)
  show rawValue (setMapping (setMapping s.mappings a k v) a k _) a' k' = _
  rw [rawValue_setMapping, rawValue_setMapping]
  by_cases h : a' = a ∧ k' = k
  · rw [if_pos h, h.1, h.2]; rfl
  · rw [if_neg h, if_neg h]; rfl

private lemma grows_putSlot {diffs : FinMap (Address × Word) Bytes} : Grows s { s with
      modifications := .mapping a k (rawValue s.mappings a k) :: s.modifications
      mappings := setMapping s.mappings a k v
      mappingDiffs := diffs } :=
  Journal.grows_write (U := undoLog)
    (s := ⟨s.accounts, setMapping s.mappings a k v⟩) (m := .mapping a k _) (undo_putSlot s a k v)

lemma grows_putValue : Grows s (putValue a k v s) := by
  unfold putValue
  by_cases h : (s.getAccount a).isSome
  · rw [if_pos h]; exact grows_putSlot s a k v
  · rw [if_neg h]; exact (grows_putAccount s a .blank).trans (grows_putSlot _ a k v)

end

/-! ## Checkpoints -/

lemma commit_ok {c : Nat} {rest : List Nat} (h : s.checkPoints = c :: rest) :
    commit s = .ok () { s with checkPoints := rest } := by
  unfold commit
  rw [h]

lemma commit_cases (s : Storage) : commit s = .err .panic s ∧ s.checkPoints = [] ∨
    ∃ c rest, s.checkPoints = c :: rest ∧ commit s = .ok () { s with checkPoints := rest } := by
  cases h : s.checkPoints with
  | nil => exact .inl ⟨by unfold commit; rw [h], rfl⟩
  | cons c rest => exact .inr ⟨c, rest, rfl, commit_ok h⟩

/-- The store after `revert` to the checkpoint `c`. -/
def revertTo (s : Storage) (c : Nat) (rest : List Nat) : Storage :=
  { (s.modifications.take (s.modifications.length - c)).foldl revertOne s with
    modifications := s.modifications.drop (s.modifications.length - c)
    checkPoints := rest }

lemma revert_ok {c : Nat} {rest : List Nat} (h : s.checkPoints = c :: rest)
    (hc : c ≤ s.modifications.length) : revert s = .ok () (s.revertTo c rest) := by
  unfold revert
  rw [h]
  exact if_pos hc

lemma revert_cases (s : Storage) : revert s = .err .panic s ∨
    ∃ c rest, s.checkPoints = c :: rest ∧ c ≤ s.modifications.length ∧
      revert s = .ok () (s.revertTo c rest) := by
  cases h : s.checkPoints with
  | nil => exact .inl (by unfold revert; rw [h])
  | cons c rest =>
    by_cases hc : c ≤ s.modifications.length
    · exact .inr ⟨c, rest, rfl, hc, revert_ok h hc⟩
    · refine .inl ?_
      unfold revert
      rw [h]
      exact if_neg hc

/-- What holds of the store, and with any checkpoints, holds after `commit`. -/
lemma wpEnd_commit {P : Storage → Prop} (h : P s) (hok : ∀ rest, P { s with checkPoints := rest }) :
    Prog.wpEnd commit P s := by
  rcases commit_cases s with ⟨he, -⟩ | ⟨c, rest, -, hc⟩
  · exact .of_apply_err he h
  · exact .of_apply_eq hc (.pure (hok rest))

lemma wpEnd_revert {P : Storage → Prop} (h : P s) (hok : ∀ c rest, P (s.revertTo c rest)) :
    Prog.wpEnd revert P s := by
  rcases revert_cases s with he | ⟨c, rest, -, -, hr⟩
  · exact .of_apply_err he h
  · exact .of_apply_eq hr (.pure (hok c rest))

private lemma tables_foldl_revertOne (ms : List Modification) (s : Storage) :
    (ms.foldl revertOne s).tables = undoLog.undoAll ms s.tables := by
  induction ms generalizing s with
  | nil => rfl
  | cons m ms ih =>
    have hone : (revertOne s m).tables = undoTables m s.tables := by
      cases m with
      | mapping address key value => rfl
      | account address state => cases state <;> rfl
    rw [List.foldl_cons, ih, hone]
    rfl

lemma journal_revert (h : revert s = .ok () s') : s.journal.revert undoLog = some s'.journal := by
  rcases revert_cases s with he | ⟨c, rest, hc, hl, hok⟩
  · rw [he] at h
    cases h
  · rw [hok] at h
    cases h
    simp only [Journal.revert, journal, hc, hl, if_true]
    congr 2
    exact (tables_foldl_revertOne _ s).symm

lemma journal_commit (h : commit s = .ok () s') : s.journal.commit = some s'.journal := by
  rcases commit_cases s with ⟨he, -⟩ | ⟨c, rest, hc, hok⟩
  · rw [he] at h
    cases h
  · rw [hok] at h
    cases h
    simp only [journal, hc]
    rfl

lemma checkPoints_of_commit (h : commit s = .ok () s') : ∃ c, s.checkPoints = c :: s'.checkPoints := by
  rcases commit_cases s with ⟨he, -⟩ | ⟨c, rest, hc, hok⟩
  · rw [he] at h
    cases h
  · rw [hok] at h
    cases h
    exact ⟨c, hc⟩

lemma checkPoints_of_revert (h : revert s = .ok () s') : ∃ c, s.checkPoints = c :: s'.checkPoints := by
  rcases revert_cases s with he | ⟨c, rest, hc, -, hok⟩
  · rw [he] at h
    cases h
  · rw [hok] at h
    cases h
    exact ⟨c, hc⟩

lemma restored_of_revert {s1 s2 : Storage} (h : Grows s.checkpoint s1)
    (hbal : s1.checkPoints = s.checkpoint.checkPoints) (hr : revert s1 = .ok () s2) :
    s2.observed = s.observed ∧ s2.checkPoints = s.checkPoints := by
  obtain ⟨hobs, hmarks, _⟩ := revert_restores (j := s.journal) h hbal (journal_revert hr)
  exact ⟨hobs, hmarks⟩

/-- `s'` remembers `s`, and `Φ` holds of it and wherever a revert may lead. -/
def Upholds (Φ : Observed → Prop) (s s' : Storage) : Prop := Journal.Upholds undoLog Φ s.journal s'.journal

section Upholds

variable {Φ : Observed → Prop} {s s1 s2 : Storage}

lemma Upholds.now (h : Upholds Φ s s1) : Φ s1.observed := Journal.Upholds.now h

lemma Upholds.trans (h1 : Upholds Φ s s1) (h2 : Upholds Φ s1 s2) : Upholds Φ s s2 :=
  Journal.Upholds.trans h1 h2

lemma upholds_of_grows (h : Grows s s1) (hm : s1.checkPoints = s.checkPoints)
    (hΦ : Φ s1.observed) : Upholds Φ s s1 := Journal.upholds_of_grows h hm hΦ

lemma upholds_checkpoint (hΦ : Φ s.observed) : Upholds Φ s s.checkpoint :=
  Journal.upholds_checkpoint (j := s.journal) hΦ

lemma upholds_of_commit (h : Upholds Φ s.checkpoint s1) (hΦ : Φ s.observed)
    (hc : commit s1 = .ok () s2) : Upholds Φ s s2 :=
  upholds_commit (j := s.journal) h hΦ (journal_commit hc)

lemma upholds_of_revert (h : Upholds Φ s.checkpoint s1) (hΦ : Φ s.observed)
    (hr : revert s1 = .ok () s2) : Upholds Φ s s2 :=
  upholds_revert (j := s.journal) h hΦ (journal_revert hr)

end Upholds

/-! ## Logs -/

/-- Nothing that a revert reads has changed. -/
structure LogsOnly (s s' : Storage) : Prop where
  tables : s'.tables = s.tables
  modifications : s'.modifications = s.modifications
  checkPoints : s'.checkPoints = s.checkPoints

instance : IsPreorder Storage LogsOnly where
  refl _ := ⟨rfl, rfl, rfl⟩
  trans _ _ _ h1 h2 := ⟨h2.tables.trans h1.tables, h2.modifications.trans h1.modifications,
    h2.checkPoints.trans h1.checkPoints⟩

lemma logsOnly_putLog (txHash : Bytes) (l : Log) : Prog.Keeps LogsOnly (putLog txHash l) := by
  refine .bind (.gets _) fun account => ?_
  cases account with
  | none => exact .raise _
  | some _ => exact .modify fun _ => ⟨rfl, rfl, rfl⟩

lemma logsOnly_putEach (txHash : Bytes) : ∀ logs, Prog.Keeps LogsOnly (putEach txHash logs)
  | [] => .pure _
  | l :: ls => .bind (logsOnly_putLog txHash l) fun _ => logsOnly_putEach txHash ls

lemma logsOnly_putLogs (txHash : Bytes) (logs : List Log) : Prog.Keeps LogsOnly (putLogs txHash logs) := by
  cases logs with
  | nil => exact .raise _
  | cons l ls => exact .bind (logsOnly_putEach txHash _) fun _ => .modify fun _ => ⟨rfl, rfl, rfl⟩

instance (txHash : Bytes) (l : Log) : Prog.Halts (putLog txHash l) := by
  refine Prog.Ends.seq inferInstance fun account => ?_
  cases account <;> infer_instance

instance ends_putEach (txHash : Bytes) :
    ∀ logs : List Log, Prog.Halts (putEach txHash logs)
  | [] => Prog.Ends.pure _
  | l :: logs => by
      have := ends_putEach txHash logs
      unfold putEach
      infer_instance

instance (txHash : Bytes) (logs : List Log) : Prog.Halts (putLogs txHash logs) := by
  cases logs <;> unfold putLogs <;> infer_instance

lemma eq_of_revert_err {e : GoError} (h : revert s = .err e s') : s' = s := by
  rcases revert_cases s with he | ⟨c, rest, -, -, hok⟩
  · rw [he] at h
    cases h
    rfl
  · rw [hok] at h
    cases h

lemma eq_of_commit_err {e : GoError} (h : commit s = .err e s') : s' = s := by
  rcases commit_cases s with ⟨he, -⟩ | ⟨c, rest, -, hok⟩
  · rw [he] at h
    cases h
    rfl
  · rw [hok] at h
    cases h

end Storage

end GrapeDag
