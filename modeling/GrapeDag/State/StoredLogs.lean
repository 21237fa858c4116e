/-
THE LOGS OF THE STORE.

The store keeps one list of logs per address. `putLogs` appends to it, and nothing takes a log
away again: the undo log covers accounts and slots only.

Main result: `putLogs_whole_iff`.
-/
import Mathlib.Data.List.TakeWhile
import GrapeDag.State.StorageJournal

namespace GrapeDag

open Imperative Prog FinMap

/-! ## The stored logs -/

namespace Storage

def logsOf (s : Storage) (a : Address) : List StoredLog := s.logs.getD a []

/-- The stored logs are `L`, and `L` is empty where a new account would start its list. -/
structure Files (L : Address → List StoredLog) (s : Storage) : Prop where
  logs : ∀ a, s.logsOf a = L a
  fresh : ∀ a, s.mappings.lookup a = none → L a = []

variable {L : Address → List StoredLog} {s : Storage}

lemma Files.putAccount (h : s.Files L) (a : Address) (account : StoredAccount) :
    (s.putAccount a account).Files L := by
  unfold Storage.putAccount
  cases hknown : (s.mappings.lookup a).isSome with
  | true => exact ⟨h.logs, h.fresh⟩
  | false =>
    have hnone : s.mappings.lookup a = none := by simpa using hknown
    refine ⟨fun x => ?_, fun x hx => ?_⟩
    · -- the new list is empty, and so was the old one
      show getD (s.logs.insert a []) x [] = L x
      unfold getD
      rw [lookup_insert_eq_ite]
      by_cases hxa : x = a
      · rw [if_pos hxa, hxa, h.fresh a hnone]
        rfl
      · rw [if_neg hxa]
        exact h.logs x
    · have hx : (s.mappings.insert a ∅).lookup x = none := hx
      rw [lookup_insert_eq_ite] at hx
      by_cases hxa : x = a
      · rw [if_pos hxa] at hx
        cases hx
      · rw [if_neg hxa] at hx
        exact h.fresh x hx

lemma Files.setMapping (h : s.Files L) {s' : Storage} {a : Address} {k : Word} {v : Bytes}
    (hlogs : s'.logs = s.logs) (hmap : s'.mappings = Storage.setMapping s.mappings a k v) :
    s'.Files L := by
  refine ⟨fun x => ?_, fun x hx => h.fresh x ?_⟩
  · unfold logsOf
    rw [hlogs]
    exact h.logs x
  rw [hmap] at hx
  unfold Storage.setMapping at hx
  rw [lookup_insert_eq_ite] at hx
  by_cases hxa : x = a
  · rw [if_pos hxa] at hx
    cases hx
  · rwa [if_neg hxa] at hx

lemma Files.putValue (h : s.Files L) (a : Address) (k : Word) (v : Bytes) : (s.putValue a k v).Files L := by
  unfold Storage.putValue
  cases (s.getAccount a).isSome with
  | true => exact h.setMapping rfl rfl
  | false => exact (h.putAccount a .blank).setMapping rfl rfl

lemma Files.revertOne (h : s.Files L) (e : Modification) : (s.revertOne e).Files L := by
  cases e with
  | mapping a k v => exact h.setMapping rfl rfl
  | account a old =>
    cases old with
    | none => exact ⟨h.logs, h.fresh⟩
    | some account => exact ⟨h.logs, h.fresh⟩

lemma Files.foldl_revertOne (mods : List Modification) {s : Storage} (h : s.Files L) :
    (mods.foldl Storage.revertOne s).Files L :=
  mods.foldlRecOn (motive := Files L) _ h fun _ h e _ => h.revertOne e

lemma Files.revert (h : s.Files L) : wpEnd Storage.revert (fun s' => s'.Files L) s := by
  refine wpEnd_revert h fun c rest => ?_
  have hback := Files.foldl_revertOne (s.modifications.take (s.modifications.length - c)) h
  exact ⟨hback.logs, hback.fresh⟩

lemma Files.commit (h : s.Files L) : wpEnd Storage.commit (fun s' => s'.Files L) s :=
  wpEnd_commit h fun _ => ⟨h.logs, h.fresh⟩

end Storage

/-! ## Saving logs -/

def filed (txHash : Bytes) (logs : List Log) (a : Address) : List StoredLog :=
  (logs.filter (·.contractAddress = a)).map (⟨·, txHash⟩)

namespace Storage

/-- The logs that `putLogs` stores: up to the first one of an unknown account. -/
def storable (s : Storage) (logs : List Log) : List Log :=
  logs.takeWhile fun l => (s.getAccount l.contractAddress).isSome

lemma storable_eq_self {s : Storage} {logs : List Log} :
    s.storable logs = logs ↔ ∀ l ∈ logs, s.getAccount l.contractAddress ≠ none := by
  unfold storable
  rw [List.takeWhile_eq_self_iff]
  simp only [Option.isSome_iff_ne_none]

lemma filed_cons (txHash : Bytes) (l : Log) (ls : List Log) (a : Address) :
    filed txHash (l :: ls) a = filed txHash [l] a ++ filed txHash ls a := by
  rw [filed, filed, filed, ← List.map_append, ← List.filter_append, List.singleton_append]

lemma getD_insert_filed (s : Storage) (txHash : Bytes) (l : Log) (a : Address) :
    getD (s.logs.insert l.contractAddress (s.logs.getD l.contractAddress [] ++ [⟨l, txHash⟩])) a []
      = s.logsOf a ++ filed txHash [l] a := by
  unfold logsOf getD filed
  rw [lookup_insert_eq_ite]
  by_cases ha : a = l.contractAddress
  · subst ha
    simp
  · rw [if_neg ha, List.filter_cons_of_neg (by simpa using fun h => ha h.symm)]
    simp

lemma putEach_apply (txHash : Bytes) (logs : List Log) (s : Storage) :
    ∃ stored, (∀ a, getD stored a [] = s.logsOf a ++ filed txHash (s.storable logs) a) ∧
      putEach txHash logs s = if s.storable logs = logs then .ok () { s with logs := stored }
        else .err .error { s with logs := stored } := by
  induction logs generalizing s with
  | nil => exact ⟨s.logs, fun a => (List.append_nil _).symm, rfl⟩
  | cons l logs ih =>
    unfold putEach putLog
    cases hl : s.getAccount l.contractAddress with
    | none =>
      have hstop : s.storable (l :: logs) = [] := by simp [storable, hl]
      refine ⟨s.logs, fun a => by rw [hstop]; exact (List.append_nil _).symm, ?_⟩
      rw [hstop, if_neg (List.cons_ne_nil _ _).symm]
      exact bind_of_err (gets_bind |>.trans (by rw [hl]; rfl))
    | some account =>
      have hgo : s.storable (l :: logs) = l :: s.storable logs := by simp [storable, hl]
      obtain ⟨stored, hstored, hrun⟩ := ih { s with
        logs := s.logs.insert l.contractAddress (s.logs.getD l.contractAddress [] ++ [⟨l, txHash⟩]) }
      refine ⟨stored, fun a => ?_, ?_⟩
      · rw [hstored, hgo, filed_cons, ← List.append_assoc, ← getD_insert_filed]
        rfl
      · simp only [hgo, List.cons.injEq, true_and]
        exact (bind_of_ok (gets_bind |>.trans (by rw [hl]; rfl))).trans hrun

lemma wp_putEach (txHash : Bytes) (logs : List Log) (s : Storage)
    (hknown : ∀ l ∈ logs, s.getAccount l.contractAddress ≠ none) :
    wp (putEach txHash logs) (fun _ s' => s'.checkPoints = s.checkPoints ∧
      ∀ a, s'.logsOf a = s.logsOf a ++ filed txHash logs a) (fun _ _ => False) s := by
  have hall := storable_eq_self.mpr hknown
  obtain ⟨stored, hstored, hrun⟩ := putEach_apply txHash logs s
  rw [if_pos hall] at hrun
  rw [hall] at hstored
  unfold wp
  rw [hrun]
  exact ⟨rfl, hstored⟩

/-- All or nothing: every log is appended, or there is an error and neither the lists nor the
subscribers have seen anything. -/
def SavedWhole (s : Storage) (txHash : Bytes) (logs : List Log) (r : Outcome GoError Storage Unit) : Prop :=
  (∃ s', r = .ok () s' ∧ ∀ a, s'.logsOf a = s.logsOf a ++ filed txHash logs a) ∨
    ∃ s', r = .err .error s' ∧ (∀ a, s'.logsOf a = s.logsOf a) ∧ s'.triggered = s.triggered

/-- **SAVING LOGS** is all or nothing if and only if all the contracts are known or the first one is not. -/
theorem putLogs_whole_iff (s : Storage) (txHash : Bytes) (logs : List Log) :
    s.SavedWhole txHash logs (putLogs txHash logs s) ↔
      (∀ l ∈ logs, s.getAccount l.contractAddress ≠ none) ∨
        ∀ l ∈ logs.head?, s.getAccount l.contractAddress = none := by
  cases logs with
  | nil => exact iff_of_true (.inr ⟨s, rfl, fun _ => rfl, rfl⟩) (.inr nofun)
  | cons l logs =>
    obtain ⟨stored, hstored, hrun⟩ := putEach_apply txHash (l :: logs) s
    rw [← storable_eq_self, List.head?_cons]
    by_cases hall : s.storable (l :: logs) = l :: logs
    · rw [if_pos hall] at hrun
      rw [hall] at hstored
      exact iff_of_true (.inl ⟨_, bind_of_ok hrun, hstored⟩) (.inl hall)
    rw [if_neg hall] at hrun
    have herr : putLogs txHash (l :: logs) s = .err .error { s with logs := stored } := bind_of_err hrun
    rw [or_iff_right hall, herr]
    cases hl : s.getAccount l.contractAddress with
    | none =>
      have hnone : s.storable (l :: logs) = [] := by simp [storable, hl]
      rw [hnone] at hstored
      refine iff_of_true (.inr ⟨_, rfl, fun a => (hstored a).trans (List.append_nil _), rfl⟩) fun l' hl' => ?_
      cases hl'
      exact hl
    | some account =>
      -- the first log is in its list
      refine iff_of_false ?_ fun h => by simp [hl] at h
      rintro (⟨_, h, -⟩ | ⟨_, h, hsame, -⟩)
      · cases h
      · cases h
        have hfirst := (hstored l.contractAddress).symm.trans (hsame l.contractAddress)
        simp [storable, hl, filed] at hfirst

/-- **A log of a known contract, and one of an unknown one**: the first is stored, and there is an error. -/
theorem first_log_stored :
    ∃ s', putLogs [] [⟨1, [], [], 0⟩, ⟨2, [], [], 0⟩] (putAccount 1 .blank .new) = .err .error s' ∧
    s'.logsOf 1 = [⟨⟨1, [], [], 0⟩, []⟩] ∧ (putAccount 1 .blank .new).logsOf 1 = [] :=
  ⟨_, rfl, rfl, rfl⟩

end Storage

end GrapeDag
