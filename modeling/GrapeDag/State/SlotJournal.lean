/-
THE UNDO LOG OF THE VM'S OWN SLOTS.

`VmStorage.java` over `SimpleStorage.java`. Each put pushes the value it found on one journal;
a checkpoint is the size of that journal, and a revert puts back what lies above it. A slot
that was absent comes back as an explicit zero value, which reads the same.

Main result: `slot_journal`.
-/
import GrapeDag.State.StorageJournal

namespace GrapeDag

open Journalled Storage List

/-! ## The code -/

abbrev SimpleStorage := FinMap Address (FinMap Word Bytes)

namespace SimpleStorage

def containsMapping (s : SimpleStorage) (address : Address) : Bool := (s.lookup address).isSome

/-- `get`; the key is `new Hash(key)`, its last 32 bytes with zeros in front. -/
def get (s : SimpleStorage) (address : Address) (key : Bytes) : Bytes :=
  Storage.rawValue s address (Word.ofBytes key)

/-- `put`, with the previous value -/
def put (address : Address) (key value : Bytes) (s : SimpleStorage) : Bytes × SimpleStorage :=
  (s.get address key, Storage.setMapping s address (Word.ofBytes key) value)

end SimpleStorage

structure SlotChange where
  address : Address
  key : Bytes
  value : Bytes
  deriving Repr, DecidableEq

/-- `VmStorage`; the top of a deque comes first. -/
structure VmStorage where
  storage : SimpleStorage
  changeJournal : List SlotChange
  indices : List Nat

namespace VmStorage

def new (storage : SimpleStorage) : VmStorage := ⟨storage, [], [0]⟩

def get (v : VmStorage) (address : Address) (key : Bytes) : Bytes := v.storage.get address key

/-- `put`; `none` is an `IllegalArgumentException`. -/
def put (address : Address) (key value : Bytes) (v : VmStorage) : Option (Bytes × VmStorage) :=
  if key.length = 32 ∧ value.length ≤ 32 then
    let (prevValue, storage) := v.storage.put address key value
    some (prevValue, { v with
      storage := storage
      changeJournal := ⟨address, key, prevValue⟩ :: v.changeJournal })
  else none

/-- `commit`; `none` is an `IllegalStateException`. -/
def commit (v : VmStorage) : Option VmStorage :=
  match v.indices with
  | [] => none
  | _ :: rest => some { v with indices := rest }

def checkpoint (v : VmStorage) : VmStorage := { v with indices := v.changeJournal.length :: v.indices }

def putBack (s : SimpleStorage) (m : SlotChange) : SimpleStorage :=
  if s.containsMapping m.address then (s.put m.address m.key m.value).2 else s

/-- `revert`; `none` is an `IllegalStateException`. -/
def revert (v : VmStorage) : Option VmStorage :=
  match v.indices with
  | [] => none
  | lastCheckpoint :: rest =>
      let count := v.changeJournal.length - lastCheckpoint
      some { storage := (v.changeJournal.take count).foldl putBack v.storage
             changeJournal := v.changeJournal.drop count
             indices := rest }

inductive Call where
  | put (address : Address) (key value : Bytes)
  | checkpoint | commit | revert

def step (v : VmStorage) : Call → VmStorage
  | .put address key value => ((v.put address key value).map Prod.snd).getD v
  | .checkpoint => v.checkpoint
  | .commit => v.commit.getD v
  | .revert => v.revert.getD v

def run (v : VmStorage) (calls : List Call) : VmStorage := calls.foldl step v

/-- Calls in which every commit and revert has its own checkpoint. -/
inductive Nested : List Call → Prop
  | nil : Nested []
  | put (address : Address) (key value : Bytes) {rest : List Call} (h : Nested rest) :
      Nested (.put address key value :: rest)
  | committed {inner rest : List Call} (hin : Nested inner) (h : Nested rest) :
      Nested (.checkpoint :: inner ++ .commit :: rest)
  | reverted {inner rest : List Call} (hin : Nested inner) (h : Nested rest) :
      Nested (.checkpoint :: inner ++ .revert :: rest)

/-! ## The journal of the library -/

lemma get_put (s : SimpleStorage) (a a' : Address) (k k' value : Bytes) :
    (s.put a k value).2.get a' k'
      = if a' = a ∧ Word.ofBytes k' = Word.ofBytes k then value else s.get a' k' :=
  rawValue_setMapping s a a' _ _ value

def slotLog : Undo SimpleStorage SlotChange (Address → Bytes → Bytes) where
  undo m s := (s.put m.address m.key m.value).2
  obs := SimpleStorage.get
  undo_congr := by
    intro m s s' h
    funext a k
    rw [get_put, get_put, h]

def journal (v : VmStorage) : Journal SimpleStorage SlotChange := ⟨v.storage, v.changeJournal, v.indices⟩

/-- What was changed has a mapping, so `revert` always puts back. -/
def Mapped (v : VmStorage) : Prop := ∀ m ∈ v.changeJournal, v.storage.containsMapping m.address = true

lemma containsMapping_put {s : SimpleStorage} {a : Address}
    (h : s.containsMapping a = true) (a' : Address) (k value : Bytes) :
    (s.put a' k value).2.containsMapping a = true := by
  show ((setMapping s a' _ value).lookup a).isSome = true
  unfold setMapping
  rw [FinMap.lookup_insert_eq_ite]
  split
  · rfl
  · exact h

lemma containsMapping_put_self (s : SimpleStorage) (a : Address) (k value : Bytes) :
    (s.put a k value).2.containsMapping a = true := by
  show ((setMapping s a _ value).lookup a).isSome = true
  unfold setMapping
  rw [FinMap.lookup_insert_eq_ite, if_pos rfl]
  rfl

lemma foldl_putBack (ms : List SlotChange) : ∀ s : SimpleStorage,
    (∀ m ∈ ms, s.containsMapping m.address = true) →
    ms.foldl putBack s = slotLog.undoAll ms s := by
  induction ms with
  | nil => exact fun _ _ => rfl
  | cons m ms ih =>
    intro s h
    have hback : putBack s m = (s.put m.address m.key m.value).2 := if_pos (h m mem_cons_self)
    rw [foldl_cons, hback]
    refine ih _ fun m' hm' => ?_
    exact containsMapping_put (h m' (mem_cons_of_mem m hm')) _ _ _

lemma containsMapping_foldl {a : Address} (ms : List SlotChange) (s : SimpleStorage)
    (h : s.containsMapping a = true) : (ms.foldl putBack s).containsMapping a = true := by
  refine foldlRecOn (motive := fun s : SimpleStorage => s.containsMapping a = true) ms _ h fun s h m _ => ?_
  unfold putBack
  split
  · exact containsMapping_put h _ _ _
  · exact h

/-! ## Steps -/

variable {v : VmStorage}

lemma step_put (address : Address) (key value : Bytes) (v : VmStorage) :
    v.step (.put address key value) = v ∨
      v.step (.put address key value) = ⟨(v.storage.put address key value).2,
        ⟨address, key, v.get address key⟩ :: v.changeJournal, v.indices⟩ := by
  by_cases h : key.length = 32 ∧ value.length ≤ 32
  · right
    show (Option.map Prod.snd (if _ then _ else none)).getD v = _
    rw [if_pos h]
    rfl
  · left
    show (Option.map Prod.snd (if _ then _ else none)).getD v = _
    rw [if_neg h]
    rfl

lemma undo_put (s : SimpleStorage) (a : Address) (k value : Bytes) :
    slotLog.obs (slotLog.undo ⟨a, k, s.get a k⟩ (s.put a k value).2) = slotLog.obs s := by
  show ((s.put a k value).2.put a k (s.get a k)).2.get = s.get
  funext a' k'
  rw [get_put, get_put]
  split
  · rename_i h
    show rawValue s a (Word.ofBytes k) = rawValue s a' (Word.ofBytes k')
    rw [h.1, h.2]
  · rfl

theorem Mapped.step (h : v.Mapped) (call : Call) : (v.step call).Mapped := by
  cases call with
  | put address key value =>
    rcases step_put address key value v with hstep | hstep
    · rw [hstep]
      exact h
    · rw [hstep]
      intro m hm
      rcases mem_cons.mp hm with rfl | hm
      · exact containsMapping_put_self _ _ _ _
      · exact containsMapping_put (h m hm) _ _ _
  | checkpoint => exact h
  | commit =>
    show (v.commit.getD v).Mapped
    unfold commit
    split <;> exact h
  | revert =>
    show (v.revert.getD v).Mapped
    unfold revert
    split
    · exact h
    · intro m hm
      exact containsMapping_foldl _ _ (h m (mem_of_mem_drop hm))

lemma commit_journal {c : Nat} {rest : List Nat} (h : v.indices = c :: rest) :
    v.journal.commit = some (v.step .commit).journal ∧ (v.step .commit).indices = rest := by
  have hstep : v.step .commit = { v with indices := rest } := by
    show v.commit.getD v = _
    unfold commit
    rw [h]
    rfl
  rw [hstep]
  unfold journal
  rw [h]
  exact ⟨rfl, rfl⟩

lemma revert_journal (hm : v.Mapped) {c : Nat} {rest : List Nat} (h : v.indices = c :: rest)
    (hc : c ≤ v.changeJournal.length) :
    v.journal.revert slotLog = some (v.step .revert).journal ∧ (v.step .revert).indices = rest := by
  have hstep : v.step .revert =
      ⟨slotLog.undoAll (v.changeJournal.take (v.changeJournal.length - c)) v.storage,
        v.changeJournal.drop (v.changeJournal.length - c), rest⟩ := by
    show v.revert.getD v = _
    unfold revert
    rw [h, ← foldl_putBack _ _ fun m hm' => hm m (mem_of_mem_take hm')]
    rfl
  rw [hstep]
  unfold journal
  rw [h]
  exact ⟨if_pos hc, rfl⟩

/-! ## Runs -/

/-- `v'` goes on from `v`, with the same indices in use. -/
structure Keeps (v v' : VmStorage) : Prop where
  grows : Journal.Grows slotLog v.journal v'.journal
  indices : v'.indices = v.indices
  mapped : v'.Mapped

lemma Keeps.trans {v1 v2 : VmStorage} (h1 : Keeps v v1) (h2 : Keeps v1 v2) : Keeps v v2 :=
  ⟨h1.grows.trans h2.grows, h2.indices.trans h1.indices, h2.mapped⟩

/-- Run. Nested calls remember where they started, and leave the indices as they were. -/
theorem Nested.keeps {calls : List Call} (h : Nested calls) : ∀ v : VmStorage, v.Mapped →
    Keeps v (v.run calls) := by
  induction h with
  | nil => exact fun v hm => ⟨.refl _, rfl, hm⟩
  | put address key value h ih =>
    intro v hm
    have hput : Keeps v (v.step (.put address key value)) := by
      refine ⟨?_, ?_, hm.step _⟩
      all_goals
        rcases step_put address key value v with hstep | hstep
        all_goals rw [hstep]
      · exact .refl _
      · exact Journal.grows_write (undo_put v.storage address key value)
    exact hput.trans (ih _ hput.mapped)
  | committed hin h ihin ih =>
    intro v hm
    have hinner := ihin v.checkpoint hm
    obtain ⟨hcommit, hrest⟩ := commit_journal hinner.indices
    have hsection : Keeps v ((v.checkpoint.run _).step .commit) :=
      ⟨Journal.grows_commit hinner.grows hcommit, hrest, hinner.mapped.step _⟩
    rw [run, cons_append, foldl_cons, foldl_append]
    exact hsection.trans (ih _ hsection.mapped)
  | reverted hin h ihin ih =>
    intro v hm
    have hinner := ihin v.checkpoint hm
    obtain ⟨hrevert, hrest⟩ := revert_journal hinner.mapped hinner.indices hinner.grows.length_le
    have hsection : Keeps v ((v.checkpoint.run _).step .revert) :=
      ⟨Journal.grows_revert hinner.grows hrevert, hrest, hinner.mapped.step _⟩
    rw [run, cons_append, foldl_cons, foldl_append]
    exact hsection.trans (ih _ hsection.mapped)

lemma mapped_run (calls : List Call) : ∀ v : VmStorage, v.Mapped → (v.run calls).Mapped := by
  induction calls with
  | nil => exact fun _ h => h
  | cons call calls ih => exact fun v h => ih _ (h.step call)

/-- **THE SLOT JOURNAL.** Whatever was called before: after nested calls, among them committed
sections, a revert gives back the value that every slot had at its checkpoint; a commit changes no
value; and a put returns the value that get gave before. -/
theorem slot_journal (storage : SimpleStorage) (history : List Call) {calls : List Call}
    (h : Nested calls) :
    (((new storage).run history).run (.checkpoint :: calls ++ [.revert])).get
        = ((new storage).run history).get ∧
      (((new storage).run history).run (.checkpoint :: calls ++ [.commit])).get
        = (((new storage).run history).run (.checkpoint :: calls)).get ∧
      ∀ address key value prevValue v',
        ((new storage).run history).put address key value = some (prevValue, v') →
        prevValue = ((new storage).run history).get address key := by
  have hmapped : ((new storage).run history).Mapped := mapped_run history _ nofun
  generalize (new storage).run history = v at hmapped
  have hinner := h.keeps v.checkpoint hmapped
  refine ⟨?_, ?_, fun address key value prevValue v' hput => ?_⟩
  · obtain ⟨hrevert, -⟩ := revert_journal hinner.mapped hinner.indices hinner.grows.length_le
    rw [run, foldl_append]
    have hgrows : Journal.Grows slotLog v.journal.checkpoint (v.checkpoint.run calls).journal := hinner.grows
    exact (Journal.revert_restores hgrows hinner.indices hrevert).1
  · rw [run, foldl_append]
    show ((v.checkpoint.run calls).commit.getD _).get = _
    unfold commit
    split
    · rfl
    · rfl
  · unfold put at hput
    split at hput
    · exact (congrArg Prod.fst (Option.some.inj hput)).symm
    · cases hput

def committedInside : List Call :=
  [.put 5 (natToBytes 32 1) [7], .checkpoint, .put 5 (natToBytes 32 1) [8], .commit]

lemma nested_committedInside : Nested committedInside :=
  .put _ _ _ (@Nested.committed [.put 5 (natToBytes 32 1) [8]] [] (.put _ _ _ .nil) .nil)

theorem committed_inside_reverted : ((new ∅).run (.checkpoint :: committedInside)).get 5 [1] = [8] ∧
      ((new ∅).run (.checkpoint :: committedInside ++ [.revert])).get = (new ∅).get :=
  ⟨by decide +kernel, (slot_journal ∅ [] nested_committedInside).1⟩

end VmStorage

end GrapeDag
