/-
CONFIRMED AND UNCONFIRMED CONTRACT TRANSACTIONS.

`src/smc/store.go` and `src/smc/pool.go`: two maps under the hash of a transaction. The
contract stage moves what it has executed to the confirmed pool. `SendRawTransaction` puts what
it takes into the unconfirmed pool and TAKES IT OUT of the confirmed one.

Main result: `confirmation_final_iff`.
-/
import GrapeDag.Dag.Admission

namespace GrapeDag

open List FinMap

/-! ## The pools -/

structure ConfirmedTx where
  tx : Transaction
  usedFuel : Int
  statusMessage : GoString
  /-- the status `Successful`, else `Failed` -/
  successful : Bool
  pinTxNumber : Int
  pinTxHash : GoString
  txIndex : Int
  cumulativeGasUsed : Int
  deriving Repr, DecidableEq

/-- `IdentifiableTx.Id`: the digits of the hash. -/
def Transaction.id (c : Crypto) (tx : Transaction) : GoString := ascii "0x" ++ Hex.encode (tx.getHash c)

inductive UnifiedTx where
  | confirmed (tx : ConfirmedTx)
  | unconfirmed (tx : Transaction)
  deriving Repr, DecidableEq

structure SmcPools where
  unconfirmedPool : FinMap GoString Transaction
  confirmedPool : FinMap GoString ConfirmedTx

namespace SmcPools

def empty : SmcPools := ⟨∅, ∅⟩

section Calls

variable (c : Crypto)

def addConfirmed (s : SmcPools) (t : ConfirmedTx) : SmcPools :=
  ⟨s.unconfirmedPool.erase (t.tx.id c), s.confirmedPool.insert (t.tx.id c) t⟩

def removeUnconfirmed (s : SmcPools) (tx : Transaction) : SmcPools :=
  { s with unconfirmedPool := s.unconfirmedPool.erase (tx.id c) }

def addUnconfirmed (s : SmcPools) (tx : Transaction) : SmcPools :=
  ⟨s.unconfirmedPool.insert (tx.id c) tx, s.confirmedPool.erase (tx.id c)⟩

end Calls

def findConfirmed (s : SmcPools) (hash : GoString) : Option ConfirmedTx := s.confirmedPool.lookup hash

/-- `FindAny`: the confirmed pool is asked first. -/
def findAny (s : SmcPools) (hash : GoString) : Option UnifiedTx :=
  match s.confirmedPool.lookup hash with
  | some t => some (.confirmed t)
  | none => (s.unconfirmedPool.lookup hash).map .unconfirmed

/-! ## Sequences of calls -/

/-- A call that changes the pools. The ledger that a submitted transaction is checked against is
whatever it is at that moment. -/
inductive Call where
  | sendRawTransaction (L : Ledger) (pbTx : GoString)
  | addConfirmed (t : ConfirmedTx)
  | removeUnconfirmed (tx : Transaction)

section

variable (c : Crypto) (cfg : TxConfiguration) (network : Nat) (parse : Bytes → Option Transaction)

def submitted : Call → Option Transaction
  | .sendRawTransaction L pbTx =>
      match GrapeDag.sendRawTransaction c cfg network L parse pbTx with
      | .ok (tx, .contractPool) => some tx
      | _ => none
  | .addConfirmed _ | .removeUnconfirmed _ => none

def step (s : SmcPools) (e : Call) : SmcPools :=
  match e with
  | .sendRawTransaction _ _ =>
      match submitted c cfg network parse e with
      | some tx => s.addUnconfirmed c tx
      | none => s
  | .addConfirmed t => s.addConfirmed c t
  | .removeUnconfirmed tx => s.removeUnconfirmed c tx

def run (calls : List Call) : SmcPools := calls.foldl (step c cfg network parse) empty

/-- Confirmation is final along the calls: at every moment a transaction that was confirmed
before is found as confirmed, and none is in both pools. -/
structure Final (calls : List Call) : Prop where
  kept : ∀ before between, before ++ between <+: calls → ∀ hash t,
    (run c cfg network parse before).findConfirmed hash = some t →
    ∃ t', (run c cfg network parse (before ++ between)).findConfirmed hash = some t' ∧
      t'.tx.id c = t.tx.id c
  apart : ∀ before, before <+: calls → ∀ hash,
    (run c cfg network parse before).confirmedPool.lookup hash = none ∨
      (run c cfg network parse before).unconfirmedPool.lookup hash = none

/-- The call does not submit a transaction that is confirmed. -/
def NotResubmitted (s : SmcPools) (e : Call) : Prop :=
  ∀ tx, submitted c cfg network parse e = some tx → s.findConfirmed (tx.id c) = none

end

/-! ## What every call keeps -/

/-- No hash is in both pools. -/
def Apart (s : SmcPools) : Prop :=
  ∀ hash, s.confirmedPool.lookup hash = none ∨ s.unconfirmedPool.lookup hash = none

/-- Confirmed transactions are filed under their own hash. -/
def Keyed (c : Crypto) (s : SmcPools) : Prop :=
  ∀ hash t, s.confirmedPool.lookup hash = some t → t.tx.id c = hash

section

variable {c : Crypto} {cfg : TxConfiguration} {network : Nat}
  {parse : Bytes → Option Transaction} {s : SmcPools}

lemma Apart.addConfirmed (h : s.Apart) (t : ConfirmedTx) : (s.addConfirmed c t).Apart := by
  intro hash
  show (s.confirmedPool.insert (t.tx.id c) t).lookup hash = none ∨
    (s.unconfirmedPool.erase (t.tx.id c)).lookup hash = none
  rw [lookup_erase_eq_ite]
  by_cases hid : hash = t.tx.id c
  · simp [hid]
  · simpa [hid] using h hash

lemma Apart.removeUnconfirmed (h : s.Apart) (tx : Transaction) : (s.removeUnconfirmed c tx).Apart := by
  intro hash
  show s.confirmedPool.lookup hash = none ∨ (s.unconfirmedPool.erase (tx.id c)).lookup hash = none
  rw [lookup_erase_eq_ite]
  by_cases hid : hash = tx.id c
  · simp [hid]
  · simpa [hid] using h hash

lemma Apart.addUnconfirmed (h : s.Apart) (tx : Transaction) : (s.addUnconfirmed c tx).Apart := by
  intro hash
  show (s.confirmedPool.erase (tx.id c)).lookup hash = none ∨
    (s.unconfirmedPool.insert (tx.id c) tx).lookup hash = none
  rw [lookup_erase_eq_ite]
  by_cases hid : hash = tx.id c
  · simp [hid]
  · simpa [hid] using h hash

lemma Keyed.addConfirmed (h : s.Keyed c) (t : ConfirmedTx) : (s.addConfirmed c t).Keyed c := by
  intro hash t' hfound
  have hfound' : (s.confirmedPool.insert (t.tx.id c) t).lookup hash = some t' := hfound
  rw [lookup_insert_eq_ite] at hfound'
  by_cases hid : hash = t.tx.id c
  · rw [if_pos hid] at hfound'
    rw [← Option.some.inj hfound', hid]
  · rw [if_neg hid] at hfound'
    exact h hash t' hfound'

lemma Keyed.addUnconfirmed (h : s.Keyed c) (tx : Transaction) : (s.addUnconfirmed c tx).Keyed c := by
  intro hash t' hfound
  have hfound' : (s.confirmedPool.erase (tx.id c)).lookup hash = some t' := hfound
  rw [lookup_erase_eq_ite] at hfound'
  by_cases hid : hash = tx.id c
  · rw [if_pos hid] at hfound'
    cases hfound'
  · rw [if_neg hid] at hfound'
    exact h hash t' hfound'

lemma apart_keyed_step (h : s.Apart ∧ s.Keyed c) (e : Call) :
    (step c cfg network parse s e).Apart ∧ (step c cfg network parse s e).Keyed c := by
  obtain ⟨hapart, hkeyed⟩ := h
  cases e with
  | sendRawTransaction L pbTx =>
    unfold step
    cases submitted c cfg network parse (.sendRawTransaction L pbTx) with
    | none => exact ⟨hapart, hkeyed⟩
    | some tx => exact ⟨hapart.addUnconfirmed tx, hkeyed.addUnconfirmed tx⟩
  | addConfirmed t => exact ⟨hapart.addConfirmed t, hkeyed.addConfirmed t⟩
  | removeUnconfirmed tx => exact ⟨hapart.removeUnconfirmed tx, hkeyed⟩

lemma run_append (calls calls' : List Call) : run c cfg network parse (calls ++ calls')
      = calls'.foldl (step c cfg network parse) (run c cfg network parse calls) :=
  foldl_append

lemma apart_keyed_run (calls : List Call) :
    (run c cfg network parse calls).Apart ∧ (run c cfg network parse calls).Keyed c := by
  induction calls using reverseRecOn with
  | nil => exact ⟨fun _ => .inl rfl, nofun⟩
  | append_singleton calls e ih =>
    rw [run_append]
    exact apart_keyed_step ih e

/-! ## What stays confirmed -/

lemma findConfirmed_step {e : Call} (h : NotResubmitted c cfg network parse s e) {hash : GoString}
    (hfound : (s.findConfirmed hash).isSome) :
    ((step c cfg network parse s e).findConfirmed hash).isSome := by
  cases e with
  | sendRawTransaction L pbTx =>
    unfold step
    cases hsub : submitted c cfg network parse (.sendRawTransaction L pbTx) with
    | none => exact hfound
    | some tx =>
      have hne : hash ≠ tx.id c := by
        intro hid
        rw [hid, h tx hsub] at hfound
        cases hfound
      show ((s.confirmedPool.erase (tx.id c)).lookup hash).isSome
      rw [lookup_erase_eq_ite, if_neg hne]
      exact hfound
  | addConfirmed t =>
    show ((s.confirmedPool.insert (t.tx.id c) t).lookup hash).isSome
    rw [lookup_insert_eq_ite]
    split
    · rfl
    · exact hfound
  | removeUnconfirmed tx => exact hfound

lemma findConfirmed_submitted {e : Call} {tx : Transaction}
    (h : submitted c cfg network parse e = some tx) :
    (step c cfg network parse s e).findConfirmed (tx.id c) = none := by
  cases e with
  | sendRawTransaction L pbTx =>
    unfold step
    rw [h]
    exact AList.lookup_erase _ _
  | addConfirmed t | removeUnconfirmed t => cases h

lemma findConfirmed_run {before between : List Call} (h : ∀ some' e, some' ++ [e] <+: between →
      NotResubmitted c cfg network parse (run c cfg network parse (before ++ some')) e)
    {hash : GoString} (hfound : ((run c cfg network parse before).findConfirmed hash).isSome) :
    ((run c cfg network parse (before ++ between)).findConfirmed hash).isSome := by
  induction between using reverseRecOn with
  | nil => simpa using hfound
  | append_singleton between e ih =>
    have hstart := ih fun some' e' hp => h some' e' (hp.trans (prefix_append between [e]))
    have hlast := h between e (prefix_refl _)
    rw [← append_assoc, run_append]
    exact findConfirmed_step hlast hstart

/-- **Confirmation is final along a sequence of calls exactly if none of them submits a transaction
that is confirmed at that moment.** -/
theorem confirmation_final_iff (calls : List Call) : Final c cfg network parse calls ↔
      ∀ before e, before ++ [e] <+: calls →
        NotResubmitted c cfg network parse (run c cfg network parse before) e := by
  constructor
  · intro h before e hp tx hsub
    -- a confirmed transaction would be lost by this very call
    cases hfound : (run c cfg network parse before).findConfirmed (tx.id c) with
    | none => rfl
    | some t =>
      obtain ⟨t', hkept, -⟩ := h.kept before [e] hp (tx.id c) t hfound
      rw [run_append] at hkept
      have hlost := findConfirmed_submitted (s := run c cfg network parse before) hsub
      rw [foldl_cons, foldl_nil, hlost] at hkept
      cases hkept
  · intro h
    refine ⟨?_, fun before _ => (apart_keyed_run before).1⟩
    intro before between hp hash t hfound
    have hsteps : ∀ some' e, some' ++ [e] <+: between →
        NotResubmitted c cfg network parse (run c cfg network parse (before ++ some')) e := by
      intro some' e hp'
      refine h (before ++ some') e ?_
      rw [append_assoc]
      exact ((prefix_append_right_inj before).mpr hp').trans hp
    have hisSome : ((run c cfg network parse before).findConfirmed hash).isSome := by
      rw [hfound]
      rfl
    obtain ⟨t', hkept⟩ := Option.isSome_iff_exists.mp (findConfirmed_run hsteps hisSome)
    have hid := (apart_keyed_run before).2 hash t hfound
    have hid' := (apart_keyed_run (before ++ between)).2 hash t' hkept
    exact ⟨t', hkept, hid'.trans hid.symm⟩

end

/-! ## A transaction that is submitted twice -/

def sampleConfirmed : ConfirmedTx := ⟨sampleCall 500, 500, ascii "0x", true, 1, ascii "0x", 0, 500⟩

def sampleCalls : List Call :=
  [.sendRawTransaction (.sampleFunded 500) (ascii "00"), .addConfirmed sampleConfirmed,
   .sendRawTransaction (.sampleFunded 500) (ascii "00")]

/-- **Executed, found, and unconfirmed again**: the second time the text is sent, the transaction
leaves the confirmed pool, and `FindAny` shows it as unconfirmed. -/
theorem resubmitted_not_final :
    ((run .sampleEth .default 0 (fun _ => some (sampleCall 500)) (sampleCalls.take 2)).findConfirmed
        ((sampleCall 500).id .sampleEth)).isSome = true ∧
      (run .sampleEth .default 0 (fun _ => some (sampleCall 500)) sampleCalls).findAny
        ((sampleCall 500).id .sampleEth) = some (.unconfirmed (sampleCall 500)) ∧
      ¬ Final .sampleEth .default 0 (fun _ => some (sampleCall 500)) sampleCalls := by
  have hfound : ((run .sampleEth .default 0 (fun _ => some (sampleCall 500))
      (sampleCalls.take 2)).findConfirmed ((sampleCall 500).id .sampleEth)).isSome = true := by
    decide +kernel
  refine ⟨hfound, by decide +kernel, fun h => ?_⟩
  obtain ⟨t, ht⟩ := Option.isSome_iff_exists.mp hfound
  obtain ⟨t', hkept, -⟩ := h.kept (sampleCalls.take 2) (sampleCalls.drop 2)
    (take_append_drop 2 sampleCalls ▸ prefix_refl _) _ t ht
  cases hkept

end SmcPools

end GrapeDag
