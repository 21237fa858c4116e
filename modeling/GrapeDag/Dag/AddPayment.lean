/-
ADDING A PAYMENT, ALL OR NOTHING.

`AddTxDag` of `src/dag/add.go` appends the links before `addToDag` looks at the balances, so a
payment that is refused leaves its links behind. And if a tip is nil, or there is none, it adds
nothing and returns no error.

Main result: `add_all_or_nothing_iff`.
-/
import GrapeDag.Dag.FourViews

namespace GrapeDag

namespace Dag

variable (width : Nat) (sign : NodeId → Bytes) (x : Site) (choice : List (Option NodeId)) (d : Dag)

/-- `uuIDs` and `signatures`, where `sign` has the signatures of the vertices. -/
def returned (tips : List (Option NodeId)) : List NodeId × FinMap NodeId Bytes :=
  if approveTx tips then
    (tips.filterMap id, (tips.filterMap id).foldl (fun m t => m.insert t (sign t)) ∅)
  else ([], ∅)

/-- `AddTxDag` of a payment; with an error it returns nothing else. -/
def addPayment : GoPure (List NodeId × FinMap NodeId Bytes) × Dag := (do
    (d.addTxDag width true x choice).1
    return returned sign (← d.tips width true choice),
  (d.addTxDag width true x choice).2)

/-- What an addition that failed leaves alone. -/
structure Unchanged (d d' : Dag) : Prop where
  nodes : d'.nodes = d.nodes
  links : d'.links = d.links
  tips : ∀ v, d'.counter.isTip v = d.counter.isTip v
  balances : ∀ w, d'.ledger.effective w = d.ledger.effective w

/-- The vertex is new in the DAG, and its targets, each of them once, are `ids`, with the signatures
in `signatures`. -/
structure Added (ids : List NodeId) (signatures : FinMap NodeId Bytes) (d d' : Dag) : Prop where
  length : d'.nodes.length = d.nodes.length + 1
  node : d'.nodes.getLast? = some { x.node [] with targets := ids }
  distinct : ids.Nodup
  signatures : ∀ t, signatures.lookup t = if t ∈ ids then some (sign t) else none

/-- An addition changes nothing, or adds the whole site. -/
def AllOrNothing : Prop :=
  ((d.addPayment width sign x choice).1 = .error .error → Unchanged d (d.addPayment width sign x choice).2) ∧
  ∀ ids signatures, (d.addPayment width sign x choice).1 = .ok (ids, signatures) →
    Added sign x ids signatures d (d.addPayment width sign x choice).2

variable {width sign x choice d}

lemma lookup_signatures (ids : List NodeId) (t : NodeId) : ∀ m : FinMap NodeId Bytes,
    (ids.foldl (fun m t => m.insert t (sign t)) m).lookup t
      = if t ∈ ids then some (sign t) else m.lookup t := by
  induction ids with
  | nil => exact fun m => by simp
  | cons i ids ih =>
    intro m
    rw [List.foldl_cons, ih, FinMap.lookup_insert_eq_ite]
    by_cases ht : t ∈ ids
    · simp [ht]
    · by_cases hi : t = i
      · simp [hi]
      · simp [ht, hi]

lemma nodup_filterMap_iff {tips : List (Option NodeId)} (h : tips.all (·.isSome) = true) :
    (tips.filterMap id).Nodup ↔ tips.Nodup := by
  have hmap : (tips.filterMap id).map some = tips := by
    induction tips with
    | nil => rfl
    | cons t tips ih =>
      rw [List.all_cons, Bool.and_eq_true] at h
      obtain ⟨i, rfl⟩ := Option.isSome_iff_exists.mp h.1
      exact congrArg (some i :: ·) (ih h.2)
  rw [← List.nodup_map_iff (Option.some_injective NodeId), hmap]

section Outcomes

variable {tips : List (Option NodeId)} (htips : d.tips width true choice = .ok tips)
include htips

lemma addPayment_unapproved (h : approveTx tips = false) :
    d.addPayment width sign x choice = (.ok ([], ∅), d) := by
  unfold addPayment addTxDag
  simp only [htips, h, Bool.false_eq_true, if_false]
  exact Prod.ext (congrArg Except.ok (if_neg (by rw [h]; exact Bool.false_ne_true))) rfl

lemma addPayment_refused (h : approveTx tips = true)
    (hvalid : (d.ledger.addToDag x.toPayment).1 = false) :
    d.addPayment width sign x choice = (.error .error,
      { d with ledger := (d.ledger.addToDag x.toPayment).2 }.link x.version (tips.filterMap id)) := by
  have hrefused : ((d.link x.version (tips.filterMap id)).ledger.addToDag x.toPayment).1 = false := hvalid
  unfold addPayment addTxDag
  simp only [htips, h, if_true, addToDag_refused hrefused, Bool.false_eq_true, if_false]
  rfl

lemma addPayment_accepted (h : approveTx tips = true)
    (hvalid : (d.ledger.addToDag x.toPayment).1 = true) :
    d.addPayment width sign x choice = (.ok (tips.filterMap id,
        (tips.filterMap id).foldl (fun m t => m.insert t (sign t)) ∅),
      ((d.link x.version (tips.filterMap id)).addToDag (x.node []) (tips.filterMap id)).2) := by
  have haccepted : ((d.link x.version (tips.filterMap id)).ledger.addToDag x.toPayment).1 = true := hvalid
  unfold addPayment addTxDag
  simp only [htips, h, if_true, addToDag_accepted haccepted]
  exact Prod.ext (congrArg Except.ok (if_pos h)) rfl

end Outcomes

/-- **ALL OR NOTHING.** For every DAG, balance cache, payment and choice of tips: `AddTxDag` that
returns an error has changed nothing, and one that returns none has added the vertex with the
targets it returns, if and only if it finds tips that are not nil and distinct and the payment is
covered, or panics because there is no genesis. -/
theorem add_all_or_nothing_iff (width : Nat) (sign : NodeId → Bytes) (x : Site)
    (choice : List (Option NodeId)) (d : Dag) :
    AllOrNothing width sign x choice d ↔ ∀ tips, d.tips width true choice = .ok tips →
        approveTx tips = true ∧ tips.Nodup ∧ (d.ledger.addToDag x.toPayment).1 = true := by
  unfold AllOrNothing
  cases htips : d.tips width true choice with
  | error e =>
    have hpanic : d.addPayment width sign x choice = (.error .panic, d) := by
      unfold addPayment addTxDag
      unfold Dag.tips at htips
      rw [if_pos rfl] at htips
      split at htips
      · cases htips
        simp [Dag.tips, *]
        rfl
      · cases htips
    rw [hpanic]
    refine iff_of_true ⟨?_, ?_⟩ ?_
    · intro h
      cases h
    · intro _ _ h
      cases h
    · intro _ h
      cases h
  | ok tips =>
    simp only [Except.ok.injEq, forall_eq']
    cases happrove : approveTx tips with
    | false =>
      rw [addPayment_unapproved htips happrove]
      refine iff_of_false (fun h => ?_) fun h => Bool.false_ne_true h.1
      have hadded := (h.2 [] ∅ rfl).length
      exact absurd hadded (Nat.ne_of_lt (Nat.lt_succ_self _))
    | true =>
      have hsome : tips ≠ [] ∧ tips.all (·.isSome) = true := by
        simpa [approveTx] using happrove
      cases hvalid : (d.ledger.addToDag x.toPayment).1 with
      | false =>
        rw [addPayment_refused htips happrove hvalid]
        refine iff_of_false (fun h => ?_) fun h => Bool.false_ne_true h.2.2
        have hlinks := (h.1 rfl).links
        obtain ⟨t, rest, rfl⟩ := List.exists_cons_of_ne_nil hsome.1
        obtain ⟨i, rfl⟩ := Option.isSome_iff_exists.mp (List.all_eq_true.mp hsome.2 t List.mem_cons_self)
        simp [link] at hlinks
      | true =>
        rw [addPayment_accepted htips happrove hvalid]
        refine ⟨fun h => ⟨rfl, ?_, rfl⟩, fun h => ⟨nofun, ?_⟩⟩
        · exact (nodup_filterMap_iff hsome.2).mp (h.2 _ _ rfl).distinct
        intro ids signatures hok
        obtain ⟨rfl, rfl⟩ := Prod.mk.inj (Except.ok.inj hok)
        have haccepted : ((d.link x.version (tips.filterMap id)).ledger.addToDag x.toPayment).1
            = true := hvalid
        rw [addToDag_accepted haccepted]
        refine ⟨by simp [link], by simp, (nodup_filterMap_iff hsome.2).mpr h.2.1, ?_⟩
        intro t
        rw [lookup_signatures]
        rfl

/-- A payment of a wallet without money returns an error, and its link to genesis stays. -/
theorem refused_payment_leaves_link :
    (sampleLeader.addPayment 5 (fun _ => []) ⟨⟨1, 1, [1], 501, 500, 10, false⟩, 0, 0⟩ []).1
        = .error .error ∧
      (sampleLeader.addPayment 5 (fun _ => []) ⟨⟨1, 1, [1], 501, 500, 10, false⟩, 0, 0⟩ []).2.links
        = [⟨⟨1, 0, 0⟩, 0⟩] ∧ sampleLeader.links = [] := by
  refine ⟨rfl, ?_, rfl⟩
  decide +kernel

end Dag

end GrapeDag
