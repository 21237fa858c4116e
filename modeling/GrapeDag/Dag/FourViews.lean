/-
ONE GRAPH, FOUR VIEWS.

Runs of `AddTxDag`, `InsertTxDag`, `InsertIfNotExist` and `ReconcileMissingTargets` from
`newDag`. A vertex that finds only some of its targets has no links; `ReconcileMissingTargets`
writes no sources and no edge lookup; and a target that is found in a pin is a copy, so that its
vertex does not know the source when it enters the DAG later.

Main result: `views_agree`.
-/
import GrapeDag.Dag.Graph

namespace GrapeDag

open ConfirmationCounter List

namespace Dag

/-! ## Agreement -/

/-- The four views agree on the vertices of the DAG. -/
def Agree (d : Dag) : Prop :=
  ∀ a ∈ d.ids, ∀ b ∈ d.ids, (b ∈ d.targetsOf a ↔ a ∈ d.sourcesOf b) ∧
    (a ∈ d.sourcesOf b ↔ b ∈ d.linksOf a) ∧ (b ∈ d.linksOf a ↔ b ∈ d.edgesOf a)

/-- No view knows the id. -/
structure Unmentioned (n : NodeId) (d : Dag) : Prop where
  new : n ∉ d.ids
  targets : ∀ a, n ∉ d.targetsOf a
  links : ∀ a, n ∉ d.linksOf a
  linked : d.linksOf n = []
  edges : ∀ a, n ∉ d.edgesOf a

structure Invariant (d : Dag) : Prop where
  agree : d.Agree
  sources : ∀ a b, a ∈ d.sourcesOf b → a ∈ d.ids
  edges : ∀ a b, b ∈ d.edgesOf a → a ∈ d.ids
  counted : ∀ i v, d.counter.cache.lookup i = some v → v.id ∈ d.ids

variable {d d' : Dag} {n : NodeId} {known linked : List NodeId}

lemma mem_ids_of_targetsOf {a b : NodeId} (h : b ∈ d.targetsOf a) : a ∈ d.ids := by
  obtain ⟨v, hv, rfl, _⟩ := mem_targetsOf.mp h
  exact mem_map_of_mem hv

lemma mem_ids_of_sourcesOf {a b : NodeId} (h : a ∈ d.sourcesOf b) : b ∈ d.ids := by
  obtain ⟨v, hv, rfl, _⟩ := mem_sourcesOf.mp h
  exact mem_map_of_mem hv

/-- Step. A new vertex whose links are its targets in the DAG. -/
theorem Invariant.grown (h : d.Invariant) (hn : d.Unmentioned n) (g : Grown n known linked d d')
    (hself : n ∉ known) (hknown : ∀ b ∈ known, b ∈ d.ids → b ∈ linked)
    (hlinked : ∀ b ∈ linked, b ∈ known)
    (hcounted : ∀ i v, d'.counter.cache.lookup i = some v → v.id ∈ d'.ids) : d'.Invariant := by
  refine ⟨fun a ha b hb => ?_, fun a b hab => ?_, fun a b hab => ?_, hcounted⟩
  · rw [g.targets, g.sources, g.links, g.edges]
    rcases (g.ids a).mp ha with ha | rfl
    · -- an old vertex has the edges of before
      have hne : a ≠ n := fun heq => hn.new (heq ▸ ha)
      simp only [hne, false_and, or_false]
      rcases (g.ids b).mp hb with hb | rfl
      · exact h.agree a ha b hb
      · have hsource : a ∉ d.sourcesOf b := fun hs => hn.new (mem_ids_of_sourcesOf hs)
        simp only [hn.targets a, hsource, hn.links a, hn.edges a, iff_self, and_self]
    · -- the new vertex has the edges it brings
      have htarget : b ∉ d.targetsOf a := fun ht => hn.new (mem_ids_of_targetsOf ht)
      have hsource : a ∉ d.sourcesOf b := fun hs => hn.new (h.sources a b hs)
      have hlink : b ∉ d.linksOf a := by
        rw [hn.linked]
        exact not_mem_nil
      have hedge : b ∉ d.edgesOf a := fun he => hn.new (h.edges a b he)
      simp only [htarget, hsource, hlink, hedge, false_or, true_and]
      rcases (g.ids b).mp hb with hb | rfl
      · have hsame : b ∈ linked ↔ b ∈ known := ⟨hlinked b, fun hk => hknown b hk hb⟩
        simp only [hb, and_true, hsame, iff_self, and_self]
      · have hnot : b ∉ linked := fun hl => hself (hlinked b hl)
        simp only [hself, hnot, false_and, iff_self, and_self]
  · rw [g.ids]
    rcases (g.sources a b).mp hab with hold | ⟨rfl, _⟩
    · exact .inl (h.sources a b hold)
    · exact .inr rfl
  · rw [g.ids]
    rcases (g.edges a b).mp hab with hold | ⟨rfl, _⟩
    · exact .inl (h.edges a b hold)
    · exact .inr rfl

lemma Invariant.withLedger (h : d.Invariant) (L : Ledger) :
    Invariant { d with ledger := L } := ⟨h.agree, h.sources, h.edges, h.counted⟩

variable {ids : List NodeId} {x : Site} {choice : List (Option NodeId)}

lemma counted_add {c : ConfirmationCounter} {x : Vertex}
    (h : ∀ i v, c.cache.lookup i = some v → v.id ∈ ids) (i : NodeId) (v : Vertex)
    (hv : (c.add x).cache.lookup i = some v) : v.id ∈ ids ∨ v.id = x.id := by
  rw [lookup_cache_add] at hv
  split at hv
  · obtain rfl := Option.some.inj hv
    exact .inr rfl
  · exact .inl (h i v hv)

lemma counter_addToDag {missing : List NodeId} (h : (d.ledger.addToDag x.toPayment).1 = true) :
    (d.addToDag (x.node missing) known).2.counter = d.counter.add { x.toPayment with targets := known } := by
  rw [addToDag_accepted h]

/-! ## The operations -/

lemma Invariant.addToDag (h : d.Invariant) (hn : d.Unmentioned x.id) {missing : List NodeId}
    (hself : x.id ∉ known) (hout : ∀ b ∈ known, b ∉ d.ids) :
    (d.addToDag (x.node missing) known).2.Invariant := by
  cases hvalid : (d.ledger.addToDag x.toPayment).1 with
  | false =>
    rw [addToDag_refused hvalid]
    exact h.withLedger _
  | true =>
    have g : Grown x.id known [] d (d.addToDag (x.node missing) known).2 := grown_addToDag hvalid
    refine h.grown hn g hself (fun b hb hin => absurd hin (hout b hb)) nofun
      fun i v hv => ?_
    rw [counter_addToDag hvalid] at hv
    exact (g.ids v.id).mpr (counted_add h.counted i v hv)

lemma Invariant.addLinked (h : d.Invariant) (hn : d.Unmentioned x.id) (hself : x.id ∉ known)
    (hvalid : (d.ledger.addToDag x.toPayment).1 = true)
    (hd' : d' = (d.addToDag (x.node []) known).2.link x.version known) : d'.Invariant := by
  have g : Grown x.id known [] d (d.addToDag (x.node []) known).2 := grown_addToDag hvalid
  subst hd'
  refine h.grown hn ⟨g.ids, g.targets, g.sources, fun a b => ?_, g.edges⟩ hself
    (fun b hb _ => hb) (fun b hb => hb) fun i v hv => ?_
  · rw [mem_linksOf_link, g.links]
    simp only [not_mem_nil, and_false, or_false]
    rfl
  · have hv : (d.addToDag (x.node []) known).2.counter.cache.lookup i = some v := hv
    rw [counter_addToDag hvalid] at hv
    exact (g.ids v.id).mpr (counted_add h.counted i v hv)

lemma Invariant.link (h : d.Invariant) {x : VersionedId} (hn : x.id ∉ d.ids)
    (targets : List NodeId) : (d.link x targets).Invariant := by
  refine ⟨fun a ha b hb => ?_, h.sources, h.edges, h.counted⟩
  have hne : a ≠ x.id := fun heq => hn (heq ▸ ha)
  rw [mem_linksOf_link]
  simp only [hne, false_and, or_false]
  exact h.agree a ha b hb

lemma addToDag_link (x : VersionedId) (targets : List NodeId) (node : Node) (known : List NodeId) :
    ((d.link x targets).addToDag node known).2 = (d.addToDag node known).2.link x targets := by
  unfold Dag.addToDag
  have hledger : (d.link x targets).ledger = d.ledger := rfl
  rw [hledger]
  dsimp only
  split <;> rfl

/-- A vertex that `InsertTxDag` can insert without a view falling behind: it is in the DAG, or its
payment is refused, or no view mentions it and its targets are all found, or none is in the
DAG. -/
def CleanInsert (x : Site) (ids : List NodeId) (d : Dag) : Prop :=
  x.id ∈ d.ids ∨ (d.ledger.addToDag x.toPayment).1 = false ∨
    (d.Unmentioned x.id ∧ x.id ∉ ids ∧ ((∀ i ∈ ids, i ∈ d.ids ∨ d.pinned i = true) ∨ ∀ i ∈ ids, i ∉ d.ids))

lemma found_subset (ids : List NodeId) : ∀ i ∈ d.found ids, i ∈ ids :=
  fun _ hi => mem_of_mem_filter hi

lemma found_all_iff : (d.found ids).length = ids.length ↔ ∀ i ∈ ids, i ∈ d.ids ∨ d.pinned i = true := by
  unfold found
  rw [length_filter_eq_length_iff]
  simp only [Bool.or_eq_true, has_iff]

theorem Invariant.insertTxDag (h : d.Invariant) (versioncollision : Bool)
    (hclean : d.CleanInsert x ids) : (d.insertTxDag versioncollision x ids).2.Invariant := by
  unfold Dag.insertTxDag
  by_cases hhas : d.has x.id = true
  · rw [if_pos hhas]
    exact h
  rw [if_neg hhas]
  rcases hclean with hin | hrefused | ⟨hn, hself, htargets⟩
  · exact absurd (has_iff.mpr hin) hhas
  · -- a refused payment changes the wallet cache at most
    simp only [addToDag_refused hrefused, Bool.false_eq_true, if_false]
    split
    · exact h.withLedger _
    · split
      · exact h
      · exact h.withLedger _
  · have hnot : x.id ∉ d.found ids := fun hf => hself (found_subset ids _ hf)
    by_cases hall : (d.found ids).length = ids.length
    · rw [if_neg (not_not.mpr hall)]
      split
      · exact h
      cases hvalid : (d.ledger.addToDag x.toPayment).1 with
      | false =>
        simp only [addToDag_refused hvalid, Bool.false_eq_true, if_false]
        exact h.withLedger _
      | true =>
        have hfst : (d.addToDag (x.node []) (d.found ids)).1 = true := by
          rw [addToDag_accepted hvalid]
        simp only [hfst, if_true]
        exact h.addLinked hn hnot hvalid rfl
    · -- a vertex without links: this is harmless because no target is in the DAG
      rw [if_pos hall]
      have hnone : ∀ i ∈ ids, i ∉ d.ids := htargets.resolve_left fun hfound => hall (found_all_iff.mpr hfound)
      exact h.addToDag hn hnot fun b hb => hnone b (found_subset ids b hb)

/-- Every target chosen is a tip. -/
def Selects (choice : List (Option NodeId)) (d : Dag) : Prop :=
  ∀ t, some t ∈ choice → t ∈ d.counter.getTips.map (·.id)

lemma Invariant.mem_ids_of_tip (h : d.Invariant) {t : NodeId}
    (ht : t ∈ d.counter.getTips.map (·.id)) : t ∈ d.ids := by
  obtain ⟨v, hv, rfl⟩ := mem_map.mp ht
  obtain ⟨e, _, hcache⟩ := mem_filterMap.mp hv
  exact h.counted e.1 v hcache

lemma Invariant.mem_ids_of_tips (h : d.Invariant) {width : Nat} {payment : Bool}
    {tips : List (Option NodeId)} (hchoice : d.Selects choice)
    (htips : d.tips width payment choice = .ok tips) : ∀ t, some t ∈ tips → t ∈ d.ids := by
  intro t ht
  unfold Dag.tips at htips
  cases payment with
  | false =>
    cases htips
    cases ht
  | true =>
    cases hnodes : d.nodes with
    | nil =>
      rw [hnodes] at htips
      cases htips
    | cons genesis rest =>
      rw [hnodes] at htips
      obtain rfl := Except.ok.inj htips
      split at ht
      · obtain rfl := Option.some.inj (mem_singleton.mp ht)
        exact mem_map_of_mem (hnodes ▸ mem_cons_self)
      · exact h.mem_ids_of_tip (hchoice t ht)

/-- Step. `AddTxDag`, also if the payment is refused after its links are appended. -/
theorem Invariant.addTxDag (h : d.Invariant) {width : Nat} {payment : Bool}
    (hn : d.Unmentioned x.id) (hchoice : d.Selects choice) :
    (d.addTxDag width payment x choice).2.Invariant := by
  unfold Dag.addTxDag
  cases htips : d.tips width payment choice with
  | error e => exact h
  | ok tips =>
    dsimp only
    split
    · rw [addToDag_link]
      have hself : x.id ∉ tips.filterMap id := by
        intro hmem
        obtain ⟨t, ht, rfl⟩ := mem_filterMap.mp hmem
        exact hn.new (h.mem_ids_of_tips hchoice htips x.id ht)
      cases hvalid : (d.ledger.addToDag x.toPayment).1 with
      | false =>
        rw [addToDag_refused hvalid]
        exact (h.withLedger _).link hn.new _
      | true => exact h.addLinked hn hself hvalid rfl
    · exact h

theorem Invariant.insertOne (h : d.Invariant) (missing : List NodeId)
    (hx : x.id ∈ d.ids ∨ d.Unmentioned x.id) : (d.insertOne (x.node missing)).Invariant := by
  unfold Dag.insertOne
  by_cases hhas : d.has (x.node missing).id = true
  · rw [if_pos hhas]
    exact h
  rw [if_neg hhas]
  have hn : d.Unmentioned x.id := hx.resolve_left fun hin => hhas (has_iff.mpr hin)
  have g := grown_insertMissing x missing d
  exact h.grown hn g not_mem_nil nofun nofun
    fun i v hv => (g.ids v.id).mpr (.inl (h.counted i v hv))

lemma Unmentioned.insertOne {m : NodeId} (hm : m ∈ d.ids ∨ d.Unmentioned m) (x : Site)
    (missing : List NodeId) : m ∈ (d.insertOne (x.node missing)).ids ∨
      (d.insertOne (x.node missing)).Unmentioned m := by
  unfold Dag.insertOne
  by_cases hhas : d.has (x.node missing).id = true
  · rw [if_pos hhas]
    exact hm
  rw [if_neg hhas]
  have g := grown_insertMissing x missing d
  simp only [g.ids]
  rcases hm with hin | hm
  · exact .inl (.inl hin)
  by_cases hmx : m = x.id
  · exact .inl (.inr hmx)
  right
  refine ⟨fun hin => ?_, fun a => ?_, hm.links, hm.linked, fun a => ?_⟩
  · exact ((g.ids m).mp hin).elim hm.new hmx
  · rw [g.targets]
    simpa using hm.targets a
  · rw [g.edges]
    simpa using hm.edges a

theorem Invariant.insertIfNotExist (vertices : List (Site × List NodeId)) :
    ∀ {d : Dag}, d.Invariant → (∀ x ∈ vertices, x.1.id ∈ d.ids ∨ d.Unmentioned x.1.id) →
      (d.insertIfNotExist vertices).Invariant := by
  induction vertices with
  | nil => exact fun h _ => h
  | cons x vertices ih =>
    intro d h hx
    -- what the views did not mention, they do not mention after the first vertex either
    refine ih (h.insertOne x.2 (hx x mem_cons_self)) fun y hy => ?_
    exact Unmentioned.insertOne (hx y (mem_cons_of_mem x hy)) x.1 x.2

/-- No target that is in the dag is still listed as missing. -/
def Reconciled (d : Dag) : Prop := ∀ v ∈ d.nodes, ∀ i ∈ v.missingTargets, i ∈ d.ids → i = v.id

lemma reconcile_of_reconciled (h : d.Reconciled) : d.reconcileMissingTargets = d := by
  have hnone : ∀ v ∈ d.nodes, d.reconciled v = (v, []) := by
    intro v hv
    have hpossible : d.possibleTargets v = [] := by
      refine filter_eq_nil_iff.mpr fun i hi => ?_
      simpa using fun (hne : i ≠ v.id) (hmiss : i ∈ v.missingTargets) => hne (h v hv i hmiss hi)
    unfold reconciled
    rw [hpossible]
    rfl
  have hnodes : (d.nodes.map fun v => (d.reconciled v).1) = d.nodes :=
    (map_congr_left fun v hv => congrArg Prod.fst (hnone v hv)).trans (map_id _)
  have hlinks : (d.nodes.flatMap fun v => (d.reconciled v).2) = [] :=
    flatMap_eq_nil_iff.mpr fun v hv => congrArg Prod.snd (hnone v hv)
  unfold reconcileMissingTargets
  rw [hnodes, hlinks, append_nil]

/-! ## Runs -/

def genesisSite (wallet : Address) (hash : Bytes) : Site :=
  { Payment.genesis wallet hash with idMajor := 0, idMinor := 0 }

/-- `newDag`: the leader starts with genesis, others with nothing. -/
def newDag (leader : Bool) (wallet : Address) (hash : Bytes) (store : Storage) : Dag :=
  if leader then
    { nodes := [(genesisSite wallet hash).node []]
      links := []
      edges := ∅
      counter := ConfirmationCounter.new.add { Payment.genesis wallet hash with targets := [] }
      ledger := .genesis wallet hash store }
  else ⟨[], [], ∅, .new, ⟨[], ∅, [], 0, store⟩⟩

/-- An operation on the DAG. The leader forms pins over the confirmed set, which it empties; on
another node a pin changes the ledger. -/
inductive Op where
  | addTxDag (payment : Bool) (x : Site) (choice : List (Option NodeId))
  | insertTxDag (x : Site) (ids : List NodeId)
  | insertIfNotExist (vertices : List (Site × List NodeId))
  | reconcileMissingTargets
  | formPin (sites : List Payment) (smc : Go Storage Unit)
  | syncPin (ledger : Ledger)

def Op.apply (width : Nat) (versioncollision : Bool) (d : Dag) : Op → Dag
  | .addTxDag payment x choice => (d.addTxDag width payment x choice).2
  | .insertTxDag x ids => (d.insertTxDag versioncollision x ids).2
  | .insertIfNotExist vertices => d.insertIfNotExist vertices
  | .reconcileMissingTargets => d.reconcileMissingTargets
  | .formPin sites smc =>
      { d with
        counter := (d.counter.pop id).2
        ledger := (Ledger.add sites smc d.ledger).state?.getD d.ledger }
  | .syncPin ledger => { d with ledger := ledger }

/-- An operation that writes the four views together, as the state before it shows. -/
def Op.Clean (d : Dag) : Op → Prop
  | .addTxDag _ x choice => d.Unmentioned x.id ∧ d.Selects choice
  | .insertTxDag x ids => d.CleanInsert x ids
  | .insertIfNotExist vertices => ∀ x ∈ vertices, x.1.id ∈ d.ids ∨ d.Unmentioned x.1.id
  | .reconcileMissingTargets => d.Reconciled
  | .formPin _ _ | .syncPin _ => True

section Run

variable (width : Nat) (versioncollision : Bool)

def run (ops : List Op) (d : Dag) : Dag := ops.foldl (Op.apply width versioncollision) d

/-- Every operation of the run is clean where it happens. -/
def CleanRun : List Op → Dag → Prop
  | [], _ => True
  | op :: ops, d => op.Clean d ∧ CleanRun ops (op.apply width versioncollision d)

lemma invariant_newDag (leader : Bool) (wallet : Address) (hash : Bytes) (store : Storage) :
    (newDag leader wallet hash store).Invariant := by
  cases leader with
  | false =>
    refine ⟨fun a ha => ?_, fun a b h => ?_, fun a b h => ?_, fun i v h => ?_⟩
    · cases ha
    · cases h
    · cases h
    · cases h
  | true =>
    have hid : (newDag true wallet hash store).ids = [0] := rfl
    refine ⟨fun a ha b hb => ?_, fun a b h => ?_, fun a b h => ?_, fun i v h => ?_⟩
    · rw [hid, mem_singleton] at ha hb
      subst ha hb
      refine ⟨iff_of_false ?_ ?_, iff_of_false ?_ ?_, iff_of_false ?_ ?_⟩ <;> exact not_mem_nil
    · obtain ⟨v, hv, _, x, hx, _⟩ := mem_sourcesOf.mp h
      obtain rfl := mem_singleton.mp hv
      cases hx
    · cases h
    rw [hid, mem_singleton]
    have h : (new.add
        { Payment.genesis wallet hash with targets := [] }).cache.lookup i = some v := h
    rw [lookup_cache_add] at h
    split at h
    · obtain rfl := Option.some.inj h
      rfl
    · cases h

variable {width versioncollision}

theorem Invariant.apply (h : d.Invariant) {op : Op} (hclean : op.Clean d) :
    (op.apply width versioncollision d).Invariant := by
  cases op with
  | addTxDag payment x choice => exact h.addTxDag hclean.1 hclean.2
  | insertTxDag x ids => exact h.insertTxDag versioncollision hclean
  | insertIfNotExist vertices => exact Invariant.insertIfNotExist vertices h hclean
  | reconcileMissingTargets =>
    show d.reconcileMissingTargets.Invariant
    rw [reconcile_of_reconciled hclean]
    exact h
  | formPin sites smc | syncPin ledger => exact ⟨h.agree, h.sources, h.edges, h.counted⟩

theorem Invariant.run (ops : List Op) : ∀ {d : Dag}, d.Invariant →
    CleanRun width versioncollision ops d → (d.run width versioncollision ops).Invariant := by
  induction ops with
  | nil => exact fun h _ => h
  | cons op ops ih => exact fun h hclean => ih (h.apply hclean.1) hclean.2

end Run

/-- **THE FOUR VIEWS AGREE** in every state that a run of clean operations reaches. -/
theorem views_agree (width : Nat) (versioncollision leader : Bool) (wallet : Address)
    (hash : Bytes) (store : Storage) (ops : List Op)
    (hclean : CleanRun width versioncollision ops (newDag leader wallet hash store)) :
    ((newDag leader wallet hash store).run width versioncollision ops).Agree :=
  (Invariant.run ops (invariant_newDag leader wallet hash store) hclean).agree

def sampleSite (id : NodeId) : Site := ⟨⟨id, 1, [1], 500, 501, 10, false⟩, 0, 0⟩

def sampleLeader : Dag := newDag true 500 [] Storage.new

theorem first_payment_agrees : (sampleLeader.run 5 false [.addTxDag true (sampleSite 1) []]).Agree := by
  refine views_agree 5 false true 500 [] Storage.new _ ⟨⟨⟨by decide, ?_, ?_, rfl, ?_⟩, ?_⟩, trivial⟩
  · intro a h
    obtain ⟨v, hv, _, ht⟩ := mem_targetsOf.mp h
    obtain rfl := mem_singleton.mp hv
    cases ht
  · exact fun a => not_mem_nil
  · exact fun a => not_mem_nil
  · exact nofun

/-- **A vertex that finds one of two targets.** The target 0 knows it, the edge lookup has the
edge, but there is no link. When the other target 9 arrives and is reconciled, there is a link,
but the target does not know its source and the edge lookup does not have the edge. -/
theorem half_known_vertex :
    ((sampleLeader.run 5 false [.insertTxDag (sampleSite 1) [0, 9]]).ids = [0, 1] ∧
      0 ∈ (sampleLeader.run 5 false [.insertTxDag (sampleSite 1) [0, 9]]).targetsOf 1 ∧
      1 ∈ (sampleLeader.run 5 false [.insertTxDag (sampleSite 1) [0, 9]]).sourcesOf 0 ∧
      0 ∈ (sampleLeader.run 5 false [.insertTxDag (sampleSite 1) [0, 9]]).edgesOf 1 ∧
      0 ∉ (sampleLeader.run 5 false [.insertTxDag (sampleSite 1) [0, 9]]).linksOf 1) ∧
    ((sampleLeader.run 5 false [.insertTxDag (sampleSite 1) [0, 9],
        .insertIfNotExist [(sampleSite 9, [])], .reconcileMissingTargets]).ids = [0, 1, 9] ∧
      9 ∈ (sampleLeader.run 5 false [.insertTxDag (sampleSite 1) [0, 9],
        .insertIfNotExist [(sampleSite 9, [])], .reconcileMissingTargets]).targetsOf 1 ∧
      9 ∈ (sampleLeader.run 5 false [.insertTxDag (sampleSite 1) [0, 9],
        .insertIfNotExist [(sampleSite 9, [])], .reconcileMissingTargets]).linksOf 1 ∧
      1 ∉ (sampleLeader.run 5 false [.insertTxDag (sampleSite 1) [0, 9],
        .insertIfNotExist [(sampleSite 9, [])], .reconcileMissingTargets]).sourcesOf 9 ∧
      9 ∉ (sampleLeader.run 5 false [.insertTxDag (sampleSite 1) [0, 9],
        .insertIfNotExist [(sampleSite 9, [])], .reconcileMissingTargets]).edgesOf 1) := by
  decide +kernel

end Dag

end GrapeDag
