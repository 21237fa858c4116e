/-
THE GRAPH OF VERTICES, KEPT FOUR TIMES.

`src/dag/add.go`, `src/dag/insert.go`, `addToDag`, `insertMissing`, `lookupCacheUpdate`,
`getApprovers`, `approveTx` and `ReconcileMissingTargets` of `src/dag/dag.go`, `getById` of
`src/dag/pin.go`. An edge is kept in the target list of its source, in the source list of its
target, in the list of links and in the edge lookup by id. `mapped_vertices` has the same nodes
as `_dag_`; the requests for missing vertices are messages to other peers.
-/
import GrapeDag.Dag.Confirmation
import GrapeDag.Dag.VmErrors

namespace GrapeDag

open List

/-! ## Nodes -/

/-- `NodeID` without the address. -/
structure VersionedId where
  id : NodeId
  idMajor : Nat
  idMinor : Nat
  deriving Repr, DecidableEq

/-- A node as the service or a message builds it. -/
structure Site extends Payment where
  idMajor : Nat
  idMinor : Nat
  deriving Repr, DecidableEq

def Site.version (x : Site) : VersionedId := ⟨x.id, x.idMajor, x.idMinor⟩

/-- A site in the dag, with its neighbours. -/
structure Node extends Site where
  targets : List NodeId
  sources : List VersionedId
  /-- a set -/
  missingTargets : List NodeId
  deriving Repr, DecidableEq

def Node.toVertex (v : Node) : Vertex := { v.toPayment with targets := v.targets }

def Site.node (x : Site) (missingTargets : List NodeId) : Node :=
  { x with targets := [], sources := [], missingTargets := missingTargets }

structure Link where
  source : VersionedId
  target : NodeId
  deriving Repr, DecidableEq

/-- `Dag`, with the confirmation counter, the wallet cache and the pins that are global variables of
the package. -/
structure Dag where
  /-- `_dag_` -/
  nodes : List Node
  /-- `_links_` -/
  links : List Link
  /-- `mapped_edges` -/
  edges : FinMap NodeId (List NodeId)
  counter : ConfirmationCounter
  ledger : Ledger

namespace Dag

def ids (d : Dag) : List NodeId := d.nodes.map (·.id)

def has (d : Dag) (id : NodeId) : Bool := d.nodes.any (·.id = id)

/-- `_pins_.getById` finds a node: a copy, that is not in the DAG. -/
def pinned (d : Dag) (id : NodeId) : Bool := d.ledger.pins.any fun p => p.nodes.any (·.id = id)

/-! ## The operations -/

/-- `v.sources = append(v.sources, node)`; of a copy from a pin nothing stays. -/
def addSource (node : VersionedId) (nodes : List Node) (v : NodeId) : List Node :=
  nodes.map fun w => if w.id = v then { w with sources := w.sources ++ [node] } else w

def lookupCacheUpdate (id : NodeId) (targetIds : List NodeId)
    (edges : FinMap NodeId (List NodeId)) : FinMap NodeId (List NodeId) :=
  edges.insert id (edges.getD id [] ++ targetIds)

/-- `addToDag` for a node whose links are known. -/
def addToDag (node : Node) (linksTo : List NodeId) (d : Dag) : Bool × Dag :=
  let (valid, ledger) := d.ledger.addToDag node.toPayment
  if valid then
    -- the counter is told of the targets that are known now, and of no others later
    let node := { node with targets := node.targets ++ linksTo }
    (true,
      { d with
        nodes := linksTo.foldl (addSource node.version) d.nodes ++ [node]
        edges := lookupCacheUpdate node.id linksTo d.edges
        counter := d.counter.add node.toVertex
        ledger := ledger })
  else (false, { d with ledger := ledger })

def insertMissing (node : Node) (d : Dag) : Dag :=
  { d with
    nodes := d.nodes ++ [node]
    edges := lookupCacheUpdate node.id node.targets d.edges
    ledger := { d.ledger with dag := d.ledger.dag ++ [node.toPayment] } }

def insertOne (d : Dag) (node : Node) : Dag := if d.has node.id then d else d.insertMissing node

/-- `InsertIfNotExist`; a node from a message has no targets, but the ids it misses. -/
def insertIfNotExist (vertices : List (Site × List NodeId)) (d : Dag) : Dag :=
  vertices.foldl (fun d x => d.insertOne (x.1.node x.2)) d

def getApprovers (d : Dag) (id : NodeId) : List VersionedId :=
  let sources := (d.nodes.filter (·.id = id)).flatMap (·.sources)
  if sources ≠ [] then sources
  -- a copy from a pin has no sources, so the links are searched
  else (d.links.filter (·.target = id)).map (·.source)

/-- `nextToNode` is set: an approver of a candidate has this version or a later one. -/
def collides (x : Site) (candidates : List NodeId) (d : Dag) : Bool :=
  (candidates.flatMap d.getApprovers).any fun a =>
    a.id ≠ x.id && a.idMajor = x.idMajor && a.idMinor ≥ x.idMinor

/-- The ids that `InsertTxDag` finds in the DAG or in a pin. -/
def found (ids : List NodeId) (d : Dag) : List NodeId := ids.filter fun id => d.has id || d.pinned id

def idsNotFound (ids : List NodeId) (d : Dag) : List NodeId := ids.filter fun id => !(d.has id || d.pinned id)

def link (source : VersionedId) (targets : List NodeId) (d : Dag) : Dag :=
  { d with links := d.links ++ targets.map (⟨source, ·⟩) }

/-- `InsertTxDag`. What follows a version conflict is never reached: it returns an error. -/
def insertTxDag (versioncollision : Bool) (x : Site) (ids : List NodeId) (d : Dag) : GoPure Unit × Dag :=
  if d.has x.id then (.ok (), d)
  else if (d.found ids).length ≠ ids.length then
    -- the node is added with the links that there are, and an error is returned
    (.error .error, (d.addToDag (x.node (d.idsNotFound ids)) (d.found ids)).2)
  else if versioncollision && d.collides x (d.found ids) then (.error .error, d)
  else
    let (valid, d') := d.addToDag (x.node []) (d.found ids)
    if valid then (.ok (), d'.link x.version (d.found ids)) else (.error .error, d')

/-- The tips that `AddTxDag` approves: genesis for the first `width` vertices, then what the random
walk returns, where a walk may fail (nil). An empty DAG panics. -/
def tips (width : Nat) (payment : Bool) (choice : List (Option NodeId)) (d : Dag) :
    GoPure (List (Option NodeId)) :=
  if payment then
    match d.nodes with
    | [] => .error .panic
    | genesis :: rest => .ok (if rest.length < width then [some genesis.id] else choice)
  else .ok []

/-- `approveTx`: there is a tip, and none is nil. -/
def approveTx (tips : List (Option NodeId)) : Bool := tips ≠ [] && tips.all (·.isSome)

/-- `AddTxDag`; the links are appended before the payment is checked. -/
def addTxDag (width : Nat) (payment : Bool) (x : Site) (choice : List (Option NodeId))
    (d : Dag) : GoPure Unit × Dag :=
  match d.tips width payment choice with
  | .error e => (.error e, d)
  | .ok tips =>
      if approveTx tips then
        let approved := tips.filterMap id
        -- if the payment is refused, the links stay
        let (valid, d') := (d.link x.version approved).addToDag (x.node []) approved
        (if valid then .ok () else .error .error, d')
      else (.ok (), d)

def possibleTargets (v : Node) (d : Dag) : List NodeId :=
  d.ids.filter fun id => id ≠ v.id && v.missingTargets.contains id

/-- One turn of the inner loop of `ReconcileMissingTargets`: the node, and the new links. -/
def relink (s : Node × List Link) (target : NodeId) : Node × List Link :=
  if s.1.missingTargets.contains target then
    ({ s.1 with
        targets := s.1.targets ++ [target]
        missingTargets := s.1.missingTargets.filter (· ≠ target) },
      s.2 ++ [⟨s.1.version, target⟩])
  else s

def reconciled (d : Dag) (v : Node) : Node × List Link := (d.possibleTargets v).foldl relink (v, [])

/-- `ReconcileMissingTargets`: each vertex that misses targets is linked to those that are in the
DAG by now. Their sources and the edge lookup are not written. -/
def reconcileMissingTargets (d : Dag) : Dag :=
  { d with
    nodes := d.nodes.map fun v => (d.reconciled v).1
    links := d.links ++ d.nodes.flatMap fun v => (d.reconciled v).2 }

/-! ## The four views -/

def targetsOf (d : Dag) (a : NodeId) : List NodeId := (d.nodes.filter (·.id = a)).flatMap (·.targets)

def sourcesOf (d : Dag) (b : NodeId) : List NodeId :=
  (d.nodes.filter (·.id = b)).flatMap fun v => v.sources.map (·.id)

def linksOf (d : Dag) (a : NodeId) : List NodeId := (d.links.filter (·.source.id = a)).map (·.target)

def edgesOf (d : Dag) (a : NodeId) : List NodeId := d.edges.getD a []

variable {d d' : Dag} {a b n : NodeId}

lemma has_iff : d.has a = true ↔ a ∈ d.ids := by
  simp [has, ids]

lemma mem_targetsOf : b ∈ d.targetsOf a ↔ ∃ v ∈ d.nodes, v.id = a ∧ b ∈ v.targets := by
  simp [targetsOf, and_assoc]

lemma mem_sourcesOf : a ∈ d.sourcesOf b ↔ ∃ v ∈ d.nodes, v.id = b ∧ ∃ x ∈ v.sources, x.id = a := by
  simp [sourcesOf, and_assoc]

lemma mem_linksOf : b ∈ d.linksOf a ↔ ∃ l ∈ d.links, l.source.id = a ∧ l.target = b := by
  simp [linksOf, and_assoc]

lemma mem_edgesOf_lookupCacheUpdate (edges : FinMap NodeId (List NodeId))
    (targetIds : List NodeId) :
    b ∈ (lookupCacheUpdate n targetIds edges).getD a [] ↔ b ∈ edges.getD a [] ∨ a = n ∧ b ∈ targetIds := by
  unfold lookupCacheUpdate
  by_cases ha : a = n
  · subst ha
    simp [FinMap.getD]
  · simp [FinMap.getD, AList.lookup_insert_ne ha, ha]

/-- What a new vertex does to the four views: it has the targets `known`, of which those in
the DAG learn their source, and the links `linked`. -/
structure Grown (n : NodeId) (known linked : List NodeId) (d d' : Dag) : Prop where
  ids : ∀ i, i ∈ d'.ids ↔ i ∈ d.ids ∨ i = n
  targets : ∀ a b, b ∈ d'.targetsOf a ↔ b ∈ d.targetsOf a ∨ a = n ∧ b ∈ known
  sources : ∀ a b, a ∈ d'.sourcesOf b ↔ a ∈ d.sourcesOf b ∨ a = n ∧ b ∈ known ∧ b ∈ d.ids
  links : ∀ a b, b ∈ d'.linksOf a ↔ b ∈ d.linksOf a ∨ a = n ∧ b ∈ linked
  edges : ∀ a b, b ∈ d'.edgesOf a ↔ b ∈ d.edgesOf a ∨ a = n ∧ b ∈ known

/-! ## A vertex enters the DAG -/

def sourced (x : VersionedId) (linksTo : List NodeId) (w : Node) : Node :=
  { w with sources := w.sources ++ List.replicate (linksTo.count w.id) x }

lemma foldl_addSource (x : VersionedId) (linksTo : List NodeId) :
    ∀ nodes : List Node, linksTo.foldl (addSource x) nodes = nodes.map (sourced x linksTo) := by
  induction linksTo with
  | nil =>
    intro nodes
    have hself : sourced x [] = id := by
      funext w
      simp [sourced]
    rw [foldl_nil, hself, map_id]
  | cons v linksTo ih =>
    intro nodes
    rw [foldl_cons, ih, addSource, map_map]
    -- node by node: the first turn adds the source, the rest of the loop adds it as often as
    -- the node is among the remaining targets
    refine map_congr_left fun w _ => ?_
    by_cases hw : w.id = v
    · subst hw
      simp [sourced, count_cons_self, replicate_succ]
    · have hv : v ≠ w.id := Ne.symm hw
      simp [sourced, hw, count_cons_of_ne hv]

section AddToDag

variable {x : Site} {missing known : List NodeId}

lemma addToDag_accepted (h : (d.ledger.addToDag x.toPayment).1 = true) :
    d.addToDag (x.node missing) known =
      (true,
        { nodes := d.nodes.map (sourced x.version known) ++
            [{ x.node missing with targets := known }]
          links := d.links
          edges := lookupCacheUpdate x.id known d.edges
          counter := d.counter.add { x.toPayment with targets := known }
          ledger := (d.ledger.addToDag x.toPayment).2 }) := by
  unfold addToDag
  have hpay : (x.node missing).toPayment = x.toPayment := rfl
  rw [hpay]
  dsimp only
  rw [if_pos h, foldl_addSource]
  rfl

lemma addToDag_refused (h : (d.ledger.addToDag x.toPayment).1 = false) :
    d.addToDag (x.node missing) known = (false, { d with ledger := (d.ledger.addToDag x.toPayment).2 }) := by
  unfold addToDag
  have hpay : (x.node missing).toPayment = x.toPayment := rfl
  rw [hpay]
  dsimp only
  rw [if_neg (by rw [h]; exact Bool.false_ne_true)]

lemma exists_mem_addToDag (h : (d.ledger.addToDag x.toPayment).1 = true) (p : Node → Prop) :
    (∃ v ∈ (d.addToDag (x.node missing) known).2.nodes, p v) ↔
      (∃ w ∈ d.nodes, p (sourced x.version known w)) ∨ p { x.node missing with targets := known } := by
  rw [addToDag_accepted h]
  simp only [mem_append, mem_map, mem_singleton, or_and_right, exists_or, exists_eq_left]
  refine or_congr_left ⟨?_, ?_⟩
  · rintro ⟨_, ⟨w, hw, rfl⟩, hp⟩
    exact ⟨w, hw, hp⟩
  · rintro ⟨w, hw, hp⟩
    exact ⟨_, ⟨w, hw, rfl⟩, hp⟩

lemma exists_source_sourced {w : Node} {y : VersionedId} :
    (∃ z ∈ (sourced y known w).sources, z.id = a) ↔
      (∃ z ∈ w.sources, z.id = a) ∨ y.id = a ∧ w.id ∈ known := by
  have hcount : known.count w.id ≠ 0 ↔ w.id ∈ known := by
    rw [← Nat.pos_iff_ne_zero, count_pos_iff]
  simp only [sourced, mem_append, mem_replicate, hcount, or_and_right, exists_or]
  refine or_congr_right ⟨?_, ?_⟩
  · rintro ⟨z, ⟨hw, rfl⟩, hz⟩
    exact ⟨hz, hw⟩
  · exact fun ⟨hz, hw⟩ => ⟨y, ⟨hw, rfl⟩, hz⟩

lemma grown_addToDag (h : (d.ledger.addToDag x.toPayment).1 = true) :
    Grown x.id known [] d (d.addToDag (x.node missing) known).2 := by
  refine ⟨fun i => ?_, fun a b => ?_, fun a b => ?_, fun a b => ?_, fun a b => ?_⟩
  · have hids : ∀ d : Dag, i ∈ d.ids ↔ ∃ v ∈ d.nodes, v.id = i := fun d => mem_map
    rw [hids, hids, exists_mem_addToDag h, eq_comm]
    rfl
  · rw [mem_targetsOf, mem_targetsOf, exists_mem_addToDag h]
    exact or_congr_right (and_congr_left fun _ => eq_comm)
  · rw [mem_sourcesOf, mem_sourcesOf, exists_mem_addToDag h]
    simp only [exists_source_sourced]
    constructor
    · rintro (⟨w, hw, rfl, hold | ⟨hx, hknown⟩⟩ | ⟨_, y, hy, _⟩)
      · exact .inl ⟨w, hw, rfl, hold⟩
      · have hin : w.id ∈ d.ids := mem_map_of_mem hw
        exact .inr ⟨hx.symm, hknown, hin⟩
      · cases hy
    · rintro (⟨w, hw, rfl, hold⟩ | ⟨rfl, hknown, hin⟩)
      · exact .inl ⟨w, hw, rfl, .inl hold⟩
      · obtain ⟨w, hw, rfl⟩ := mem_map.mp hin
        exact .inl ⟨w, hw, rfl, .inr ⟨rfl, hknown⟩⟩
  · rw [addToDag_accepted h]
    simp [linksOf]
  · rw [addToDag_accepted h]
    exact mem_edgesOf_lookupCacheUpdate d.edges known

lemma grown_insertMissing (x : Site) (missing : List NodeId) (d : Dag) :
    Grown x.id [] [] d (d.insertMissing (x.node missing)) := by
  refine ⟨fun i => ?_, fun a b => ?_, fun a b => ?_, fun a b => ?_, fun a b => ?_⟩
  · simp only [ids, insertMissing, map_append, mem_append, map_cons, map_nil,
      mem_singleton]
    rfl
  · rw [mem_targetsOf, mem_targetsOf]
    simp [insertMissing, Site.node, or_and_right, exists_or]
  · rw [mem_sourcesOf, mem_sourcesOf]
    simp [insertMissing, Site.node, or_and_right, exists_or]
  · simp [linksOf, insertMissing]
  · exact mem_edgesOf_lookupCacheUpdate d.edges []

lemma mem_linksOf_link (source : VersionedId) (targets : List NodeId) :
    b ∈ (d.link source targets).linksOf a ↔ b ∈ d.linksOf a ∨ a = source.id ∧ b ∈ targets := by
  rw [mem_linksOf, mem_linksOf]
  constructor
  · rintro ⟨l, hl, rfl, rfl⟩
    rcases mem_append.mp hl with hl | hl
    · exact .inl ⟨l, hl, rfl, rfl⟩
    · obtain ⟨t, ht, rfl⟩ := mem_map.mp hl
      exact .inr ⟨rfl, ht⟩
  · rintro (⟨l, hl, rfl, rfl⟩ | ⟨rfl, ht⟩)
    · exact ⟨l, mem_append_left _ hl, rfl, rfl⟩
    · exact ⟨⟨source, b⟩, mem_append_right _ (mem_map_of_mem ht), rfl, rfl⟩

end AddToDag

end Dag

end GrapeDag
