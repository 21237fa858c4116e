/-
EACH VERTEX IS CONFIRMED ONCE.

What `pop` of `src/dag/confirmation.go` returns becomes the sites of the next pin. The counter
confirms a vertex with its second approval and, because it forgets the vertex then, with the
fifth, the eighth and so on; a vertex that is a target twice is confirmed by one approver; and
an id that was never added is returned as nil, which `NodeTxPin.add` dereferences.

Main result: `confirmed_once`.
-/
import GrapeDag.Dag.Confirmation
import GrapeDag.Dag.VmErrors

namespace GrapeDag

open Imperative Prog ConfirmationCounter List

/-! ## What an addition confirms -/

namespace ConfirmationCounter

variable {c : ConfirmationCounter}

lemma mem_confirmed_approve (by_ v t : NodeId) :
    t ∈ (c.approve by_ v).confirmed ↔ t ∈ c.confirmed ∨ (t = v ∧ 2 ≤ c.entry v) := by
  rcases Nat.lt_or_ge (c.entry v) 2 with hlt | hge
  · rw [approve_open hlt]
    show t ∈ c.confirmed ↔ _
    constructor
    · exact Or.inl
    · intro h
      exact h.resolve_right (by omega)
  · rw [approve_full hge]
    show t ∈ c.confirmed.insert v ↔ _
    rw [mem_insert_iff]
    tauto

lemma nodup_confirmed_approve (h : c.confirmed.Nodup) (by_ v : NodeId) :
    (c.approve by_ v).confirmed.Nodup := by
  rcases Nat.lt_or_ge (c.entry v) 2 with hlt | hge
  · rw [approve_open hlt]
    exact h
  · rw [approve_full hge]
    exact h.insert

lemma mem_confirmed_foldl_approve (by_ : NodeId) {targets : List NodeId}
    (hd : targets.Nodup) (hs : c.Sound) (t : NodeId) :
    t ∈ (targets.foldl (approve by_) c).confirmed ↔ t ∈ c.confirmed ∨ (t ∈ targets ∧ c.entry t = 2) := by
  induction targets generalizing c with
  | nil => simp
  | cons v targets ih =>
    obtain ⟨hv, hd⟩ := nodup_cons.mp hd
    have hle := hs.entry_le v
    rw [foldl_cons, ih hd (hs.approve by_ v), mem_confirmed_approve, entry_approve hs, mem_cons]
    by_cases htv : t = v
    · subst htv
      simp only [hv, false_and, or_false, true_and]
      constructor
      · exact Or.imp_right fun h => by omega
      · exact Or.imp_right fun h => by omega
    · simp [htv]

lemma nodup_confirmed_foldl_approve (by_ : NodeId) (targets : List NodeId)
    (h : c.confirmed.Nodup) : (targets.foldl (approve by_) c).confirmed.Nodup :=
  foldlRecOn (motive := fun c => (confirmed c).Nodup) _ _ h fun _ h v _ => nodup_confirmed_approve h by_ v

lemma mem_confirmed_add (hs : c.Sound) {x : Vertex} (hd : x.targets.Nodup)
    (hx : x.id ∉ x.targets) (t : NodeId) :
    t ∈ (c.add x).confirmed ↔ t ∈ c.confirmed ∨ (t ∈ x.targets ∧ c.entry t = 2) := by
  rw [add, mem_confirmed_foldl_approve x.id hd (hs.restart x)]
  refine or_congr_right (and_congr_right fun ht => ?_)
  have hne : t ≠ x.id := fun h => hx (h ▸ ht)
  simp only [entry, FinMap.lookup_insert_eq_ite, hne, if_false]

lemma nodup_confirmed_add (h : c.confirmed.Nodup) (x : Vertex) : (c.add x).confirmed.Nodup :=
  nodup_confirmed_foldl_approve x.id x.targets h

lemma mem_approvers {history : List Vertex} {v w : NodeId} :
    w ∈ approvers history v ↔ ∃ x ∈ history, v ∈ x.targets ∧ x.id = w := by
  simp [approvers, and_assoc]

lemma nodup_approvers (history : List Vertex) (v : NodeId) : (approvers history v).Nodup :=
  nodup_dedup _

lemma approvers_mono (history : List Vertex) (x : Vertex) (v : NodeId) :
    approvers history v ⊆ approvers (history ++ [x]) v := by
  intro w hw
  obtain ⟨y, hy, hyw⟩ := mem_approvers.mp hw
  exact mem_approvers.mpr ⟨y, mem_append_left _ hy, hyw⟩

lemma length_approvers_mono (history : List Vertex) (x : Vertex) (v : NodeId) :
    (approvers history v).length ≤ (approvers (history ++ [x]) v).length :=
  ((nodup_approvers history v).subperm (approvers_mono history x v)).length_le

lemma length_approvers_concat {history : List Vertex} {x : Vertex} {v : NodeId}
    (hv : v ∈ x.targets) (hx : x.id ∉ history.map (·.id)) :
    (approvers history v).length + 1 ≤ (approvers (history ++ [x]) v).length := by
  have hnew : x.id ∉ approvers history v := by
    intro h
    obtain ⟨y, hy, -, hyx⟩ := mem_approvers.mp h
    exact hx (mem_map.mpr ⟨y, hy, hyx⟩)
  have hnodup : (x.id :: approvers history v).Nodup := nodup_cons.mpr ⟨hnew, nodup_approvers history v⟩
  have hsub : x.id :: approvers history v ⊆ approvers (history ++ [x]) v := by
    refine cons_subset.mpr ⟨mem_approvers.mpr ⟨x, by simp, hv, rfl⟩, ?_⟩
    exact approvers_mono history x v
  exact (hnodup.subperm hsub).length_le

end ConfirmationCounter

/-! ## Runs -/

/-- The state of the leader that the formation of pins works on. -/
structure Formation where
  ledger : Ledger
  counter : ConfirmationCounter
  /-- the vertices that were counted, as `_dag_` has them -/
  dag : List Vertex
  /-- the field `Sites` of the pins, oldest first -/
  sites : List (List NodeId)
  /-- everything that `pop` has returned -/
  popped : List (Option Vertex)

namespace Formation

/-- The leader after `newDag`: the genesis pin has the genesis vertex as its site. -/
def genesis (wallet : Address) (hash : Bytes) (store : Storage) : Formation :=
  let vertex : Vertex := { Payment.genesis wallet hash with targets := [] }
  { ledger := .genesis wallet hash store
    counter := ConfirmationCounter.new.add vertex
    dag := [vertex]
    sites := [[vertex.id]]
    popped := [] }

def addToDag (x : Vertex) (s : Formation) : Formation :=
  let (valid, ledger) := s.ledger.addToDag x.toPayment
  if valid then
    { s with ledger := ledger, counter := s.counter.add x, dag := s.dag ++ [x] }
  else { s with ledger := ledger }

/-- The sites as `NodeTxPin.add` reads them: a nil is dereferenced. -/
def dereference (sites : List (Option Vertex)) : GoPure (List Vertex) := sites.mapM orPanic

def pinSites (sites : List Vertex) (smc : Go Storage Unit) : Go Formation Unit := do
  .zoom ledger (fun L s => { s with ledger := L }) (Ledger.add (sites.map (·.toPayment)) smc)
  .modify fun s => { s with
    sites := s.sites ++ [(Ledger.inOrder (sites.map (·.toPayment))).map (·.id)] }

/-- `genPinTx`; `pending` says whether there are contract transactions, `smc` executes them. -/
def genPinTx (walk : List NodeId → List NodeId) (pending : Bool) (smc : Go Storage Unit) :
    Go Formation Unit := do
  let sites ← .gets fun s => (s.counter.pop walk).1
  .modify fun s => { s with counter := (s.counter.pop walk).2, popped := s.popped ++ sites }
  if sites.length > 0 ∨ pending then
    let vertices ← dereference sites
    pinSites vertices smc
  else return ()

/-- The ids of the vertices that `pop` has returned. -/
def poppedIds (s : Formation) : List NodeId := s.popped.filterMap fun x => x.map (·.id)

/-- No site is returned or pinned twice, none without two approvers. -/
structure Once (s : Formation) : Prop where
  returned : s.poppedIds.Nodup
  real : none ∉ s.popped
  approved : ∀ x : Vertex, some x ∈ s.popped →
    2 ≤ (ConfirmationCounter.approvers s.dag x.id).length
  pinned : s.sites.flatten.Nodup

/-- An addition that the counter can cope with: a new vertex with distinct targets that
were counted, none of which it confirms after it has been in a pin or was returned. -/
structure Clean (x : Vertex) (s : Formation) : Prop where
  new : s.counter.cache.lookup x.id = none
  known : ∀ t ∈ x.targets, s.counter.cache.lookup t ≠ none
  distinct : x.targets.Nodup
  confirms : ∀ t ∈ x.targets, s.counter.entry t = 2 →
    t ∉ s.sites.flatten ∧ t ∉ s.poppedIds

/-- The states that clean additions and pin formations lead to, from the genesis state. -/
inductive CleanRun (walk : List NodeId → List NodeId) (start : Formation) : Formation → Prop
  | start : CleanRun walk start start
  | add {s : Formation} (x : Vertex) (h : CleanRun walk start s) (hx : Clean x s) :
      CleanRun walk start (s.addToDag x)
  | pin {s s' : Formation} (pending : Bool) (smc : Go Storage Unit) (h : CleanRun walk start s)
      (hs : (genPinTx walk pending smc s).state? = some s') : CleanRun walk start s'

/-! ## The invariant -/

/-- What carries `Once` over a step. -/
structure Invariant (s : Formation) : Prop extends Once s where
  sound : s.counter.Sound
  cached : ∀ v x, s.counter.cache.lookup v = some x → x.id = v
  counted : ∀ v, s.counter.cache.lookup v ≠ none ↔ v ∈ s.dag.map (·.id)
  /-- a vertex that the next approval confirms has an approver -/
  halfway : ∀ v, s.counter.entry v = 2 → 1 ≤ (ConfirmationCounter.approvers s.dag v).length
  distinct : s.counter.confirmed.Nodup
  /-- a confirmed vertex has two approvers and was never returned or pinned -/
  waiting : ∀ v ∈ s.counter.confirmed, s.counter.cache.lookup v ≠ none ∧
    2 ≤ (ConfirmationCounter.approvers s.dag v).length ∧ v ∉ s.sites.flatten ∧ v ∉ s.poppedIds

lemma invariant_genesis (wallet : Address) (hash : Bytes) (store : Storage) :
    (genesis wallet hash store).Invariant where
  returned := nodup_nil
  real := by simp [genesis]
  approved := by simp [genesis]
  pinned := by simp [genesis]
  sound := sound_new.add _
  cached := by
    intro v x hx
    rw [genesis, lookup_cache_add] at hx
    split at hx
    · next hv =>
      obtain rfl := Option.some.inj hx
      exact hv.symm
    · cases hx
  counted := by
    intro v
    simp [genesis, lookup_cache_add, new]
  halfway := by
    intro v hv
    rw [genesis, entry_add sound_new] at hv
    simp only [count_nil, Nat.add_zero] at hv
    split at hv
    · omega
    · cases hv
  distinct := nodup_nil
  waiting := by simp [genesis, add, new]

variable {s : Formation}

lemma Invariant.withLedger (h : s.Invariant) (L : Ledger) : Invariant { s with ledger := L } := { h with }

variable {x : Vertex} {walk : List NodeId → List NodeId}

lemma Invariant.notMem_dag (h : s.Invariant) (hx : Clean x s) :
    x.id ∉ s.dag.map (·.id) := fun hmem => (h.counted x.id).mpr hmem hx.new

lemma Invariant.halfway_add (h : s.Invariant) (hx : Clean x s) {v : NodeId}
    (hv : (s.counter.add x).entry v = 2) :
    1 ≤ (approvers (s.dag ++ [x]) v).length := by
  rw [entry_add h.sound] at hv
  by_cases ht : v ∈ x.targets
  · -- the new vertex is the approver
    have := length_approvers_concat ht (h.notMem_dag hx)
    exact le_trans (Nat.le_add_left 1 _) this
  -- the entry is as it was
  have hne : v ≠ x.id := by
    intro heq
    rw [if_pos heq, count_eq_zero_of_not_mem ht] at hv
    cases hv
  have hle := h.sound.entry_le v
  rw [if_neg hne, count_eq_zero_of_not_mem ht] at hv
  exact (h.halfway v (by omega)).trans (length_approvers_mono s.dag x v)

lemma Invariant.waiting_add (h : s.Invariant) (hx : Clean x s) {v : NodeId}
    (hv : v ∈ (s.counter.add x).confirmed) :
    (s.counter.add x).cache.lookup v ≠ none ∧
      2 ≤ (approvers (s.dag ++ [x]) v).length ∧
      v ∉ s.sites.flatten ∧ v ∉ s.poppedIds := by
  have hself : x.id ∉ x.targets := fun hmem => hx.known x.id hmem hx.new
  have hcached : ∀ w, s.counter.cache.lookup w ≠ none → (s.counter.add x).cache.lookup w ≠ none := by
    intro w hw
    rw [lookup_cache_add]
    split
    · exact Option.some_ne_none x
    · exact hw
  rcases (mem_confirmed_add h.sound hx.distinct hself v).mp hv with
    hold | ⟨ht, htwo⟩
  · obtain ⟨hin, happ, hsite, hpop⟩ := h.waiting v hold
    exact ⟨hcached v hin, happ.trans (length_approvers_mono s.dag x v), hsite, hpop⟩
  · obtain ⟨hsite, hpop⟩ := hx.confirms v ht htwo
    have hone := h.halfway v htwo
    have hmore := length_approvers_concat ht (h.notMem_dag hx)
    exact ⟨hcached v (hx.known v ht), (Nat.succ_le_succ hone).trans hmore, hsite, hpop⟩

theorem Invariant.addToDag (h : s.Invariant) (hx : Clean x s) : (s.addToDag x).Invariant := by
  unfold Formation.addToDag
  generalize s.ledger.addToDag x.toPayment = result
  obtain ⟨valid, L⟩ := result
  cases valid with
  | false => exact h.withLedger L
  | true =>
    show Invariant { s with ledger := L, counter := s.counter.add x, dag := s.dag ++ [x] }
    refine
      { returned := h.returned
        real := h.real
        approved := ?_
        pinned := h.pinned
        sound := h.sound.add x
        cached := ?_
        counted := ?_
        halfway := fun v hv => h.halfway_add hx hv
        distinct := nodup_confirmed_add h.distinct x
        waiting := fun v hv => h.waiting_add hx hv }
    · intro y hy
      exact (h.approved y hy).trans (length_approvers_mono s.dag x y.id)
    · intro v y hy
      rw [lookup_cache_add] at hy
      split at hy
      · next hv =>
        obtain rfl := Option.some.inj hy
        exact hv.symm
      · exact h.cached v y hy
    · intro v
      show (s.counter.add x).cache.lookup v ≠ none ↔ v ∈ (s.dag ++ [x]).map (·.id)
      rw [lookup_cache_add, map_append, mem_append, ← h.counted v]
      by_cases hv : v = x.id
      · simp [hv]
      · simp [hv]

lemma Invariant.pop_eq (h : s.Invariant) (hwalk : ∀ ids, (walk ids).Perm ids) :
    ∃ vertices : List Vertex, (s.counter.pop walk).1 = vertices.map some ∧
      vertices.map (·.id) = walk s.counter.confirmed := by
  have hall : ∀ v ∈ walk s.counter.confirmed, ∃ x : Vertex, s.counter.cache.lookup v = some x ∧ x.id = v := by
    intro v hv
    obtain ⟨hin, -⟩ := h.waiting v ((hwalk _).mem_iff.mp hv)
    obtain ⟨x, hx⟩ := Option.ne_none_iff_exists'.mp hin
    exact ⟨x, hx, h.cached v x hx⟩
  show ∃ vertices : List Vertex, (walk s.counter.confirmed).map s.counter.cache.lookup = vertices.map some ∧ _
  generalize walk s.counter.confirmed = ids at hall
  induction ids with
  | nil => exact ⟨[], rfl, rfl⟩
  | cons v ids ih =>
    obtain ⟨x, hx, rfl⟩ := hall v (by simp)
    obtain ⟨vertices, hmap, hids⟩ := ih fun w hw => hall w (mem_cons_of_mem x.id hw)
    exact ⟨x :: vertices, by simp [hx, hmap], by simp [hids]⟩

lemma dereference_map_some (vertices : List Vertex) : dereference (vertices.map some) = .ok vertices := by
  induction vertices with
  | nil => rfl
  | cons x vertices ih =>
    unfold dereference at ih ⊢
    rw [map_cons, mapM_cons, ih]
    rfl

lemma poppedIds_append (s : Formation) (vertices : List Vertex) :
    poppedIds { s with popped := s.popped ++ vertices.map some } = s.poppedIds ++ vertices.map (·.id) := by
  simp [poppedIds, filterMap_append, filterMap_map]

/-- Step. `pop` hands the confirmed vertices over. -/
theorem Invariant.popped (h : s.Invariant) {vertices : List Vertex}
    (hids : vertices.map (·.id) = walk s.counter.confirmed) (hwalk : ∀ ids, (walk ids).Perm ids) :
    Invariant { s with
      counter := (s.counter.pop walk).2
      popped := s.popped ++ vertices.map some } where
  returned := by
    show (poppedIds { s with popped := s.popped ++ vertices.map some }).Nodup
    rw [poppedIds_append, hids]
    refine nodup_append.mpr ⟨h.returned, (hwalk _).nodup_iff.mpr h.distinct, ?_⟩
    rintro v hv w hw rfl
    exact (h.waiting v ((hwalk _).mem_iff.mp hw)).2.2.2 hv
  real := by
    rw [mem_append, not_or]
    exact ⟨h.real, by simp⟩
  approved := by
    intro x hx
    rcases mem_append.mp hx with hx | hx
    · exact h.approved x hx
    · have hid : x.id ∈ walk s.counter.confirmed := by
        rw [← hids]
        exact mem_map.mpr ⟨x, by simpa using hx, rfl⟩
      exact (h.waiting x.id ((hwalk _).mem_iff.mp hid)).2.1
  pinned := h.pinned
  sound := h.sound
  cached := h.cached
  counted := h.counted
  halfway := h.halfway
  distinct := nodup_nil
  waiting := fun _ hv => absurd hv not_mem_nil

lemma Invariant.pinned_concat (h : s.Invariant) {ids : List NodeId} (hd : ids.Nodup)
    (hnew : ∀ v ∈ ids, v ∉ s.sites.flatten) (hnone : s.counter.confirmed = []) :
    Invariant { s with sites := s.sites ++ [ids] } :=
  { h with
    pinned := by
      rw [flatten_append, flatten_singleton]
      refine nodup_append.mpr ⟨h.pinned, hd, ?_⟩
      rintro v hv w hw rfl
      exact hnew v hw hv
    waiting := by
      intro v hv
      rw [hnone] at hv
      cases hv }

lemma inOrder_ids_perm (vertices : List Vertex) :
    ((Ledger.inOrder (vertices.map (·.toPayment))).map (·.id)).Perm (vertices.map (·.id)) := by
  have hperm : (Ledger.inOrder (vertices.map (·.toPayment))).Perm (vertices.map (·.toPayment)) :=
    perm_insertionSort _ _
  simpa [Function.comp_def] using hperm.map (·.id)

/-- Step. The formation of a pin, however it ends. -/
theorem Invariant.genPinTx (h : s.Invariant) (hwalk : ∀ ids, (walk ids).Perm ids) (pending : Bool)
    (smc : Go Storage Unit) :
    wpEnd (genPinTx walk pending smc) (·.Invariant)
      s := by
  obtain ⟨vertices, hpop, hids⟩ := h.pop_eq hwalk
  have hpopped := h.popped hids hwalk
  -- the new sites were confirmed, so they are distinct and in no pin
  have hperm := (inOrder_ids_perm vertices).trans (hids ▸ hwalk s.counter.confirmed)
  have hdistinct := hperm.nodup_iff.mpr h.distinct
  have hnew : ∀ v ∈ (Ledger.inOrder (vertices.map (·.toPayment))).map (·.id),
      v ∉ s.sites.flatten := fun v hv => (h.waiting v (hperm.mem_iff.mp hv)).2.2.1
  unfold Formation.genPinTx
  rw [wpEnd, wp_bind, wp_gets, wp_bind, wp_modify, wp_ite, hpop]
  constructor
  · intro _
    rw [dereference_map_some, wp_bind, wp_liftM]
    refine ⟨fun a ha => ?_, fun _ h => by cases h⟩
    obtain rfl := Except.ok.inj ha
    unfold pinSites
    rw [wp_bind, wp_zoom]
    refine wp.of_forall (fun _ L => ?_) fun _ L => hpopped.withLedger L
    rw [wp_modify]
    exact (hpopped.withLedger L).pinned_concat hdistinct hnew rfl
  · intro _
    rw [wp_pure]
    exact hpopped

theorem CleanRun.invariant (hwalk : ∀ ids, (walk ids).Perm ids) {start : Formation}
    (h0 : start.Invariant) (h : CleanRun walk start s) : s.Invariant := by
  induction h with
  | start => exact h0
  | add x _ hx ih => exact ih.addToDag hx
  | pin pending smc _ hs ih => exact (ih.genPinTx hwalk pending smc).of_state? hs

/-- **Exactly-once confirmation over clean runs.** -/
theorem confirmed_once {walk : List NodeId → List NodeId} (hwalk : ∀ ids, (walk ids).Perm ids)
    {wallet : Address} {hash : Bytes} {store : Storage} {s : Formation}
    (h : CleanRun walk (genesis wallet hash store) s) : s.Once :=
  (h.invariant hwalk (invariant_genesis wallet hash store)).toOnce

def sampleStart : Formation := genesis 0 [] (.sample 0 [])

def addAndPin (xs : List Vertex) : Go Formation Unit := do
  .modify fun s => xs.foldl (fun s x => s.addToDag x) s
  genPinTx id false (pure ())

open ConfirmationCounter (sampleVertex) in
theorem first_confirmed_once : ∃ s, CleanRun id sampleStart s ∧ s.poppedIds = [1] ∧ s.Once := by
  have h1 : Clean (sampleVertex 1 [0]) sampleStart :=
    ⟨by decide +kernel, forall_mem_singleton.mpr (by decide +kernel), by decide +kernel,
      forall_mem_singleton.mpr (by decide +kernel)⟩
  have h2 : Clean (sampleVertex 2 [1]) (sampleStart.addToDag (sampleVertex 1 [0])) :=
    ⟨by decide +kernel, forall_mem_singleton.mpr (by decide +kernel), by decide +kernel,
      forall_mem_singleton.mpr (by decide +kernel)⟩
  have h3 : Clean (sampleVertex 3 [1]) ((sampleStart.addToDag (sampleVertex 1 [0])).addToDag
      (sampleVertex 2 [1])) :=
    ⟨by decide +kernel, forall_mem_singleton.mpr (by decide +kernel), by decide +kernel,
      forall_mem_singleton.mpr (by decide +kernel)⟩
  have hpin : ((Formation.genPinTx id false (pure ()) (((sampleStart.addToDag
      (sampleVertex 1 [0])).addToDag (sampleVertex 2 [1])).addToDag
      (sampleVertex 3 [1]))).state?.map poppedIds) = some [1] := by decide +kernel
  obtain ⟨s, hs, hids⟩ := Option.map_eq_some_iff.mp hpin
  have hrun : CleanRun id sampleStart s := .pin false (pure ()) (.add _ (.add _ (.add _ .start h1) h2) h3) hs
  exact ⟨s, hrun, hids, confirmed_once (fun ids => List.Perm.refl ids) hrun⟩

open ConfirmationCounter (sampleVertex) in
/-- Five vertices approve genesis: it is returned twice, and a site of three pins. A vertex
that is a target twice is confirmed by one approver. An id that was never added is returned
as nil, and the node panics. -/
theorem confirmed_again :
    ((do addAndPin [sampleVertex 1 [0], sampleVertex 2 [0]]
         addAndPin [sampleVertex 3 [0], sampleVertex 4 [0], sampleVertex 5 [0]] :
        Go Formation Unit) sampleStart).returns
      (fun _ s => s.poppedIds = [0, 0] ∧ s.sites = [[0], [0], [0]]) = true ∧
    (addAndPin [sampleVertex 1 [0], sampleVertex 2 [1, 1]] sampleStart).returns
      (fun _ s => s.poppedIds = [1] ∧ ConfirmationCounter.approvers s.dag 1 = [2]) = true ∧
    (addAndPin [sampleVertex 1 [9], sampleVertex 2 [9], sampleVertex 3 [9]] sampleStart).throws
      (fun s => s.popped = [none]) = true :=
  ⟨by decide +kernel, by decide +kernel, by decide +kernel⟩

end Formation

end GrapeDag
