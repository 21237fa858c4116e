/-
THE ORDER IN WHICH VERTICES ARRIVE.

`InsertTxDag`, `addToDag` and `ReconcileMissingTargets`, over two deliveries of the same
vertices. A vertex approves the targets that it finds when it is delivered;
`ReconcileMissingTargets` links the others later, but tells neither the counter nor the edge
lookup nor the targets. So a delivery is determined by its events: which vertices were
accepted, and which of their targets were in the DAG then.

Main results: `ready_run` and `delivery_order_iff`.
-/
import GrapeDag.Dag.Confirmed
import GrapeDag.Dag.FourViews

namespace GrapeDag

open ConfirmationCounter List Ledger

/-! ## Events -/

/-- `SubInTx`: a vertex as it is delivered, with the ids of its targets. -/
structure SubInTx where
  site : Site
  targetIds : List NodeId
  deriving Repr, DecidableEq

/-- A delivered site, its targets, and those that were in the dag. -/
structure Event where
  site : Site
  ids : List NodeId
  inDag : List NodeId
  deriving Repr, DecidableEq

namespace Event

variable (pinned : NodeId → Bool) (e : Event)

/-- The targets that were found, where `pinned` says which are in a pin. -/
def known : List NodeId := e.ids.filter fun i => e.inDag.contains i || pinned i

def missing : List NodeId := e.ids.filter fun i => !(e.inDag.contains i || pinned i)

def linked : List NodeId := if (e.known pinned).length = e.ids.length then e.known pinned else []

def vertex : Vertex := { e.site.toPayment with targets := e.known pinned }

/-- What the event adds to the entry of `w`. If the vertex `w` is itself delivered, what is
counted before that is forgotten. -/
def approvals (w : NodeId) (delivered : Bool) : Nat :=
  if delivered then e.inDag.count w + (if e.site.id = w then (e.known pinned).count w else 0)
  else (e.known pinned).count w

end Event

namespace Dag

/-- The DAG after `InsertTxDag`, however it ends. -/
def deliver (versioncollision : Bool) (d : Dag) (m : SubInTx) : Dag :=
  (d.insertTxDag versioncollision m.site m.targetIds).2

def deliverAll (versioncollision : Bool) (ms : List SubInTx) (d : Dag) : Dag :=
  ms.foldl (deliver versioncollision) d

def accepts (versioncollision : Bool) (d : Dag) (m : SubInTx) : Bool := !d.has m.site.id &&
    !((d.found m.targetIds).length = m.targetIds.length && versioncollision &&
      d.collides m.site (d.found m.targetIds)) &&
    (d.ledger.addToDag m.site.toPayment).1

def event (d : Dag) (m : SubInTx) : Event := ⟨m.site, m.targetIds, m.targetIds.filter fun i => d.has i⟩

def events (versioncollision : Bool) : List SubInTx → Dag → List Event
  | [], _ => []
  | m :: ms, d =>
      (if d.accepts versioncollision m then [d.event m] else []) ++
        events versioncollision ms (d.deliver versioncollision m)

lemma known_event (d : Dag) (m : SubInTx) : (d.event m).known d.pinned = d.found m.targetIds := by
  refine filter_congr fun i hi => ?_
  have hi : i ∈ m.targetIds := hi
  simp [event, hi]

lemma missing_event (d : Dag) (m : SubInTx) : (d.event m).missing d.pinned = d.idsNotFound m.targetIds := by
  refine filter_congr fun i hi => ?_
  have hi : i ∈ m.targetIds := hi
  simp [event, hi]

def sites (d : Dag) : List Site := d.nodes.map (·.toSite)

def missingOf (d : Dag) (a : NodeId) : List NodeId := (d.nodes.filter (·.id = a)).flatMap (·.missingTargets)

variable {a b : NodeId} {s : Node × List Link}

lemma mem_missingOf {d : Dag} : b ∈ d.missingOf a ↔ ∃ v ∈ d.nodes, v.id = a ∧ b ∈ v.missingTargets := by
  simp [missingOf, and_assoc]

/-! ## Reachable states -/

/-- What holds in every state: sources are vertices of the DAG, the counter is sound, and no
balance is negative. -/
structure Ready (d : Dag) : Prop where
  sources : ∀ a b, a ∈ d.sourcesOf b → a ∈ d.ids
  sound : d.counter.Sound
  nonneg : ∀ w, 0 ≤ d.ledger.effective w

section Reachable

variable {d : Dag}

lemma ready_newDag (leader : Bool) (wallet : Address) (hash : Bytes) (store : Storage) :
    (newDag leader wallet hash store).Ready := by
  refine ⟨(invariant_newDag leader wallet hash store).sources, ?_, ?_⟩
  · cases leader with
    | false => exact sound_new
    | true => exact sound_new.add _
  intro w
  cases leader with
  | false => exact le_refl 0
  | true =>
    show 0 ≤ (genesis wallet hash store).effective w
    rw [effective_genesis]
    split <;> omega

lemma Ready.addToDag (h : d.Ready) (x : Site) (missing known : List NodeId) :
    (d.addToDag (x.node missing) known).2.Ready := by
  have hnonneg := nonneg_addToDag x.toPayment h.nonneg
  cases hvalid : (d.ledger.addToDag x.toPayment).1 with
  | false =>
    rw [addToDag_refused hvalid]
    exact ⟨h.sources, h.sound, hnonneg⟩
  | true =>
    have g : Grown x.id known [] d (d.addToDag (x.node missing) known).2 := grown_addToDag hvalid
    refine ⟨fun a b hab => (g.ids a).mpr ?_, ?_, ?_⟩
    · exact ((g.sources a b).mp hab).imp (h.sources a b) And.left
    · rw [counter_addToDag hvalid]
      exact h.sound.add _
    · rw [addToDag_accepted hvalid]
      exact hnonneg

lemma Ready.link (h : d.Ready) (x : VersionedId) (targets : List NodeId) :
    (d.link x targets).Ready := ⟨h.sources, h.sound, h.nonneg⟩

lemma Ready.insertTxDag (h : d.Ready) (versioncollision : Bool) (x : Site)
    (ids : List NodeId) : (d.insertTxDag versioncollision x ids).2.Ready := by
  unfold Dag.insertTxDag
  split
  · exact h
  split
  · exact h.addToDag x _ _
  split
  · exact h
  · dsimp only
    split
    · exact (h.addToDag x _ _).link _ _
    · exact h.addToDag x _ _

lemma Ready.addTxDag (h : d.Ready) (width : Nat) (payment : Bool) (x : Site)
    (choice : List (Option NodeId)) : (d.addTxDag width payment x choice).2.Ready := by
  unfold Dag.addTxDag
  split
  · exact h
  · split
    · exact (h.link _ _).addToDag x _ _
    · exact h

lemma Ready.insertIfNotExist (h : d.Ready) (vertices : List (Site × List NodeId)) :
    (d.insertIfNotExist vertices).Ready := by
  refine foldlRecOn (motive := Ready) vertices _ h fun d h x _ => ?_
  unfold Dag.insertOne
  split
  · exact h
  · have g := grown_insertMissing x.1 x.2 d
    refine ⟨fun a b hab => (g.ids a).mpr ?_, h.sound, h.nonneg⟩
    exact ((g.sources a b).mp hab).imp (h.sources a b) And.left

end Reachable

/-! ## A delivery in terms of its events -/

/-- The views of `f` are those of `d` and what the events tell. -/
structure Traced (pinned : NodeId → Bool) (E : List Event) (d f : Dag) : Prop where
  sites : f.sites = d.sites ++ E.map (·.site)
  targets : ∀ a b, b ∈ f.targetsOf a ↔
    b ∈ d.targetsOf a ∨ ∃ e ∈ E, e.site.id = a ∧ b ∈ e.known pinned
  sources : ∀ a b, a ∈ f.sourcesOf b ↔ a ∈ d.sourcesOf b ∨ ∃ e ∈ E, e.site.id = a ∧ b ∈ e.inDag
  links : ∀ a b, b ∈ f.linksOf a ↔ b ∈ d.linksOf a ∨ ∃ e ∈ E, e.site.id = a ∧ b ∈ e.linked pinned
  edges : ∀ a b, b ∈ f.edgesOf a ↔ b ∈ d.edgesOf a ∨ ∃ e ∈ E, e.site.id = a ∧ b ∈ e.known pinned
  missing : ∀ a b, b ∈ f.missingOf a ↔
    b ∈ d.missingOf a ∨ ∃ e ∈ E, e.site.id = a ∧ b ∈ e.missing pinned
  counter : f.counter = E.foldl (fun c e => c.add (e.vertex pinned)) d.counter
  balances : ∀ w, f.ledger.effective w = d.ledger.effective w + (E.map (·.site.effect w)).sum
  pins : f.ledger.pins = d.ledger.pins

variable {pinned : NodeId → Bool} {E E' : List Event} {d f g : Dag}

lemma traced_nil {L : Ledger} (hpins : L.pins = d.ledger.pins)
    (heffective : L.effective = d.ledger.effective) :
    Traced pinned [] d { d with ledger := L } := by
  have hnone : ∀ (p : Event → Prop) (q : Prop), q ↔ q ∨ ∃ e ∈ ([] : List Event), p e := by simp
  refine ⟨(append_nil _).symm, fun a b => hnone _ _, fun a b => hnone _ _, fun a b => hnone _ _,
    fun a b => hnone _ _, fun a b => hnone _ _, rfl, fun w => ?_, hpins⟩
  show L.effective w = _
  rw [heffective]
  simp

lemma Traced.trans (h : Traced pinned E d f) (h' : Traced pinned E' f g) : Traced pinned (E ++ E') d g := by
  have hjoin : ∀ (p : Event → Prop) (q : Prop),
      ((q ∨ ∃ e ∈ E, p e) ∨ ∃ e ∈ E', p e) ↔ q ∨ ∃ e ∈ E ++ E', p e := by
    intro p q
    simp only [mem_append, or_and_right, exists_or, or_assoc]
  refine ⟨?_, fun a b => ?_, fun a b => ?_, fun a b => ?_, fun a b => ?_, fun a b => ?_, ?_,
    fun w => ?_, h'.pins.trans h.pins⟩
  · rw [h'.sites, h.sites, append_assoc, map_append]
  · rw [h'.targets, h.targets, hjoin]
  · rw [h'.sources, h.sources, hjoin]
  · rw [h'.links, h.links, hjoin]
  · rw [h'.edges, h.edges, hjoin]
  · rw [h'.missing, h.missing, hjoin]
  · rw [h'.counter, h.counter, foldl_append]
  · rw [h'.balances, h.balances, map_append, sum_append, add_assoc]

lemma found_inDag {ids : List NodeId} : b ∈ d.found ids ∧ b ∈ d.ids ↔ b ∈ ids.filter fun i => d.has i := by
  simp only [found, mem_filter, Bool.or_eq_true, has_iff]
  constructor
  · exact fun ⟨⟨hb, _⟩, hin⟩ => ⟨hb, hin⟩
  · exact fun ⟨hb, hin⟩ => ⟨⟨hb, .inl hin⟩, hin⟩

lemma link_nil (x : VersionedId) : d.link x [] = d := by
  simp [link]

lemma effective_accepted (hnonneg : ∀ w, 0 ≤ d.ledger.effective w) {m : SubInTx}
    (hvalid : (d.ledger.addToDag m.site.toPayment).1 = true) (w : Address) :
    (d.ledger.addToDag m.site.toPayment).2.effective w = d.ledger.effective w + m.site.effect w := by
  rcases effective_addToDag m.site.toPayment hnonneg with ⟨_, _, hmove⟩ | ⟨hno, _⟩
  · rw [hmove, move_eq_effect]
  · rw [hvalid] at hno
    cases hno

theorem traced_accepted (hnonneg : ∀ w, 0 ≤ d.ledger.effective w) {m : SubInTx}
    (hvalid : (d.ledger.addToDag m.site.toPayment).1 = true) :
    Traced d.pinned [d.event m] d
      ((d.addToDag (m.site.node (d.idsNotFound m.targetIds)) (d.found m.targetIds)).2.link
        m.site.version ((d.event m).linked d.pinned)) := by
  have g : Grown m.site.id (d.found m.targetIds) [] d
      (d.addToDag (m.site.node (d.idsNotFound m.targetIds)) (d.found m.targetIds)).2 :=
    grown_addToDag hvalid
  have hevent : ∀ p : Event → Prop, (∃ e ∈ [d.event m], p e) ↔ p (d.event m) := by simp
  refine ⟨?_, fun a b => ?_, fun a b => ?_, fun a b => ?_, fun a b => ?_, fun a b => ?_, ?_,
    fun w => ?_, ?_⟩
  · rw [addToDag_accepted hvalid]
    simp only [sites, link, map_append, map_map, map_cons, map_nil]
    rfl
  · rw [hevent, known_event]
    exact (g.targets a b).trans (or_congr_right (and_congr_left fun _ => eq_comm))
  · rw [hevent]
    show a ∈ sourcesOf _ b ↔ _
    rw [show (d.event m).inDag = m.targetIds.filter fun i => d.has i from rfl, ← found_inDag]
    exact (g.sources a b).trans (or_congr_right (and_congr_left fun _ => eq_comm))
  · rw [hevent, mem_linksOf_link, g.links]
    simp only [not_mem_nil, and_false, or_false]
    exact or_congr_right (and_congr_left fun _ => eq_comm)
  · rw [hevent, known_event]
    exact (g.edges a b).trans (or_congr_right (and_congr_left fun _ => eq_comm))
  · rw [hevent, missing_event, mem_missingOf, mem_missingOf]
    exact exists_mem_addToDag hvalid _
  · show (d.addToDag _ _).2.counter = d.counter.add { m.site.toPayment with targets := _ }
    rw [counter_addToDag hvalid, known_event]
  · rw [addToDag_accepted hvalid, map_singleton, sum_singleton]
    exact effective_accepted hnonneg hvalid w
  · rw [addToDag_accepted hvalid]
    exact addToDag_pins _ _

variable {versioncollision : Bool} {m : SubInTx}

lemma deliver_accepted (h : d.accepts versioncollision m = true) :
    (d.ledger.addToDag m.site.toPayment).1 = true ∧ d.deliver versioncollision m =
      (d.addToDag (m.site.node (d.idsNotFound m.targetIds)) (d.found m.targetIds)).2.link
        m.site.version ((d.event m).linked d.pinned) := by
  simp only [accepts, Bool.and_eq_true, Bool.not_eq_true'] at h
  obtain ⟨⟨hnew, hversion⟩, hvalid⟩ := h
  refine ⟨hvalid, ?_⟩
  unfold deliver insertTxDag Event.linked
  rw [if_neg (by rw [hnew]; exact Bool.false_ne_true), known_event]
  by_cases hall : (d.found m.targetIds).length = m.targetIds.length
  · -- every target is found, so none is missing
    have hnone : d.idsNotFound m.targetIds = [] := by
      refine filter_eq_nil_iff.mpr fun i hi => ?_
      have hfound : (d.has i || d.pinned i) = true := by
        rw [Bool.or_eq_true, has_iff]
        exact found_all_iff.mp hall i hi
      rw [hfound]
      exact Bool.false_ne_true
    have hno : (versioncollision && d.collides m.site (d.found m.targetIds)) = false := by
      simpa [hall] using hversion
    have hfst : (d.addToDag (m.site.node []) (d.found m.targetIds)).1 = true := by
      rw [addToDag_accepted hvalid]
    rw [if_neg (not_not.mpr hall), hno, if_neg Bool.false_ne_true, hnone]
    simp only [hfst, if_true]
    rw [if_pos (show (d.found m.targetIds).length = (d.event m).ids.length from hall)]
  · rw [if_pos hall, if_neg (show ¬ (d.found m.targetIds).length = (d.event m).ids.length from hall),
      link_nil]

lemma deliver_refused (hnonneg : ∀ w, 0 ≤ d.ledger.effective w)
    (h : d.accepts versioncollision m = false) : ∃ L : Ledger, L.pins = d.ledger.pins ∧
      L.effective = d.ledger.effective ∧ d.deliver versioncollision m = { d with ledger := L } := by
  have hkeep : ∃ L : Ledger, L.pins = d.ledger.pins ∧ L.effective = d.ledger.effective ∧
      d = { d with ledger := L } := ⟨d.ledger, rfl, rfl, rfl⟩
  unfold deliver insertTxDag
  by_cases hhas : d.has m.site.id = true
  · rw [if_pos hhas]
    exact hkeep
  rw [if_neg hhas]
  cases hvalid : (d.ledger.addToDag m.site.toPayment).1 with
  | true =>
    -- the payment is covered, so there is a version conflict
    have hconflict : (d.found m.targetIds).length = m.targetIds.length ∧
        (versioncollision && d.collides m.site (d.found m.targetIds)) = true := by
      simpa [accepts, hhas, hvalid, and_assoc] using h
    rw [if_neg (not_not.mpr hconflict.1), hconflict.2]
    exact hkeep
  | false =>
    have hsame : (d.ledger.addToDag m.site.toPayment).2.effective = d.ledger.effective := by
      rcases effective_addToDag m.site.toPayment hnonneg with ⟨hyes, _, _⟩ | ⟨_, hsame⟩
      · rw [hvalid] at hyes
        cases hyes
      · exact hsame
    simp only [addToDag_refused hvalid, Bool.false_eq_true, if_false]
    have hledger : ∃ L : Ledger, L.pins = d.ledger.pins ∧ L.effective = d.ledger.effective ∧
        ({ d with ledger := (d.ledger.addToDag m.site.toPayment).2 } : Dag) = { d with ledger := L } :=
      ⟨_, addToDag_pins _ _, hsame, rfl⟩
    split
    · exact hledger
    · split
      · exact hkeep
      · exact hledger

theorem traced_deliver (hnonneg : ∀ w, 0 ≤ d.ledger.effective w) (m : SubInTx) :
    Traced d.pinned (if d.accepts versioncollision m then [d.event m] else []) d
      (d.deliver versioncollision m) := by
  cases haccepts : d.accepts versioncollision m with
  | true =>
    obtain ⟨hvalid, hdeliver⟩ := deliver_accepted haccepts
    rw [hdeliver]
    exact traced_accepted hnonneg hvalid
  | false =>
    obtain ⟨L, hpins, heffective, hdeliver⟩ := deliver_refused hnonneg haccepts
    rw [hdeliver]
    exact traced_nil hpins heffective

lemma Traced.pinned_eq {P : NodeId → Bool} (h : Traced P E d f) : f.pinned = d.pinned := by
  funext i
  unfold pinned
  rw [h.pins]

theorem traced_deliverAll (versioncollision : Bool) (ms : List SubInTx) : ∀ {d : Dag}, d.Ready →
    Traced d.pinned (d.events versioncollision ms) d (d.deliverAll versioncollision ms) := by
  induction ms with
  | nil => exact fun _ => traced_nil rfl rfl
  | cons m ms ih =>
    intro d hd
    have hone : Traced d.pinned _ d (d.deliver versioncollision m) := traced_deliver hd.nonneg m
    have hready : (d.deliver versioncollision m).Ready := hd.insertTxDag _ _ _
    have hrest := ih hready
    -- no delivery forms a pin, so every event sees the pins of the start
    rw [hone.pinned_eq] at hrest
    exact hone.trans hrest

/-! ## The counter -/

/-- Events as a delivery has them: each vertex is new to the vertices `D` of the DAG, and finds
those of its targets that are among them. -/
def InOrder : List NodeId → List Event → Prop
  | _, [] => True
  | D, e :: E => e.site.id ∉ D ∧ e.inDag = e.ids.filter D.contains ∧ InOrder (D ++ [e.site.id]) E

lemma ids_eq (d : Dag) : d.ids = d.sites.map (·.id) := by
  simp [ids, sites]

lemma Traced.ids_eq (h : Traced pinned E d f) : f.ids = d.ids ++ E.map (·.site.id) := by
  rw [Dag.ids_eq, Dag.ids_eq, h.sites, map_append, map_map]
  rfl

lemma inOrder_events (versioncollision : Bool) (ms : List SubInTx) : ∀ {d : Dag}, d.Ready →
    InOrder d.ids (d.events versioncollision ms) := by
  induction ms with
  | nil => exact fun _ => trivial
  | cons m ms ih =>
    intro d hd
    have hone : Traced d.pinned _ d (d.deliver versioncollision m) := traced_deliver hd.nonneg m
    have hready : (d.deliver versioncollision m).Ready := hd.insertTxDag _ _ _
    have hrest := ih hready
    rw [hone.ids_eq] at hrest
    unfold events
    cases haccepts : d.accepts versioncollision m with
    | false =>
      rw [haccepts] at hrest
      simpa using hrest
    | true =>
      rw [haccepts] at hrest
      have hnew : d.has m.site.id = false := by
        simp only [accepts, Bool.and_eq_true, Bool.not_eq_true'] at haccepts
        exact haccepts.1.1
      refine ⟨fun hin => ?_, filter_congr fun i _ => ?_, hrest⟩
      · have hhas : d.has m.site.id = true := has_iff.mpr hin
        rw [hhas] at hnew
        cases hnew
      · exact Bool.eq_iff_iff.mpr (has_iff.trans contains_iff_mem.symm)

variable {D : List NodeId} {w : NodeId}

lemma InOrder.notMem (h : InOrder D E) (hw : w ∈ D) : w ∉ E.map (·.site.id) := by
  induction E generalizing D with
  | nil => exact not_mem_nil
  | cons e E ih =>
    obtain ⟨hnew, _, hrest⟩ := h
    rw [map_cons, mem_cons, not_or]
    refine ⟨fun heq => hnew (heq ▸ hw), ih hrest (mem_append_left _ hw)⟩

lemma InOrder.nodup (h : InOrder D E) : (E.map (·.site.id)).Nodup := by
  induction E generalizing D with
  | nil => exact nodup_nil
  | cons e E ih =>
    obtain ⟨_, _, hrest⟩ := h
    exact nodup_cons.mpr ⟨hrest.notMem (mem_append_right _ (mem_singleton.mpr rfl)), ih hrest⟩

lemma InOrder.count_known (h : InOrder D E) (hw : w ∈ D) {e : Event} (he : e ∈ E) :
    (e.known pinned).count w = e.inDag.count w := by
  induction E generalizing D with
  | nil => cases he
  | cons e' E ih =>
    obtain ⟨_, hfilter, hrest⟩ := h
    rcases mem_cons.mp he with rfl | he
    · by_cases hids : w ∈ e.ids
      · have hin : w ∈ e.inDag := by
          rw [hfilter]
          exact mem_filter.mpr ⟨hids, contains_iff_mem.mpr hw⟩
        have hknown : (e.known pinned).count w = e.ids.count w :=
          count_filter (p := fun i => e.inDag.contains i || pinned i) (by simp [hin])
        have hfound : (e.ids.filter D.contains).count w = e.ids.count w :=
          count_filter (contains_iff_mem.mpr hw)
        rw [hknown, hfilter, hfound]
      · have hknown : w ∉ e.known pinned := fun hk => hids (mem_of_mem_filter hk)
        have hfound : w ∉ e.inDag := by
          rw [hfilter]
          exact fun hk => hids (mem_of_mem_filter hk)
        rw [count_eq_zero.mpr hknown, count_eq_zero.mpr hfound]
    · exact ih hrest (mem_append_left _ hw) he

lemma InOrder.sum_approvals (h : InOrder D E) (hw : w ∈ D) :
    (E.map (·.approvals pinned w false)).sum = (E.map (·.approvals pinned w true)).sum := by
  congr 1
  refine map_congr_left fun e he => ?_
  have hne : e.site.id ≠ w := fun heq => h.notMem hw (heq ▸ mem_map_of_mem he)
  have hcount : (e.known pinned).count w = e.inDag.count w := h.count_known hw he
  simp [Event.approvals, hne, hcount]

lemma approvals_of_notMem {e : Event} (hfilter : e.inDag = e.ids.filter D.contains) (hw : w ∉ D) :
    e.approvals pinned w true = if e.site.id = w then (e.known pinned).count w else 0 := by
  have hzero : e.inDag.count w = 0 := by
    rw [hfilter]
    exact count_eq_zero.mpr fun hk => hw (contains_iff_mem.mp (mem_filter.mp hk).2)
  simp [Event.approvals, hzero]

lemma entry_counted (pinned : NodeId → Bool) (w : NodeId) (E : List Event) :
    ∀ {D : List NodeId} {c : ConfirmationCounter}, c.Sound → InOrder D E →
      (E.foldl (fun c e => c.add (e.vertex pinned)) c).Sound ∧
      (E.foldl (fun c e => c.add (e.vertex pinned)) c).entry w =
        ((if w ∈ E.map (·.site.id) then 1 else c.entry w) +
          (E.map (·.approvals pinned w (decide (w ∈ E.map (·.site.id))))).sum) % 3 := by
  induction E with
  | nil =>
    intro D c hc _
    have hle := hc.entry_le w
    refine ⟨hc, ?_⟩
    show c.entry w = (c.entry w + 0) % 3
    omega
  | cons e E ih =>
    intro D c hc h
    obtain ⟨hnew, hfilter, hrest⟩ := h
    obtain ⟨hsound, hentry⟩ := ih (hc.add (e.vertex pinned)) hrest
    refine ⟨hsound, ?_⟩
    have hid : (e.vertex pinned).id = e.site.id := rfl
    have htargets : (e.vertex pinned).targets = e.known pinned := rfl
    have hlast : e.site.id ∈ D ++ [e.site.id] := mem_append_right D (mem_singleton.mpr rfl)
    rw [foldl_cons, hentry, entry_add hc, hid, htargets]
    simp only [map_cons, mem_cons, sum_cons]
    by_cases hlater : w ∈ E.map (·.site.id)
    · -- its own event is still to come: what this one counts is forgotten
      have hne : e.site.id ≠ w := fun heq => hrest.notMem hlast (heq ▸ hlater)
      have hD : w ∉ D := fun hin => hrest.notMem (mem_append_left _ hin) hlater
      simp only [hlater, or_true, if_true, decide_true, approvals_of_notMem hfilter hD, hne,
        if_false, Nat.zero_add]
    · by_cases hself : w = e.site.id
      · -- its own event: from now on it is in the DAG
        subst hself
        simp only [hlater, true_or, if_true, if_false, decide_true, decide_false,
          approvals_of_notMem hfilter hnew, hrest.sum_approvals hlast]
        omega
      · have hown : e.approvals pinned w false = (e.known pinned).count w := by
          simp [Event.approvals]
        simp only [hlater, hself, or_false, if_false, decide_false, hown]
        omega

/-! ## Reconciliation -/

/-- The inner loop has linked those of `ts` that were missing. -/
structure Relinked (ts : List NodeId) (s r : Node × List Link) : Prop where
  site : r.1.toSite = s.1.toSite
  sources : r.1.sources = s.1.sources
  targets : ∀ b, b ∈ r.1.targets ↔ b ∈ s.1.targets ∨ b ∈ ts ∧ b ∈ s.1.missingTargets
  links : ∀ l, l ∈ r.2 ↔ l ∈ s.2 ∨ ∃ t, (t ∈ ts ∧ t ∈ s.1.missingTargets) ∧ l = ⟨s.1.version, t⟩

lemma relink_of_mem {t : NodeId} (h : t ∈ s.1.missingTargets) : relink s t = ({ s.1 with
          targets := s.1.targets ++ [t]
          missingTargets := s.1.missingTargets.filter (· ≠ t) },
        s.2 ++ [⟨s.1.version, t⟩]) :=
  if_pos (contains_iff_mem.mpr h)

lemma relink_of_notMem {t : NodeId} (h : t ∉ s.1.missingTargets) :
    relink s t = s := if_neg fun hc => h (contains_iff_mem.mp hc)

lemma foldl_relink (ts : List NodeId) : ∀ s, Relinked ts s (ts.foldl relink s) := by
  induction ts with
  | nil => exact fun s => ⟨rfl, rfl, fun b => by simp, fun l => by simp⟩
  | cons t ts ih =>
    intro s
    have h := ih (relink s t)
    rw [foldl_cons]
    by_cases ht : t ∈ s.1.missingTargets
    · rw [relink_of_mem ht] at h ⊢
      -- the target is linked, and is not missing for the rest of the loop
      have hsplit : ∀ b, (b = t ∨ b ∈ ts ∧ b ∈ s.1.missingTargets.filter (· ≠ t)) ↔
          b ∈ t :: ts ∧ b ∈ s.1.missingTargets := by
        intro b
        by_cases hb : b = t
        · simp [hb, ht]
        · simp [hb]
      refine ⟨h.site, h.sources, fun b => ?_, fun l => ?_⟩
      · rw [h.targets, ← hsplit, ← or_assoc, mem_append, mem_singleton]
      · rw [h.links]
        simp only [← hsplit, or_and_right, exists_or, exists_eq_left, mem_append,
          mem_singleton, or_assoc]
    · rw [relink_of_notMem ht] at h ⊢
      have hsplit : ∀ b, (b ∈ ts ∧ b ∈ s.1.missingTargets) ↔ b ∈ t :: ts ∧ b ∈ s.1.missingTargets := by
        intro b
        by_cases hb : b = t
        · simp [hb, ht]
        · simp [hb]
      refine ⟨h.site, h.sources, fun b => ?_, fun l => ?_⟩
      · rw [h.targets, hsplit]
      · rw [h.links]
        simp only [hsplit]

lemma mem_possibleTargets {v : Node} :
    b ∈ d.possibleTargets v ∧ b ∈ v.missingTargets ↔ b ∈ v.missingTargets ∧ b ∈ d.ids ∧ b ≠ v.id := by
  simp only [possibleTargets, mem_filter, Bool.and_eq_true, decide_eq_true_eq, contains_iff_mem]
  tauto

lemma relinked_reconciled (d : Dag) (v : Node) :
    Relinked (d.possibleTargets v) (v, []) (d.reconciled v) := foldl_relink _ _

lemma sites_reconcile (d : Dag) : d.reconcileMissingTargets.sites = d.sites := by
  unfold sites reconcileMissingTargets
  rw [map_map]
  exact map_congr_left fun v _ => (relinked_reconciled d v).site

lemma exists_mem_reconcile {P : Node → Prop} :
    (∃ v ∈ d.reconcileMissingTargets.nodes, v.id = a ∧ P v) ↔ ∃ v ∈ d.nodes, v.id = a ∧ P (d.reconciled v).1 := by
  have hid : ∀ v, (d.reconciled v).1.id = v.id := fun v => congrArg (·.id) (relinked_reconciled d v).site
  simp only [reconcileMissingTargets, mem_map, exists_exists_and_eq_and, hid]

lemma mem_targetsOf_reconcile : b ∈ d.reconcileMissingTargets.targetsOf a ↔
    b ∈ d.targetsOf a ∨ b ∈ d.missingOf a ∧ b ∈ d.ids ∧ b ≠ a := by
  rw [mem_targetsOf, exists_mem_reconcile, mem_targetsOf, mem_missingOf]
  simp only [(relinked_reconciled d _).targets, mem_possibleTargets]
  constructor
  · rintro ⟨v, hv, rfl, hb | ⟨hmiss, hin⟩⟩
    · exact .inl ⟨v, hv, rfl, hb⟩
    · exact .inr ⟨⟨v, hv, rfl, hmiss⟩, hin⟩
  · rintro (⟨v, hv, rfl, hb⟩ | ⟨⟨v, hv, rfl, hmiss⟩, hin⟩)
    · exact ⟨v, hv, rfl, .inl hb⟩
    · exact ⟨v, hv, rfl, .inr ⟨hmiss, hin⟩⟩

lemma mem_linksOf_reconcile : b ∈ d.reconcileMissingTargets.linksOf a ↔
    b ∈ d.linksOf a ∨ b ∈ d.missingOf a ∧ b ∈ d.ids ∧ b ≠ a := by
  rw [mem_linksOf, mem_linksOf, mem_missingOf]
  constructor
  · rintro ⟨l, hl, rfl, rfl⟩
    rcases mem_append.mp hl with hl | hl
    · exact .inl ⟨l, hl, rfl, rfl⟩
    · obtain ⟨v, hv, hlv⟩ := mem_flatMap.mp hl
      rcases ((relinked_reconciled d v).links l).mp hlv with hl | ⟨t, ht, rfl⟩
      · cases hl
      · obtain ⟨hmiss, hin, hne⟩ := mem_possibleTargets.mp ht
        exact .inr ⟨⟨v, hv, rfl, hmiss⟩, hin, hne⟩
  · rintro (⟨l, hl, rfl, rfl⟩ | ⟨⟨v, hv, rfl, hmiss⟩, hin, hne⟩)
    · exact ⟨l, mem_append_left _ hl, rfl, rfl⟩
    · have hlink := ((relinked_reconciled d v).links ⟨v.version, b⟩).mpr
        (.inr ⟨b, mem_possibleTargets.mpr ⟨hmiss, hin, hne⟩, rfl⟩)
      exact ⟨_, mem_append_right _ (mem_flatMap.mpr ⟨v, hv, hlink⟩), rfl, rfl⟩

lemma mem_sourcesOf_reconcile : a ∈ d.reconcileMissingTargets.sourcesOf b ↔ a ∈ d.sourcesOf b := by
  rw [mem_sourcesOf, exists_mem_reconcile, mem_sourcesOf]
  simp only [(relinked_reconciled d _).sources]

lemma Ready.reconcile (h : d.Ready) : d.reconcileMissingTargets.Ready := by
  refine ⟨fun a b hab => ?_, h.sound, h.nonneg⟩
  rw [ids_eq, sites_reconcile, ← ids_eq]
  exact h.sources a b (mem_sourcesOf_reconcile.mp hab)

/-- Every operation leads to such a state, if a pin from the leader leaves no balance negative. -/
theorem Ready.apply (h : d.Ready) (width : Nat) (op : Op)
    (hpin : ∀ L, op = .syncPin L → ∀ w, 0 ≤ L.effective w) :
    (op.apply width versioncollision d).Ready := by
  cases op with
  | addTxDag payment x choice => exact h.addTxDag width payment x choice
  | insertTxDag x ids => exact h.insertTxDag versioncollision x ids
  | insertIfNotExist vertices => exact h.insertIfNotExist vertices
  | reconcileMissingTargets => exact h.reconcile
  | formPin sites smc => exact ⟨h.sources, h.sound, nonneg_of_shrinks (shrinks_pin sites smc _) h.nonneg⟩
  | syncPin L => exact ⟨h.sources, h.sound, hpin L rfl⟩

/-- **EVERY DAG IS READY**, after every sequence of operations, clean or not, of a node. -/
theorem ready_run (width : Nat) (versioncollision leader : Bool) (wallet : Address) (hash : Bytes)
    (store : Storage) (ops : List Op) (hpins : ∀ L, .syncPin L ∈ ops → ∀ w, 0 ≤ L.effective w) :
    (run width versioncollision ops (newDag leader wallet hash store)).Ready := by
  have hrun : ∀ {d : Dag}, d.Ready → (run width versioncollision ops d).Ready := by
    induction ops with
    | nil => exact fun h => h
    | cons op ops ih =>
      intro d h
      refine ih (fun L hL => hpins L (mem_cons_of_mem op hL)) (h.apply width op fun L hop => ?_)
      exact hpins L (hop ▸ mem_cons_self)
  exact hrun (ready_newDag leader wallet hash store)

def sampleOps : List Op :=
  [.addTxDag true (sampleSite 1) [], .insertTxDag (sampleSite 2) [1, 9], .insertIfNotExist [(sampleSite 9, [])],
    .reconcileMissingTargets, .formPin [(sampleSite 1).toPayment] (pure ())]

/-- A payment, one whose target 9 arrives later, and a pin over the first. -/
theorem pinned_ready : (run 5 false sampleOps (newDag true 500 [] .new)).Ready ∧
    (run 5 false sampleOps (newDag true 500 [] .new)).ids = [0, 1, 2, 9] ∧
    (run 5 false sampleOps (newDag true 500 [] .new)).targetsOf 2 = [1, 9] ∧
    (run 5 false sampleOps (newDag true 500 [] .new)).ledger.pins.length = 2 :=
  ⟨ready_run 5 false true 500 [] .new _ (by simp [sampleOps]), by decide +kernel,
    by decide +kernel, by decide +kernel⟩

/-! ## Two orders -/

/-- The same vertices, edges, tips and balances. -/
structure SameOutcome (f g : Dag) : Prop where
  vertices : ∀ x, x ∈ f.sites ↔ x ∈ g.sites
  targets : ∀ a b, b ∈ f.targetsOf a ↔ b ∈ g.targetsOf a
  sources : ∀ a b, a ∈ f.sourcesOf b ↔ a ∈ g.sourcesOf b
  links : ∀ a b, b ∈ f.linksOf a ↔ b ∈ g.linksOf a
  edges : ∀ a b, b ∈ f.edgesOf a ↔ b ∈ g.edgesOf a
  tips : ∀ i, f.counter.isTip i = g.counter.isTip i
  balances : ∀ w, f.ledger.effective w = g.ledger.effective w

lemma SameOutcome.reconcile (h : SameOutcome f g)
    (hmissing : ∀ a b, b ∈ f.missingOf a ↔ b ∈ g.missingOf a) :
    SameOutcome f.reconcileMissingTargets g.reconcileMissingTargets := by
  have hids : ∀ i, i ∈ f.ids ↔ i ∈ g.ids := by
    intro i
    simp only [ids_eq, mem_map, h.vertices]
  refine ⟨fun x => ?_, fun a b => ?_, fun a b => ?_, fun a b => ?_, h.edges, h.tips, h.balances⟩
  · rw [sites_reconcile, sites_reconcile, h.vertices]
  · rw [mem_targetsOf_reconcile, mem_targetsOf_reconcile, h.targets, hmissing, hids]
  · rw [mem_sourcesOf_reconcile, mem_sourcesOf_reconcile, h.sources]
  · rw [mem_linksOf_reconcile, mem_linksOf_reconcile, h.links, hmissing, hids]

lemma isTip_of_perm (hd : d.Ready) (hperm : E.Perm E') (hE : InOrder d.ids E)
    (hE' : InOrder d.ids E') (hf : Traced pinned E d f) (hg : Traced pinned E' d g) (i : NodeId) :
    f.counter.isTip i = g.counter.isTip i := by
  obtain ⟨hsound, hentry⟩ := entry_counted pinned i E hd.sound hE
  obtain ⟨hsound', hentry'⟩ := entry_counted pinned i E' hd.sound hE'
  have hmem : i ∈ E.map (·.site.id) ↔ i ∈ E'.map (·.site.id) := (hperm.map _).mem_iff
  have hsame : f.counter.entry i = g.counter.entry i := by
    rw [hf.counter, hg.counter, hentry, hentry']
    simp only [hmem]
    rw [((hperm.map (·.approvals pinned i (decide (i ∈ E'.map (·.site.id))))).sum_eq)]
  rw [← hf.counter] at hsound
  rw [← hg.counter] at hsound'
  rw [Bool.eq_iff_iff, hsound.isTip_iff, hsound'.isTip_iff, hsame]

section Orders

variable {ms ms' : List SubInTx}

lemma same_of_events (hd : d.Ready)
    (h : ∀ e, e ∈ d.events versioncollision ms ↔ e ∈ d.events versioncollision ms') :
    SameOutcome (d.deliverAll versioncollision ms).reconcileMissingTargets
      (d.deliverAll versioncollision ms').reconcileMissingTargets := by
  have hE := inOrder_events versioncollision ms hd
  have hE' := inOrder_events versioncollision ms' hd
  have hf := traced_deliverAll versioncollision ms hd
  have hg := traced_deliverAll versioncollision ms' hd
  have hperm : (d.events versioncollision ms).Perm (d.events versioncollision ms') :=
    (perm_ext_iff_of_nodup (List.Nodup.of_map _ hE.nodup) (List.Nodup.of_map _ hE'.nodup)).mpr h
  refine SameOutcome.reconcile ⟨fun x => ?_, fun a b => ?_, fun a b => ?_, fun a b => ?_,
    fun a b => ?_, isTip_of_perm hd hperm hE hE' hf hg, fun w => ?_⟩ fun a b => ?_
  · rw [hf.sites, hg.sites, mem_append, mem_append, (hperm.map _).mem_iff]
  · simp only [hf.targets, hg.targets, h]
  · simp only [hf.sources, hg.sources, h]
  · simp only [hf.links, hg.links, h]
  · simp only [hf.edges, hg.edges, h]
  · rw [hf.balances, hg.balances, (hperm.map _).sum_eq]
  · simp only [hf.missing, hg.missing, h]

lemma mem_of_events (ms : List SubInTx) : ∀ {d : Dag} {e : Event},
    e ∈ d.events versioncollision ms → ∃ m ∈ ms, e.site = m.site ∧ e.ids = m.targetIds := by
  induction ms with
  | nil => exact nofun
  | cons m ms ih =>
    intro d e h
    rcases mem_append.mp h with h | h
    · split at h
      · obtain rfl := mem_singleton.mp h
        exact ⟨m, mem_cons_self, rfl, rfl⟩
      · cases h
    · obtain ⟨m', hm', heq⟩ := ih h
      exact ⟨m', mem_cons_of_mem m hm', heq⟩

variable {e : Event}

lemma InOrder.new (h : InOrder D E) (he : e ∈ E) : e.site.id ∉ D :=
  fun hin => h.notMem hin (mem_map_of_mem he)

lemma InOrder.filter (h : InOrder D E) (he : e ∈ E) : e.inDag = e.ids.filter e.inDag.contains := by
  induction E generalizing D with
  | nil => cases he
  | cons e' E ih =>
    obtain ⟨_, hfilter, hrest⟩ := h
    rcases mem_cons.mp he with rfl | he
    · have hD : ∀ i ∈ e.ids, D.contains i = e.inDag.contains i := by
        intro i hi
        rw [hfilter]
        simp [hi]
      rw [← filter_congr hD]
      exact hfilter
    · exact ih hrest he

lemma mem_inDag_iff (hd : d.Ready) (hE : InOrder d.ids E) (hf : Traced pinned E d f) (he : e ∈ E)
    (b : NodeId) : b ∈ e.inDag ↔ e.site.id ∈ f.sourcesOf b := by
  rw [hf.sources]
  constructor
  · exact fun hb => .inr ⟨e, he, rfl, hb⟩
  · rintro (hold | ⟨e', he', heq, hb⟩)
    · exact absurd (hd.sources _ b hold) (hE.new he)
    · have hsame : e' = e := inj_on_of_nodup_map hE.nodup he' he heq
      exact hsame ▸ hb

lemma event_of_same (hd : d.Ready) (hperm : ms.Perm ms') (hdistinct : (ms.map (·.site.id)).Nodup)
    (h : SameOutcome (d.deliverAll versioncollision ms).reconcileMissingTargets
      (d.deliverAll versioncollision ms').reconcileMissingTargets)
    (he : e ∈ d.events versioncollision ms) : e ∈ d.events versioncollision ms' := by
  have hE := inOrder_events versioncollision ms hd
  have hE' := inOrder_events versioncollision ms' hd
  have hf := traced_deliverAll versioncollision ms hd
  have hg := traced_deliverAll versioncollision ms' hd
  -- the other delivery has accepted the vertex as well
  have hvertex : e.site ∈ (d.deliverAll versioncollision ms').sites := by
    rw [← sites_reconcile, ← h.vertices, sites_reconcile, hf.sites]
    exact mem_append_right _ (mem_map_of_mem he)
  rw [hg.sites] at hvertex
  rcases mem_append.mp hvertex with hold | hnew
  · have hin : e.site.id ∈ d.ids := by
      rw [ids_eq]
      exact mem_map_of_mem hold
    exact absurd hin (hE.new he)
  · obtain ⟨e', he', hsite⟩ := mem_map.mp hnew
    obtain ⟨m, hm, hms, hmids⟩ := mem_of_events ms he
    obtain ⟨m', hm', hms', hmids'⟩ := mem_of_events ms' he'
    -- it is an event of the same message, and the sources of the targets show what it found
    have hmsg : m' = m := by
      refine inj_on_of_nodup_map hdistinct (hperm.mem_iff.mpr hm') hm ?_
      rw [← hms', ← hms, hsite]
    have hids : e'.ids = e.ids := by rw [hmids', hmids, hmsg]
    have hinDag : ∀ b, b ∈ e'.inDag ↔ b ∈ e.inDag := by
      intro b
      rw [mem_inDag_iff hd hE' hg he', mem_inDag_iff hd hE hf he, hsite,
        ← mem_sourcesOf_reconcile, ← h.sources, mem_sourcesOf_reconcile]
    have hfound : e'.inDag = e.inDag := by
      rw [hE'.filter he', hE.filter he, hids]
      refine filter_congr fun i _ => ?_
      rw [Bool.eq_iff_iff, contains_iff_mem, contains_iff_mem, hinDag]
    have heq : e' = e := by
      cases e
      cases e'
      simp only at hsite hids hfound
      rw [hsite, hids, hfound]
    exact heq ▸ he'

end Orders

/-- **TWO ORDERS END ALIKE IF AND ONLY IF THEY HAVE THE SAME EVENTS**: the same vertices are
accepted, and each finds the same of its targets in the DAG. -/
theorem delivery_order_iff (versioncollision : Bool) {d : Dag} (hd : d.Ready)
    {ms ms' : List SubInTx} (hperm : ms.Perm ms') (hdistinct : (ms.map (·.site.id)).Nodup) :
    SameOutcome (d.deliverAll versioncollision ms).reconcileMissingTargets
        (d.deliverAll versioncollision ms').reconcileMissingTargets ↔
      ∀ e, e ∈ d.events versioncollision ms ↔ e ∈ d.events versioncollision ms' := by
  constructor
  · intro h e
    have hback : SameOutcome (d.deliverAll versioncollision ms').reconcileMissingTargets
        (d.deliverAll versioncollision ms).reconcileMissingTargets :=
      ⟨fun x => (h.vertices x).symm, fun a b => (h.targets a b).symm, fun a b => (h.sources a b).symm,
        fun a b => (h.links a b).symm, fun a b => (h.edges a b).symm, fun i => (h.tips i).symm,
        fun w => (h.balances w).symm⟩
    have hdistinct' : (ms'.map (·.site.id)).Nodup := (hperm.map _).nodup_iff.mp hdistinct
    exact ⟨event_of_same hd hperm hdistinct h, event_of_same hd hperm.symm hdistinct' hback⟩
  · exact same_of_events hd

def sampleFirst : SubInTx := ⟨sampleSite 1, [0]⟩
def sampleSecond : SubInTx := ⟨sampleSite 2, [1]⟩
def sampleThird : SubInTx := ⟨sampleSite 3, [1]⟩

theorem siblings_exchanged : SameOutcome
    (sampleLeader.deliverAll false [sampleFirst, sampleSecond, sampleThird]).reconcileMissingTargets
    (sampleLeader.deliverAll false [sampleFirst, sampleThird, sampleSecond]).reconcileMissingTargets := by
  have hperm : [sampleFirst, sampleSecond, sampleThird].Perm
      [sampleFirst, sampleThird, sampleSecond] := (List.Perm.swap _ _ _).cons _
  have hevents : sampleLeader.events false [sampleFirst, sampleSecond, sampleThird] =
      [⟨sampleSite 1, [0], [0]⟩, ⟨sampleSite 2, [1], [1]⟩, ⟨sampleSite 3, [1], [1]⟩] := by
    decide +kernel
  have hevents' : sampleLeader.events false [sampleFirst, sampleThird, sampleSecond] =
      [⟨sampleSite 1, [0], [0]⟩, ⟨sampleSite 3, [1], [1]⟩, ⟨sampleSite 2, [1], [1]⟩] := by
    decide +kernel
  refine (delivery_order_iff false (ready_newDag true 500 [] Storage.new) hperm (by decide)).mpr
    fun e => ?_
  show e ∈ sampleLeader.events _ _ ↔ e ∈ sampleLeader.events _ _
  rw [hevents]
  exact ((List.Perm.swap _ _ _).cons _).mem_iff

/-- **The order matters.** Delivered behind their target, 2 and 3 confirm the vertex 1. If they
are delivered before it, reconciliation links them to it, no target is missing, and every
payment has gone through; but 1 is a tip, and the edge lookup of 2 is empty. -/
theorem late_target_stays_tip :
    (sampleLeader.events false [sampleFirst, sampleSecond, sampleThird]).map (·.site.id) = [1, 2, 3] ∧
    ((sampleLeader.deliverAll false
        [sampleFirst, sampleSecond, sampleThird]).reconcileMissingTargets.nodes.all
          (·.missingTargets = []) = true ∧
      (sampleLeader.deliverAll false
        [sampleSecond, sampleThird, sampleFirst]).reconcileMissingTargets.nodes.all
          (·.missingTargets = []) = true) ∧
    ((sampleLeader.deliverAll false
        [sampleFirst, sampleSecond, sampleThird]).reconcileMissingTargets.counter.isTip 1 = false ∧
      (sampleLeader.deliverAll false
        [sampleSecond, sampleThird, sampleFirst]).reconcileMissingTargets.counter.isTip 1 = true) ∧
    ((sampleLeader.deliverAll false
        [sampleFirst, sampleSecond, sampleThird]).reconcileMissingTargets.edgesOf 2 = [1] ∧
      (sampleLeader.deliverAll false
        [sampleSecond, sampleThird, sampleFirst]).reconcileMissingTargets.edgesOf 2 = []) := by
  decide +kernel

end Dag

end GrapeDag
