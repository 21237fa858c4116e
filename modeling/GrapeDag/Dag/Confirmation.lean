/-
THE CONFIRMATION COUNTER.

`src/dag/confirmation.go`. The counter keeps for each vertex the list of its approvers, the
vertex itself first. With three entries the vertex is confirmed and its list deleted; a later
approval starts a new list, this time without the vertex itself.

Main result: `tips_tracked_iff`.
-/
import GrapeDag.Dag.Ledger

namespace GrapeDag

open List FinMap

/-! ## The counter -/

/-- A vertex of the DAG: its payment and the ids of its targets. -/
structure Vertex extends Payment where
  targets : List NodeId
  deriving Repr, DecidableEq

/-- `tips` has the approvers of each vertex, `cache` the vertices. -/
structure ConfirmationCounter where
  tips : FinMap NodeId (List NodeId)
  cache : FinMap NodeId Vertex
  /-- a set: no id twice -/
  confirmed : List NodeId

namespace ConfirmationCounter

def new : ConfirmationCounter := ⟨∅, ∅, []⟩

def isTip (c : ConfirmationCounter) (id : NodeId) : Bool := (c.tips.lookup id).isSome

def getTips (c : ConfirmationCounter) : List Vertex := c.tips.entries.filterMap fun e => c.cache.lookup e.1

/-- `tip`; `none` is the nil of an id that is not in the cache. -/
def tip (c : ConfirmationCounter) : List (Option Vertex) := c.tips.entries.map fun e => c.cache.lookup e.1

def approve (by_ : NodeId) (c : ConfirmationCounter) (v : NodeId) : ConfirmationCounter :=
  let approvers := (c.tips.lookup v).getD [] ++ [by_]
  if approvers.length > 2 then
    { c with tips := c.tips.erase v, confirmed := c.confirmed.insert v }
  else { c with tips := c.tips.insert v approvers }

def add (c : ConfirmationCounter) (vertex : Vertex) : ConfirmationCounter :=
  vertex.targets.foldl (approve vertex.id) { c with
      cache := c.cache.insert vertex.id vertex
      tips := c.tips.insert vertex.id [vertex.id] }

def pop (walk : List NodeId → List NodeId) (c : ConfirmationCounter) :
    List (Option Vertex) × ConfirmationCounter :=
  ((walk c.confirmed).map c.cache.lookup, { c with confirmed := [] })

def run (history : List Vertex) : ConfirmationCounter := history.foldl add new

@[simp] lemma run_concat (history : List Vertex) (x : Vertex) :
    run (history ++ [x]) = (run history).add x := by
  simp [run, foldl_append]

/-! ## The length of an entry -/

def entry (c : ConfirmationCounter) (v : NodeId) : Nat := ((c.tips.lookup v).getD []).length

/-- No list is empty or longer than two. -/
def Sound (c : ConfirmationCounter) : Prop := ∀ v l, c.tips.lookup v = some l → l ≠ [] ∧ l.length ≤ 2

lemma sound_new : new.Sound := by
  intro v l h
  cases h

variable {c : ConfirmationCounter}

lemma Sound.entry_le (h : c.Sound) (v : NodeId) : c.entry v ≤ 2 := by
  unfold entry
  cases hl : c.tips.lookup v with
  | none => exact Nat.zero_le 2
  | some l => exact (h v l hl).2

lemma Sound.isTip_iff (h : c.Sound) (v : NodeId) : c.isTip v = true ↔ c.entry v ≠ 0 := by
  unfold isTip entry
  cases hl : c.tips.lookup v with
  | none => simp
  | some l => simp [(h v l hl).1]

lemma approve_full {v : NodeId} (h : 2 ≤ c.entry v) (by_ : NodeId) :
    c.approve by_ v = { c with tips := c.tips.erase v, confirmed := c.confirmed.insert v } := by
  refine if_pos ?_
  rw [length_append]
  exact Nat.lt_succ_of_le h

lemma approve_open {v : NodeId} (h : c.entry v < 2) (by_ : NodeId) :
    c.approve by_ v = { c with tips := c.tips.insert v ((c.tips.lookup v).getD [] ++ [by_]) } := by
  refine if_neg ?_
  rw [length_append]
  show ¬ c.entry v + 1 > 2
  omega

lemma entry_approve (h : c.Sound) (by_ v w : NodeId) :
    (c.approve by_ v).entry w = if w = v then (c.entry v + 1) % 3 else c.entry w := by
  have hle := h.entry_le v
  rcases Nat.lt_or_ge (c.entry v) 2 with hlt | hge
  · have hmod : (c.entry v + 1) % 3 = c.entry v + 1 := Nat.mod_eq_of_lt (by omega)
    rw [approve_open hlt, hmod]
    simp only [entry, lookup_insert_eq_ite]
    split
    · simp
    · rfl
  · have hmod : (c.entry v + 1) % 3 = 0 := by omega
    rw [approve_full hge, hmod]
    simp only [entry, lookup_erase_eq_ite]
    split
    · rfl
    · rfl

lemma Sound.approve (h : c.Sound) (by_ v : NodeId) : (c.approve by_ v).Sound := by
  intro w l hl
  rcases Nat.lt_or_ge (c.entry v) 2 with hlt | hge
  · rw [approve_open hlt, lookup_insert_eq_ite] at hl
    split at hl
    · obtain rfl := Option.some.inj hl
      refine ⟨by simp, ?_⟩
      rw [length_append]
      exact hlt
    · exact h w l hl
  · rw [approve_full hge, lookup_erase_eq_ite] at hl
    split at hl
    · cases hl
    · exact h w l hl

lemma entry_foldl_approve (h : c.Sound) (by_ : NodeId) (targets : List NodeId) (w : NodeId) :
    (targets.foldl (ConfirmationCounter.approve by_) c).Sound ∧
      (targets.foldl (ConfirmationCounter.approve by_) c).entry w = (c.entry w + targets.count w) % 3 := by
  induction targets generalizing c with
  | nil =>
    have := h.entry_le w
    exact ⟨h, by simp only [foldl_nil, count_nil]; omega⟩
  | cons v targets ih =>
    obtain ⟨hs, he⟩ := ih (h.approve by_ v)
    refine ⟨hs, ?_⟩
    rw [foldl_cons, he, entry_approve h, count_cons]
    by_cases hw : w = v
    · subst hw
      simp only [if_true, beq_self_eq_true]
      omega
    · have hv : (v == w) = false := beq_eq_false_iff_ne.mpr (Ne.symm hw)
      simp [hw, hv]

lemma Sound.restart (h : c.Sound) (x : Vertex) : Sound { c with
      cache := c.cache.insert x.id x
      tips := c.tips.insert x.id [x.id] } := by
  intro w l hl
  rw [lookup_insert_eq_ite] at hl
  split at hl
  · obtain rfl := Option.some.inj hl
    exact ⟨by simp, by simp⟩
  · exact h w l hl

lemma Sound.add (h : c.Sound) (x : Vertex) : (c.add x).Sound :=
  (entry_foldl_approve (h.restart x) x.id x.targets x.id).1

/-- Step. What the addition of a vertex does to an entry. -/
theorem entry_add (h : c.Sound) (x : Vertex) (w : NodeId) :
    (c.add x).entry w = ((if w = x.id then 1 else c.entry w) + x.targets.count w) % 3 := by
  rw [ConfirmationCounter.add, (entry_foldl_approve (h.restart x) x.id x.targets w).2]
  congr 2
  simp only [entry, lookup_insert_eq_ite]
  split <;> rfl

/-! ## Histories -/

/-- The number of approvals of `v` since it was last added, with their multiplicity. -/
def approvals (history : List Vertex) (v : NodeId) : Nat :=
  history.foldl (fun n x => (if v = x.id then 0 else n) + x.targets.count v) 0

/-- The distinct vertices that approve `v`. -/
def approvers (history : List Vertex) (v : NodeId) : List NodeId :=
  ((history.filter fun x => x.targets.contains v).map (·.id)).dedup

/-- Each vertex comes behind its targets. -/
def TargetsFirst (history : List Vertex) : Prop :=
  ∀ pre x, pre ++ [x] <+: history → ∀ t ∈ x.targets, t ∈ pre.map (·.id)

variable {history : List Vertex} {v : NodeId}

lemma approvals_concat (history : List Vertex) (x : Vertex) (v : NodeId) :
    approvals (history ++ [x]) v = (if v = x.id then 0 else approvals history v) + x.targets.count v := by
  simp [approvals, foldl_append]

lemma TargetsFirst.of_concat {x : Vertex} (h : TargetsFirst (history ++ [x])) : TargetsFirst history :=
  fun pre y hpre => h pre y (hpre.trans (prefix_append history [x]))

lemma targetsFirst_nil : TargetsFirst [] := by
  intro pre x hpre
  exact absurd (prefix_nil.mp hpre) (by simp)

lemma TargetsFirst.concat {x : Vertex} (h : TargetsFirst history)
    (hx : ∀ t ∈ x.targets, t ∈ history.map (·.id)) : TargetsFirst (history ++ [x]) := by
  intro pre y hpre
  rcases prefix_concat_iff.mp hpre with heq | hpre
  · obtain ⟨rfl, hy⟩ := append_inj' heq rfl
    obtain rfl := singleton_inj.mp hy
    exact hx
  · exact h pre y hpre

theorem entry_run (history : List Vertex) (v : NodeId) : (run history).Sound ∧
      (run history).entry v = (approvals history v + if v ∈ history.map (·.id) then 1 else 0) % 3 := by
  induction history using reverseRecOn with
  | nil => exact ⟨sound_new, rfl⟩
  | append_singleton history x ih =>
    obtain ⟨hs, he⟩ := ih
    rw [run_concat]
    refine ⟨hs.add x, ?_⟩
    rw [entry_add hs, approvals_concat]
    by_cases hx : v = x.id
    · subst hx
      simp only [if_true, map_append, map_singleton, mem_append, mem_singleton, or_true]
      omega
    · simp only [hx, if_false, map_append, map_singleton, mem_append, mem_singleton, or_false]
      omega

lemma TargetsFirst.approvals_eq_zero (h : TargetsFirst history)
    (hv : v ∉ history.map (·.id)) : approvals history v = 0 := by
  induction history using reverseRecOn with
  | nil => rfl
  | append_singleton history x ih =>
    rw [map_append, mem_append, not_or] at hv
    have hx : v ≠ x.id := fun heq => hv.2 (by simp [heq])
    have ht : v ∉ x.targets := fun hmem => hv.1 (h history x prefix_rfl v hmem)
    rw [approvals_concat, if_neg hx, ih h.of_concat hv.1, count_eq_zero_of_not_mem ht]

lemma isTip_counted (h : TargetsFirst history) (v : NodeId) :
    (run history).isTip v = true ↔ v ∈ history.map (·.id) ∧ approvals history v % 3 ≠ 2 := by
  obtain ⟨hs, he⟩ := entry_run history v
  rw [hs.isTip_iff, he]
  by_cases hv : v ∈ history.map (·.id)
  · simp only [hv, if_true, true_and]
    omega
  · simp [hv, h.approvals_eq_zero hv]

/-! ## The three reports -/

lemma lookup_cache_approve (by_ v w : NodeId) : (c.approve by_ v).cache.lookup w = c.cache.lookup w := by
  unfold approve
  dsimp only
  split <;> rfl

lemma lookup_cache_add (x : Vertex) (w : NodeId) :
    (c.add x).cache.lookup w = if w = x.id then some x else c.cache.lookup w := by
  have hloop : ∀ (targets : List NodeId) (c : ConfirmationCounter),
      (targets.foldl (approve x.id) c).cache.lookup w = c.cache.lookup w := by
    intro targets
    induction targets with
    | nil => exact fun _ => rfl
    | cons t targets ih =>
      intro c
      rw [foldl_cons, ih, lookup_cache_approve]
  rw [add, hloop, lookup_insert_eq_ite]

lemma lookup_cache_run (history : List Vertex) (v : NodeId) :
    (∀ x, (run history).cache.lookup v = some x → x.id = v) ∧
      ((run history).cache.lookup v ≠ none ↔ v ∈ history.map (·.id)) := by
  induction history using reverseRecOn with
  | nil => exact ⟨nofun, by simp [run, new]⟩
  | append_singleton history y ih =>
    rw [run_concat, lookup_cache_add]
    by_cases hv : v = y.id
    · simp [hv]
    · simpa [hv] using ih

/-- What the counter reports as tips are the vertices that `T` holds for. -/
structure Reports (c : ConfirmationCounter) (T : NodeId → Prop) : Prop where
  isTip : ∀ v, c.isTip v = true ↔ T v
  getTips : ∀ v, v ∈ c.getTips.map (·.id) ↔ T v
  tip : ∀ v, (∃ x : Vertex, some x ∈ c.tip ∧ x.id = v) ↔ T v

lemma reports_iff (h : TargetsFirst history) {T : NodeId → Prop} :
    (run history).Reports T ↔ ∀ v, (run history).isTip v = true ↔ T v := by
  -- a vertex with an entry is in the cache, under its id
  have hcached : ∀ v, (run history).isTip v = true →
      ∃ x, (run history).cache.lookup v = some x ∧ x.id = v := by
    intro v hv
    obtain ⟨hid, hmem⟩ := lookup_cache_run history v
    obtain ⟨x, hx⟩ := Option.ne_none_iff_exists'.mp (hmem.mpr ((isTip_counted h v).mp hv).1)
    exact ⟨x, hx, hid x hx⟩
  have hentry : ∀ v, (run history).isTip v = true ↔ ∃ e ∈ (run history).tips.entries, e.1 = v := by
    intro v
    rw [ConfirmationCounter.isTip, Option.isSome_iff_exists]
    constructor
    · intro ⟨l, hl⟩
      exact ⟨⟨v, l⟩, AList.mem_lookup_iff.mp hl, rfl⟩
    · intro ⟨e, he, hev⟩
      exact ⟨e.2, AList.mem_lookup_iff.mpr (hev ▸ he)⟩
  have hget : ∀ v, v ∈ (run history).getTips.map (·.id) ↔ (run history).isTip v = true := by
    intro v
    simp only [ConfirmationCounter.getTips, mem_map, mem_filterMap]
    constructor
    · intro ⟨x, ⟨e, he, hx⟩, hxv⟩
      exact (hentry v).mpr ⟨e, he, ((lookup_cache_run history e.1).1 x hx).symm.trans hxv⟩
    · intro hv
      obtain ⟨e, he, rfl⟩ := (hentry v).mp hv
      obtain ⟨x, hx, hxv⟩ := hcached e.1 hv
      exact ⟨x, ⟨e, he, hx⟩, hxv⟩
  have htip : ∀ v, (∃ x : Vertex, some x ∈ (run history).tip ∧ x.id = v) ↔ (run history).isTip v = true := by
    intro v
    rw [← hget v]
    simp only [ConfirmationCounter.tip, ConfirmationCounter.getTips, mem_map, mem_filterMap]
  constructor
  · exact fun hr => hr.isTip
  · exact fun hT => ⟨hT, fun v => (hget v).trans (hT v), fun v => (htip v).trans (hT v)⟩

/-! ## Tips and approvers -/

/-- What a tip is: a vertex that was added and that fewer than two vertices approve. -/
def TipOf (history : List Vertex) (v : NodeId) : Prop :=
  v ∈ history.map (·.id) ∧ (approvers history v).length < 2

/-- **When the counter reports the tips.** -/
theorem tips_tracked_iff {history : List Vertex} (h : TargetsFirst history) :
    (run history).Reports (TipOf history) ↔
      ∀ v ∈ history.map (·.id), approvals history v % 3 = 2 ↔ 2 ≤ (approvers history v).length := by
  rw [reports_iff h]
  simp only [isTip_counted h, TipOf]
  constructor
  · intro htips v hv
    have := htips v
    simp only [hv, true_and] at this
    omega
  · intro hcount v
    by_cases hv : v ∈ history.map (·.id)
    · have := hcount v hv
      simp only [hv, true_and]
      omega
    · simp [hv]

def sampleVertex (id : NodeId) (targets : List NodeId) : Vertex where
  id := id
  time := 0
  hash := []
  sender := 0
  recipient := 0
  amount := 0
  eth := false
  targets := targets

def twoApprovals : List Vertex := [sampleVertex 0 [], sampleVertex 1 [0], sampleVertex 2 [0]]

lemma targetsFirst_twoApprovals : TargetsFirst twoApprovals :=
  ((targetsFirst_nil.concat (x := sampleVertex 0 []) (by simp [sampleVertex])).concat
    (x := sampleVertex 1 [0]) (by simp [sampleVertex])).concat
    (x := sampleVertex 2 [0]) (by simp [sampleVertex])

theorem two_approvals_tracked : (run twoApprovals).Reports (TipOf twoApprovals) := by
  refine (tips_tracked_iff targetsFirst_twoApprovals).mpr fun v hv => ?_
  have hids : v = 0 ∨ v = 1 ∨ v = 2 := by simpa [twoApprovals, sampleVertex] using hv
  rcases hids with rfl | rfl | rfl <;> simp [approvals, approvers, twoApprovals, sampleVertex]

/-- The third approval makes the genesis vertex a tip again. -/
theorem third_approval_reopens : TargetsFirst (twoApprovals ++ [sampleVertex 3 [0]]) ∧
      (run (twoApprovals ++ [sampleVertex 3 [0]])).isTip 0 = true ∧
      approvers (twoApprovals ++ [sampleVertex 3 [0]]) 0 = [1, 2, 3] :=
  ⟨targetsFirst_twoApprovals.concat (by simp [sampleVertex, twoApprovals]), by decide +kernel,
    by simp [approvers, twoApprovals, sampleVertex]⟩

end ConfirmationCounter

end GrapeDag
