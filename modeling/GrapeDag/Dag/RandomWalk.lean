/-
THE RANDOM WALK OF MCMC+.

`weightedRandomWalk`, `weightedSelectMCMCP` and `calculateWeightsMCMC_P` of
`src/dag/weights.go`, `getApprovers` of `src/dag/dag.go`, `_shuffle_` of `src/dag/utils.go`, on
nodes as pointers. The approvers of a node are the very slice of its sources, so the walk
REORDERS the sources of the nodes it comes through; what ends it is only a countdown.

Main result: `weightedRandomWalk_walked`.
-/
import GrapeDag.Dag.Confirmation
import GrapeDag.Dag.VmErrors
import Mathlib.Tactic.LinearCombination

namespace GrapeDag.RandomWalk

open List

/-! ## The selection -/

variable {P : Type}

/-- `approvers[i], approvers[j] = approvers[j], approvers[i]` -/
def swap (approvers : List P) (i j : Nat) : GoPure (List P) := do
  let x ← orPanic approvers[i]?
  let y ← orPanic approvers[j]?
  return (approvers.set i y).set j x

/-- `rand.Shuffle` from position `i` down; `pick i` is the random number for position `i`. -/
def shuffleFrom (pick : Nat → Nat) : Nat → List P → GoPure (List P)
  | 0, approvers => .ok approvers
  | i + 1, approvers => do shuffleFrom pick i (← swap approvers (i + 1) (pick (i + 1) % (i + 2)))

/-- The nodes of the DAG, by their pointers. -/
structure Graph (P : Type) where
  id : P → NodeId
  sources : P → List P
  cumWeight : P → Float

structure Link (P : Type) where
  source : P
  target : P

/-- The floating-point functions that the walk calls. -/
structure FloatLib where
  exp : Float → Float
  mean : List Float → Float
  standardDeviation : List Float → Float

/-- The random numbers of one selection. -/
structure Draws where
  pick : Nat → Nat
  norm : Float

def calculateWeightsMCMCP (lib : FloatLib) (alpha : Float) (g : Graph P) (nodes : List P) : List Float :=
  let cumWeights := nodes.map g.cumWeight
  let div := cumWeights.foldl (fun prev cur => prev + lib.exp (-alpha * cur)) 0 + 0.01
  cumWeights.map fun w => lib.exp (-alpha * w) / div

def lastOf (approvers : List P) : GoPure (Option P) := do
  if approvers.length > 0 then return some (← orPanic approvers[approvers.length - 1]?)
  else return none

/-- The loop of `weightedSelectMCMCP` from `i` on. -/
def selectFrom (approvers : List P) (weights : List Float) (r : Float) (i : Nat) (cumSum : Float) :
    GoPure (Option P) :=
  if i < approvers.length then
    if r < cumSum then do return some (← orPanic approvers[i - 1]?)
    else do selectFrom approvers weights r (i + 1) (← orPanic weights[i]?)
  else lastOf approvers
termination_by approvers.length - i

def selectBy (r : Float) (weights : List Float) (approvers : List P) : GoPure (Option P) :=
  if weights.length > 0 then do selectFrom approvers weights r 1 (← orPanic weights[0]?)
  else lastOf approvers

/-- `weightedSelectMCMCP`: the selected approver or nil, and the slice as it leaves it. -/
def weightedSelectMCMCP (lib : FloatLib) (alpha : Float) (g : Graph P) (draws : Draws)
    (approvers : List P) : GoPure (Option P × List P) := do
  let approvers ← shuffleFrom draws.pick (approvers.length - 1) approvers
  let weights := calculateWeightsMCMCP lib alpha g approvers
  let r := draws.norm * lib.standardDeviation weights + lib.mean weights
  return (← selectBy r weights approvers, approvers)

variable {approvers : List P} {i j : Nat}

lemma swap_perm (hi : i < approvers.length) (hj : j < approvers.length) :
    ∃ swapped, swap approvers i j = .ok swapped ∧ swapped.Perm approvers := by
  refine ⟨_, ?_, set_set_perm hi hj⟩
  unfold swap
  rw [getElem?_eq_getElem hi, getElem?_eq_getElem hj]
  rfl

lemma shuffleFrom_perm (pick : Nat → Nat) (i : Nat) : ∀ {approvers : List P}, i ≤ approvers.length - 1 →
    ∃ shuffled, shuffleFrom pick i approvers = .ok shuffled ∧ shuffled.Perm approvers := by
  induction i with
  | zero => exact fun {approvers} _ => ⟨approvers, rfl, .refl _⟩
  | succ i ih =>
    intro approvers hi
    have hpick := Nat.mod_lt (pick (i + 1)) (show 0 < i + 2 by omega)
    obtain ⟨swapped, hswap, hperm⟩ := swap_perm (show i + 1 < approvers.length by omega)
      (show pick (i + 1) % (i + 2) < approvers.length by omega)
    obtain ⟨shuffled, hshuffle, hperm'⟩ := @ih swapped (by rw [hperm.length_eq]; omega)
    refine ⟨shuffled, ?_, hperm'.trans hperm⟩
    rw [shuffleFrom, hswap]
    exact hshuffle

/-- What is selected is an approver, or nothing; nothing panics. -/
def Selects (approvers : List P) (x : GoPure (Option P)) : Prop :=
  ∃ rc, x = .ok rc ∧ ∀ v, rc = some v → v ∈ approvers

lemma selects_at (hi : i < approvers.length) :
    Selects approvers (do return some (← orPanic approvers[i]?)) := by
  refine ⟨some approvers[i], by rw [getElem?_eq_getElem hi]; rfl, fun v hv => ?_⟩
  rw [← Option.some.inj hv]
  exact getElem_mem hi

lemma selects_lastOf : Selects approvers (lastOf approvers) := by
  unfold lastOf
  split
  · exact selects_at (by omega)
  · exact ⟨none, rfl, nofun⟩

section Selections

variable {weights : List Float} (hweights : weights.length = approvers.length)
include hweights

lemma selects_selectFrom (r : Float) (i : Nat) (cumSum : Float) :
    Selects approvers (selectFrom approvers weights r i cumSum) := by
  fun_induction selectFrom approvers weights r i cumSum with
  | case1 i cumSum hi hless => exact selects_at (by omega)
  | case2 i cumSum hi hless ih =>
    rw [getElem?_eq_getElem (by omega)]
    exact ih _
  | case3 => exact selects_lastOf

lemma selects_selectBy (r : Float) : Selects approvers (selectBy r weights approvers) := by
  unfold selectBy
  split
  · rename_i hpos
    rw [getElem?_eq_getElem hpos]
    exact selects_selectFrom hweights r 1 _
  · exact selects_lastOf

end Selections

/-- The selection reorders the approvers, and takes one of them. -/
theorem weightedSelectMCMCP_perm (lib : FloatLib) (alpha : Float) (g : Graph P) (draws : Draws)
    (approvers : List P) : ∃ rc shuffled, weightedSelectMCMCP lib alpha g draws approvers = .ok (rc, shuffled) ∧
      shuffled.Perm approvers ∧ ∀ v, rc = some v → v ∈ approvers := by
  obtain ⟨shuffled, hshuffle, hperm⟩ := shuffleFrom_perm draws.pick _ (Nat.le_refl (approvers.length - 1))
  have hlen : (calculateWeightsMCMCP lib alpha g shuffled).length = shuffled.length := by
    simp [calculateWeightsMCMCP]
  obtain ⟨rc, hrc, hmem⟩ := selects_selectBy hlen _
  refine ⟨rc, shuffled, ?_, hperm, fun v hv => hperm.mem_iff.mp (hmem v hv)⟩
  exact GoPure.bind_eq_ok.mpr ⟨shuffled, hshuffle, GoPure.bind_eq_ok.mpr ⟨rc, hrc, rfl⟩⟩

/-! ## The walk -/

def Graph.getApprovers (links : List (Link P)) (g : Graph P) (node : P) : List P :=
  if g.sources node ≠ [] then g.sources node
  else (links.filter fun l => g.id l.target = g.id node).map (·.source)

/-- `isNodeTip` of `src/dag/dag.go` -/
def isNodeTip {L : Type} (c : ConfirmationCounter) (links : List L) (id : NodeId) : Bool :=
  links.isEmpty || c.isTip id

/-- The loop of `weightedRandomWalk`, for at most so many turns, on particles of any kind: `id` and
`select` are the id of a particle and the selection of an approver, in a state of the nodes. -/
def walkFrom {L S : Type} (c : ConfirmationCounter) (id : S → P → NodeId)
    (select : Nat → P → S → GoPure (Option P × S)) (links : List L) (turns turn approvetx : Nat) (count : Int)
    (particle : P) (s : S) : Option (GoPure (Option P × S)) :=
  if isNodeTip c links (id s particle) then some (.ok (some particle, s))
  else
    match turns with
    | 0 => none
    | turns + 1 =>
        match select turn particle s with
        | .error e => some (.error e)
        | .ok (rc, s) =>
            if count - 1 = 0 then
              if approvetx + 1 > 3 then some (.ok (none, s))
              else walkFrom c id select links turns (turn + 1) (approvetx + 1) links.length (rc.getD particle) s
            else if approvetx > 3 then some (.ok (none, s))
            else walkFrom c id select links turns (turn + 1) approvetx (count - 1) (rc.getD particle) s

section Walk

variable [DecidableEq P] (lib : FloatLib) (alpha : Float) (c : ConfirmationCounter)
  (linkSelection links : List (Link P))

/-- One selection: the approvers are the slice of the sources itself, if there are any. -/
def select (draws : Draws) (particle : P) (g : Graph P) : GoPure (Option P × Graph P) := do
  let (rc, approvers) ← weightedSelectMCMCP lib alpha g draws (g.getApprovers linkSelection particle)
  if g.sources particle ≠ [] then
    return (rc, { g with sources := Function.update g.sources particle approvers })
  else return (rc, g)

def weightedRandomWalk (turns : Nat) (random : Nat → Draws) (approvetx : Nat) (start : P)
    (g : Graph P) : Option (GoPure (Option P × Graph P)) :=
  walkFrom c Graph.id (fun turn => select lib alpha linkSelection (random turn)) links turns 0 approvetx
    links.length start g

/-! ## Where it ends -/

/-- From `start` one comes to `v` by going from nodes to their approvers. -/
def Reaches (g : Graph P) (start v : P) : Prop :=
  Relation.ReflTransGen (fun x y => y ∈ g.getApprovers linkSelection x) start v

/-- The same nodes, with their sources in some order. -/
structure Reordered (g g' : Graph P) : Prop where
  id : g'.id = g.id
  sources : ∀ x, (g'.sources x).Perm (g.sources x)

variable {linkSelection} {g g' : Graph P}

omit [DecidableEq P] in
lemma Reordered.mem_getApprovers (h : Reordered g g') {x y : P} :
    y ∈ g'.getApprovers linkSelection x ↔ y ∈ g.getApprovers linkSelection x := by
  have hnil : g'.sources x = [] ↔ g.sources x = [] := by
    rw [← length_eq_zero_iff, (h.sources x).length_eq, length_eq_zero_iff]
  unfold Graph.getApprovers
  rw [h.id]
  by_cases hx : g.sources x = []
  · rw [if_neg (not_not.mpr (hnil.mpr hx)), if_neg (not_not.mpr hx)]
  · rw [if_pos (mt hnil.mp hx), if_pos hx]
    exact (h.sources x).mem_iff

theorem select_reordered {start particle : P} (h : Reordered g g') (hreach : Reaches linkSelection g start particle)
    (draws : Draws) : ∃ rc g'', select lib alpha linkSelection draws particle g' = .ok (rc, g'') ∧
      Reordered g g'' ∧ Reaches linkSelection g start (rc.getD particle) := by
  obtain ⟨rc, shuffled, hselect, hperm, hmem⟩ :=
    weightedSelectMCMCP_perm lib alpha g' draws (g'.getApprovers linkSelection particle)
  have hnext : Reaches linkSelection g start (rc.getD particle) := by
    cases rc with
    | none => exact hreach
    | some v => exact hreach.tail (h.mem_getApprovers.mp (hmem v rfl))
  unfold select
  rw [hselect]
  by_cases hsources : g'.sources particle = []
  · exact ⟨rc, g', if_neg (not_not.mpr hsources), h, hnext⟩
  · refine ⟨rc, _, if_pos hsources, ⟨h.id, fun x => ?_⟩, hnext⟩
    show (Function.update g'.sources particle shuffled x).Perm _
    by_cases hx : x = particle
    · rw [hx, Function.update_self]
      rw [Graph.getApprovers, if_pos hsources] at hperm
      exact hperm.trans (h.sources particle)
    · rw [Function.update_of_ne hx]
      exact h.sources x

/-- What a walk leaves: nil or a tip that it has reached, and the sources, reordered. -/
structure Walked (linkSelection links : List (Link P)) (start : P) (g : Graph P) (result : Option P)
    (g' : Graph P) : Prop where
  tip : ∀ v, result = some v → c.isTip (g.id v) = true ∨ links = [] ∧ v = start
  reached : ∀ v, result = some v → Reaches linkSelection g start v
  sources : ∀ x, (g'.sources x).Perm (g.sources x)

/-- Run. The two counters bound the turns that are left. -/
theorem walkFrom_walked (hlinks : links ≠ []) {start : P} (random : Nat → Draws) (turns turn approvetx : Nat)
    (count : Int) (particle : P) (g' : Graph P) (h : Reordered g g')
    (hreach : Reaches linkSelection g start particle) (happrovetx : approvetx ≤ 3) (hcount : 0 < count)
    (hturns : (turns : Int) = (3 - approvetx) * links.length + count) :
    ∃ result g'', walkFrom c Graph.id (fun turn => select lib alpha linkSelection (random turn)) links turns turn
        approvetx count particle g' = some (.ok (result, g'')) ∧
      Walked c linkSelection links start g result g'' := by
  have hstep : ∀ {turn : Nat} {particle : P} {g' g'' : Graph P} {rc : Option P}, Reordered g g' →
      Reaches linkSelection g start particle →
      select lib alpha linkSelection (random turn) particle g' = .ok (rc, g'') →
      Reordered g g'' ∧ Reaches linkSelection g start (rc.getD particle) := by
    intro turn particle g' g'' rc h hreach hselect
    obtain ⟨_, _, heq, hafter⟩ := select_reordered lib alpha h hreach (random turn)
    rw [hselect] at heq
    cases heq
    exact hafter
  fun_induction walkFrom c Graph.id _ links turns turn approvetx count particle g' with
  | case1 turns turn approvetx count particle g' htip =>
    rw [isNodeTip, Bool.or_eq_true, List.isEmpty_iff, or_iff_right hlinks, h.id] at htip
    exact ⟨some particle, g', rfl, fun v hv => .inl (Option.some.inj hv ▸ htip),
      fun v hv => Option.some.inj hv ▸ hreach, h.sources⟩
  | case2 turn approvetx count particle g' =>
    have hleft : 0 ≤ (3 - approvetx : Int) * links.length := mul_nonneg (by omega) (by omega)
    omega
  | case3 turn approvetx count particle g' _ turns e hselect =>
    obtain ⟨_, _, hok, -⟩ := select_reordered lib alpha h hreach (random turn)
    rw [hselect] at hok
    cases hok
  | case4 turn approvetx count particle g' _ turns rc g'' hselect =>
    exact ⟨none, g'', rfl, nofun, nofun, (hstep h hreach hselect).1.sources⟩
  | case5 turn approvetx count particle g' _ turns rc g'' hselect hlast hmore ih =>
    obtain ⟨h', hreach'⟩ := hstep h hreach hselect
    refine ih h' hreach' (by omega) (by have := length_pos_of_ne_nil hlinks; omega) ?_
    push_cast at hturns ⊢
    linear_combination hturns + hlast
  | case6 => omega
  | case7 turn approvetx count particle g' _ turns rc g'' hselect hlast _ ih =>
    obtain ⟨h', hreach'⟩ := hstep h hreach hselect
    refine ih h' hreach' happrovetx (by omega) ?_
    push_cast at hturns ⊢
    linear_combination hturns

end Walk

/-- **THE RANDOM WALK** ends within `(4 - approvals) * links` turns, without a panic, at a tip that it
has reached or with nil, and changes nothing but the order of sources. -/
theorem weightedRandomWalk_walked [DecidableEq P] (lib : FloatLib) (alpha : Float) (c : ConfirmationCounter)
    (linkSelection links : List (Link P)) (random : Nat → Draws) {approvetx : Nat} (h : approvetx ≤ 3)
    (start : P) (g : Graph P) : ∃ result g',
      weightedRandomWalk lib alpha c linkSelection links ((4 - approvetx) * links.length) random approvetx start g
        = some (.ok (result, g')) ∧ Walked c linkSelection links start g result g' := by
  unfold weightedRandomWalk
  by_cases hlinks : links = []
  · subst hlinks
    exact ⟨some start, g, by unfold walkFrom; rfl, fun v hv => .inr ⟨rfl, (Option.some.inj hv).symm⟩,
      fun v hv => Option.some.inj hv ▸ .refl, fun _ => .refl _⟩
  · refine walkFrom_walked lib alpha c links hlinks _ _ _ _ _ _ _ ⟨rfl, fun _ => .refl _⟩ .refl h
      (by have := length_pos_of_ne_nil hlinks; omega) ?_
    push_cast [Nat.cast_sub (show approvetx ≤ 4 by omega)]
    ring

def Graph.sample : Graph Nat := ⟨fun x => x, fun x => if x = 0 then [1, 2] else [], fun _ => 1⟩

theorem sample_walked : ∃ result g', weightedRandomWalk ⟨id, fun _ => 0, fun _ => 0⟩ 0.5 .new [] [⟨1, 0⟩, ⟨2, 0⟩]
      ((4 - 2) * 2) (fun _ => ⟨id, 0⟩) 2 0 Graph.sample = some (.ok (result, g')) ∧
    Walked .new [] [⟨1, 0⟩, ⟨2, 0⟩] 0 Graph.sample result g' :=
  weightedRandomWalk_walked _ _ _ _ _ _ (by decide) _ _

end GrapeDag.RandomWalk
