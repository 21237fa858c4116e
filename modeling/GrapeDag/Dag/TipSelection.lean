/-
THE TIPS A NEW VERTEX APPROVES.

`weightedMcmc` of `src/dag/weights.go`. The candidate of the first walk is removed before
the second one, but not if it is the only one: then both walks return it, and the counter takes the
new vertex for two approvers.

Main result: `selected_iff`.
-/
import GrapeDag.Dag.FourViews
import GrapeDag.Dag.RandomWalk

namespace GrapeDag.Dag

open List

/-! ## The walks -/

/-- `weightedSelect`: an approver or nil, in each turn; the choice from none may panic. -/
abbrev Choice := Nat → List VersionedId → GoPure (Option NodeId)

/-- `weightedRandomWalk` on vertices as ids, where any choice may be made in each turn. With so many
turns the walk comes to its end. -/
def weightedRandomWalk (approvetx : Nat) (choice : Choice) (linkSelection links : List Link)
    (start : NodeId) (d : Dag) : GoPure (Option NodeId) :=
  let select turn particle _ := do
    return (← choice turn ({ d with links := linkSelection }.getApprovers particle), ())
  ((RandomWalk.walkFrom d.counter (fun _ id => id) select links ((4 - approvetx) * links.length + 1) 0 approvetx
    links.length start ()).getD (.ok (none, ()))).map Prod.fst

/-- The random choices of `weightedMcmc`: where the two walks start, and where they go. -/
structure Random where
  start₁ : Nat
  start₂ : Nat
  walk₁ : Choice
  walk₂ : Choice

def Random.zero : Random := ⟨0, 0, fun _ _ => .ok none, fun _ _ => .ok none⟩

def anyOf (r : Nat) (tipSelection : List NodeId) : GoPure NodeId :=
  orPanic tipSelection[r % tipSelection.length]?

def exclude (tip1 : Option NodeId) (tipSelection : List NodeId) (links : List Link) :
    List NodeId × List Link :=
  match tip1 with
  | some tip =>
      if tipSelection.length > 1 then
        (tipSelection.erase tip, links.filter fun l => l.source.id ≠ tip)
      else (tipSelection, links)
  | none => (tipSelection, links)

def weightedMcmc (approvetx : Nat) (r : Random) (nodes : List NodeId) (links : List Link)
    (d : Dag) : GoPure (List (Option NodeId)) :=
  if nodes.length = 0 then .ok []
  else if nodes.length = 2 then .ok (nodes.map some)
  else do
    let start₁ ← anyOf r.start₁ nodes
    let tip1 ← d.weightedRandomWalk approvetx r.walk₁ links links start₁
    let left := exclude tip1 nodes links
    let start₂ ← anyOf r.start₂ left.1
    let tip2 ← d.weightedRandomWalk approvetx r.walk₂ left.2 links start₂
    match tip1, tip2 with
    | none, none => .ok []
    | tip1, none => .ok [tip1]
    | tip1, tip2 => .ok [tip1, tip2]

/-! ## What they return -/

variable {d : Dag}

lemma weightedRandomWalk_of_isTip {start : NodeId} (h : d.counter.isTip start = true)
    (approvetx : Nat) (choice : Choice) (linkSelection links : List Link) :
    d.weightedRandomWalk approvetx choice linkSelection links start = .ok (some start) := by
  unfold weightedRandomWalk RandomWalk.walkFrom
  rw [RandomWalk.isNodeTip, h, Bool.or_true]
  rfl

lemma anyOf_mem (r : Nat) {tips : List NodeId} (h : tips ≠ []) : ∃ tip ∈ tips, anyOf r tips = .ok tip := by
  have hlt : r % tips.length < tips.length := Nat.mod_lt _ (length_pos_of_ne_nil h)
  refine ⟨tips[r % tips.length], getElem_mem hlt, ?_⟩
  unfold anyOf
  rw [getElem?_eq_getElem hlt]
  rfl

/-- One or two candidates, all distinct, and two where there are two. -/
structure Selected (candidates : List NodeId) (tips : List (Option NodeId)) : Prop where
  one_or_two : tips.length = 1 ∨ tips.length = 2
  subset : ∀ tip ∈ tips, ∃ c ∈ candidates, tip = some c
  distinct : tips.Nodup
  two : 2 ≤ candidates.length → tips.length = 2

lemma Selected.pair {candidates : List NodeId} {a b : NodeId} (ha : a ∈ candidates)
    (hb : b ∈ candidates) (hab : a ≠ b) : Selected candidates [some a, some b] where
  one_or_two := .inr rfl
  subset := by
    intro tip htip
    rcases mem_pair.mp htip with rfl | rfl
    · exact ⟨a, ha, rfl⟩
    · exact ⟨b, hb, rfl⟩
  distinct := by simp [hab]
  two _ := rfl

lemma weightedMcmc_of_tips {nodes : List NodeId} (hne : nodes ≠ []) (htwo : nodes.length ≠ 2)
    (htips : ∀ c ∈ nodes, d.counter.isTip c = true) (approvetx : Nat) (r : Random)
    (links : List Link) :
    ∃ a ∈ nodes, ∃ b ∈ if nodes.length > 1 then nodes.erase a else nodes,
      d.weightedMcmc approvetx r nodes links = .ok [some a, some b] := by
  have hpos : 0 < nodes.length := length_pos_of_ne_nil hne
  obtain ⟨a, ha, hstart1⟩ := anyOf_mem r.start₁ hne
  have hleft : (exclude (some a) nodes links).1 = if nodes.length > 1 then nodes.erase a else nodes := by
    show (if nodes.length > 1 then _ else _ : List NodeId × List Link).1 = _
    split <;> rfl
  have hleft_ne : (exclude (some a) nodes links).1 ≠ [] := by
    rw [hleft]
    split
    · -- of two or more candidates one is left
      refine ne_nil_of_length_pos ?_
      rw [length_erase_of_mem ha]
      omega
    · exact hne
  obtain ⟨b, hb, hstart2⟩ := anyOf_mem r.start₂ hleft_ne
  rw [hleft] at hb
  have hb_tip : d.counter.isTip b = true := by
    refine htips b ?_
    split at hb
    · exact mem_of_mem_erase hb
    · exact hb
  refine ⟨a, ha, b, hb, ?_⟩
  unfold weightedMcmc
  rw [if_neg (by omega), if_neg htwo, hstart1]
  show (d.weightedRandomWalk approvetx r.walk₁ links links a >>= _) = _
  rw [weightedRandomWalk_of_isTip (htips a ha)]
  show (anyOf r.start₂ (exclude (some a) nodes links).1 >>= _) = _
  rw [hstart2]
  show (d.weightedRandomWalk approvetx r.walk₂ _ links b >>= _) = _
  rw [weightedRandomWalk_of_isTip hb_tip]
  rfl

/-- **TIP SELECTION.** From distinct candidates that are tips, in every outcome of the random
choices, `weightedMcmc` selects one or two of them, distinct, and two if there are two, if and only
if there is not just one. -/
theorem selected_iff {nodes : List NodeId} (hne : nodes ≠ []) (hnodup : nodes.Nodup)
    (htips : ∀ c ∈ nodes, d.counter.isTip c = true) (approvetx : Nat) (links : List Link) :
    (∀ r : Random, ∃ tips, d.weightedMcmc approvetx r nodes links = .ok tips ∧
      Selected nodes tips) ↔ nodes.length ≠ 1 := by
  constructor
  · intro h hone
    obtain ⟨c, rfl⟩ := length_eq_one_iff.mp hone
    obtain ⟨a, ha, b, hb, heq⟩ := weightedMcmc_of_tips hne (by simp) htips approvetx .zero links
    obtain ⟨tips, htips, hselected⟩ := h .zero
    -- nothing was removed, so both walks start from the one candidate
    obtain rfl := mem_singleton.mp ha
    obtain rfl := mem_singleton.mp hb
    obtain rfl := Except.ok.inj (heq.symm.trans htips)
    simpa using hselected.distinct
  · intro hone r
    by_cases htwo : nodes.length = 2
    · obtain ⟨a, b, rfl⟩ := length_eq_two.mp htwo
      have hab : a ≠ b := fun heq => by simp [heq] at hnodup
      exact ⟨[some a, some b], rfl, .pair (by simp) (by simp) hab⟩
    obtain ⟨a, ha, b, hb, heq⟩ := weightedMcmc_of_tips hne htwo htips approvetx r links
    have hmany : nodes.length > 1 := by
      have := length_pos_of_ne_nil hne
      omega
    rw [if_pos hmany] at hb
    refine ⟨_, heq, .pair ha (mem_of_mem_erase hb) ?_⟩
    intro hab
    rw [hab] at hb
    exact hnodup.not_mem_erase hb

def threeTips : Dag := { sampleLeader with counter := .run [⟨(sampleSite 1).toPayment, []⟩,
      ⟨(sampleSite 2).toPayment, []⟩, ⟨(sampleSite 3).toPayment, []⟩] }

theorem three_tips_selected : [1, 2, 3].all threeTips.counter.isTip = true ∧
      ∀ r : Random, ∃ tips, threeTips.weightedMcmc 2 r [1, 2, 3] [] = .ok tips ∧ Selected [1, 2, 3] tips := by
  have htips : [1, 2, 3].all threeTips.counter.isTip = true := by decide +kernel
  exact ⟨htips, (selected_iff (by simp) (by decide) (all_eq_true.mp htips) 2 []).mpr (by decide)⟩

/-- Genesis alone: both walks return it, and the vertex that approves it so confirms it at once. -/
theorem single_tip_selected_twice :
    sampleLeader.weightedMcmc 2 .zero [0] [] = .ok [some 0, some 0] ∧
      (sampleLeader.addTxDag 0 true (sampleSite 1) [some 0, some 0]).1 = .ok () ∧
      (sampleLeader.addTxDag 0 true (sampleSite 1) [some 0, some 0]).2.counter.confirmed = [0] ∧
      (sampleLeader.addTxDag 0 true (sampleSite 1) [some 0, some 0]).2.ids = [0, 1] := by
  have htips : [0].all sampleLeader.counter.isTip = true := by decide +kernel
  obtain ⟨a, ha, b, hb, heq⟩ :=
    weightedMcmc_of_tips (cons_ne_nil 0 []) (by simp) (all_eq_true.mp htips) 2 .zero []
  obtain rfl := mem_singleton.mp ha
  obtain rfl := mem_singleton.mp hb
  exact ⟨heq, by decide +kernel, by decide +kernel, by decide +kernel⟩

end GrapeDag.Dag
