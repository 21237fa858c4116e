/-
PUTTING THE CHAIN OF PINS TOGETHER.

`NodeTxPin.insertIfNotFound` of `src/dag/pin.go`. A pin names its predecessor by its signature.
A pin that arrives is put before the pin that names it and, if there is none, at the end of the
list; the genesis pin is put into an empty list or before the pin that names it, and forgotten
otherwise.

Main result: `chain_assembled_iff`.
-/
import GrapeDag.Dag.Contracts
import GrapeDag.Lib.Assembly
import Mathlib.Data.Set.List

namespace GrapeDag

open Assembly List

/-! ## The function -/

/-- What a pin has before it is signed, with the map `missingTargets` of each of its sites:
`ToPbNode` puts the ids of the site's targets there. -/
structure PinContent extends ContractPin where
  missingTargets : List (FinMap NodeId Bool)

/-- `pb.TxPin` with what links and authenticates it. -/
structure SignedPin extends PinContent where
  prev : Bytes
  pk : Bytes
  sign : Bytes

def shortHex (b : Bytes) : GoPure GoString := goSlice (Hex.encode b) 0 10

/-- `insertIfNotFound` for a genesis pin whose signature is not in the list. -/
def insertedGenesis (ptx : SignedPin) : List SignedPin → List SignedPin
  | [] => [ptx]
  | first :: rest =>
      if first.prev.length = 0 then
        if first.sign = ptx.sign then first :: rest else ptx :: rest
      else
        -- a genesis pin that no pin names is not kept
        (insertBefore (fun x => decide (x.prev = ptx.sign)) ptx (first :: rest)).getD (first :: rest)

/-- `insertIfNotFound` behind its first log line: the new value of `p.pins`. -/
def inserted (ptx : SignedPin) (pins : List SignedPin) : List SignedPin :=
  if pins.any fun p => p.sign = ptx.sign then pins
  else if ptx.prev.length = 0 then insertedGenesis ptx pins
  else (insertBefore (fun x => decide (x.prev = ptx.sign)) ptx pins).getD (pins ++ [ptx])

def insertIfNotFound (ptx : SignedPin) (pins : List SignedPin) : GoPure (List SignedPin) := do
  let _ ← shortHex ptx.sign
  let _ ← if ptx.prev.length > 0 then shortHex ptx.prev else pure (ascii "NIL")
  return inserted ptx pins

def insertAll (arrivals pins : List SignedPin) : GoPure (List SignedPin) :=
  arrivals.foldlM (fun pins ptx => insertIfNotFound ptx pins) pins

/-! ## When it returns -/

/-- The log line slices five bytes of both hashes. -/
def SignedPin.Loggable (ptx : SignedPin) : Prop := 5 ≤ ptx.sign.length ∧ (ptx.prev = [] ∨ 5 ≤ ptx.prev.length)

lemma shortHex_eq (b : Bytes) :
    shortHex b = if 5 ≤ b.length then .ok (Hex.encode (b.take 5)) else .error .panic := by
  have hlen : (0 ≤ 10 ∧ 10 ≤ (Hex.encode b).length) ↔ 5 ≤ b.length := by
    rw [Hex.length_encode]
    omega
  simp only [shortHex, goSlice, hlen, drop_zero, ← Hex.encode_take]

variable {pins pins' chain : List SignedPin}

lemma insertIfNotFound_eq_ok {ptx : SignedPin} :
    insertIfNotFound ptx pins = .ok pins' ↔ ptx.Loggable ∧ pins' = inserted ptx pins := by
  rw [insertIfNotFound, shortHex_eq, shortHex_eq, SignedPin.Loggable]
  by_cases hs : 5 ≤ ptx.sign.length
  · by_cases hp : ptx.prev = []
    · simp [hs, hp, eq_comm, bind, Except.bind, pure, Except.pure]
    · have hpos : ptx.prev.length > 0 := length_pos_iff.mpr hp
      by_cases hb : 5 ≤ ptx.prev.length
      · simp [hs, hpos, hb, eq_comm, bind, Except.bind, pure, Except.pure]
      · simp [hs, hp, hpos, hb, bind, Except.bind]
  · simp [hs, bind, Except.bind]

lemma insertAll_eq_ok {arrivals : List SignedPin} : insertAll arrivals pins = .ok pins' ↔
      (∀ p ∈ arrivals, p.Loggable) ∧ pins' = arrivals.foldl (fun ps p => inserted p ps) pins := by
  induction arrivals generalizing pins with
  | nil => simp [insertAll, pure, Except.pure, eq_comm]
  | cons p arrivals ih =>
    rw [insertAll, foldlM_cons, forall_mem_cons]
    cases h : insertIfNotFound p pins with
    | error e =>
      have hp : ¬ p.Loggable := fun hl => by
        have hok : insertIfNotFound p pins = .ok (inserted p pins) := insertIfNotFound_eq_ok.mpr ⟨hl, rfl⟩
        rw [h] at hok
        cases hok
      simp [hp, bind, Except.bind]
    | ok pins1 =>
      obtain ⟨hl, rfl⟩ := insertIfNotFound_eq_ok.mp h
      simp only [hl, true_and]
      exact ih

/-! ## No signature twice -/

/-- Step. A signature that is there is not inserted again. -/
theorem nodup_inserted (ptx : SignedPin) (h : (pins.map (·.sign)).Nodup) :
    ((inserted ptx pins).map (·.sign)).Nodup := by
  rw [inserted]
  split
  · exact h
  next hany =>
  have hnew : ptx.sign ∉ pins.map (·.sign) := by
    intro hmem
    obtain ⟨p, hp, hps⟩ := mem_map.mp hmem
    exact hany (any_eq_true.mpr ⟨p, hp, decide_eq_true hps⟩)
  have hcons : ((ptx :: pins).map (·.sign)).Nodup := nodup_cons.mpr ⟨hnew, h⟩
  -- wherever a pin is put, the signatures are those before and its own
  have hput : ∀ {test : SignedPin → Bool} {alt : List SignedPin},
      (alt.map (·.sign)).Nodup → (((insertBefore test ptx pins).getD alt).map (·.sign)).Nodup := by
    intro test alt halt
    cases hq : insertBefore test ptx pins with
    | none => exact halt
    | some Q => exact ((perm_insertBefore hq).map _).nodup_iff.mpr hcons
  split
  · cases pins with
    | nil => exact nodup_singleton _
    | cons first rest =>
      rw [insertedGenesis]
      split
      · split
        · exact h
        · exact hcons.sublist ((sublist_cons_self _ _).cons_cons _)
      · exact hput h
  · refine hput ?_
    rw [map_append]
    exact (perm_append_comm.nodup_iff).mpr hcons

theorem nodup_inserted_all (arrivals : List SignedPin) (h : (pins.map (·.sign)).Nodup) :
    ((arrivals.foldl (fun ps p => inserted p ps) pins).map (·.sign)).Nodup :=
  foldlRecOn (motive := fun ps : List SignedPin => (ps.map (·.sign)).Nodup) _ _ h fun _ h p _ => nodup_inserted p h

/-! ## Chains -/

/-- Each pin names its predecessor, the first names none. -/
structure HashChain (chain : List SignedPin) : Prop where
  first : ∀ g, chain.head? = some g → g.prev = []
  linked : chain.IsChain fun p q => q.prev = p.sign

section Chain

variable {chain : List SignedPin}

variable {i j : Fin chain.length}

lemma HashChain.prev_zero (h : HashChain chain) (hi : i.val = 0) : (chain.get i).prev = [] := by
  refine h.first _ ?_
  rw [head?_eq_getElem?]
  simp [hi]

lemma HashChain.prev_succ (h : HashChain chain) (hij : j.val = i.val + 1) :
    (chain.get j).prev = (chain.get i).sign := by
  have hlink := isChain_iff_getElem.mp h.linked i.val (by omega)
  simpa [hij] using hlink

lemma HashChain.loggable (h : HashChain chain) (hs : ∀ p ∈ chain, 5 ≤ p.sign.length)
    (i : Fin chain.length) : (chain.get i).Loggable := by
  refine ⟨hs _ (get_mem chain i), ?_⟩
  rcases Nat.eq_zero_or_pos i.val with h0 | hpos
  · exact Or.inl (h.prev_zero h0)
  · right
    have hlt : i.val - 1 < chain.length := by omega
    rw [h.prev_succ (i := ⟨i.val - 1, hlt⟩) (show i.val = i.val - 1 + 1 by omega)]
    exact hs _ (get_mem chain _)

variable (h : HashChain chain) (hs : ∀ p ∈ chain, 5 ≤ p.sign.length) (hd : (chain.map (·.sign)).Nodup)

include hd in
lemma sign_get_inj (hij : (chain.get i).sign = (chain.get j).sign) : i = j := by
  have hinj := inj_on_of_nodup_map hd (get_mem chain i) (get_mem chain j) hij
  exact hd.of_map.get_inj_iff.mp hinj

include h hs in
lemma HashChain.prev_eq_nil : (chain.get i).prev = [] ↔ i.val = 0 := by
  refine ⟨fun hp => ?_, h.prev_zero⟩
  by_contra h0
  have hlt : i.val - 1 < chain.length := by omega
  rw [h.prev_succ (i := ⟨i.val - 1, hlt⟩) (show i.val = i.val - 1 + 1 by omega)] at hp
  have hlen := hs _ (get_mem chain ⟨i.val - 1, hlt⟩)
  rw [hp] at hlen
  exact absurd hlen (by decide)

include h hs hd in
lemma HashChain.prev_eq_sign : (chain.get j).prev = (chain.get i).sign ↔ j.val = i.val + 1 := by
  refine ⟨fun hp => ?_, h.prev_succ⟩
  rcases Nat.eq_zero_or_pos j.val with h0 | hpos
  · rw [h.prev_zero h0] at hp
    have hlen := hs _ (get_mem chain i)
    rw [← hp] at hlen
    exact absurd hlen (by decide)
  · have hlt : j.val - 1 < chain.length := by omega
    rw [h.prev_succ (i := ⟨j.val - 1, hlt⟩) (show j.val = j.val - 1 + 1 by omega)] at hp
    have hij := congrArg Fin.val (sign_get_inj hd hp)
    simp only at hij
    omega

include h hs hd in
/-- Step. One arrival is a placement among the positions of the chain. -/
theorem inserted_map_get (i : Fin chain.length) (P : List (Fin chain.length)) :
    inserted (chain.get i) (P.map chain.get) = (place i P).map chain.get := by
  have hany : ((P.map chain.get).any fun p => p.sign = (chain.get i).sign) = true ↔ i ∈ P := by
    simp only [any_map, any_eq_true, Function.comp, decide_eq_true_eq]
    exact ⟨fun ⟨j, hj, hji⟩ => sign_get_inj hd hji ▸ hj, fun hi => ⟨i, hi, rfl⟩⟩
  have hins : insertBefore (fun x => decide (x.prev = (chain.get i).sign)) (chain.get i)
      (P.map chain.get) =
      (insertBefore (fun j => decide (j.val = i.val + 1)) i P).map (map chain.get) :=
    insertBefore_map fun j _ => decide_eq_decide.mpr (h.prev_eq_sign hs hd)
  by_cases hi : i ∈ P
  · rw [place_of_mem hi, inserted, if_pos (hany.mpr hi)]
  rw [inserted, if_neg fun hc => hi (hany.mp hc), place, if_neg hi, hins,
    ← Option.getD_map (map chain.get)]
  by_cases h0 : i.val = 0
  · rw [if_pos (by rw [h.prev_zero h0]; rfl)]
    cases P with
    | nil => simp [insertedGenesis, insertBefore]
    | cons j P =>
      -- the list does not start with a genesis pin, for that would be the arriving one
      have hj : (chain.get j).prev.length ≠ 0 := by
        intro hlen
        have hj0 := (h.prev_eq_nil hs).mp (length_eq_zero_iff.mp hlen)
        exact hi (mem_cons.mpr (Or.inl (Fin.ext (by omega))))
      simp only [map_cons, insertedGenesis] at hins ⊢
      rw [if_neg hj, hins, if_pos ⟨h0, cons_ne_nil j P⟩, map_cons]
  · have hp : (chain.get i).prev.length ≠ 0 := fun hlen =>
      h0 ((h.prev_eq_nil hs).mp (length_eq_zero_iff.mp hlen))
    rw [if_neg hp, if_neg fun hc => h0 hc.1, map_append, map_singleton]

include h hs hd in
/-- Run. The pins after arrivals from the chain. -/
theorem foldl_inserted_map_get (A : List (Fin chain.length)) :
    (A.map chain.get).foldl (fun ps p => inserted p ps) [] = (assemble A).map chain.get := by
  induction A using reverseRecOn with
  | nil => rfl
  | append_singleton A i ih =>
    rw [map_append, foldl_append, ih, assemble_concat]
    exact inserted_map_get h hs hd i (assemble A)

include hd in
lemma get_sublist_iff : [chain.get j, chain.get i].Sublist chain ↔ j < i := by
  have hinj : Function.Injective chain.get := fun _ _ hij => sign_get_inj hd (by rw [hij])
  have hmap : [chain.get j, chain.get i].Sublist chain ↔
      ([j, i].map chain.get).Sublist ((finRange chain.length).map chain.get) := by
    rw [map_get_finRange]
    rfl
  rw [hmap]
  have hsorted := (sortedLT_finRange chain.length).pairwise
  constructor
  · intro hsub
    obtain ⟨l, hl, heq⟩ := sublist_map_iff.mp hsub
    obtain rfl := map_injective_iff.mpr hinj heq
    exact rel_of_pairwise_cons (hsorted.sublist hl) (by simp)
  · intro hji
    refine List.Sublist.map _ (sublist_of_subperm_of_pairwise ?_ ?_ hsorted)
    · refine subperm_of_subset ?_ fun k _ => mem_finRange k
      simpa using hji.ne
    · simpa using hji

end Chain

/-! ## The orders of arrival -/

/-- The signatures tell the pins of the chain apart and can be logged; the genesis pin arrives
first or, at least once, behind the pin that names it; every other pin arrives for the first
time behind the pin that names it, or before everything that follows it in the chain. -/
structure Assembles (chain arrivals : List SignedPin) : Prop where
  logged : ∀ p ∈ chain, 5 ≤ p.sign.length
  distinct : (chain.map (·.sign)).Nodup
  first : ∀ g, chain.head? = some g →
    ∃ pre, pre ++ [g] <+: arrivals ∧ (pre = [] ∨ ∃ q ∈ pre, q.prev = g.sign)
  later : ∀ pre p, pre ++ [p] <+: arrivals → p ∉ pre → p.prev ≠ [] →
    (∃ q ∈ pre, q.prev = p.sign) ∨ ∀ q ∈ pre, [q, p].Sublist chain

lemma prefix_map_get {A : List (Fin chain.length)} {pre : List SignedPin} {p : SignedPin}
    (hpre : pre ++ [p] <+: A.map chain.get) :
    ∃ Pre i, Pre ++ [i] <+: A ∧ pre = Pre.map chain.get ∧ p = chain.get i := by
  obtain ⟨l, hl, heq⟩ := prefix_map_iff.mp hpre
  obtain ⟨Pre, last, rfl, rfl, hlast⟩ := append_eq_map_iff.mp heq
  obtain ⟨i, rfl, rfl⟩ := map_eq_singleton_iff.mp hlast
  exact ⟨Pre, i, hl, rfl, rfl⟩

lemma assembles_iff_fits (h : HashChain chain) (hs : ∀ p ∈ chain, 5 ≤ p.sign.length)
    (hd : (chain.map (·.sign)).Nodup) (A : List (Fin chain.length)) :
    Assembles chain (A.map chain.get) ↔ Assembly.Fits A := by
  have hinj : Function.Injective chain.get := fun _ _ hij => sign_get_inj hd (by rw [hij])
  have hmem : ∀ (Pre : List (Fin chain.length)) i, chain.get i ∈ Pre.map chain.get ↔ i ∈ Pre :=
    fun Pre i => mem_map_of_injective hinj
  have hnamed : ∀ (Pre : List (Fin chain.length)) i,
      (∃ q ∈ Pre.map chain.get, q.prev = (chain.get i).sign) ↔ ∃ j ∈ Pre, j.val = i.val + 1 := by
    intro Pre i
    simp only [mem_map, exists_exists_and_eq_and, h.prev_eq_sign hs hd]
  have hinitial : ∀ (Pre : List (Fin chain.length)) i, Pre ++ [i] <+: A →
      Pre.map chain.get ++ [chain.get i] <+: A.map chain.get := by
    intro Pre i hPre
    simpa using hPre.map chain.get
  constructor
  · intro ha
    constructor
    · intro Pre i hPre hi h0
      have hprev : (chain.get i).prev ≠ [] := fun hp => h0 ((h.prev_eq_nil hs).mp hp)
      have hlater := ha.later _ _ (hinitial Pre i hPre) (fun hc => hi ((hmem Pre i).mp hc)) hprev
      refine hlater.imp (hnamed Pre i).mp fun hall j hj => ?_
      exact (get_sublist_iff hd).mp (hall _ ((hmem Pre j).mpr hj))
    · intro i hi
      have hhead : chain.head? = some (chain.get i) := by
        rw [head?_eq_getElem?]
        simp [hi]
      obtain ⟨pre, hpre, hok⟩ := ha.first _ hhead
      obtain ⟨Pre, k, hPre, rfl, hk⟩ := prefix_map_get hpre
      obtain rfl := hinj hk
      exact ⟨Pre, hPre, hok.imp map_eq_nil_iff.mp (hnamed Pre i).mp⟩
  · intro ⟨hord, hfirst⟩
    refine ⟨hs, hd, ?_, ?_⟩
    · intro g hg
      have hpos : 0 < chain.length := by
        cases chain with
        | nil => cases hg
        | cons c cs => exact Nat.succ_pos _
      obtain ⟨Pre, hPre, hok⟩ := hfirst ⟨0, hpos⟩ rfl
      have hget : g = chain.get ⟨0, hpos⟩ := by
        rw [head?_eq_getElem?, getElem?_eq_getElem hpos] at hg
        exact (Option.some.inj hg).symm
      subst hget
      exact ⟨_, hinitial Pre _ hPre, hok.imp map_eq_nil_iff.mpr (hnamed Pre _).mpr⟩
    · intro pre p hpre hp hprev
      obtain ⟨Pre, i, hPre, rfl, rfl⟩ := prefix_map_get hpre
      have hi : i ∉ Pre := fun hc => hp ((hmem Pre i).mpr hc)
      have h0 : i.val ≠ 0 := fun hc => hprev (h.prev_zero hc)
      refine (hord Pre i hPre hi h0).imp (hnamed Pre i).mpr fun hall q hq => ?_
      obtain ⟨j, hj, rfl⟩ := mem_map.mp hq
      exact (get_sublist_iff hd).mpr (hall j hj)

/-- **When the pins of a chain are put together again.** -/
theorem chain_assembled_iff {chain arrivals : List SignedPin} (h : HashChain chain)
    (hall : ∀ p, p ∈ arrivals ↔ p ∈ chain) :
    insertAll arrivals [] = .ok chain ↔ Assembles chain arrivals := by
  obtain ⟨A, rfl⟩ : ∃ A : List (Fin chain.length), A.map chain.get = arrivals := by
    have hlift : ∀ p ∈ arrivals, p ∈ Set.range chain.get := fun p hp => get_of_mem ((hall p).mp hp)
    rwa [← Set.mem_range, Set.range_list_map]
  -- a run that gives the chain keeps the signatures apart and survives its log lines
  have hneed : insertAll (A.map chain.get) [] = .ok chain →
      (∀ p ∈ chain, 5 ≤ p.sign.length) ∧ (chain.map (·.sign)).Nodup := by
    intro hok
    obtain ⟨hlog, hchain⟩ := insertAll_eq_ok.mp hok
    refine ⟨fun p hp => (hlog p ((hall p).mpr hp)).1, ?_⟩
    rw [hchain]
    exact nodup_inserted_all _ nodup_nil
  -- and then it is the run on the positions
  have hrun : (∀ p ∈ chain, 5 ≤ p.sign.length) → (chain.map (·.sign)).Nodup →
      (insertAll (A.map chain.get) [] = .ok chain ↔ Assembly.Fits A) := by
    intro hs hd
    have hinj : Function.Injective chain.get := fun _ _ hij => sign_get_inj hd (by rw [hij])
    have hcover : ∀ i, i ∈ A := fun i =>
      (mem_map_of_injective hinj).mp ((hall _).mpr (get_mem chain i))
    have hlog : ∀ p ∈ A.map chain.get, p.Loggable := by
      intro p hp
      obtain ⟨i, -, rfl⟩ := mem_map.mp hp
      exact h.loggable hs i
    rw [insertAll_eq_ok, foldl_inserted_map_get h hs hd, ← assemble_iff hcover]
    constructor
    · intro ⟨_, heq⟩
      refine (map_injective_iff.mpr hinj ?_).symm
      rw [map_get_finRange, ← heq]
    · intro heq
      exact ⟨hlog, by rw [heq, map_get_finRange]⟩
  constructor
  · intro hok
    obtain ⟨hs, hd⟩ := hneed hok
    exact (assembles_iff_fits h hs hd A).mpr ((hrun hs hd).mp hok)
  · intro ha
    exact (hrun ha.logged ha.distinct).mpr ((assembles_iff_fits h ha.logged ha.distinct A).mp ha)

def barePin (prev : Bytes) (mark : UInt8) : SignedPin where
  nodes := []
  balance := ∅
  diffs := []
  pinNumber := mark.toNat
  ts := 0
  smcTxs := []
  prev := prev
  pk := []
  sign := List.replicate 64 mark
  missingTargets := []

def genesisPin : SignedPin := barePin [] 0
def firstPin : SignedPin := barePin genesisPin.sign 1
def secondPin : SignedPin := barePin firstPin.sign 2
def thirdPin : SignedPin := barePin secondPin.sign 3

lemma hashChain_bare : HashChain [genesisPin, firstPin, secondPin] where
  first := by
    intro g hg
    cases hg
    rfl
  linked := .cons_cons rfl (.cons_cons rfl (.singleton _))

set_option maxRecDepth 4000 in
theorem assembled_backwards : Assembles [genesisPin, firstPin, secondPin] [secondPin, firstPin, genesisPin] :=
  (chain_assembled_iff hashChain_bare fun p => by
    simp only [mem_cons, not_mem_nil, or_false]
    tauto).mp rfl

set_option maxRecDepth 4000 in
/-- The genesis pin is lost when it arrives between its second successor and its first; a pin
that arrives before its successor and behind a later pin stays at the end. -/
theorem chain_misassembled : HashChain [genesisPin, firstPin, secondPin] ∧
      insertAll [secondPin, genesisPin, firstPin] [] = .ok [firstPin, secondPin] ∧
      insertAll [genesisPin, thirdPin, firstPin, secondPin] [] =
        .ok [genesisPin, secondPin, thirdPin, firstPin] := ⟨hashChain_bare, rfl, rfl⟩

end GrapeDag
