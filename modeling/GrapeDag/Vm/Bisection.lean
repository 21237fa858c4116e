/-
THE ESTIMATE IS THE LEAST SUFFICIENT GAS LIMIT, OR ONE MORE.

`estimateGas` of `GasEstimator.java`. Every probe starts on an empty cache, but the account of the
sender is one `VmAccount` object that all of them change.

The lower end of the bisection is taken for a limit that fails, and is the price of a
transaction: a plain payment needs no more than that, and is estimated at one gas more. The sum
of the two ends is a `long`: under a block gas limit of more than `2 ^ 62` it may wrap, and the
lower end falls back to a negative number. A block gas limit that is no `long` is an exception.

Main results: `search_least` (the loop, by induction on its turns), `estimate_exact_iff`.
-/
import GrapeDag.Vm.Estimator

namespace GrapeDag.GasEstimator

open Imperative Simulation Prog

/-! ## Probes -/

variable (x : Simulator) (message : Message) (account : Nat) (m : Simulation)

/-- What one probe answers. -/
def probe (limit : Int) : Option EstimateResult :=
  match estimateMessageExecution x message limit account m with
  | .ok rc _ => some rc
  | _ => none

/-- The heap after some probes. -/
def after (limits : List Int) : Simulation :=
  limits.foldl (fun m limit => (estimateMessageExecution x message limit account m).state?.getD m) m

/-- Whatever has been probed before, the probes succeed from some limit on. -/
structure ProbesBy (succeeds : Int → Bool) : Prop where
  probes : ∀ limits limit, probe x message account (after x message account m limits) limit
    = some ⟨false, !succeeds limit⟩
  mono : ∀ {l l'}, l ≤ l' → succeeds l = true → succeeds l' = true

/-- The least limit from the price to the cap that succeeds, or an exception and none does. -/
def Exact (succeeds : Int → Bool) (price cap : Int)
    (o : Outcome JavaException Simulation (Option Int)) : Prop :=
  (∃ least m', o = .ok (some least) m' ∧ IsLeast {l | price ≤ l ∧ l ≤ cap ∧ succeeds l = true} least) ∨
    (∀ l, price ≤ l → l ≤ cap → succeeds l = false) ∧ ∃ e m', o = .err e m'

lemma exact_some_iff {succeeds : Int → Bool} {price cap found : Int} {m : Simulation} :
    Exact succeeds price cap (.ok (some found) m) ↔
      IsLeast {l | price ≤ l ∧ l ≤ cap ∧ succeeds l = true} found := by
  constructor
  · rintro (⟨least, _, hok, hleast⟩ | ⟨-, _, _, hok⟩)
    · injection hok with hsome
      exact Option.some.inj hsome ▸ hleast
    · cases hok
  · exact fun hleast => .inl ⟨found, m, rfl, hleast⟩

/-- The lower end after this many probes that failed. -/
def climb (cap : Int) (turns : Nat) (lo : Int) : Int := (fun lo => (wrap64 (lo + cap)).tdiv 2)^[turns] lo

variable {x message account m} {succeeds : Int → Bool}

lemma ProbesBy.fails (h : ProbesBy x message account m succeeds) {l l' : Int} (hle : l ≤ l')
    (hl' : succeeds l' = false) : succeeds l = false := by
  by_contra hl
  rw [h.mono hle (Bool.not_eq_false _ ▸ hl)] at hl'
  cases hl'

lemma ProbesBy.lt (h : ProbesBy x message account m succeeds) {l l' : Int} (hl : succeeds l = false)
    (hl' : succeeds l' = true) : l < l' := by
  by_contra hle
  rw [h.fails (Int.not_lt.mp hle) hl] at hl'
  cases hl'

lemma ProbesBy.step (h : ProbesBy x message account m succeeds) (limits : List Int) (limit : Int) :
    estimateMessageExecution x message limit account (after x message account m limits)
      = .ok ⟨false, !succeeds limit⟩ (after x message account m (limits ++ [limit])) := by
  have hprobe := h.probes limits limit
  have hafter : after x message account m (limits ++ [limit])
      = (estimateMessageExecution x message limit account
          (after x message account m limits)).state?.getD (after x message account m limits) := by
    unfold after
    rw [List.foldl_append]
    rfl
  unfold probe at hprobe
  rw [hafter]
  generalize estimateMessageExecution x message limit account _ = o at hprobe
  cases o with
  | ok rc m' => rw [Option.some.inj hprobe]; rfl
  | err e m' | diverge => cases hprobe

/-! ## The loop -/

lemma tdiv_two_bounds (s : Int) :
    s - 1 ≤ 2 * s.tdiv 2 ∧ 2 * s.tdiv 2 ≤ s + 1 ∧ (0 ≤ s → 2 * s.tdiv 2 ≤ s) := by
  have hsum := Int.mul_tdiv_add_tmod s 2
  have hlow := Int.lt_tmod_of_pos s (show (0 : Int) < 2 by decide)
  have hhigh := Int.tmod_lt_of_pos s (show (0 : Int) < 2 by decide)
  exact ⟨by omega, by omega, fun hs => (by have := Int.tmod_nonneg 2 hs; omega)⟩

/-- Run. By induction on the number of turns, of which each halves the distance: below the
result nothing succeeds but what lies at or below the lower end, and the result succeeds unless it
is the upper end. -/
theorem search_least (h : ProbesBy x message account m succeeds) (probes : Nat) :
    ∀ (lo hi : Int) (limits : List Int), lo < hi → hi - lo ≤ 2 ^ probes → -2 ^ 62 ≤ lo →
      hi ≤ 2 ^ 62 → ∃ found limits', lo < found ∧ found ≤ hi ∧
        search x message account probes lo hi (after x message account m limits)
          = .ok (some found) (after x message account m limits') ∧
        (∀ l, lo < l → l < found → succeeds l = false) ∧
        (found = hi ∨ succeeds found = true) := by
  induction probes with
  | zero =>
    intro lo hi limits hlt hwidth hlo hhi
    refine ⟨hi, limits, hlt, le_refl hi, ?_, fun l _ _ => (by omega), .inl rfl⟩
    unfold search
    rw [wrap64_of_isLong ⟨by omega, by omega⟩, if_neg (by omega)]
    rfl
  | succ probes ih =>
    intro lo hi limits hlt hwidth hlo hhi
    unfold search
    rw [wrap64_of_isLong (show IsLong (lo + 1) from ⟨by omega, by omega⟩)]
    by_cases hgap : lo + 1 < hi
    · rw [if_pos hgap, wrap64_of_isLong (show IsLong (lo + hi) from ⟨by omega, by omega⟩)]
      have hmid := tdiv_two_bounds (lo + hi)
      generalize (lo + hi).tdiv 2 = mid at hmid
      rw [bind_of_ok (h.step limits mid)]
      cases hs : succeeds mid with
      | false =>
        -- the lower end goes up to a limit that fails
        obtain ⟨found, limits', hlow, hhigh, hrun, hbelow, hend⟩ :=
          ih mid hi (limits ++ [mid]) (by omega) (by omega) (by omega) hhi
        refine ⟨found, limits', by omega, hhigh, hrun, fun l hl hl' => ?_, hend⟩
        by_cases hlm : l ≤ mid
        · exact h.fails hlm hs
        · exact hbelow l (by omega) hl'
      | true =>
        -- the upper end comes down to a limit that succeeds
        obtain ⟨found, limits', hlow, hhigh, hrun, hbelow, hend⟩ :=
          ih lo mid (limits ++ [mid]) (by omega) (by omega) hlo (by omega)
        refine ⟨found, limits', hlow, by omega, hrun, hbelow, .inr ?_⟩
        rcases hend with rfl | hend
        · exact hs
        · exact hend
    · rw [if_neg hgap]
      exact ⟨hi, limits, hlt, le_refl hi, rfl, fun l _ _ => (by omega), .inl rfl⟩

lemma search_stop {lo hi : Int} (hlow : -2 ^ 62 ≤ lo) (hle : hi ≤ lo + 1) (hlong : lo < 2 ^ 62) (probes : Nat)
    (m : Simulation) : search x message account probes lo hi m = .ok (some hi) m := by
  have hstop : ¬ wrap64 (lo + 1) < hi := by
    rw [wrap64_of_isLong ⟨by omega, by omega⟩]
    omega
  cases probes with
  | zero | succ probes => unfold search; rw [if_neg hstop]; rfl

/-! ## Sums that may wrap -/

section Climb

lemma climb_succ (cap : Int) (turns : Nat) (lo : Int) :
    climb cap (turns + 1) lo = climb cap turns (climb cap 1 lo) :=
  Function.iterate_succ_apply _ turns lo

lemma climb_bounds (cap : Int) (turns : Nat) {lo : Int} (hlow : -2 ^ 62 ≤ lo) (hhigh : lo < 2 ^ 62) :
    -2 ^ 62 ≤ climb cap turns lo ∧ climb cap turns lo < 2 ^ 62 := by
  cases turns with
  | zero => exact ⟨hlow, hhigh⟩
  | succ turns =>
    unfold climb
    rw [Function.iterate_succ_apply']
    generalize (_ : Int) + cap = s
    have hmid := tdiv_two_bounds (wrap64 s)
    obtain ⟨hwlow, hwhigh⟩ := isLong_wrap64 s
    omega

variable {cap : Int} (hcap : 2 ^ 62 < cap) (hlong : cap < 2 ^ 63) (h : ProbesBy x message account m succeeds)
include hcap hlong h

/-- Step. Under such a cap the loop never ends at a lower end below `2 ^ 62`. -/
lemma search_turn {lo : Int} (hlow : -2 ^ 62 ≤ lo) (hhigh : lo < 2 ^ 62) (limits : List Int) (probes : Nat) :
    search x message account (probes + 1) lo cap (after x message account m limits)
      = (if succeeds (climb cap 1 lo) then search x message account probes lo (climb cap 1 lo)
          else search x message account probes (climb cap 1 lo) cap)
        (after x message account m (limits ++ [climb cap 1 lo])) := by
  rw [search, wrap64_of_isLong (show IsLong (lo + 1) from ⟨by omega, by omega⟩), if_pos (by omega)]
  refine (bind_of_ok (h.step limits (climb cap 1 lo))).trans ?_
  cases succeeds (climb cap 1 lo) <;> rfl

/-- Run. By induction on the probes that fail. -/
lemma search_climb (turns probes : Nat) : ∀ {lo : Int} (limits : List Int), -2 ^ 62 ≤ lo → lo < 2 ^ 62 →
    (∀ k < turns, succeeds (climb cap (k + 1) lo) = false) →
    ∃ limits', search x message account (probes + turns) lo cap (after x message account m limits)
      = search x message account probes (climb cap turns lo) cap (after x message account m limits') := by
  induction turns with
  | zero => exact fun limits _ _ _ => ⟨limits, rfl⟩
  | succ turns ih =>
    intro lo limits hlow hhigh hfail
    have hbounds := climb_bounds cap 1 hlow hhigh
    obtain ⟨limits', hrun⟩ := ih (limits ++ [climb cap 1 lo]) hbounds.1 hbounds.2
      fun k hk => climb_succ cap (k + 1) lo ▸ hfail (k + 1) (by omega)
    refine ⟨limits', ?_⟩
    rw [climb_succ, ← hrun, ← Nat.add_assoc, search_turn hcap hlong h hlow hhigh,
      hfail 0 (Nat.succ_pos turns)]
    rfl

end Climb

/-! ## The estimate -/

section Estimate

variable {price cap : Int} (hgas : x.block.gasLimit = cap) (hint : IsInt price) (hcap : price ≤ cap)
  (h : ProbesBy x message account m succeeds) {probes : Nat}
  (hprice : x.cfg.lookForGasPrice .tx = .ok price)
include hgas hint hcap h hprice

omit h in
/-- A limit that is not the cap has been tried. -/
lemma estimateGas_of_search (hlong : cap < 2 ^ 63) {found : Option Int} {m' : Simulation}
    (hrun : search x message account probes price cap m = .ok found m')
    (htried : found ≠ some cap) : estimateGas x message account probes m = .ok found m' := by
  have hcast : toLongExact cap = .ok cap :=
    if_pos ⟨by have := hint.1; omega, by omega⟩
  unfold estimateGas
  rw [hgas, liftM_bind hprice, liftM_bind hcast, bind_of_ok hrun, if_neg htried]
  rfl

lemma estimateGas_least (hprobes : 63 ≤ probes) (hmax : cap ≤ 2 ^ 62) :
    (∃ found m', estimateGas x message account probes m = .ok (some found) m' ∧
      (price < found ∨ price = cap ∧ price = found) ∧ found ≤ cap ∧
      succeeds found = true ∧ ∀ l, price < l → l < found → succeeds l = false) ∨
    ∃ e m', estimateGas x message account probes m = .err e m' ∧ succeeds cap = false := by
  have hsearch : ∃ found limits', (price < found ∨ price = cap ∧ price = found) ∧ found ≤ cap ∧
      search x message account probes price cap m
        = .ok (some found) (after x message account m limits') ∧
      (∀ l, price < l → l < found → succeeds l = false) ∧
      (found = cap ∨ succeeds found = true) := by
    obtain ⟨hlow, hhigh⟩ := hint
    rcases hcap.lt_or_eq with hlt | heq
    · have hwidth : cap - price ≤ 2 ^ probes := by
        have hpow : (2 : Int) ^ 63 ≤ 2 ^ probes := pow_le_pow_right₀ (by decide) hprobes
        omega
      obtain ⟨found, limits', hlo, hhi, hrun, hbelow, hend⟩ :=
        search_least h probes price _ [] hlt hwidth (by omega) hmax
      exact ⟨found, limits', .inl hlo, hhi, hrun, hbelow, hend⟩
    · exact ⟨_, [], .inr ⟨heq, heq⟩, le_refl _, search_stop (by omega) (by omega) (by omega) probes _,
        fun l _ _ => (by omega), .inl rfl⟩
  obtain ⟨found, limits, hlow, hhigh, hrun, hbelow, hend⟩ := hsearch
  by_cases htried : found = cap
  · subst htried
    have hcast : toLongExact found = .ok found :=
      if_pos ⟨by have := hint.1; omega, by omega⟩
    unfold estimateGas
    rw [hgas, liftM_bind hprice, liftM_bind hcast, bind_of_ok hrun, if_pos rfl,
      bind_of_ok (h.step limits _)]
    cases hs : succeeds found with
    | true => exact .inl ⟨_, _, rfl, hlow, le_refl _, hs, hbelow⟩
    | false => exact .inr ⟨_, _, rfl, rfl⟩
  · have hok := estimateGas_of_search hgas hint hcap hprice (by omega) hrun fun heq => htried (Option.some.inj heq)
    exact .inl ⟨found, _, hok, hlow, hhigh, hend.resolve_left htried, hbelow⟩

section Climb

variable (hmin : 2 ^ 62 < cap) (hmax : cap < 2 ^ 63) {turns : Nat}
  (hfail : ∀ k < turns, succeeds (climb cap (k + 1) price) = false)
include hmin hmax hfail

/-- While all probes fail, the loop goes on. -/
lemma estimateGas_climbing : ∃ m', estimateGas x message account turns m = .ok none m' := by
  obtain ⟨hlow, hhigh⟩ := hint
  obtain ⟨limits, hrun⟩ := search_climb hmin hmax h turns 0 [] (by omega) (by omega) hfail
  have hbounds := climb_bounds cap turns (show -2 ^ 62 ≤ price by omega) (by omega)
  rw [Nat.zero_add, search, wrap64_of_isLong ⟨by omega, by omega⟩, if_pos (by omega)] at hrun
  exact ⟨_, estimateGas_of_search hgas ⟨hlow, hhigh⟩ hcap hprice hmax hrun (Option.some_ne_none _).symm⟩

/-- The first probe that succeeds brings the upper end below `2 ^ 62`. -/
lemma estimateGas_climbed (hs : succeeds (climb cap (turns + 1) price) = true)
    (hprobes : 64 + turns ≤ probes) :
    ∃ found m', estimateGas x message account probes m = .ok (some found) m' ∧
      found ≤ cap ∧ succeeds found = true ∧
      (climb cap turns price < found ∧
          (∀ l, climb cap turns price < l → l < found → succeeds l = false) ∨
        found = climb cap (turns + 1) price ∧ found ≤ climb cap turns price) := by
  obtain ⟨hlow, hhigh⟩ := hint
  obtain ⟨rest, rfl⟩ := Nat.exists_eq_add_of_le hprobes
  obtain ⟨limits, hrun⟩ := search_climb hmin hmax h turns (63 + rest + 1) [] (by omega) (by omega) hfail
  have hlo := climb_bounds cap turns (show -2 ^ 62 ≤ price by omega) (by omega)
  have hmid := climb_bounds cap 1 hlo.1 hlo.2
  have hnext : climb cap (turns + 1) price = climb cap 1 (climb cap turns price) :=
    Function.iterate_succ_apply' _ turns price
  rw [hnext] at hs ⊢
  rw [search_turn hmin hmax h hlo.1 hlo.2, if_pos hs] at hrun
  generalize climb cap turns price = lo at hlo hs hmid hrun ⊢
  generalize climb cap 1 lo = mid at hs hmid hrun ⊢
  rw [show 64 + turns + rest = 63 + rest + 1 + turns by omega]
  by_cases hlt : lo < mid
  · have hwidth : mid - lo ≤ 2 ^ (63 + rest) := by
      have hpow : (2 : Int) ^ 63 ≤ 2 ^ (63 + rest) := pow_le_pow_right₀ (by decide) (by omega)
      omega
    obtain ⟨found, limits', hlo', hhi, hfound, hbelow, hend⟩ :=
      search_least h (63 + rest) lo mid (limits ++ [mid]) hlt hwidth hlo.1 (by omega)
    have hok := estimateGas_of_search hgas ⟨hlow, hhigh⟩ hcap hprice hmax (hrun.trans hfound)
      fun heq => (by have := Option.some.inj heq; omega)
    refine ⟨found, _, hok, by omega, ?_, .inl ⟨hlo', hbelow⟩⟩
    rcases hend with rfl | hend
    · exact hs
    · exact hend
  · rw [search_stop hlo.1 (by omega) hlo.2] at hrun
    have hok := estimateGas_of_search hgas ⟨hlow, hhigh⟩ hcap hprice hmax hrun
      fun heq => (by have := Option.some.inj heq; omega)
    exact ⟨mid, _, hok, by omega, hs, .inr ⟨rfl, by omega⟩⟩

end Climb

lemma exact_iff_of_le (hprobes : 63 ≤ probes) (hmax : cap ≤ 2 ^ 62) :
    Exact succeeds price cap (estimateGas x message account probes m) ↔
      price = cap ∨ succeeds price = false := by
  rcases estimateGas_least hgas hint hcap h hprice hprobes hmax with
    ⟨found, m', heq, hlow, hhigh, hfound, hbelow⟩ | ⟨e, m', heq, hnone⟩
  · rw [heq, exact_some_iff]
    refine ⟨fun hleast => ?_, fun hcond => ⟨⟨by omega, hhigh, hfound⟩, fun l hl => ?_⟩⟩
    · -- the price itself would be the answer, but the result is above it
      by_contra hcond
      rw [not_or, Bool.not_eq_false] at hcond
      have := hleast.2 ⟨le_refl _, hcap, hcond.2⟩
      omega
    · by_contra hlt
      have hs : succeeds l = true := hl.2.2
      rcases (show price ≤ l from hl.1).lt_or_eq with hgt | rfl
      · rw [hbelow l hgt (Int.not_le.mp hlt)] at hs
        cases hs
      · rw [hcond.resolve_left (by omega)] at hs
        cases hs
  · rw [heq]
    exact ⟨fun _ => .inr (h.fails hcap hnone), fun _ => .inr ⟨fun l _ hl => h.fails hl hnone, e, m', rfl⟩⟩

lemma exact_iff_of_lt (hmin : 2 ^ 62 < cap) (hmax : cap < 2 ^ 63) :
    (∃ n, ∀ probes ≥ n, Exact succeeds price cap (estimateGas x message account probes m)) ↔
      (∃ turns, succeeds (climb cap (turns + 1) price) = true) ∧
      (succeeds price = false ∨
        succeeds (climb cap 1 price) = false ∧ succeeds (price - 1) = false) := by
  have hfirst : (∃ turns, succeeds (climb cap (turns + 1) price) = true) → ∃ turns,
      (∀ k < turns, succeeds (climb cap (k + 1) price) = false) ∧
      succeeds (climb cap (turns + 1) price) = true := fun hsome =>
    ⟨Nat.find hsome, fun k hk => Bool.not_eq_true _ ▸ Nat.find_min hsome hk, Nat.find_spec hsome⟩
  constructor
  · rintro ⟨n, hexact⟩
    have hsome : ∃ turns, succeeds (climb cap (turns + 1) price) = true := by
      by_contra hnone
      obtain ⟨m', hok⟩ := estimateGas_climbing hgas hint hcap h hprice hmin hmax
        fun k (_ : k < n) => Bool.not_eq_true _ ▸ fun hs => hnone ⟨k, hs⟩
      rcases hok ▸ hexact n (le_refl n) with ⟨_, _, hok, -⟩ | ⟨-, _, _, hok⟩ <;> cases hok
    refine ⟨hsome, ?_⟩
    obtain ⟨turns, hfail, hs⟩ := hfirst hsome
    obtain ⟨found, m', hok, -, hfound, hlow⟩ := estimateGas_climbed hgas hint hcap h hprice hmin hmax hfail hs
      (Nat.le_max_right n _)
    have hleast := exact_some_iff.mp (hok ▸ hexact _ (Nat.le_max_left n _))
    by_contra hcond
    rw [not_or, Bool.not_eq_false, not_and, Bool.not_eq_false] at hcond
    obtain rfl : found = price := le_antisymm (hleast.2 ⟨le_refl _, hcap, hcond.1⟩) hleast.1.1
    cases turns with
    | zero =>
      rcases hlow with ⟨hlt, -⟩ | ⟨hmid, -⟩
      · exact absurd hlt (lt_irrefl found)
      · -- the middle of a small number and the cap is not that number
        have hbounds := tdiv_two_bounds (wrap64 (found + cap))
        have hmid : found = (wrap64 (found + cap)).tdiv 2 := hmid
        obtain ⟨hint, hint'⟩ := hint
        unfold wrap64 at *
        have := Int.bmod_def (found + cap) 18446744073709551616
        split at this <;> omega
    | succ turns =>
      have hprev := hfail turns (Nat.lt_succ_self turns)
      rcases hlow with ⟨-, hbelow⟩ | ⟨-, hle⟩
      · have hless := hcond.2 (hfail 0 (Nat.succ_pos turns))
        rw [hbelow _ (h.lt hprev hless) (by omega)] at hless
        cases hless
      · exact absurd (h.lt hprev hfound) (by omega)
  · rintro ⟨hsome, hbase⟩
    obtain ⟨turns, hfail, hs⟩ := hfirst hsome
    have hprev : succeeds (climb cap turns price) = false := by
      cases turns with
      | zero => exact hbase.resolve_right fun hnone => (by rw [hnone.1] at hs; cases hs)
      | succ turns => exact hfail turns (Nat.lt_succ_self turns)
    have hless : succeeds (price - 1) = false := hbase.elim (h.fails (by omega)) And.right
    refine ⟨64 + turns, fun probes hprobes => ?_⟩
    obtain ⟨found, m', hok, hle, hfound, hlow⟩ :=
      estimateGas_climbed hgas hint hcap h hprice hmin hmax hfail hs hprobes
    rw [hok, exact_some_iff]
    refine ⟨⟨by have := h.lt hless hfound; omega, hle, hfound⟩, fun l hl => ?_⟩
    have hl : succeeds l = true := hl.2.2
    rcases hlow with ⟨-, hbelow⟩ | ⟨-, hle⟩
    · by_contra hlt
      rw [hbelow l (h.lt hprev hl) (Int.not_le.mp hlt)] at hl
      cases hl
    · exact absurd (h.lt hprev hfound) (by omega)

/-- **ESTIMATES.** Where the probes succeed from some limit on, the estimate is exact

* under a block gas limit of at most `2 ^ 62`, if and only if the price of a transaction does not
  suffice, or is the block gas limit;
* under a larger one that is a `long`, if and only if one of the limits that are tried while all
  fail succeeds, and the price does not suffice, or the first of these limits fails as well as the
  limit below the price (the sum has wrapped, and the loop came back from below);
* under any other, if and only if no limit succeeds. -/
theorem estimate_exact_iff : (cap ≤ 2 ^ 62 → ∀ probes ≥ 63,
      (Exact succeeds price cap (estimateGas x message account probes m) ↔
        price = cap ∨ succeeds price = false)) ∧
    (2 ^ 62 < cap → cap < 2 ^ 63 →
      ((∃ n, ∀ probes ≥ n, Exact succeeds price cap (estimateGas x message account probes m)) ↔
        (∃ turns, succeeds (climb cap (turns + 1) price) = true) ∧
        (succeeds price = false ∨
          succeeds (climb cap 1 price) = false ∧ succeeds (price - 1) = false))) ∧
    (2 ^ 63 ≤ cap → ∀ probes, (Exact succeeds price cap (estimateGas x message account probes m) ↔
        ∀ l, price ≤ l → l ≤ cap → succeeds l = false)) := by
  refine ⟨fun hmax probes hprobes => exact_iff_of_le hgas hint hcap h hprice hprobes hmax,
    exact_iff_of_lt hgas hint hcap h hprice, fun hmin probes => ?_⟩
  have hthrows : estimateGas x message account probes m = .err .arithmetic m := by
    have hlong : toLongExact cap = .error .arithmetic :=
      if_neg fun hlong => (by have := hlong.2; omega)
    unfold estimateGas
    rw [hgas, liftM_bind hprice, bind_of_err (liftM_of_error hlong m)]
  rw [hthrows]
  refine ⟨fun hexact => ?_, fun hnone => .inr ⟨hnone, _, _, rfl⟩⟩
  rcases hexact with ⟨_, _, hok, -⟩ | ⟨hnone, -⟩
  · cases hok
  · exact hnone

end Estimate

/-- A message whose probes succeed from a limit on. -/
def fromLimit (threshold : Int) : Simulator where
  crypto := .sample
  apply := fun _ limit => .ends <|
    if threshold ≤ limit then .ok ⟨.success 0 600, limit, 0, limit, 0⟩
    else .error (.execution .intrinsicGas)
  cfg := configAt 1700000000
  block := pinTxContext 1 1700000000 7

lemma probesBy_fromLimit (threshold : Int) (message : Message) (account : Nat) (m : Simulation) :
    ProbesBy (fromLimit threshold) message account m fun l => decide (threshold ≤ l) where
  probes limits limit := by
    generalize after (fromLimit threshold) message account m limits = m'
    show some (classify (if threshold ≤ limit then _ else _)) = _
    by_cases hl : threshold ≤ limit
    · rw [if_pos hl, decide_eq_true hl]
      rfl
    · rw [if_neg hl, decide_eq_false hl]
      rfl
  mono hle hl := by
    simp only [decide_eq_true_eq] at hl ⊢
    omega

theorem estimate_from_limit_exact : Exact (fun l => decide (53000 ≤ l)) 21000 10000000
      (estimateGas (fromLimit 53000) (.sample 0) 0 63 (.start (.sample 0 []))) :=
  ((estimate_exact_iff rfl (by decide) (by decide) (probesBy_fromLimit 53000 _ _ _) rfl).1 (by decide) 63
    (le_refl 63)).mpr (.inr (by decide))

/-- The price of a transaction suffices, as it does for a plain payment, but the estimate is one
more. -/
theorem payment_estimated_too_high :
    ProbesBy (fromLimit 21000) (.sample 0) 0 (.start (.sample 0 [])) (fun l => decide (21000 ≤ l)) ∧
    (fromLimit 21000).cfg.lookForGasPrice .tx = .ok 21000 ∧
    (estimateGas (fromLimit 21000) (.sample 0) 0 63 (.start (.sample 0 []))).returns
      (fun found _ => found = some 21001) = true ∧
    ¬ Exact (fun l => decide (21000 ≤ l)) 21000 10000000
      (estimateGas (fromLimit 21000) (.sample 0) 0 63 (.start (.sample 0 []))) := by
  have hby := probesBy_fromLimit 21000 (.sample 0) 0 (.start (.sample 0 []))
  refine ⟨hby, rfl, by decide +kernel, fun hexact => ?_⟩
  have hcond := (exact_iff_of_le rfl (by decide) (by decide) hby rfl (le_refl 63) (by decide)).mp hexact
  revert hcond
  decide

end GrapeDag.GasEstimator
