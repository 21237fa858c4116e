/-
MEMORY IS PAID FOR, WITH TWO EXCEPTIONS.

A gas handler reads its operands as `long`s and charges for the AREAS it finds there
(`chargedAreas`); the instruction reads them as `int`s and grows the memory to the area it
touches. The two agree but for two gaps. `RETURNDATACOPY` is charged by operands 1 and 3 of
FOUR, and writes by operands 0 and 2 of three. And an end between -31 and -1 is free, but
rounds up to 32; only the return area of a call whose output is `null` gets away with it.

Main result: `memory_paid`.
-/
import GrapeDag.Vm.ControlFlow

namespace GrapeDag

open Imperative GrapeDag.Frame Prog List

/-! ## Rounding -/

section Rounding

variable {e : Int}

lemma toWordSize_of_nonneg (h0 : 0 ≤ e) (h1 : e ≤ 2147483616) : toWordSize e = (e + 31) / 32 := by
  show (wrap32 (e + (32 - 1))).tdiv 32 = _
  rw [wrap32_of_isInt (by omega), Int.tdiv_eq_ediv_of_nonneg (by omega)]
  omega

lemma ceilTo_words (h0 : 0 ≤ e) (h1 : e ≤ 2147483616) : ceilTo e 32 = 32 * toWordSize e := by
  have hmod : e.tmod 32 = e % 32 := Int.tmod_eq_emod_of_nonneg h0
  unfold ceilTo
  simp only [hmod, toWordSize_of_nonneg h0 h1]
  split
  · omega
  · rw [wrap32_of_isInt (by omega)]
    omega

lemma ceilTo_negative (h0 : e < 0) (h1 : -2147483648 ≤ e) :
    (ceilTo e 32 % 32 = 0 ∧ -2147483648 ≤ ceilTo e 32 ∧ ceilTo e 32 ≤ 0) ∨ (-32 < e ∧ ceilTo e 32 = 32) := by
  have hmod : e.tmod 32 = -((-e) % 32) := by
    rw [← Int.neg_neg e, Int.neg_tmod, Int.tmod_eq_emod_of_nonneg (by omega)]
    simp
  unfold ceilTo
  simp only [hmod]
  split
  · omega
  · rw [wrap32_of_isInt (by omega)]
    omega

lemma ceilTo_overflow (h0 : 2147483616 < e) (h1 : e ≤ 2147483647) : ceilTo e 32 = -2147483648 := by
  have hmod : e.tmod 32 = e % 32 := Int.tmod_eq_emod_of_nonneg (by omega)
  unfold ceilTo
  simp only [hmod]
  rw [if_neg (by omega)]
  have hsum : e + 32 - e % 32 = 2147483648 := by omega
  rw [hsum]
  decide

lemma ceilTo_grown {len c : Int} (he : IsInt e) (hpaid : toWordSize e ≤ c) (hlen : 0 ≤ len)
    (hmax : len ≤ 2147483647) (hgrow : wrap32 (ceilTo e 32 - len) > 0)
    (hfits : ¬ wrap32 (ceilTo e 32 - 2147483639) > 0) :
    0 < ceilTo e 32 ∧ ceilTo e 32 ≤ 2147483647 ∧
      (ceilTo e 32 ≤ 32 * c ∨ (-32 < e ∧ e < 0 ∧ ceilTo e 32 = 32)) := by
  obtain ⟨hlow, hhigh⟩ := he
  by_cases hneg : e < 0
  · rcases ceilTo_negative hneg hlow with ⟨hdvd, hge, hle⟩ | ⟨hnear, hword⟩
    · -- a size that is not positive cannot pass both tests
      unfold wrap32 at hgrow hfits
      rw [Int.bmod_def] at hgrow hfits
      split at hgrow <;> split at hfits <;> omega
    · exact ⟨by omega, by omega, .inr ⟨hnear, hneg, hword⟩⟩
  · by_cases htop : e ≤ 2147483616
    · have hwords := ceilTo_words (not_lt.mp hneg) htop
      have hcount := toWordSize_of_nonneg (not_lt.mp hneg) htop
      have hle : ceilTo e 32 ≤ 32 * c := by omega
      have hupper : ceilTo e 32 ≤ 2147483647 := by
        have := toWordSize_le e
        omega
      refine ⟨?_, hupper, .inl hle⟩
      rw [wrap32_of_isInt (by omega)] at hgrow
      omega
    · rw [ceilTo_overflow (not_le.mp htop) hhigh] at hgrow hfits
      unfold wrap32 at hgrow hfits
      rw [Int.bmod_def] at hgrow hfits
      split at hgrow <;> split at hfits <;> omega

end Rounding

/-! ## Areas -/

/-- The words `c` paid for cover what a handler was asked to charge. -/
def AreaPaid (c offset length : Int) : Prop :=
  length = 0 ∨ (IsInt (wrap64 (offset + length)) ∧ toWordSize (wrap64 (offset + length)) ≤ c)

/-- The words `c` paid for cover what an instruction touches. -/
def Fits (c offset size : Int) : Prop := size = 0 ∨ toWordSize (wrap32 (offset + size)) ≤ c

lemma AreaPaid.mono {c c' offset length : Int} (h : AreaPaid c offset length) (hc : c ≤ c') :
    AreaPaid c' offset length := by
  rcases h with h | ⟨hint, hwords⟩
  · exact .inl h
  · exact .inr ⟨hint, hwords.trans hc⟩

lemma wrap32_wrap64 (x : Int) : wrap32 (wrap64 x) = wrap32 x := by
  exact Int.bmod_bmod_of_dvd (by decide)

lemma wrap32_add_wrap32 (x y : Int) : wrap32 (wrap32 x + wrap32 y) = wrap32 (x + y) := by
  unfold wrap32
  simp

lemma Fits.of_areaPaid {c offset length : Int} (h : AreaPaid c offset length) :
    Fits c (wrap32 offset) (wrap32 length) := by
  rcases h with rfl | ⟨hint, hwords⟩
  · exact .inl rfl
  · right
    rw [wrap32_add_wrap32, ← wrap32_wrap64, wrap32_of_isInt hint]
    exact hwords

/-! ## Memory -/

/-- The memory and the count of its words stay. -/
structure MemKept (f f' : Frame) : Prop where
  memory : f'.memory = f.memory
  memoryWordCount : f'.memoryWordCount = f.memoryWordCount

instance : Worldwise MemKept where
  refl _ := ⟨rfl, rfl⟩
  trans _ _ _ h1 h2 := ⟨h2.memory.trans h1.memory, h2.memoryWordCount.trans h1.memoryWordCount⟩
  stack _ _ := ⟨rfl, rfl⟩
  world _ _ := ⟨rfl, rfl⟩

instance : Pcwise MemKept where
  pc _ _ := ⟨rfl, rfl⟩

instance : Gaswise MemKept where
  gas _ _ := ⟨rfl, rfl⟩

/-- `c` words are paid for, and cover the memory, which is a Java array. -/
structure PaidFor (c : Int) (f : Frame) : Prop where
  count : f.memoryWordCount = c
  array : f.memory.length ≤ 2147483647
  paid : f.memory.length ≤ 32 * c

lemma PaidFor.of_memKept {c : Int} {f f' : Frame} (hf : PaidFor c f) (h : MemKept f f') : PaidFor c f' :=
  ⟨h.memoryWordCount.trans hf.count, by rw [h.memory]; exact hf.array, by rw [h.memory]; exact hf.paid⟩

/-- The program keeps the memory paid for, up to an exception other than the caught one. -/
structure Pays (c : Int) {α : Type} (p : Java Frame α) : Prop where
  wp : ∀ f, PaidFor c f →
    Prog.wp p (fun _ f' => PaidFor c f') (fun e f' => e = .arithmetic → PaidFor c f') f

section Pays

variable {c : Int} {α β : Type} {p : Java Frame α} {k : α → Java Frame β}

lemma Pays.of_keeps (h : Keeps MemKept p) : Pays c p :=
  ⟨fun f hf => (h.wp f).mono (fun _ _ hk => hf.of_memKept hk) (fun _ _ hk _ => hf.of_memKept hk)⟩

lemma Pays.bind (hp : Pays c p) (hk : ∀ a, Pays c (k a)) : Pays c (p >>= k) :=
  ⟨fun f hf => wp_bind.mpr ((hp.wp f hf).post (fun a f1 h1 => (hk a).wp f1 h1))⟩

lemma Pays.pure (a : α) : Pays c (pure a : Java Frame α) := .of_keeps (.pure a)

lemma Pays.ite {cond : Prop} [Decidable cond] {q : Java Frame α} (hp : cond → Pays c p)
    (hq : ¬ cond → Pays c q) : Pays c (if cond then p else q) := by
  by_cases h : cond
  · rw [if_pos h]; exact hp h
  · rw [if_neg h]; exact hq h

end Pays

section Memory

variable {c offset size : Int}

/-- What `expand` leaves for a range that ends at `stop`: an end just below zero adds a word that
may not be paid for. -/
structure Expanded (c stop : Int) (f : Frame) : Prop where
  count : f.memoryWordCount = c
  array : f.memory.length ≤ 2147483647
  paid : PaidFor c f ∨ (-32 < stop ∧ stop < 0 ∧ f.memory.length = 32)

lemma Expanded.paidFor {stop : Int} {f : Frame} (h : Expanded c stop f) (hstop : 0 ≤ stop) :
    PaidFor c f :=
  h.paid.resolve_right fun hneg => absurd hneg.2.1 (not_lt.mpr hstop)

lemma wp_expand {f : Frame} (hf : PaidFor c f) (hfits : Fits c offset size) :
    wp (expand offset size) (fun _ f' => Expanded c (wrap32 (offset + size)) f')
      (fun e _ => e ≠ .arithmetic) f := by
  have hsame : Expanded c (wrap32 (offset + size)) f := ⟨hf.count, hf.array, .inl hf⟩
  have harray := hf.array
  unfold expand
  refine .ite (fun _ => .pure hsame) fun hsize => ?_
  rw [wp_bind, wp_gets]
  refine .ite (fun hgrow => ?_) fun _ => .pure hsame
  refine .ite (fun _ => by simp [wp_bind, wp_raise]) fun hmax => ?_
  obtain ⟨hpos, hupper, hcase⟩ := ceilTo_grown (isInt_wrap32 _) (hfits.resolve_left hsize)
    (Int.natCast_nonneg f.memory.length) (by omega) hgrow hmax
  unfold rightPadBytes
  rw [if_neg (by omega)]
  rw [wp_bind, wp_liftM]
  refine ⟨fun store hstore => ?_, fun _ h => by cases h⟩
  cases hstore
  have hlonger : f.memory.length < ceilTo (wrap32 (offset + size)) 32 := by
    rw [wrap32_of_isInt (by omega)] at hgrow
    omega
  have hlength : (f.memory.take (ceilTo (wrap32 (offset + size)) 32).toNat
      ++ replicate ((ceilTo (wrap32 (offset + size)) 32).toNat - f.memory.length) 0).length
      = (ceilTo (wrap32 (offset + size)) 32).toNat := by
    rw [length_append, length_take, length_replicate]
    omega
  rw [wp_modify]
  refine ⟨hf.count, by rw [hlength]; omega, ?_⟩
  rcases hcase with hle | ⟨hnear, hneg, hword⟩
  · exact .inl ⟨hf.count, by rw [hlength]; omega, by rw [hlength]; omega⟩
  · exact .inr ⟨hnear, hneg, by rw [hlength]; omega⟩

lemma Pays.expanding {α : Type} {r : α} {k : Unit → Java Frame α} (hfits : Fits c offset size)
    (hk : ∀ f, size ≠ 0 → Expanded c (wrap32 (offset + size)) f →
      Prog.wp (k ()) (fun _ f' => PaidFor c f') (fun e f' => e = .arithmetic → PaidFor c f') f) :
    Pays c (if size = 0 then Pure.pure r else expand offset size >>= k) := by
  refine ⟨fun f hf => ?_⟩
  refine .ite (fun _ => .pure hf) fun hsize => ?_
  rw [wp_bind]
  exact (wp_expand hf hfits).mono (fun _ f1 h1 => hk f1 hsize h1) (fun e _ he h => absurd h he)

lemma pays_memoryRead (hfits : Fits c offset size) : Pays c (memoryRead offset size) := by
  refine .expanding hfits fun f1 _ h1 => ?_
  have harray := h1.array
  rw [wp_bind, wp_gets]
  refine .ite (fun _ => by simp [wp_bind, wp_raise]) fun hpos => ?_
  refine .ite (fun _ => by simp [wp_bind, wp_raise]) fun hin => .pure ?_
  -- the area lies inside the array, so that its end is the plain sum
  have hend : wrap32 (offset + size) = offset + size := wrap32_of_isInt (by omega)
  exact h1.paidFor (by omega)

lemma pays_memoryWrite (hfits : Fits c offset size) (data : Bytes) :
    Pays c (memoryWrite offset size (some data)) := by
  refine .expanding hfits fun f1 _ h1 => ?_
  have harray := h1.array
  rw [wp_bind, wp_gets]
  refine .ite (fun _ => by simp [wp_bind, wp_raise]) fun henough => ?_
  refine .ite (fun _ => by simp [wp_bind, wp_raise]) fun _ => ?_
  refine .ite (fun _ => by simp [wp_bind, wp_raise]) fun hin => ?_
  have hend : wrap32 (offset + size) = offset + size := wrap32_of_isInt (by omega)
  rw [wp_modify]
  have hlength : (f1.memory.take offset.toNat ++ data.take size.toNat
      ++ f1.memory.drop (offset + size).toNat).length = f1.memory.length := by
    rw [length_append, length_append, length_take, length_take, length_drop]
    omega
  have hpaid := h1.paidFor (by omega)
  exact ⟨hpaid.count, by rw [hlength]; exact hpaid.array, by rw [hlength]; exact hpaid.paid⟩

/-- The return area does not end just below zero, or a word is paid for. -/
def ReturnFits (c offset size : Int) : Prop :=
  size = 0 ∨ 0 < c ∨ ¬ (-32 < wrap32 (offset + size) ∧ wrap32 (offset + size) < 0)

lemma pays_memoryWrite_null (hfits : Fits c offset size) (hreturn : ReturnFits c offset size) :
    Pays c (memoryWrite offset size none) := by
  refine .expanding hfits fun f1 hsize h1 => ?_
  obtain ⟨hcount, harray, hpaid⟩ := h1
  refine .pure ?_
  rcases hpaid with hpaid | ⟨hnear, hneg, hword⟩
  · exact hpaid
  · rcases hreturn with h | h | h
    · exact absurd h hsize
    · exact ⟨hcount, harray, by rw [hword]; omega⟩
    · exact absurd ⟨hnear, hneg⟩ h

end Memory

/-! ## What the handlers charge for -/

/-- The offsets and lengths that the handler of an opcode charges for. -/
def chargedAreas (s : List Word) : Op → List (Int × Int)
  | .sha3 | .log _ => [((s.getD 0 0).longValue, (s.getD 1 0).intValue)]
  | .callDataCopy | .codeCopy => [((s.getD 0 0).longValue, (s.getD 2 0).intValue)]
  | .extCodeCopy | .returnDataCopy => [((s.getD 1 0).longValue, (s.getD 3 0).intValue)]
  | .mload | .mstore => [((s.getD 0 0).longValue, 32)]
  | .mstore8 => [((s.getD 0 0).longValue, 1)]
  | .return_ | .revert => [((s.getD 0 0).longValue, (s.getD 1 0).longValue)]
  | .create _ => [((s.getD 1 0).longValue, (s.getD 2 0).longValue)]
  | .call .call | .call .callCode =>
      [((s.getD 3 0).longValue, (s.getD 4 0).longValue), ((s.getD 5 0).longValue, (s.getD 6 0).longValue)]
  | .call .delegateCall | .call .staticCall =>
      [((s.getD 2 0).longValue, (s.getD 3 0).longValue), ((s.getD 4 0).longValue, (s.getD 5 0).longValue)]
  | _ => []

/-- All areas are covered. -/
def AreasPaid (c : Int) (areas : List (Int × Int)) : Prop := ∀ a ∈ areas, AreaPaid c a.1 a.2

lemma AreasPaid.head {c a b : Int} {rest : List (Int × Int)} (h : AreasPaid c ((a, b) :: rest)) :
    AreaPaid c a b := h (a, b) mem_cons_self

lemma AreasPaid.tail {c : Int} {a : Int × Int} {rest : List (Int × Int)}
    (h : AreasPaid c (a :: rest)) : AreasPaid c rest := fun x hx => h x (mem_cons_of_mem a hx)

/-- Only the count of words may have grown. -/
structure MemGrown (f f' : Frame) : Prop where
  stack : f'.stack = f.stack
  memory : f'.memory = f.memory
  memoryWordCount : f.memoryWordCount ≤ f'.memoryWordCount

instance : Peekwise MemGrown where
  refl _ := ⟨rfl, rfl, le_refl _⟩
  trans _ _ _ h1 h2 := ⟨h2.stack.trans h1.stack, h2.memory.trans h1.memory,
    h1.memoryWordCount.trans h2.memoryWordCount⟩
  world _ _ _ := ⟨rfl, rfl, le_refl _⟩
  counters _ _ _ h _ := ⟨rfl, rfl, h.le⟩

instance : Gaswise MemGrown where
  gas _ _ := ⟨rfl, rfl, le_refl _⟩

/-- Wherever it starts, the program returns with these areas covered. -/
structure Charging (areas : List (Int × Int)) {α : Type} (p : Java Frame α) : Prop where
  wp : ∀ f, Prog.wp p (fun _ f' => AreasPaid f'.memoryWordCount areas) (fun _ _ => True) f

section Charging

open GasTable

variable {m : Machine} {areas rest : List (Int × Int)} {α β : Type} {p : Java Frame α} {k : α → Java Frame β}

lemma Charging.nil : Charging [] p := ⟨fun _ => .always fun _ _ _ h => by cases h⟩

lemma Charging.append (hp : Charging areas p) (hk : ∀ a, Keeps MemGrown (k a))
    (hrest : ∀ a, Charging rest (k a)) : Charging (areas ++ rest) (p >>= k) := by
  refine ⟨fun f => wp_bind.mpr ((hp.wp f).post ?_)⟩
  intro a f1 h1
  refine (((hk a).wp f1).and ((hrest a).wp f1)).returned ?_
  intro _ f2 h2 x hx
  rcases mem_append.mp hx with hx | hx
  · exact (h1 x hx).mono h2.1.memoryWordCount
  · exact h2.2 x hx

lemma Charging.first (hp : Charging areas p) (hk : ∀ a, Keeps MemGrown (k a)) :
    Charging areas (p >>= k) := by
  have h := hp.append hk fun _ => Charging.nil
  rwa [append_nil] at h

lemma Charging.after (hk : ∀ a, Charging areas (k a)) : Charging areas (p >>= k) :=
  ⟨fun _ => wp_bind.mpr (.always fun a => (hk a).wp)⟩

lemma charging_subMemUsage (offset length : Int) :
    Charging [(offset, length)] (subMemUsage m offset length) := by
  refine ⟨fun f => ?_⟩
  unfold subMemUsage
  have hone : ∀ {c : Int}, AreaPaid c offset length → AreasPaid c [(offset, length)] := by
    intro c h a ha
    rw [mem_singleton.mp ha]
    exact h
  refine .ite (fun hzero => .pure (hone (.inl hzero))) fun _ => ?_
  rw [wp_bind, wp_liftM]
  refine ⟨fun count hcount => ?_, fun _ _ => trivial⟩
  have hwords : IsInt (wrap64 (offset + length)) ∧ count = toWordSize (wrap64 (offset + length)) := by
    unfold toWordSizeLong toIntExact at hcount
    by_cases hint : IsInt (wrap64 (offset + length))
    · rw [if_pos hint] at hcount
      exact ⟨hint, (Except.ok.inj hcount).symm⟩
    · rw [if_neg hint] at hcount
      cases hcount
  rw [wp_bind, wp_gets]
  refine .ite (fun hle => .pure (hone (.inr ⟨hwords.1, hwords.2 ▸ hle⟩))) fun _ => ?_
  simp only [wp_bind, wp_liftM, wp_gets, wp_modify, wp_pure, implies_true, and_true]
  intro _ _ _ _ _ _ _ _
  exact hone (.inr ⟨hwords.1, hwords.2.ge⟩)

lemma charging_getMemUsageFee (offset length : Int) :
    Charging [(offset, length)] (getMemUsageFee m offset length) :=
  (charging_subMemUsage offset length).first fun _ => inferInstance

/-- The handler, run on the operands of `f`, charges for these areas. -/
def ChargesFor (f : Frame) (areas : List (Int × Int)) (handler : Java Frame Int) : Prop :=
  wpRet handler (fun _ f' => AreasPaid f'.memoryWordCount areas) f

lemma ChargesFor.peek {f : Frame} {n : Nat} {k : List Word → Java Frame Int}
    (hk : Charging areas (k (f.stack.take n))) : ChargesFor f areas (peek n >>= k) := by
  unfold ChargesFor Frame.peek
  rw [wpRet, wp_bind, wp_bind, wp_gets]
  refine .ite (fun _ => ?_) fun _ => .pure (hk.wp f)
  rw [wp_bind, wp_raise]
  trivial

variable (f : Frame)

lemma intValueExact_eq_ok {w : Word} {x : Int} (h : w.intValueExact = .ok x) :
    IsInt x ∧ x = w.longValue := by
  unfold Word.intValueExact toIntExact at h
  split at h
  · rename_i hint
    cases h
    exact ⟨hint, (wrap64_of_isLong hint.isLong).symm⟩
  · cases h

lemma chargesFor_create2 : ChargesFor f (chargedAreas f.stack (.create .create2)) (create2 m) := by
  refine .peek ⟨fun g => ?_⟩
  simp (disch := decide) only [param_take_getD]
  rw [wp_bind, wp_liftM]
  refine ⟨fun offset hoffset => ?_, fun _ _ => trivial⟩
  rw [wp_bind, wp_liftM]
  refine ⟨fun length hlength => ?_, fun _ _ => trivial⟩
  unfold chargedAreas
  rw [← (intValueExact_eq_ok hoffset).2, ← (intValueExact_eq_ok hlength).2]
  have hrest : Charging [(offset, length)] (do
      let wordFee ← create2WordFee m
      let usage ← subMemUsage m offset length
      (addExact (multiplyFull wordFee (toWordSize length)) usage : Java Frame Int)) :=
    .after fun _ => (charging_subMemUsage _ _).first fun _ => .liftM _
  exact hrest.wp g

set_option synthInstance.maxSize 1000 in
lemma chargesFor_gasHandler {op : Op} {handler : Java Frame Int}
    (h : gasHandler m op = some handler) : ChargesFor f (chargedAreas f.stack op) handler := by
  have hnone : ChargesFor f [] handler := Charging.nil.wp f
  have husage : ∀ o l, Charging [(o, l)] (subMemUsage m o l) := charging_subMemUsage
  have hcopy : ∀ {n i j : Nat}, i < n → j < n → ChargesFor f
      [((f.stack.getD i 0).longValue, (f.stack.getD j 0).intValue)] (makeMemCopyHandler m n i j) := by
    intro n i j hi hj
    refine .peek ?_
    rw [param_take_getD f.stack hi, param_take_getD f.stack hj]
    exact charging_getMemUsageFee _ _
  cases op <;> simp only [gasHandler, Option.some.injEq, reduceCtorEq] at h
  case callDataCopy | codeCopy | returnDataCopy => exact h ▸ hcopy (by decide) (by decide)
  case mload | mstore | mstore8 | return_ | revert =>
    refine h ▸ .peek ?_
    simp (disch := decide) only [param_take_getD]
    exact husage _ _
  case sha3 =>
    refine h ▸ .peek ?_
    simp (disch := decide) only [param_take_getD]
    exact .after fun _ => (husage _ _).first fun _ => .pure _
  case extCodeCopy =>
    refine h ▸ .peek ?_
    simp (disch := decide) only [param_take_getD]
    exact (charging_getMemUsageFee _ _).first fun _ => inferInstance
  case log n =>
    refine h ▸ .peek ?_
    simp (disch := decide) only [param_take_getD]
    exact .after fun _ => .after fun _ => .after fun _ => (husage _ _).first fun _ => inferInstance
  case create kind =>
    cases kind <;> cases h
    · refine .peek ?_
      simp (disch := decide) only [param_take_getD]
      exact .after fun _ => (husage _ _).first fun _ => .liftM _
    · exact chargesFor_create2 f
  case call kind =>
    -- the areas of the arguments and of the answer
    cases kind <;> cases h
    all_goals
      refine .peek ?_
      simp (disch := decide) only [param_take_getD]
      exact .after fun _ => (husage _ _).append (fun _ => inferInstance) fun _ =>
        .after fun _ => (husage _ _).first fun _ => inferInstance
  all_goals exact hnone

lemma chargedAreas_of_none {op : Op} (s : List Word) (h : gasHandler m op = none) :
    chargedAreas s op = [] := by
  cases op with
  | create kind | call kind => cases kind <;> cases h
  | _ => first | rfl | cases h

lemma wp_charge_areas (op : Op) : wpRet (charge m op) (fun r f' => MemGrown f f' ∧
      (r = none → AreasPaid f'.memoryWordCount (chargedAreas f.stack op))) f := by
  have hcovers : wpRet (charge m op) (fun r f' => r = none →
      AreasPaid f'.memoryWordCount (chargedAreas f.stack op)) f := by
    refine wp_charge_of (((keeps_useGas _ : Keeps MemGrown _).wp f).returned ?_)
    intro enough f1 h1
    refine ⟨fun _ => nofun, fun _ hnone _ a ha => ?_, fun handler _ hop => ?_⟩
    · rw [chargedAreas_of_none _ hnone] at ha
      cases ha
    have hhandler := chargesFor_gasHandler f1 hop
    rw [h1.stack] at hhandler
    refine hhandler.mono (fun fee f2 h2 => ?_) (fun _ _ _ => ⟨fun _ => nofun, trivial⟩)
    refine ⟨((keeps_useGas _ : Keeps MemGrown _).wp f2).returned ?_,
      fun _ => nofun, fun _ => trivial⟩
    exact fun _ f3 h3 _ a ha => (h2 a ha).mono h3.memoryWordCount
  exact (((keeps_charge m op).wp f).and hcovers).returned (fun _ _ h => h)

end Charging

/-! ## What the instructions touch -/

section Touch

variable {c : Int} {w v : Word}

lemma wrap32_longValue (w : Word) : wrap32 w.longValue = w.intValue := wrap32_wrap64 _

lemma Fits.of_long_int (h : AreaPaid c w.longValue v.intValue) : Fits c w.intValue v.intValue := by
  have hfits := Fits.of_areaPaid h
  rwa [wrap32_longValue, wrap32_of_isInt v.isInt_intValue] at hfits

lemma Fits.of_long_long (h : AreaPaid c w.longValue v.longValue) : Fits c w.intValue v.intValue := by
  have hfits := Fits.of_areaPaid h
  rwa [wrap32_longValue, wrap32_longValue] at hfits

lemma Fits.of_long_const {k : Int} (hk : IsInt k) (h : AreaPaid c w.longValue k) : Fits c w.intValue k := by
  have hfits := Fits.of_areaPaid h
  rwa [wrap32_longValue, wrap32_of_isInt hk] at hfits

variable {f : Frame} {α : Type}

/-- The words `c` paid for cover the memory of `f`, and running `p` keeps it so. -/
abbrev PaysFrom (c : Int) (f : Frame) (p : Java Frame α) : Prop :=
  wp p (fun _ f' => PaidFor c f') (fun e f' => e = .arithmetic → PaidFor c f') f

lemma PaysFrom.pop {k : Word → Java Frame α} (h : ∀ w rest, f.stack = w :: rest →
    PaysFrom c { f with stack := rest } (k w)) : PaysFrom c f (pop >>= k) := by
  rw [PaysFrom, wp_bind, wp_pop]
  exact ⟨nofun, fun w rest hs => h w rest hs⟩

lemma PaysFrom.lift {β : Type} {x : Checked β} {k : β → Java Frame α} (hf : PaidFor c f)
    (h : ∀ a, x = .ok a → PaysFrom c f (k a)) : PaysFrom c f (liftM x >>= k) := by
  rw [PaysFrom, wp_bind, wp_liftM]
  exact ⟨h, fun _ _ _ => hf⟩

lemma Pays.from {p : Java Frame α} (h : Pays c p) (hf : PaidFor c f) {s : List Word} :
    PaysFrom c { f with stack := s } p := h.wp _ ⟨hf.count, hf.array, hf.paid⟩

lemma PaysFrom.arithmeticAs (st : VmStatus) {p : Java Frame FnResult} (h : PaysFrom c f p) :
    PaysFrom c f (arithmeticAs st p) := by
  refine wp_catching.mpr (h.mono (fun _ _ hf' => hf') ?_)
  intro e f' he
  cases e with
  | arithmetic => exact .pure (he rfl)
  | _ => exact (wp_raise _).mpr nofun

lemma PaysFrom.pop₂ {k : Word → Word → Java Frame α} (h : ∀ w v rest, f.stack = w :: v :: rest →
    PaysFrom c { f with stack := rest } (k w v)) :
    PaysFrom c f (Frame.pop >>= fun w => Frame.pop >>= k w) :=
  .pop fun w _ hs => .pop fun v rest hs' => h w v rest (hs.trans (congrArg (w :: ·) hs'))

lemma PaysFrom.pop₃ {k : Word → Word → Word → Java Frame α}
    (h : ∀ w v u rest, f.stack = w :: v :: u :: rest →
      PaysFrom c { f with stack := rest } (k w v u)) :
    PaysFrom c f (Frame.pop >>= fun w => Frame.pop >>= fun v => Frame.pop >>= k w v) :=
  .pop fun w _ hs => .pop₂ fun v u rest hs' => h w v u rest (hs.trans (congrArg (w :: ·) hs'))

lemma pays_pushBytes (bs : Bytes) : Pays c (pushBytes bs >>= fun _ => success) :=
  .of_keeps (.bind (steps_pushBytes _).keeps fun _ => inferInstance)

variable (hf : PaidFor c f)
include hf

lemma paysFrom_opSha3 (crypto : CryptoLib) (h : AreasPaid c (chargedAreas f.stack .sha3)) :
    PaysFrom c f (opSha3 crypto) := by
  refine .pop₂ fun w v rest hs => ?_
  rw [hs] at h
  have hfits : Fits c w.intValue v.intValue := Fits.of_long_int h.head
  refine Pays.from (.ite (fun _ => ?_) (fun _ => pays_pushBytes _)) hf
  exact (pays_memoryRead hfits).bind fun _ => pays_pushBytes _

lemma paysFrom_copyOp (g : Frame → Option Bytes)
    (h : ∀ w v u rest, f.stack = w :: v :: u :: rest → Fits c w.intValue u.intValue) :
    PaysFrom c f (copyOp (Prog.gets g)) := by
  refine .pop₃ fun w v u rest hs => ?_
  exact Pays.from (.bind (.of_keeps (.gets _)) fun _ => .bind (.of_keeps (.liftM _)) fun _ =>
    (pays_memoryWrite (h w v u rest hs) _).bind fun _ => .of_keeps inferInstance) hf

lemma paysFrom_opReturnDataCopy
    (h : ∀ w v u rest, f.stack = w :: v :: u :: rest → Fits c w.intValue u.intValue) :
    PaysFrom c f opReturnDataCopy := by
  refine .arithmeticAs _ (.pop₃ fun w v u rest hs => ?_)
  exact Pays.from (.bind (.of_keeps (.liftM _)) fun _ => .bind (.of_keeps (.gets _)) fun _ =>
    .ite (fun _ => .pure _) fun _ => .bind (.of_keeps (.liftM _)) fun _ =>
    (pays_memoryWrite (h w v u rest hs) _).bind fun _ => .of_keeps inferInstance) hf

lemma paysFrom_opLog (m : Machine) (n : Nat) (h : AreasPaid c (chargedAreas f.stack (.log n))) :
    PaysFrom c f (opLog m n) := by
  refine .arithmeticAs _ ?_
  rw [PaysFrom, wp_bind, wp_gets]
  refine .ite (fun _ => .pure hf) fun _ => PaysFrom.pop₂ fun w v rest hs => ?_
  rw [hs] at h
  exact Pays.from (.bind (.of_keeps (steps_popTopics n).keeps) fun _ =>
    (pays_memoryRead (Fits.of_long_int h.head)).bind fun _ => .of_keeps (.bind (.gets _) fun _ =>
      .bind (keeps_onWorld _) fun _ => inferInstance)) hf

lemma paysFrom_prepareCreate (kind : CreateKind)
    (h : AreasPaid c (chargedAreas f.stack (.create kind))) :
    PaysFrom c f (prepareCreate kind) := by
  unfold prepareCreate
  rw [PaysFrom, wp_bind, wp_gets]
  refine .ite (fun _ => .pure hf) fun _ => PaysFrom.pop fun value rest hs => .pop fun w rest' hs' => ?_
  refine .lift ⟨hf.count, hf.array, hf.paid⟩ fun offset hoffset => .pop fun v rest'' hs'' => ?_
  refine .lift ⟨hf.count, hf.array, hf.paid⟩ fun size hsize => ?_
  dsimp only at hs' hs''
  rw [hs, hs', hs''] at h
  have hcovers : AreaPaid c offset size := by
    rw [(intValueExact_eq_ok hoffset).2, (intValueExact_eq_ok hsize).2]
    exact h.head
  have hfits : Fits c offset size := by
    have hnarrow := Fits.of_areaPaid hcovers
    rwa [wrap32_of_isInt (intValueExact_eq_ok hoffset).1,
      wrap32_of_isInt (intValueExact_eq_ok hsize).1] at hnarrow
  refine Pays.from ((pays_memoryRead hfits).bind fun _ => .of_keeps (.bind (.gets _) fun _ =>
    .bind (keeps_useGas _) fun _ => ?_)) hf
  cases kind with
  | create => exact .bind (.pure _) fun _ => .pure _
  | create2 => exact .bind keeps_pop fun _ => .pure _

lemma paysFrom_makeCreateFunction (calls : Calls) (kind : CreateKind)
    (h : AreasPaid c (chargedAreas f.stack (.create kind))) :
    PaysFrom c f (makeCreateFunction calls kind) := by
  refine wp_bind.mpr ((paysFrom_prepareCreate hf kind h).post ?_)
  intro r f1 hf1
  cases r with
  | error st => exact .pure hf1
  | ok p =>
    have hrest : Keeps MemKept (do
        let caller ← Prog.gets (·.contract.toRef)
        let result ← onWorld (calls.create ⟨kind, caller, p.code, p.gas, p.value, p.salt⟩)
        finishCreate result) := by
      refine .bind (.gets _) fun _ => .bind (keeps_onWorld _) fun result => ?_
      exact .bind (steps_push _).keeps fun _ => .bind (steps_addGas _).keeps fun _ => .ite
        (.bind (keeps_onWorld _) fun _ => .pure _) (.bind (keeps_onWorld _) fun _ => inferInstance)
    exact (Pays.of_keeps hrest).wp f1 hf1

/-- The return area of a call is covered. -/
def PreparedCall.Returns (c : Int) (p : PreparedCall) : Prop :=
  Fits c p.retOffset p.retSize ∧ ReturnFits c p.retOffset p.retSize

/-- Where a call writes its answer. -/
def returnArea (s : List Word) : CallKind → Int × Int
  | .call | .callCode => ((s.getD 5 0).intValue, (s.getD 6 0).intValue)
  | .delegateCall | .staticCall => ((s.getD 4 0).intValue, (s.getD 5 0).intValue)

lemma wp_prepareCall_paid (kind : CallKind) (callStipend : Int)
    (h : AreasPaid c (chargedAreas f.stack (.call kind)))
    (hreturn : ReturnFits c (returnArea f.stack kind).1 (returnArea f.stack kind).2) :
    wp (prepareCall kind callStipend) (fun r f' => PaidFor c f' ∧ ∀ p, r = .ok p → p.Returns c)
      (fun e f' => e = .arithmetic → PaidFor c f') f := by
  refine wp_prepareCall_of nofun fun o rest hstack => ?_
  have hf' : PaidFor c { f with stack := rest } := ⟨hf.count, hf.array, hf.paid⟩
  rw [hstack] at h hreturn
  obtain ⟨hin, hout, hreturn⟩ : Fits c o.inOffset.intValue o.inSize.intValue ∧
      Fits c o.retOffset.intValue o.retSize.intValue ∧
      ReturnFits c o.retOffset.intValue o.retSize.intValue := by
    unfold returnArea at hreturn
    cases kind <;>
      dsimp only at hreturn <;>
      exact ⟨Fits.of_long_long h.head, Fits.of_long_long h.tail.head, hreturn⟩
  refine ((pays_memoryRead hin).from hf').post (fun args f1 hf1 => ?_)
  refine ⟨fun _ => ⟨hf1, nofun⟩, fun _ => ?_⟩
  refine ((keeps_useGas _ : Keeps MemKept _).wp f1).mono (fun paid f2 h2 => ⟨hf1.of_memKept h2, ?_⟩)
    (fun _ _ h _ => hf1.of_memKept h)
  cases paid with
  | false => nofun
  | true =>
    intro p hp
    rw [← Except.ok.inj hp]
    unfold PreparedCall.Returns CallOperands.prepared
    dsimp only
    exact ⟨hout, hreturn⟩

omit hf in
lemma pays_finishCall {p : PreparedCall} (hp : p.Returns c) (r : VmResult) : Pays c (finishCall p r) := by
  have hend : Keeps MemKept (do
      addGas r.gas
      onWorld (World.setReturnData r.output)
      return (⟨.success, r.output⟩ : FnResult)) :=
    .bind (steps_addGas _).keeps fun _ => .bind (keeps_onWorld _) fun _ => .pure _
  have hwrite : Pays c (memoryWrite p.retOffset p.retSize r.output) := by
    cases r.output with
    | none => exact pays_memoryWrite_null hp.1 hp.2
    | some data => exact pays_memoryWrite hp.1 data
  refine .bind (.of_keeps (steps_push _).keeps) fun _ => .ite (fun _ => ?_) (fun _ => .of_keeps hend)
  exact hwrite.bind fun _ => .of_keeps hend

lemma paysFrom_makeCallFunction (calls : Calls) (kind : CallKind) (callStipend : Int)
    (h : AreasPaid c (chargedAreas f.stack (.call kind)))
    (hreturn : ReturnFits c (returnArea f.stack kind).1 (returnArea f.stack kind).2) :
    PaysFrom c f (makeCallFunction calls kind callStipend) := by
  refine wp_bind.mpr ((wp_prepareCall_paid hf kind callStipend h hreturn).post ?_)
  intro r f1 hr
  obtain ⟨hf1, hp⟩ := hr
  cases r with
  | error st => exact .pure hf1
  | ok p =>
    have hrest : Pays c (do
        let caller ← Prog.gets (·.contract.toRef)
        let result ← onWorld (calls.executeCall
          ⟨kind, caller, p.toAddr, p.args, p.gasLimit, p.value.bigIntegerValue⟩)
        finishCall p result) :=
      .bind (.of_keeps (.gets _)) fun _ => .bind (.of_keeps (keeps_onWorld _)) fun r =>
        pays_finishCall (hp p rfl) r
    exact hrest.wp f1 hf1

/-- The instructions whose handler charges for what they touch. -/
lemma paysFrom_charged {m : Machine} {calls : Calls} {op : Op} (hcopy : op ≠ .returnDataCopy)
    (hcall : ∀ kind, op ≠ .call kind) (h : AreasPaid c (chargedAreas f.stack op)) :
    PaysFrom c f (locateFn m calls op) := by
  cases op with
  | mload =>
    refine .pop fun w rest hs => ?_
    rw [hs] at h
    exact Pays.from ((pays_memoryRead (Fits.of_long_const (by decide) h.head)).bind fun _ =>
      pays_pushBytes _) hf
  | mstore | mstore8 =>
    refine .pop₂ fun w v rest hs => ?_
    rw [hs] at h
    exact Pays.from ((pays_memoryWrite (Fits.of_long_const (by decide) h.head) _).bind fun _ =>
      .of_keeps inferInstance) hf
  | sha3 => exact paysFrom_opSha3 hf m.crypto h
  | callDataCopy | codeCopy =>
    refine paysFrom_copyOp hf _ fun w v u rest hs => ?_
    rw [hs] at h
    exact Fits.of_long_int h.head
  | extCodeCopy =>
    refine .pop fun w rest hs => ?_
    have hf' : PaidFor c { f with stack := rest } := ⟨hf.count, hf.array, hf.paid⟩
    refine paysFrom_copyOp hf' _ fun w1 w2 w3 rest' hs' => ?_
    dsimp only at hs'
    rw [hs, hs'] at h
    exact Fits.of_long_int h.head
  | log n => exact paysFrom_opLog hf m n h
  | return_ | revert =>
    refine .pop₂ fun w v rest hs => ?_
    rw [hs] at h
    refine Pays.from ((pays_memoryRead (Fits.of_long_long h.head)).bind fun _ => ?_) hf
    first
      | exact .pure _
      | exact .of_keeps (.bind (keeps_onWorld _) fun _ => .pure _)
  | create kind => exact paysFrom_makeCreateFunction hf calls kind h
  | returnDataCopy => exact absurd rfl hcopy
  | call kind => exact absurd rfl (hcall kind)
  | sstore => exact (Pays.of_keeps steps_opSStore.keeps).wp f hf
  | tstore => exact (Pays.of_keeps steps_opTStore.keeps).wp f hf
  | selfDestruct => exact (Pays.of_keeps steps_opSelfDestruct.keeps).wp f hf
  | jump | jumpI | returnSub | jumpSub | push n =>
    exact (Pays.of_keeps (steps_jumps m calls _ rfl).keeps).wp f hf
  | _ => exact (Pays.of_keeps (steps_plain m calls _ rfl).keeps).wp f hf

end Touch

/-! ## One turn -/

/-- What `RETURNDATACOPY` writes is covered by words paid for before, or by what its handler charges
for. -/
def Frame.CopyFits (f : Frame) : Prop :=
  let size := (f.stack.getD 2 0).intValue
  let words := toWordSize (wrap32 ((f.stack.getD 0 0).intValue + size))
  let charged := (f.stack.getD 3 0).intValue
  size = 0 ∨ words ≤ f.memoryWordCount ∨
    (charged ≠ 0 ∧ words ≤ toWordSize (wrap64 ((f.stack.getD 1 0).longValue + charged)))

/-- The condition on the instruction about to be executed. -/
def Frame.PaysMemory (m : Machine) (f : Frame) : Prop :=
  match f.currentOp m with
  | some .returnDataCopy => f.CopyFits
  | some (.call kind) =>
      ReturnFits f.memoryWordCount (returnArea f.stack kind).1 (returnArea f.stack kind).2
  | _ => True

instance (m : Machine) (f : Frame) : Decidable (f.PaysMemory m) := by
  unfold Frame.PaysMemory
  split
  · unfold Frame.CopyFits; infer_instance
  · unfold ReturnFits; infer_instance
  · infer_instance

section Turn

variable {m : Machine} {calls : Calls} {f f1 : Frame}

lemma ReturnFits.mono {c c' offset size : Int} (h : ReturnFits c offset size) (hc : c ≤ c') :
    ReturnFits c' offset size := by
  rcases h with h | h | h
  · exact .inl h
  · exact .inr (.inl (h.trans_le hc))
  · exact .inr (.inr h)

lemma Frame.CopyFits.fits (h : f.CopyFits) (h1 : MemGrown f f1) {w v u : Word}
    {rest : List Word} (hs : f1.stack = w :: v :: u :: rest)
    (hcovers : AreaPaid f1.memoryWordCount (f1.stack.getD 1 0).longValue (f1.stack.getD 3 0).intValue) :
    Fits f1.memoryWordCount w.intValue u.intValue := by
  unfold Frame.CopyFits at h
  rw [← h1.stack, hs] at h
  rw [hs] at hcovers
  rcases h with hzero | hbefore | ⟨hne, hnow⟩
  · exact .inl hzero
  · exact .inr (hbefore.trans h1.memoryWordCount)
  · rcases hcovers with hzero | ⟨_, hwords⟩
    · exact absurd hzero hne
    · exact .inr (hnow.trans hwords)

lemma paysFrom_locateFn {op : Op} (hop : f.currentOp m = some op) (hcond : f.PaysMemory m)
    (h1 : MemGrown f f1) (hf1 : PaidFor f1.memoryWordCount f1)
    (hcovers : AreasPaid f1.memoryWordCount (chargedAreas f.stack op)) :
    PaysFrom f1.memoryWordCount f1 (locateFn m calls op) := by
  unfold Frame.PaysMemory at hcond
  rw [hop] at hcond
  have hcount := h1.memoryWordCount
  rw [← h1.stack] at hcovers
  cases op with
  | returnDataCopy =>
    refine paysFrom_opReturnDataCopy hf1 fun w v u rest hs => ?_
    exact Frame.CopyFits.fits hcond h1 hs hcovers.head
  | call kind =>
    refine paysFrom_makeCallFunction hf1 calls kind _ hcovers ?_
    rw [h1.stack]
    exact hcond.mono hcount
  | _ => exact paysFrom_charged hf1 nofun nofun hcovers

/-- A turn leaves the memory alone, or pays for it. -/
def GrowsPaid (m : Machine) (f f' : Frame) : Prop := MemGrown { f with stack := f'.stack } f' ∨
    ∃ op f1, f.currentOp m = some op ∧ charge m op f = .ok none f1 ∧ PaidFor f1.memoryWordCount f'

lemma GrowsPaid.paidFor {f' : Frame} (h : GrowsPaid m f f')
    (hf : PaidFor f.memoryWordCount f) : PaidFor f'.memoryWordCount f' := by
  rcases h with hsame | ⟨_, _, _, _, hpaid⟩
  · obtain ⟨_, hmemory, hcount⟩ := hsame
    dsimp only at hmemory hcount
    have hold := hf.paid
    refine ⟨rfl, by rw [hmemory]; exact hf.array, ?_⟩
    rw [hmemory]
    omega
  · rw [← hpaid.count] at hpaid
    exact hpaid

lemma turn_growsPaid (hf : PaidFor f.memoryWordCount f) (hcond : f.PaysMemory m) :
    wpRet (turn m calls) (fun _ f' => GrowsPaid m f f') f := by
  have hstep : wpRet (runStep m calls f.opcode) (fun _ f' => GrowsPaid m f f') f := by
    unfold runStep
    cases hop : m.cfg.locateOpCode f.opcode with
    | none => exact .pure (.inl ⟨rfl, rfl, le_refl _⟩)
    | some op =>
      have hself : wpRet (charge m op) (fun r f' => charge m op f = .ok r f') f :=
        wp_iff.mpr ⟨fun _ _ h => h, fun _ _ _ => trivial⟩
      refine wp_bind.mpr (((wp_charge_areas f op).and hself).returned ?_)
      intro paid f1 h
      obtain ⟨⟨h1, hcovers⟩, hcharge⟩ := h
      cases paid with
      | some st => exact .pure (.inl ⟨rfl, h1.memory, h1.memoryWordCount⟩)
      | none =>
        have hf1 : PaidFor f1.memoryWordCount f1 := by
          have hold := hf.paid
          have hcount := h1.memoryWordCount
          exact ⟨rfl, by rw [h1.memory]; exact hf.array, by rw [h1.memory]; omega⟩
        refine (paysFrom_locateFn hop hcond h1 hf1 (hcovers rfl)).returned ?_
        intro _ f' hf'
        exact .inr ⟨op, f1, hop, hcharge, hf'⟩
  refine wp_turn_of (fun _ _ => trivial) fun _ => hstep.post (fun rc f' hgrows => ?_)
  refine ⟨fun _ => hgrows, fun _ => ?_⟩
  -- moving the counter on does not matter
  rcases hgrows with ⟨_, hmemory, hcount⟩ | ⟨op, f1, hop, hcharge, hpaid⟩
  · exact .inl ⟨rfl, hmemory, hcount⟩
  · exact .inr ⟨op, f1, hop, hcharge, hpaid.count, hpaid.array, hpaid.paid⟩

end Turn

/-! ## Runs -/

/-- **Memory is paid for.** In every run whose instructions meet the condition, the memory has at
most 32 bytes for every word paid for, whenever an instruction is about to be executed; and an
instruction, the last one included, leaves the memory alone or is paid for and grows it to no more
than that. -/
theorem memory_paid {m : Machine} {f : Frame} (h : Executes m (Frame.PaysMemory m) f) :
    f.memory.length ≤ 32 * f.memoryWordCount ∧
    ∀ (n : Nat) (r : Option FnResult) (f' : Frame), f.PaysMemory m →
      turn m (vm m n) f = .ok r f' → f'.memory = f.memory ∨
        ∃ op f1, f.currentOp m = some op ∧ charge m op f = .ok none f1 ∧
          f'.memory.length ≤ 32 * f1.memoryWordCount := by
  have hinv : PaidFor f.memoryWordCount f := by
    induction h with
    | start contract w hcode => exact ⟨rfl, Nat.zero_le _, le_refl 0⟩
    | next h hcond hturn ih => exact ((turn_growsPaid ih hcond).of_ok hturn).paidFor ih
  refine ⟨hinv.paid, fun n r f' hcond hturn => ?_⟩
  rcases (turn_growsPaid hinv hcond).of_ok hturn with hsame | ⟨op, f1, hop, hcharge, hpaid⟩
  · exact .inl hsame.memory
  · exact .inr ⟨op, f1, hop, hcharge, hpaid.paid⟩

/-- A call of the identity contract, then `RETURNDATACOPY` of its word to a position. -/
def copyAfterCall (position : List UInt8) : Bytes :=
  [0x60, 0, 0x60, 0, 0x60, 0, 0x60, 0x20, 0x60, 0, 0x60, 0, 0x60, 4, 0x61, 0xff, 0xff, 0xf1,
    0x50, 0x60, 0x20, 0x60, 0] ++ 0x61 :: position ++ [0x3e]

theorem copy_to_start_paid :
    ∃ f, Executes .sample (Frame.PaysMemory .sample) f ∧ f.memory.length = 32 ∧
      f.memory.length ≤ 32 * f.memoryWordCount := by
  obtain ⟨f, hf, hlength⟩ := @exists_executes (Frame.PaysMemory .sample) (·.memory.length = 32)
    (fun f => decide (f.PaysMemory .sample)) (copyAfterCall [0, 0]) 100000 5 14
    (fun _ h => of_decide_eq_true h) (by decide) (by decide +kernel)
  exact ⟨f, hf, hlength, (memory_paid hf).1⟩

/-- The copy to position 4096 leaves 4128 bytes of memory with one word paid for; and the call of a
missing account with the return area from -37 to -5 leaves 32 bytes with none. -/
theorem memory_unpaid :
    (∃ f, Executes .sample (fun _ => True) f ∧ f.memory.length = 4128 ∧ f.memoryWordCount = 1) ∧
    (∃ f, Executes .sample (fun _ => True) f ∧ f.memory.length = 32 ∧ f.memoryWordCount = 0) := by
  refine ⟨exists_executes_of (copyAfterCall [0x10, 0]) 100000 5 14 (by decide) (by decide +kernel),
    exists_executes_of [0x60, 0x20, 0x60, 0x24, 0x19, 0x60, 0, 0x60, 0, 0x60, 0, 0x61, 0x02, 0x58,
      0x61, 0xff, 0xff, 0xf1] 100000 5 9 (by decide) ?_⟩
  decide +kernel

end GrapeDag
