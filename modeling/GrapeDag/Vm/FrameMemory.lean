/-
THE MEMORY OF A FRAME.

`VmMemory.java` against a memory without an end, and what `subMemUsage` of
`GasTableFactory.java` charges for it, over any sequence of accesses.

Main results: `frame_memory` and `memory_fees`.
-/
import GrapeDag.Vm.MemoryRange

namespace GrapeDag

open Imperative GrapeDag.Frame Prog List Area

/-! ## Reads and writes -/

/-- A call of `read`, or of `write` with its data. -/
structure MemCall where
  offset : Nat
  size : Nat
  data : Option Bytes

namespace MemCall

def run (a : MemCall) : Java Frame Bytes :=
  match a.data with
  | none => memoryRead a.offset a.size
  | some data => do
      memoryWrite a.offset a.size (some data)
      return []

def runAll : List MemCall → Java Frame (List Bytes)
  | [] => return []
  | a :: accesses => do return (← a.run) :: (← runAll accesses)

/-- The access to a memory that has a byte everywhere. -/
def apply (bytes : Nat → UInt8) (a : MemCall) : Nat → UInt8 :=
  match a.data with
  | none => bytes
  | some data => fun i =>
      if a.offset ≤ i ∧ i < a.offset + a.size then data.getD (i - a.offset) 0 else bytes i

def answer (bytes : Nat → UInt8) (a : MemCall) : Bytes :=
  match a.data with
  | none => (range a.size).map fun i => bytes (a.offset + i)
  | some _ => []

def answers (bytes : Nat → UInt8) : List MemCall → List Bytes
  | [] => []
  | a :: accesses => a.answer bytes :: answers (a.apply bytes) accesses

/-- `n` is the smallest multiple of 32 that covers the accesses. -/
def Covers (accesses : List MemCall) (n : Nat) : Prop :=
  IsLeast { k | 32 ∣ k ∧ ∀ a ∈ accesses, a.size ≠ 0 → a.offset + a.size ≤ k } n

/-- The access ends in time, and has its data. -/
structure InRange (a : MemCall) : Prop where
  stop : a.offset + a.size ≤ 2147483584
  data : ∀ data ∈ a.data, a.size ≤ data.length

/-- What the array says of the accesses so far. -/
structure Stores (accesses : List MemCall) (bytes : Nat → UInt8) (store : Bytes) : Prop where
  length : Covers accesses store.length
  bound : store.length ≤ 2147483584
  bytes : ∀ i, store.getD i 0 = bytes i

variable {accesses : List MemCall} {bytes : Nat → UInt8} {store : Bytes} {offset size : Nat}

lemma covers_concat {a : MemCall} {n n' : Nat} (h : Covers accesses n)
    (hn : n' = if a.size = 0 then n else max n ((a.offset + a.size + 31) / 32 * 32)) :
    Covers (accesses ++ [a]) n' := by
  have hwords := h.1.1
  refine ⟨⟨?_, fun b hb hne => ?_⟩, fun k hk => ?_⟩
  · split at hn <;> omega
  · rcases mem_append.mp hb with hb | hb
    · have hold := h.1.2 b hb hne
      split at hn <;> omega
    · rw [mem_singleton.mp hb] at hne ⊢
      rw [if_neg hne] at hn
      omega
  · have hdvd := hk.1
    have hold := h.2 ⟨hk.1, fun b hb => hk.2 b (mem_append_left _ hb)⟩
    have hnew := hk.2 a (mem_append_right _ (mem_singleton.mpr rfl))
    split at hn
    · omega
    · have hstop := hnew ‹_›
      omega

lemma Stores.grown {a : MemCall} (h : Stores accesses bytes store) (hsize : a.size ≠ 0)
    (hstop : a.offset + a.size ≤ 2147483584) :
    Stores (accesses ++ [a]) bytes (grown store (a.offset + a.size)) := by
  have hlen : (GrapeDag.grown store (a.offset + a.size)).length
      = max store.length ((a.offset + a.size + 31) / 32 * 32) := length_extend
  have hbound := h.bound
  refine ⟨covers_concat h.length (by rw [hlen, if_neg hsize]), by omega, fun i => ?_⟩
  unfold GrapeDag.grown
  rw [getD_extend, h.bytes]

lemma getD_overwrite {data : Bytes} (h : ∀ i, store.getD i 0 = bytes i)
    (hstop : offset + size ≤ store.length) (hdata : size ≤ data.length) (i : Nat) :
    (overwrite offset (data.take size) store).getD i 0
      = if offset ≤ i ∧ i < offset + size then data.getD (i - offset) 0 else bytes i := by
  have htake : (data.take size).length = size := by
    rw [length_take]
    omega
  rw [getD_eq_getElem?_getD]
  by_cases hi : offset ≤ i ∧ i < offset + size
  · have hwindow : window offset (data.take size).length (overwrite offset (data.take size) store)
        = data.take size := window_overwrite (by omega)
    have hbyte : (overwrite offset (data.take size) store)[offset + (i - offset)]? = data[i - offset]? := by
      rw [← getElem?_window (show i - offset < (data.take size).length by omega), hwindow,
        getElem?_take_of_lt (by omega)]
    rw [Nat.add_sub_cancel' hi.1] at hbyte
    rw [if_pos hi, hbyte, getD_eq_getElem?_getD]
  · rw [if_neg hi, getElem?_overwrite (by omega) (by omega), ← getD_eq_getElem?_getD, h]

theorem run_stores (f : Frame) {a : MemCall} (ha : a.InRange) (h : Stores accesses bytes store) :
    ∃ store', a.run { f with memory := store } = .ok (a.answer bytes) { f with memory := store' } ∧
      Stores (accesses ++ [a]) (a.apply bytes) store' := by
  have hmem : store.length ≤ 2147483647 := h.bound.trans (by decide)
  obtain ⟨offset, size, data⟩ := a
  by_cases hsize : size = 0
  · subst hsize
    refine ⟨store, ?_⟩
    have hcovers : Covers (accesses ++ [⟨offset, 0, data⟩]) store.length := covers_concat h.length rfl
    cases data with
    | none => exact ⟨rfl, hcovers, h.bound, h.bytes⟩
    | some data =>
      refine ⟨rfl, hcovers, h.bound, fun i => (h.bytes i).trans (if_neg ?_).symm⟩
      show ¬ (offset ≤ i ∧ i < offset + 0)
      omega
  · have hgrown : Stores (accesses ++ [⟨offset, size, data⟩]) bytes (GrapeDag.grown store (offset + size)) :=
      h.grown hsize ha.stop
    have hcover := le_length_grown store (offset + size)
    have hend : offset + size ≤ maxEnd := ha.stop.trans (by decide)
    cases data with
    | none =>
      refine ⟨_, (memoryRead_apply hsize hend hmem).trans ?_, hgrown⟩
      rw [window_eq_map 0 hcover]
      simp only [hgrown.bytes]
      rfl
    | some data =>
      have hdata : size ≤ data.length := ha.data data rfl
      have hlen : (overwrite offset (data.take size) (GrapeDag.grown store (offset + size))).length
          = (GrapeDag.grown store (offset + size)).length :=
        length_overwrite (by rw [length_take]; omega)
      refine ⟨_, bind_of_ok (memoryWrite_apply hsize hend hmem hdata), ?_, ?_, ?_⟩
      · exact hlen ▸ hgrown.length
      · exact hlen ▸ hgrown.bound
      · exact getD_overwrite hgrown.bytes hcover hdata

theorem runAll_stores (f : Frame) {todo : List MemCall} (htodo : ∀ a ∈ todo, a.InRange)
    (h : Stores accesses bytes store) :
    ∃ store', runAll todo { f with memory := store } = .ok (answers bytes todo) { f with memory := store' } ∧
      Stores (accesses ++ todo) (todo.foldl apply bytes) store' := by
  induction todo generalizing accesses bytes store with
  | nil => exact ⟨store, rfl, by rwa [append_nil]⟩
  | cons a todo ih =>
    obtain ⟨ha, hrest⟩ := forall_mem_cons.mp htodo
    obtain ⟨store1, hone, h1⟩ := run_stores f ha h
    obtain ⟨store', hall, h'⟩ := ih hrest h1
    refine ⟨store', (bind_of_ok hone).trans (bind_of_ok hall), ?_⟩
    rwa [append_assoc] at h'

lemma stores_new : Stores [] (fun _ => 0) [] :=
  ⟨⟨⟨dvd_zero 32, nofun⟩, fun _ _ => Nat.zero_le _⟩, Nat.zero_le _, fun _ => rfl⟩

end MemCall

/-- **THE MEMORY OF A FRAME** is a memory of zeros without an end: the reads have their answers from
it, the array holds its bytes, and the size is the smallest multiple of 32 that covers what was
accessed. -/
theorem frame_memory (f : Frame) (hnew : f.memory = []) {accesses : List MemCall}
    (h : ∀ a ∈ accesses, a.InRange) :
    ∃ store, MemCall.runAll accesses f = .ok (MemCall.answers (fun _ => 0) accesses) { f with memory := store } ∧
      (∀ i, store.getD i 0 = accesses.foldl MemCall.apply (fun _ => 0) i) ∧
      MemCall.Covers accesses store.length := by
  obtain ⟨store, hrun, hstores⟩ := MemCall.runAll_stores f h MemCall.stores_new
  refine ⟨store, ?_, hstores.bytes, hstores.length⟩
  rw [← hrun, ← hnew]

theorem written_then_read : ∃ store, MemCall.runAll [⟨30, 4, some [1, 2, 3, 4]⟩, ⟨32, 2, none⟩] (.sample [] 0)
    = .ok [[], [3, 4]] { Frame.sample [] 0 with memory := store } := by
  obtain ⟨store, hrun, -⟩ := @frame_memory (.sample [] 0) rfl [⟨30, 4, some [1, 2, 3, 4]⟩, ⟨32, 2, none⟩] (by
    intro a ha
    rcases mem_pair.mp ha with rfl | rfl
    · exact ⟨by decide, fun _ h => by cases h; decide⟩
    · exact ⟨by decide, nofun⟩)
  exact ⟨store, hrun⟩

/-! ## Fees -/

section Fees

/-- The fees of the accesses, each an offset and a length, one after the other. -/
def subMemUsages (m : Machine) : List (Nat × Nat) → Java Frame (List Int)
  | [] => return []
  | access :: accesses => do
      return (← GasTable.subMemUsage m access.1 access.2) :: (← subMemUsages m accesses)

/-- The number of words that the access reaches, none for an empty one. -/
def wordsReached (access : Nat × Nat) : Nat := if access.2 = 0 then 0 else (access.1 + access.2 + 31) / 32

def memoryCost (fee quadCoeff : Int) (w : Nat) : Int := fee * w + w * w / quadCoeff

/-- The prices are positive, and ints. -/
structure MemoryPrices (m : Machine) (fee quadCoeff : Int) : Prop where
  memory : GasTable.price m .memory = .ok fee
  quadCoeffDiv : GasTable.price m .quadCoeffDiv = .ok quadCoeff
  fee_pos : 0 < fee
  fee_int : fee ≤ 2147483647
  quadCoeff_pos : 0 < quadCoeff

variable {m : Machine} {fee quadCoeff : Int} {w : Nat} {f : Frame}

lemma MemoryPrices.cost_range (h : MemoryPrices m fee quadCoeff) (hw : w ≤ 67108863) :
    0 ≤ memoryCost fee quadCoeff w ∧ memoryCost fee quadCoeff w ≤ 2 ^ 58 := by
  have hfee := h.fee_pos
  have hint := h.fee_int
  have hquad0 : 0 ≤ (w * w / quadCoeff : Int) := Int.ediv_nonneg (by positivity) h.quadCoeff_pos.le
  have hquad1 : (w * w / quadCoeff : Int) ≤ w * w := Int.ediv_le_self _ (by positivity)
  have hsquare : (w * w : Int) ≤ 67108863 * 67108863 := by gcongr <;> omega
  have hlinear : fee * w ≤ 2147483647 * 67108863 := by gcongr; omega
  have hnonneg : 0 ≤ fee * w := by positivity
  unfold memoryCost
  omega

lemma MemoryPrices.cost_lt (h : MemoryPrices m fee quadCoeff) {w' : Nat} (hlt : w < w') :
    memoryCost fee quadCoeff w < memoryCost fee quadCoeff w' := by
  have hlinear : fee * w < fee * w' := Int.mul_lt_mul_of_pos_left (by omega) h.fee_pos
  have hquad : (w * w / quadCoeff : Int) ≤ w' * w' / quadCoeff := by
    refine Int.ediv_le_ediv h.quadCoeff_pos ?_
    gcongr
  unfold memoryCost
  omega

/-- Step. A fee is the difference of what the memory costs. -/
theorem subMemUsage_apply (h : MemoryPrices m fee quadCoeff) {access : Nat × Nat}
    (hstop : access.1 + access.2 ≤ 2147483616) (hw : f.memoryWordCount = w) (hmax : w ≤ 67108863)
    (hcost : f.highestMemCost = memoryCost fee quadCoeff w) :
    GasTable.subMemUsage m access.1 access.2 f
      = .ok (memoryCost fee quadCoeff (max w (wordsReached access)) - memoryCost fee quadCoeff w)
        { f with
          memoryWordCount := (max w (wordsReached access) : Nat)
          highestMemCost := memoryCost fee quadCoeff (max w (wordsReached access)) } := by
  obtain ⟨offset, length⟩ := access
  dsimp only at hstop ⊢
  unfold GasTable.subMemUsage
  by_cases hzero : length = 0
  · subst hzero
    rw [if_pos (show ((0 : Nat) : Int) = 0 from rfl), wordsReached, if_pos rfl, Nat.max_zero, Int.sub_self, ← hw,
      ← hcost]
    rfl
  · have hwords : toWordSizeLong (wrap64 (offset + length)) = .ok ((offset + length + 31) / 32 : Nat) := by
      rw [wrap64_of_isLong (by omega)]
      unfold toWordSizeLong toIntExact
      rw [if_pos (by omega)]
      show Except.ok (toWordSize _) = _
      rw [toWordSize_of_nonneg (by omega) (by omega)]
      congr 1
    have hreached : wordsReached (offset, length) = (offset + length + 31) / 32 := if_neg hzero
    rw [if_neg (by omega)]
    show ((liftM (toWordSizeLong _) : Java Frame Int) >>= _) f = _
    rw [liftM_bind hwords, gets_bind, hw, ← hreached]
    by_cases hcovered : wordsReached (offset, length) ≤ w
    · rw [if_pos (by omega), max_eq_left hcovered, Int.sub_self, ← hw, ← hcost]
      rfl
    · have hlt : w < wordsReached (offset, length) := by omega
      generalize hnew : wordsReached (offset, length) = n at *
      have hrange := h.cost_range (show n ≤ 67108863 by omega)
      have hmore := h.cost_lt hlt
      have hless := (h.cost_range hmax).1
      have hquad : divide (multiplyFull n n) quadCoeff = .ok (n * n / quadCoeff) := by
        unfold divide multiplyFull
        rw [if_neg h.quadCoeff_pos.ne', Int.tdiv_eq_ediv_of_nonneg (by positivity)]
      have hsum : addExact (multiplyFull n fee) (n * n / quadCoeff) = .ok (memoryCost fee quadCoeff n) := by
        unfold addExact multiplyFull
        rw [Int.mul_comm]
        exact toLongExact_eq_ok.mpr ⟨⟨by unfold memoryCost at *; omega, by unfold memoryCost at *; omega⟩, rfl⟩
      rw [if_neg (by omega), max_eq_right hlt.le, liftM_bind h.memory,
        liftM_bind h.quadCoeffDiv, liftM_bind hquad,
        liftM_bind hsum, gets_bind, hcost, if_pos hmore, if_pos hmore,
        wrap64_of_isLong (by omega)]
      rfl

theorem subMemUsages_apply (h : MemoryPrices m fee quadCoeff) {accesses : List (Nat × Nat)}
    (hstop : ∀ a ∈ accesses, a.1 + a.2 ≤ 2147483616) (hw : f.memoryWordCount = w) (hmax : w ≤ 67108863)
    (hcost : f.highestMemCost = memoryCost fee quadCoeff w) :
    ∃ fees f', subMemUsages m accesses f = .ok fees f' ∧ fees.sum
      = memoryCost fee quadCoeff ((accesses.map wordsReached).foldl max w) - memoryCost fee quadCoeff w := by
  induction accesses generalizing w f with
  | nil => exact ⟨[], f, rfl, (Int.sub_self _).symm⟩
  | cons a accesses ih =>
    obtain ⟨ha, hrest⟩ := forall_mem_cons.mp hstop
    have hreached : wordsReached a ≤ 67108863 := by
      unfold wordsReached
      split <;> omega
    have hone := subMemUsage_apply h ha hw hmax hcost
    obtain ⟨fees, f', hrun, hsum⟩ := ih (f := { f with
      memoryWordCount := (max w (wordsReached a) : Nat)
      highestMemCost := memoryCost fee quadCoeff (max w (wordsReached a)) })
      hrest rfl (max_le hmax hreached) rfl
    refine ⟨_, f', (bind_of_ok hone).trans (bind_of_ok hrun), ?_⟩
    rw [sum_cons, hsum, map_cons, foldl_cons]
    omega

end Fees

/-- **MEMORY FEES** add up to what the highest word costs, whatever the accesses before it were. -/
theorem memory_fees {m : Machine} {fee quadCoeff : Int} (h : MemoryPrices m fee quadCoeff) {f : Frame}
    (hwords : f.memoryWordCount = 0) (hcost : f.highestMemCost = 0) {accesses : List (Nat × Nat)}
    (hstop : ∀ a ∈ accesses, a.1 + a.2 ≤ 2147483616) :
    ∃ fees f', subMemUsages m accesses f = .ok fees f' ∧
      fees.sum = memoryCost fee quadCoeff ((accesses.map wordsReached).foldl max 0) := by
  have hnone : memoryCost fee quadCoeff 0 = 0 := by simp [memoryCost]
  obtain ⟨fees, f', hrun, hsum⟩ := subMemUsages_apply h hstop hwords (Nat.zero_le _) (hcost.trans hnone.symm)
  exact ⟨fees, f', hrun, by rw [hsum, hnone, Int.sub_zero]⟩

theorem two_words_paid : ∃ fees f', subMemUsages .sample [(0, 32), (40, 1), (8, 8)] (.sample [] 0) = .ok fees f' ∧
    fees.sum = 6 :=
  @memory_fees .sample 3 512 ⟨rfl, rfl, by decide, by decide, by decide⟩ (.sample [] 0) rfl rfl _ (by decide)

end GrapeDag
