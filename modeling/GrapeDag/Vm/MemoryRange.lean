/-
MEMORY AND DATA AT FULL POSITIONS.

What `VmMemory` and `Bytes.slicePadded` do where no `int` sum overflows, said in natural
numbers. `2147483616` is the last end that still rounds to a whole number of words.

Main result: `slicePadded_iff`.
-/
import GrapeDag.Lib.Area
import GrapeDag.Vm.MemoryPaid

namespace GrapeDag

open Imperative GrapeDag.Frame Prog Area List

/-! ## Memory -/

def maxEnd : Nat := 2147483616

def grown (store : Bytes) (stop : Nat) : Bytes := Area.extend 0 ((stop + 31) / 32 * 32) store

lemma le_length_grown (store : Bytes) (stop : Nat) : stop ≤ (grown store stop).length := by
  unfold grown
  rw [length_extend]
  omega

section Ranges

variable {offset size : Nat} {f : Frame}

lemma ceilTo_end (hend : offset + size ≤ maxEnd) :
    ceilTo (wrap32 ((offset : Int) + size)) 32 = ((offset + size + 31) / 32 * 32 : Nat) := by
  unfold maxEnd at hend
  rw [wrap32_of_isInt (by omega), ceilTo_words (by omega) (by omega),
    toWordSize_of_nonneg (by omega) (by omega)]
  omega

lemma expand_apply (hsize : size ≠ 0) (hend : offset + size ≤ maxEnd)
    (hmem : f.memory.length ≤ 2147483647) :
    expand offset size f = .ok () { f with memory := grown f.memory (offset + size) } := by
  have hne : (size : Int) ≠ 0 := by omega
  unfold expand
  rw [if_neg hne]
  show (Prog.gets _ >>= _) f = _
  rw [gets_bind, ceilTo_end hend]
  unfold maxEnd at hend
  have hlen : wrap32 (((offset + size + 31) / 32 * 32 : Nat) - f.memory.length : Int)
      = ((offset + size + 31) / 32 * 32 : Nat) - f.memory.length :=
    wrap32_of_isInt (by omega)
  rw [hlen]
  by_cases hgrow : (((offset + size + 31) / 32 * 32 : Nat) - f.memory.length : Int) > 0
  · have hsmall : ¬ wrap32 (((offset + size + 31) / 32 * 32 : Nat) - 2147483639 : Int) > 0 := by
      rw [wrap32_of_isInt (by omega)]
      omega
    rw [if_pos hgrow, if_neg hsmall]
    unfold rightPadBytes
    rw [take_of_length_le (by omega)]
    rfl
  · -- the memory covers the range already
    have hsame : grown f.memory (offset + size) = f.memory := extend_of_le (by omega)
    rw [if_neg hgrow, hsame]
    rfl

/-- A memory of `length` bytes covers what ends at `stop`, or can grow to cover it; both tests are
made in `int` arithmetic. -/
def Growable (length : Nat) (stop : Int) : Prop :=
  wrap32 (ceilTo stop 32 - length) ≤ 0 ∨ wrap32 (ceilTo stop 32 - 2147483639) ≤ 0

end Ranges

section Growing

variable {offset size : Int} {f : Frame}

lemma expand_of_growable (hsize : size ≠ 0) (hmem : f.memory.length ≤ 2147483647)
    (h : Growable f.memory.length (wrap32 (offset + size))) :
    ∃ n : Nat, n ≤ 2147483647 ∧ (n = 0 ∨ (n : Int) = ceilTo (wrap32 (offset + size)) 32) ∧
      expand offset size f = .ok () { f with memory := extend 0 n f.memory } := by
  unfold expand
  rw [if_neg hsize]
  show ∃ n : Nat, _ ∧ _ ∧ (Prog.gets _ >>= _) f = _
  rw [gets_bind]
  by_cases hgrow : wrap32 (ceilTo (wrap32 (offset + size)) 32 - f.memory.length) > 0
  · have hfits : ¬ wrap32 (ceilTo (wrap32 (offset + size)) 32 - 2147483639) > 0 :=
      not_lt.mpr (h.resolve_left (not_le.mpr hgrow))
    obtain ⟨hpos, hupper, -⟩ := ceilTo_grown (isInt_wrap32 _) (le_refl _)
      (Int.natCast_nonneg f.memory.length) (by omega) hgrow hfits
    rw [if_pos hgrow, if_neg hfits]
    rw [wrap32_of_isInt (by omega)] at hgrow
    refine ⟨(ceilTo (wrap32 (offset + size)) 32).toNat, by omega, .inr (by omega), ?_⟩
    unfold rightPadBytes
    rw [if_neg (by omega), take_of_length_le (by omega)]
    rfl
  · rw [if_neg hgrow]
    refine ⟨0, by omega, .inl rfl, ?_⟩
    rw [extend_of_le (Nat.zero_le _)]
    rfl

lemma expand_of_not_growable (hsize : size ≠ 0)
    (h : ¬ Growable f.memory.length (wrap32 (offset + size))) :
    expand offset size f = .err (.vm .outOfMemory) f := by
  unfold Growable at h
  unfold expand
  rw [if_neg hsize]
  show (Prog.gets _ >>= _) f = _
  rw [gets_bind, if_pos (by omega), if_pos (by omega)]
  rfl

lemma memoryWrite_within {data : Bytes} {f' : Frame} (hsize : size ≠ 0)
    (hmem : f.memory.length ≤ 2147483647) (h : memoryWrite offset size (some data) f = .ok () f') :
    0 ≤ offset ∧ 0 < size ∧ size ≤ data.length ∧ offset + size ≤ maxEnd := by
  unfold memoryWrite at h
  rw [if_neg hsize] at h
  by_cases hgrow : Growable f.memory.length (wrap32 (offset + size))
  swap
  · rw [bind_of_err (expand_of_not_growable hsize hgrow)] at h
    cases h
  obtain ⟨n, hn, hcase, hexpand⟩ := expand_of_growable hsize hmem hgrow
  rw [bind_of_ok hexpand] at h
  change (Prog.gets _ >>= _) _ = _ at h
  rw [gets_bind] at h
  by_cases hshort : (data.length : Int) < size
  · rw [if_pos hshort] at h
    cases h
  rw [if_neg hshort] at h
  dsimp only at h
  split at h
  · cases h
  split at h
  · cases h
  rename_i hinside
  rw [length_extend] at hinside
  refine ⟨by omega, by omega, by omega, ?_⟩
  -- an end beyond the last word rounds to the smallest `int`, and the memory cannot cover it
  by_contra hbeyond
  unfold maxEnd at hbeyond
  have hint : wrap32 (offset + size) = offset + size := wrap32_of_isInt (by omega)
  unfold Growable at hgrow
  rw [hint, ceilTo_overflow (by omega) (by omega)] at hgrow hcase
  have hempty : f.memory.length = 0 := by
    unfold wrap32 at hgrow
    rw [Int.bmod_def, Int.bmod_def] at hgrow
    omega
  omega

end Growing

section Ranges

variable {offset size : Nat} {f : Frame}

lemma memoryRead_apply (hsize : size ≠ 0) (hend : offset + size ≤ maxEnd)
    (hmem : f.memory.length ≤ 2147483647) :
    memoryRead offset size f = .ok (window offset size (grown f.memory (offset + size)))
      { f with memory := grown f.memory (offset + size) } := by
  have hne : (size : Int) ≠ 0 := by omega
  have hcover := le_length_grown f.memory (offset + size)
  unfold memoryRead
  rw [if_neg hne, bind_of_ok (expand_apply hsize hend hmem)]
  show (Prog.gets _ >>= _) _ = _
  rw [gets_bind, if_neg (by omega)]
  dsimp only
  rw [if_neg (by omega)]
  rfl

lemma memoryWrite_apply {data : Bytes} (hsize : size ≠ 0) (hend : offset + size ≤ maxEnd)
    (hmem : f.memory.length ≤ 2147483647) (hdata : size ≤ data.length) :
    memoryWrite offset size (some data) f = .ok () { f with
      memory := overwrite offset (data.take size) (grown f.memory (offset + size)) } := by
  have hne : (size : Int) ≠ 0 := by omega
  have hcover := le_length_grown f.memory (offset + size)
  have hint : wrap32 ((offset : Int) + size) = offset + size :=
    wrap32_of_isInt (by unfold IsInt maxEnd at *; omega)
  unfold memoryWrite
  rw [if_neg hne, bind_of_ok (expand_apply hsize hend hmem)]
  show (Prog.gets _ >>= _) _ = _
  rw [gets_bind, if_neg (by omega)]
  dsimp only
  rw [if_neg (by omega), if_neg (by omega)]
  show Outcome.ok _ _ = _
  unfold overwrite
  have hlen : (data.take size).length = size := by
    rw [length_take]
    omega
  have hstop : ((offset : Int) + size).toNat = offset + size := by omega
  rw [hlen, hstop, Int.toNat_natCast, Int.toNat_natCast]

end Ranges

/-! ## Data -/

section Data

variable {data : Bytes}

lemma slice_eq {start stop : Nat} (hle : start ≤ stop) (hstop : stop ≤ data.length)
    (hlen : data.length ≤ 2147483647) :
    slice data start stop = .ok (window start (stop - start) data) := by
  unfold slice
  by_cases heq : (start : Int) = stop
  · have hzero : stop - start = 0 := by omega
    rw [if_pos heq, hzero]
    split
    · unfold checkPositionIndex
      rw [if_pos (by omega)]
      rfl
    · rfl
  · have hdiff : wrap32 ((stop : Int) - start) = (stop - start : Nat) := by
      rw [wrap32_of_isInt (by omega)]
      omega
    rw [if_neg heq]
    unfold checkElementIndex checkPositionIndex
    rw [if_pos (by omega), if_pos (by omega), hdiff]
    show (if ((stop - start : Nat) : Int) > 0 then _ else _) = _
    rw [if_pos (by omega)]
    rfl

lemma slicePadded_eq {start size : Nat} (hlen : data.length ≤ 2147483647)
    (hend : min start data.length + size ≤ 2147483647) :
    slicePadded (some data) start size
      = .ok (window start size (extend 0 (start + size) data)) := by
  have hstart : (if (start : Int) > data.length then (data.length : Int) else start)
      = (min start data.length : Nat) := by
    split <;> omega
  have hsum : wrap32 (((min start data.length : Nat) : Int) + size)
      = (min start data.length + size : Nat) := by
    rw [wrap32_of_isInt (by omega)]
    omega
  have hstop : (if ((min start data.length + size : Nat) : Int) > data.length
      then (data.length : Int) else (min start data.length + size : Nat))
      = (min (min start data.length + size) data.length : Nat) := by
    split <;> omega
  unfold slicePadded
  simp only [hstart, hsum, hstop]
  refine Checked.bind_eq_ok.mpr ⟨_, slice_eq (by omega) (by omega) hlen, ?_⟩
  unfold rightPadBytes
  rw [if_neg (by omega), window_extend]
  -- the area that was cut out is the window, cut off at the end of the data
  have hwindow : window (min start data.length)
      (min (min start data.length + size) data.length - min start data.length) data
      = window start size data := by
    unfold window
    by_cases hin : start ≤ data.length
    · rw [Nat.min_eq_left hin, take_eq_take_iff, length_drop]
      omega
    · rw [drop_eq_nil_of_le (by omega), drop_eq_nil_of_le (by omega), take_nil, take_nil]
  rw [hwindow, Int.toNat_natCast, take_of_length_le (by rw [length_window]; omega), length_window]
  have hfill : size - min size (data.length - start) = size - (data.length - start) := by omega
  rw [hfill]
  rfl

lemma slicePadded_fails {start size : Int} (hlen : data.length ≤ 2147483647)
    (hstart : IsInt start) (hpos : 0 < size) (hsize : size ≤ 2147483647)
    (h : start < 0 ∨ 2147483647 < min start data.length + size) :
    ∃ e, slicePadded (some data) start size = .error e := by
  obtain ⟨hlow, hhigh⟩ := hstart
  have hslice : ∀ a b : Int, a ≠ b → (a < 0 ∨ b < 0) → ∃ e, slice data a b = .error e := by
    intro a b hne hneg
    unfold slice
    rw [if_neg hne]
    unfold checkElementIndex
    by_cases ha : 0 ≤ a ∧ a < data.length
    · rw [if_pos ha]
      unfold checkPositionIndex
      rw [if_neg (by omega)]
      exact ⟨_, rfl⟩
    · rw [if_neg ha]
      exact ⟨_, rfl⟩
  unfold slicePadded
  dsimp only
  generalize hs : (if start > data.length then (data.length : Int) else start) = s
  generalize ht : (if wrap32 (s + size) > data.length then (data.length : Int)
    else wrap32 (s + size)) = t
  have hsplit : s ≠ t ∧ (s < 0 ∨ t < 0) := by
    rcases h with hneg | hover
    · have hsum : wrap32 (s + size) = s + size := wrap32_of_isInt (by omega)
      split at ht <;> omega
    · have hsum : wrap32 (s + size) = s + size - 4294967296 := by
        unfold wrap32
        rw [Int.bmod_def]
        split <;> omega
      split at ht <;> omega
  obtain ⟨e, he⟩ := hslice s t hsplit.1 hsplit.2
  refine ⟨e, ?_⟩
  rw [he]
  rfl

/-- **PADDED SLICES** are as documented exactly if the sum of `start`, cut off at the length of the
data, and `size` is an `int`. -/
theorem slicePadded_iff (hlen : data.length ≤ 2147483647) {start size : Nat} (hstart : start ≤ 2147483647)
    (hsize : size ≤ 2147483647) :
    slicePadded (some data) start size = .ok ((List.range size).map fun i => data.getD (start + i) 0) ↔
      min start data.length + size ≤ 2147483647 := by
  constructor
  · intro hok
    by_contra hover
    obtain ⟨e, he⟩ := @slicePadded_fails data start size hlen
      (by omega) (by omega) (by omega) (.inr (by omega))
    rw [he] at hok
    cases hok
  · intro hend
    rw [slicePadded_eq hlen hend, window_eq_map 0 (by rw [length_extend]; omega)]
    simp only [getD_extend]

end Data

theorem three_bytes_padded : slicePadded (some [1, 2, 3]) (2 : Nat) (4 : Nat) = .ok [3, 0, 0, 0] :=
  (slicePadded_iff (by decide) (by decide) (by decide)).mpr (by decide)

/-- **A slice that throws**: the largest `size`, from the end of one byte of data. -/
theorem largest_slice_throws : slicePadded (some [7]) 1 2147483647 = .error .indexOutOfBounds := by
  decide

end GrapeDag
