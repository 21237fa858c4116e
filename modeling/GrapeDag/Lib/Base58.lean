/-
BASE-58 TEXT.

Bytes as text in the Bitcoin alphabet: a leading zero byte is a leading `1`, and the rest is the
big-endian number of the bytes in base 58. Text is a list of bytes (ASCII).

Main result: `decode_encode`.
-/
import Mathlib.Data.List.Forall2
import Mathlib.Data.List.TakeWhile
import Mathlib.Data.Nat.Digits.Lemmas

namespace Base58

open List

/-! ## Letters -/

/-- The alphabet leaves out `0`, `I`, `O` and `l`. -/
def alphabet : List UInt8 := "123456789ABCDEFGHJKLMNPQRSTUVWXYZabcdefghijkmnopqrstuvwxyz".toList.map
    fun c => UInt8.ofNat c.toNat

def letter (d : Nat) : UInt8 := alphabet.getD d 0

def value? (c : UInt8) : Option Nat := alphabet.idxOf? c

variable {d : Nat} {bs : List UInt8} {ds : List Nat}

lemma value?_letter (h : d < 58) : value? (letter d) = some d := by
  have hall : ∀ d : Fin 58, value? (letter d) = some d.val := by decide +kernel
  exact hall ⟨d, h⟩

lemma letter_of_value? {c : UInt8} (h : value? c = some d) : d < 58 ∧ letter d = c := by
  obtain ⟨hlt, heq, -⟩ := findIdx?_eq_some_iff_getElem.mp h
  have hlength : alphabet.length = 58 := by decide +kernel
  refine ⟨hlength ▸ hlt, ?_⟩
  unfold letter
  rw [getD_eq_getElem?_getD, getElem?_eq_getElem hlt]
  exact beq_iff_eq.mp heq

lemma value?_lt {c : UInt8} (h : value? c = some d) : d < c.toNat := by
  have hall : ∀ d : Fin 58, d.val < (letter d).toNat := by decide +kernel
  obtain ⟨hd, rfl⟩ := letter_of_value? h
  exact hall ⟨d, hd⟩

/-! ## Encoding and decoding -/

def ofBytes (bs : List UInt8) : Nat := Nat.ofDigits 256 (bs.map UInt8.toNat).reverse

def toBytes (n : Nat) : List UInt8 := ((Nat.digits 256 n).map UInt8.ofNat).reverse

def encode (bs : List UInt8) : List UInt8 :=
  (bs.takeWhile (· == 0)).map (fun _ => letter 0) ++ ((Nat.digits 58 (ofBytes bs)).map letter).reverse

/-- The empty text is refused, and so is a letter outside of the alphabet. -/
def decode (text : List UInt8) : Option (List UInt8) :=
  if text = [] then none
  else
    (text.mapM value?).map fun ds =>
      (text.takeWhile (· == letter 0)).map (fun _ => 0) ++ toBytes (Nat.ofDigits 58 ds.reverse)

/-! ## Round trip -/

lemma eq_zero_of_mem_takeWhile {b : UInt8} (h : b ∈ bs.takeWhile (· == 0)) : b = 0 := by
  have hzero : (b == 0) = true := mem_takeWhile_imp (p := (· == 0)) h
  exact beq_iff_eq.mp hzero

lemma map_takeWhile_zero (bs : List UInt8) :
    (bs.takeWhile (· == 0)).map UInt8.toNat = replicate (bs.takeWhile (· == 0)).length 0 := by
  refine eq_replicate_iff.mpr ⟨length_map _, ?_⟩
  intro n hn
  obtain ⟨b, hb, rfl⟩ := mem_map.mp hn
  rw [eq_zero_of_mem_takeWhile hb]
  rfl

lemma ofBytes_dropWhile (bs : List UInt8) : ofBytes bs = ofBytes (bs.dropWhile (· == 0)) := by
  have hsplit : bs.map UInt8.toNat = replicate (bs.takeWhile (· == 0)).length 0
      ++ (bs.dropWhile (· == 0)).map UInt8.toNat := by
    rw [← map_takeWhile_zero, ← map_append, takeWhile_append_dropWhile]
  unfold ofBytes
  rw [hsplit, reverse_append, reverse_replicate, Nat.ofDigits_append_replicate_zero]

lemma head?_dropWhile_ne (bs : List UInt8) : ∀ b ∈ (bs.dropWhile (· == 0)).head?, b ≠ 0 := by
  intro b hb hzero
  have hhead := head?_dropWhile_not (fun b : UInt8 => b == 0) bs
  rw [Option.mem_def.mp hb] at hhead
  simp [hzero] at hhead

lemma toBytes_ofBytes (h : ∀ b ∈ bs.head?, b ≠ 0) : toBytes (ofBytes bs) = bs := by
  have hdigits : Nat.digits 256 (ofBytes bs) = (bs.map UInt8.toNat).reverse := by
    refine Nat.digits_ofDigits 256 (by decide) _ ?_ ?_
    · intro n hn
      obtain ⟨b, -, rfl⟩ := mem_map.mp (mem_reverse.mp hn)
      exact b.toNat_lt
    intro hne
    rw [getLast_reverse]
    cases bs with
    | nil => exact absurd rfl hne
    | cons b bs =>
      intro hzero
      exact h b rfl (UInt8.toNat_inj.mp hzero)
  unfold toBytes
  rw [hdigits, map_reverse, reverse_reverse, map_map]
  have hid : UInt8.ofNat ∘ UInt8.toNat = id := funext fun b => UInt8.ofNat_toNat
  rw [hid, map_id]

lemma ofBytes_toBytes (n : Nat) : ofBytes (toBytes n) = n := by
  unfold ofBytes toBytes
  rw [map_reverse, reverse_reverse, map_map]
  have hmap : (Nat.digits 256 n).map (UInt8.toNat ∘ UInt8.ofNat) = Nat.digits 256 n := by
    conv_rhs => rw [← map_id (Nat.digits 256 n)]
    refine map_congr_left fun d hd => ?_
    have hlt : d < 256 := Nat.digits_lt_base (by decide) hd
    show (UInt8.ofNat d).toNat = d
    rw [UInt8.toNat_ofNat']
    omega
  rw [hmap, Nat.ofDigits_digits]

lemma mapM_value?_letters (h : ∀ d ∈ ds, d < 58) : (ds.map letter).mapM value? = some ds := by
  induction ds with
  | nil => rfl
  | cons d ds ih =>
    have hd := value?_letter (h d mem_cons_self)
    have hds := ih fun d' hd' => h d' (mem_cons_of_mem d hd')
    simp [mapM_cons, hd, hds]

lemma takeWhile_digits (n : Nat) :
    (((Nat.digits 58 n).map letter).reverse).takeWhile (· == letter 0) = [] := by
  rw [← map_reverse]
  cases hds : (Nat.digits 58 n).reverse with
  | nil => rfl
  | cons d ds =>
    have hne : Nat.digits 58 n ≠ [] := by
      intro hnil
      rw [hnil] at hds
      cases hds
    have hlast : (Nat.digits 58 n).getLast hne = d := by
      have hrev : Nat.digits 58 n = (d :: ds).reverse := by rw [← hds, reverse_reverse]
      simp [hrev]
    have hn : n ≠ 0 := Nat.digits_ne_nil_iff_ne_zero.mp hne
    have hd : d ≠ 0 := hlast ▸ Nat.getLast_digit_ne_zero 58 hn
    have hlt : d < 58 := Nat.digits_lt_base (by decide) (hlast ▸ getLast_mem hne)
    have hletter : letter d ≠ letter 0 := by
      intro heq
      have hvalue := value?_letter hlt
      rw [heq, value?_letter (by decide)] at hvalue
      exact hd (Option.some.inj hvalue).symm
    simp [hletter]

theorem decode_encode (h : bs ≠ []) : decode (encode bs) = some bs := by
  have hletters : encode bs = ((replicate (bs.takeWhile (· == 0)).length 0
      ++ (Nat.digits 58 (ofBytes bs)).reverse).map letter) := by
    unfold encode
    simp [map_append, map_reverse, map_const']
  have hvalues : (encode bs).mapM value? = some (replicate (bs.takeWhile (· == 0)).length 0
      ++ (Nat.digits 58 (ofBytes bs)).reverse) := by
    rw [hletters]
    refine mapM_value?_letters fun d hd => ?_
    rcases mem_append.mp hd with hzero | hdigit
    · rw [eq_of_mem_replicate hzero]
      decide
    · exact Nat.digits_lt_base (by decide) (mem_reverse.mp hdigit)
  have hnumber : Nat.ofDigits 58 (replicate (bs.takeWhile (· == 0)).length 0
      ++ (Nat.digits 58 (ofBytes bs)).reverse).reverse = ofBytes bs := by
    rw [reverse_append, reverse_reverse, reverse_replicate,
      Nat.ofDigits_append_replicate_zero, Nat.ofDigits_digits]
  have hzeros : (encode bs).takeWhile (· == letter 0) = (bs.takeWhile (· == 0)).map fun _ => letter 0 := by
    unfold encode
    rw [takeWhile_append_of_pos, takeWhile_digits, append_nil]
    simp
  have hne : encode bs ≠ [] := by
    intro hnil
    obtain ⟨hz, hd⟩ := append_eq_nil_iff.mp hnil
    -- no leading zero, and a number without digits: there are no bytes
    have hzero : ofBytes bs = 0 := Nat.digits_eq_nil_iff_eq_zero.mp (by simpa using hd)
    have hrest : bs.dropWhile (· == 0) = bs := by
      have := takeWhile_append_dropWhile (p := (· == (0 : UInt8))) (l := bs)
      rw [map_eq_nil_iff.mp hz] at this
      exact this
    have hread : toBytes (ofBytes bs) = bs := toBytes_ofBytes (hrest ▸ head?_dropWhile_ne bs)
    rw [hzero] at hread
    exact h (hread.symm.trans rfl)
  unfold decode
  have hback : (bs.takeWhile (· == 0)).map ((fun _ => 0) ∘ fun _ => letter 0) = bs.takeWhile (· == 0) := by
    conv_rhs => rw [← map_id (bs.takeWhile (· == 0))]
    refine map_congr_left fun b hb => ?_
    exact (eq_zero_of_mem_takeWhile hb).symm
  rw [if_neg hne, hvalues, Option.map_some, hnumber, hzeros, ofBytes_dropWhile,
    toBytes_ofBytes (head?_dropWhile_ne bs), map_map, hback,
    takeWhile_append_dropWhile]

/-! ## No text is its own -/

lemma ofDigits_le {cs : List Nat} (h : List.Forall₂ (· < ·) ds cs) :
    Nat.ofDigits 58 ds ≤ Nat.ofDigits 256 cs := by
  induction h with
  | nil => exact le_refl _
  | cons hlt _ ih =>
    rw [Nat.ofDigits_cons, Nat.ofDigits_cons]
    omega

lemma ofDigits_lt {cs : List Nat} (h : List.Forall₂ (· < ·) ds cs) (hne : cs ≠ []) :
    Nat.ofDigits 58 ds < Nat.ofDigits 256 cs := by
  cases h with
  | nil => exact absurd rfl hne
  | cons hlt hrest =>
    have hle := ofDigits_le hrest
    rw [Nat.ofDigits_cons, Nat.ofDigits_cons]
    omega

lemma forall₂_of_mapM {text : List UInt8} (h : text.mapM value? = some ds) :
    List.Forall₂ (· < ·) ds (text.map UInt8.toNat) := by
  induction text generalizing ds with
  | nil =>
    obtain rfl : [] = ds := Option.some.inj h
    exact .nil
  | cons c text ih =>
    rw [mapM_cons] at h
    obtain ⟨d, hd, h⟩ := Option.bind_eq_some_iff.mp h
    obtain ⟨ds', hds, h⟩ := Option.bind_eq_some_iff.mp h
    obtain rfl : d :: ds' = ds := Option.some.inj h
    exact .cons (value?_lt hd) (ih hds)

theorem decode_ne (text : List UInt8) : decode text ≠ some text := by
  intro h
  unfold decode at h
  split at h
  · cases h
  next hne =>
  obtain ⟨ds, hds, htext⟩ := Option.map_eq_some_iff.mp h
  have hless := forall₂_of_mapM hds
  -- a leading `1` would be a leading zero byte
  have hfirst : text.takeWhile (· == letter 0) = [] := by
    cases htake : text.takeWhile (· == letter 0) with
    | nil => rfl
    | cons c cs =>
      rw [htake] at htext
      obtain ⟨rest, hrest⟩ : ∃ rest, text = 0 :: rest := ⟨_, htext.symm⟩
      have hletter : (0 : UInt8) = letter 0 := by
        have hmem : text.takeWhile (· == letter 0) = c :: cs := htake
        rw [hrest, takeWhile_cons] at hmem
        split at hmem
        · next heq => exact beq_iff_eq.mp heq
        · cases hmem
      exact absurd hletter (by decide +kernel)
  rw [hfirst, map_nil, nil_append] at htext
  have hnumber : Nat.ofDigits 58 ds.reverse = ofBytes text := by
    rw [← htext, ofBytes_toBytes]
  have hlt : Nat.ofDigits 58 ds.reverse < ofBytes text := by
    refine ofDigits_lt (forall₂_reverse_iff.mpr hless) ?_
    simpa using hne
  omega

end Base58
