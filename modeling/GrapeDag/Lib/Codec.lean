/-
ENCODERS AND THEIR DECODERS.

A library that writes values of one type as values of another and reads them back. It takes the
values of its domain and refuses all others.
-/
import Mathlib.Data.Option.Basic

/-- An encoder of the values in `dom`, with its decoder. -/
structure Codec {α : Type} (dom : α → Prop) (ω : Type) where
  encode : α → Option ω
  decode : ω → Option α
  /-- other values are refused -/
  encode_eq_none : ∀ a, ¬ dom a → encode a = none
  /-- what is written reads back -/
  decode_encode : ∀ a, dom a → ∃ w, encode a = some w ∧ decode w = some a

namespace Codec

variable {α β ω : Type} {dom : α → Prop}

/-- The codec that writes nothing else than the value. -/
def identity (dom : α → Prop) [DecidablePred dom] : Codec dom α where
  encode a := if dom a then some a else none
  decode := some
  encode_eq_none _ h := if_neg h
  decode_encode a h := ⟨a, if_pos h, rfl⟩

theorem through_eq_some_iff (c : Codec dom ω) (out : β → α) (back : α → β) (b b' : β) :
    (((c.encode (out b)).bind c.decode).map back) = some b' ↔ dom (out b) ∧ back (out b) = b' := by
  by_cases h : dom (out b)
  · obtain ⟨w, hw, hback⟩ := c.decode_encode (out b) h
    simp [h, hw, hback]
  · simp [h, c.encode_eq_none (out b) h]

end Codec
