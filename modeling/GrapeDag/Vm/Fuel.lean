/-
THE VM IN THE FLAT ORDER.

Every construct between an instruction and a frame is monotone in the frames it may call, so
more fuel never changes an outcome (`vm_below`), and a run of the guarded VM that has an outcome
is the VM's own run (`vmGuarded_below`). `vm_rule` packages the induction on the nesting depth.
-/
import GrapeDag.Vm.VmImpl

namespace GrapeDag

open Imperative GrapeDag.Frame Prog Below

/-- Frame by frame, `c` does not finish or does what `d` does. -/
structure Calls.Below (c d : Calls) : Prop where
  executeCall : ∀ a, Prog.Below (c.executeCall a) (d.executeCall a)
  create : ∀ a, Prog.Below (c.create a) (d.create a)

lemma Calls.Below.diverging (d : Calls) : Calls.Below .diverging d :=
  ⟨fun _ => Prog.Below.diverging _, fun _ => Prog.Below.diverging _⟩

/-! ## Instructions -/

section Instructions

variable (m : Machine) {c d : Calls}

lemma makeCreateFunction_below (h : c.Below d) (kind : CreateKind) :
    Below (makeCreateFunction c kind) (makeCreateFunction d kind) := by
  refine bind (refl _) fun r => ?_
  cases r with
  | error st => exact refl _
  | ok p =>
    refine bind (refl _) fun caller => ?_
    exact bind (zoom (h.create _)) fun _ => refl _

lemma makeCallFunction_below (h : c.Below d) (kind : CallKind) (callStipend : Int) :
    Below (makeCallFunction c kind callStipend) (makeCallFunction d kind callStipend) := by
  refine bind (refl _) fun r => ?_
  cases r with
  | error st => exact refl _
  | ok p =>
    refine bind (refl _) fun caller => ?_
    exact bind (zoom (h.executeCall _)) fun _ => refl _

lemma locateFn_below (h : c.Below d) (op : Op) : Below (locateFn m c op) (locateFn m d op) := by
  cases op with
  | create kind => exact makeCreateFunction_below h kind
  | call kind => exact makeCallFunction_below h kind _
  | _ => exact refl _

lemma runStep_below (h : c.Below d) (vmCode : UInt8) : Below (runStep m c vmCode) (runStep m d vmCode) := by
  unfold runStep
  cases m.cfg.locateOpCode vmCode with
  | none => exact refl _
  | some op =>
    refine bind (refl _) fun paid => ?_
    cases paid with
    | some st => exact refl _
    | none => exact locateFn_below m h op

lemma turn_below (h : c.Below d) : Below (turn m c) (turn m d) := by
  refine bind (refl _) fun pc => bind (refl _) fun opCode => ?_
  exact bind (runStep_below m h opCode) fun _ => refl _

lemma guard_step_below {σ α : Type} (g : Guard) (p : σ → Bool) (q : Java σ α) : Below (g.step p q) q := by
  refine (Below.asserting p _).trans ?_
  split
  · exact strict q
  · exact refl q

lemma guard_turn_below (g : Guard) (h : c.Below d) : Below (g.turn m c) (turn m d) :=
  (guard_step_below g g.instruction (turn m c)).trans (turn_below m h)

end Instructions

/-! ## Runs and frames -/

section Frames

variable {step step' : Java Frame (Option FnResult)} {fuel fuel' : Nat}

lemma run_below (h : Below step step') (hf : fuel ≤ fuel') (contract : Contract)
    (input : Option Bytes) (readOnly : Bool) :
    Below (run step fuel contract input readOnly) (run step' fuel' contract input readOnly) := by
  have hloop : Below (mainLoop step fuel) (mainLoop step' fuel') := bind (loop h hf) fun _ => refl _
  have hcode : Below (runCode step fuel contract input) (runCode step' fuel' contract input) :=
    ite (refl _) (catching (below_inFrame hloop) fun _ => refl _)
  refine bind (refl _) fun _ => bind (refl _) fun ro => ?_
  have hend : ∀ reset, Below (Prog.ensuring (runCode step fuel contract input) (leaveRun reset))
      (Prog.ensuring (runCode step' fuel' contract input) (leaveRun reset)) :=
    fun _ => ensuring hcode
  -- the assignment of the flag is made before both branches join
  cases readOnly && !ro with
  | true => exact bind (refl _) fun _ => bind (refl _) fun _ => hend _
  | false => exact bind (refl _) fun _ => hend _

variable {r r' : Runner} (m : Machine)

lemma runContract_below (h : ∀ c i b, Below (r c i b) (r' c i b)) (contract : Contract)
    (input : Option Bytes) (readOnly : Bool) :
    Below (runContract r contract input readOnly) (runContract r' contract input readOnly) :=
  catching (h _ _ _) fun _ => refl _

lemma callBody_below (h : ∀ c i b, Below (r c i b) (r' c i b)) (a : CallArgs) :
    Below (callBody m r a) (callBody m r' a) := by
  refine ite (refl _) (bind (refl _) fun data => ?_)
  refine ite (refl _) (bind (refl _) fun contract => ?_)
  exact bind (runContract_below h _ _ _) fun _ => refl _

lemma createBody_below (h : ∀ c i b, Below (r c i b) (r' c i b)) (a : CreateArgs)
    (x : Address) : Below (createBody m r a x) (createBody m r' a x) := by
  refine bind (refl _) fun _ => ?_
  exact bind (runContract_below h _ _ _) fun _ => refl _

lemma framesOver_below (h : ∀ c i b, Below (r c i b) (r' c i b)) :
    (framesOver m r).Below (framesOver m r') where
  executeCall a := by
    show Below (executeCall m r a) (executeCall m r' a)
    refine bind (refl _) fun refused => ?_
    cases refused with
    | some st => exact refl _
    | none =>
      refine bind (refl _) fun _ => bind (refl _) fun early => ?_
      refine ite (refl _) ?_
      exact bind (callBody_below m h a) fun _ => refl _
  create a := by
    show Below (create m r a) (create m r' a)
    refine bind (refl _) fun w => ?_
    cases refusal m a.caller.address a.amount w with
    | some st => exact refl _
    | none =>
      refine ite (refl _) (bind (refl _) fun _ => ?_)
      refine bind (refl _) fun w' => ite (refl _) ?_
      refine bind (refl _) fun _ => ?_
      exact bind (createBody_below m h a _) fun _ => refl _

end Frames

/-! ## The VM -/

lemma vm_below (m : Machine) : ∀ {n n' : Nat}, n ≤ n' → (vm m n).Below (vm m n')
  | 0, _, _ => Calls.Below.diverging _
  | n + 1, 0, h => absurd h (Nat.not_succ_le_zero n)
  | n + 1, n' + 1, h => by
      have hn := Nat.le_of_succ_le_succ h
      exact framesOver_below m fun _ _ _ => run_below (turn_below m (vm_below m hn)) hn _ _ _

lemma vmGuarded_below (m : Machine) (g : Guard) : ∀ n : Nat, (vmGuarded m g n).Below (vm m n)
  | 0 => Calls.Below.diverging _
  | n + 1 => by
      have ih := vmGuarded_below m g n
      have hframes : (framesOver m (run (g.turn m (vmGuarded m g n)) n)).Below (vm m (n + 1)) :=
        framesOver_below m fun _ _ _ => run_below (guard_turn_below m g ih) (Nat.le_refl n) _ _ _
      exact ⟨fun a => (guard_step_below g _ _).trans (hframes.executeCall a),
        fun a => (guard_step_below g _ _).trans (hframes.create a)⟩

/-- Induction on the nesting of frames. What holds of frames that do not finish, and passes
from the nested frames to the frames that call them, holds of the VM. -/
theorem vm_rule {m : Machine} {g : Guard} {P : Calls → Prop} (hbase : P .diverging)
    (hstep : ∀ c fuel, P c → P (g.frames (framesOver m (run (g.turn m c) fuel)))) :
    ∀ n, P (vmGuarded m g n)
  | 0 => hbase
  | n + 1 => hstep _ n (vm_rule hbase hstep n)

end GrapeDag
