/-
THE DEPTH COUNTER.

The interpreter raises the counter when it starts on a contract and lowers it in a `finally`
block; calls and creates read it before they do anything else.

Main result: `depth_discipline`.
-/
import GrapeDag.Vm.Logs

namespace GrapeDag

open Imperative GrapeDag.Frame Prog

/-! ## Steps on the store -/

/-- Only the Go store differs. -/
def Stores (w w' : World) : Prop := w' = { w with storage := w'.storage }

instance : IsPreorder World Stores where
  refl _ := rfl
  trans w w1 w2 h h' := by
    unfold Stores at h h' ⊢
    rw [h', h]

lemma Stores.depth {w w' : World} (h : Stores w w') : w'.depth = w.depth := by
  rw [h]

instance stores_rpc {α : Type} (p : Go Storage α) : Keeps Stores (World.rpc p) := by
  refine ⟨fun w => ?_⟩
  rw [World.wp_rpc]
  exact .of_forall (fun _ _ => rfl) (fun _ _ => rfl)

instance (p : Go Storage Unit) : Keeps Stores (World.rpcLogged p) := keeps_rpcLogged (stores_rpc p)

instance : Entrywise Stores where
  checkpoint := stores_rpc _
  createAccount _ := stores_rpc _
  setNonce _ _ := keeps_rpcLogged (stores_rpc _)
  transfer _ _ _ := .bind (stores_rpc _) fun _ => stores_rpc _

instance (st : VmStatus) : Keeps Stores (frameLog st) := .ite (.pure _) (.gets _)

lemma stores_exit (m : Machine) (x : Nested) (c : Contract) (rc : FnResult) (c' : Contract) :
    Keeps Stores (x.exit m c rc c') := by
  cases x with
  | call a w => exact .bind (inferInstance : Keeps Stores (frameLog rc.status)) fun _ => .pure _
  | create a w =>
    exact .bind (keeps_storeCode m (fun _ => stores_rpc _) rc c'.gas) fun _ => inferInstance

lemma stores_end (m : Machine) (r : VmResult) : Keeps Stores (endStateTransaction m r) := by
  unfold endStateTransaction World.revert World.saveLog World.commit
  infer_instance

/-! ## A frame -/

lemma wp_loop_depth (m : Machine) (n fuel : Nat) (f : Frame) :
    wpEnd (Prog.loop (turn m (vm m n)) fuel) (fun f' => f'.world.depth = f.world.depth) f := by
  refine wp_loop (I := fun f' => f'.world.depth = f.world.depth) (fun f' hf' => ?_) fuel f rfl
  refine (turn_settled m n f').mono (fun r f'' h => ?_) (fun _ f'' h => h.trans hf')
  have hdepth := h.1.trans hf'
  cases r with
  | none | some rc => exact hdepth

lemma wp_runCode_depth (m : Machine) (n fuel : Nat) (contract : Contract)
    (input : Option Bytes) (w : World) :
    wpEnd (runCode (turn m (vm m n)) fuel contract input) (fun w' => w'.depth = w.depth) w := by
  unfold runCode
  refine .ite (fun _ => .pure rfl) fun _ => ?_
  rw [wp_catching, wp_inFrame]
  unfold mainLoop
  rw [wp_bind]
  exact (wp_loop_depth m n fuel _).mono (fun _ _ h => .pure h) (fun _ _ h => (wp_raise _).mpr h)

variable {m : Machine} {x : Nested}

lemma leaveRun_of_runCode {n fuel : Nat} {contract : Contract} {input : Option Bytes}
    {readOnly : Bool} {w w' : World} (reset : Bool)
    (h : (runCode (turn m (vm m n)) fuel contract input (w.entered readOnly)).state? = some w') :
    leaveRun reset w' = .ok () (w'.left reset) := by
  have hdepth : w'.depth = w.depth + 1 :=
    (wp_runCode_depth m n fuel contract input (w.entered readOnly)).of_state? h
  have hleave : World.leave w' = .ok () { w' with depth := w'.depth - 1 } := by
    unfold World.leave
    rw [gets_bind, if_neg (by omega)]
    rfl
  unfold leaveRun
  rw [bind_of_ok hleave]
  cases reset <;> rfl

lemma start_entered {s : Frame} (h : x.start m = some s) :
    ∃ w, Stores x.world w ∧ s.world = w.entered x.readOnly := by
  unfold Nested.start at h
  split at h
  · next c w he =>
    refine ⟨w, ((keeps_entry m x).wp x.world).of_ok he, ?_⟩
    rw [startOn_eq h]
    rfl
  · cases h

lemma wp_program_of_loop {n : Nat} {Q : World → Prop} (hstores : ∀ {w w'}, Stores w w' → Q w → Q w')
    (hnone : x.start m = none → ∀ w, Stores x.world w →
      Q w ∧ ∀ b, Q ((w.entered x.readOnly).left b)) (hloop : ∀ s, x.start m = some s →
      wpEnd (Prog.loop (turn m (vm m n)) n) (fun f => 0 < f.world.depth ∧ ∀ b, Q (f.world.left b)) s) :
    wpEnd (x.program (vm m (n + 1))) Q x.world := by
  have hend : ∀ {w1 : World} (r : VmResult), Q w1 →
      wpEnd (endStateTransaction m r) Q w1 := fun r h1 =>
    ((stores_end m r).wp _).mono (fun _ _ h => hstores h h1) (fun _ _ h => hstores h h1)
  show wp (x.program (framesOver m (run (turn m (vm m n)) n))) _ _ _
  rw [Nested.program_eq]
  refine wp_framed ((((keeps_entry m x : Keeps Stores _).wp x.world).and (wp.self _ _)).mono ?_ ?_)
  · rintro e w1 ⟨h1, he⟩
    cases e with
    | done r => exact (hnone (by simp only [Nested.start, he]) w1 h1).1
    | ended r => exact hend r (hnone (by simp only [Nested.start, he]) w1 h1).1
    | code c =>
      have hstart := start_of_entry he
      refine GrapeDag.wp_runContract ((wp_run_world (Q := Q) (X := Q) (fun hs => ?_) fun s hs => ?_).mono
        (fun r w2 h2 => ?_) (fun _ _ h => h))
      · exact (hnone (hstart.trans hs) w1 h1).2 _
      · refine (hloop s (hstart.trans hs)).mono ?_ ?_
        · exact fun _ _ h => ⟨h.1, h.2 _⟩
        · exact fun _ _ h => ⟨h.1, h.2 _⟩
      · exact ((stores_exit m x c r.1 r.2).wp w2).mono (fun result w3 h3 => hend result (hstores h3 h2))
          (fun _ _ h => hstores h h2)
  · rintro e w1 ⟨h1, he⟩
    exact (hnone (by simp only [Nested.start, he]) w1 h1).1

lemma wp_program_depth (m : Machine) (n : Nat) (x : Nested) :
    wpEnd (x.program (vm m n)) (fun w' => w'.depth = x.world.depth) x.world := by
  cases n with
  | zero => cases x <;> exact wp_diverging.mpr trivial
  | succ n =>
    refine wp_program_of_loop (fun h hw => h.depth.trans hw) (fun _ w h => ⟨h.depth, fun _ => ?_⟩) ?_
    · exact h.depth
    intro s hstart
    obtain ⟨w, h, hs⟩ := start_entered hstart
    have hback : ∀ f : Frame, f.world.depth = s.world.depth →
        0 < f.world.depth ∧ ∀ b, (f.world.left b).depth = x.world.depth := by
      intro f hf
      have hdepth : f.world.depth = x.world.depth + 1 := by
        rw [hf, hs, ← h.depth]
        rfl
      refine ⟨by omega, fun b => ?_⟩
      show f.world.depth - 1 = _
      omega
    exact (wp_loop_depth m n n s).mono (fun _ f hf => hback f hf) (fun _ f hf => hback f hf)

/-! ## Frames that are active -/

def Nested.interpreted (m : Machine) (x : Nested) : Option Frame :=
  match x.entry m x.world with
  | .ok (.code c) w1 => some (.start { c with input := x.input } (w1.entered x.readOnly))
  | _ => none

/-- The frames that are being interpreted at some moment of a message, the innermost one first.
A frame that opens another one stays in the list while that one runs; once it has returned, the
outer frame goes on with a turn that comprises it. -/
inductive Active (m : Machine) : List Frame → Prop
  | first {x : Nested} {f : Frame} (hroot : x.world.depth = 0) (hf : x.interpreted m = some f) :
      Active m [f]
  | turn {n : Nat} {f f' : Frame} {outer : List Frame} (h : Active m (f :: outer))
      (hturn : turn m (vm m n) f = .ok none f') : Active m (f' :: outer)
  | opened {x : Nested} {f f' : Frame} {outer : List Frame} (h : Active m (f :: outer))
      (hx : f.opens m = some x) (hf : x.interpreted m = some f') : Active m (f' :: f :: outer)

lemma entry_of_deep (h : m.cfg.callCreateDepth < x.world.depth) :
    ∃ address, x.entry m x.world = .ok (.done (.error .callDepthExceeded x.gas address)) x.world := by
  have hrefused : ∀ caller amount,
      refusal m caller amount x.world = some .callDepthExceeded := fun _ _ => if_pos h
  cases x with
  | call a w =>
    exact ⟨a.contractAddress, callEntry_refused (hrefused _ _)⟩
  | create a w =>
    exact ⟨createTarget m a w, createEntry_refused (hrefused _ _)⟩

lemma interpreted_depth {f : Frame} (h : x.interpreted m = some f) :
    x.world.depth ≤ m.cfg.callCreateDepth ∧ f.world.depth = x.world.depth + 1 := by
  unfold Nested.interpreted at h
  split at h
  · next c w1 hentry =>
    cases h
    refine ⟨?_, ?_⟩
    · by_contra hdeep
      obtain ⟨address, hrefused⟩ := @entry_of_deep m x (by omega)
      rw [hentry] at hrefused
      cases hrefused
    · show w1.depth + 1 = _
      rw [(((keeps_entry m x : Keeps Stores _).wp x.world).of_ok hentry).depth]
  · cases h

lemma opens_same {f : Frame} (h : f.opens m = some x) : World.Same f.world x.world := by
  obtain ⟨⟨op, f1⟩, hcharged, hopened⟩ := Option.bind_eq_some_iff.mp h
  obtain ⟨_, _, hcharge⟩ := charged_eq hcharged
  obtain ⟨f2, finish, hopening⟩ := exists_opening (hopened : openedBy m op f1 = some x)
  rw [hopening.world]
  exact ((((still_charge m op).wp f).of_ok hcharge).trans (hopening.before Quiet)).world

lemma Active.depth {frames : List Frame} (h : Active m frames) :
    ∃ f outer, frames = f :: outer ∧ f.world.depth = frames.length
      ∧ frames.length ≤ m.cfg.callCreateDepth + 1 := by
  induction h with
  | first hroot hf =>
    obtain ⟨hle, hdepth⟩ := interpreted_depth hf
    refine ⟨_, [], rfl, ?_, ?_⟩
    · rw [hdepth, hroot]
      rfl
    · show (1 : Int) ≤ m.cfg.callCreateDepth + 1
      omega
  | @turn n f f' outer _ hturn ih =>
    obtain ⟨_, _, heq, hdepth, hle⟩ := ih
    cases heq
    exact ⟨f', outer, rfl, ((turn_settled m n f).of_ok hturn).1.trans hdepth, hle⟩
  | @opened x f f' outer _ hx hf ih =>
    obtain ⟨_, _, heq, hdepth, hle⟩ := ih
    cases heq
    obtain ⟨hfits, hdeeper⟩ := interpreted_depth hf
    have hsame := (opens_same hx).depth
    refine ⟨f', f :: outer, rfl, ?_, ?_⟩
    · rw [hdeeper, hsame, hdepth]
      rfl
    · rw [List.length_cons]
      omega

/-! ## The discipline -/

lemma program_of_deep (run : Runner) (h : m.cfg.callCreateDepth < x.world.depth) :
    ∃ address, x.program (framesOver m run) x.world
      = .ok (.error .callDepthExceeded x.gas address) x.world := by
  obtain ⟨address, hentry⟩ := entry_of_deep h
  refine ⟨address, ?_⟩
  rw [Nested.program_eq]
  unfold framed
  rw [bind_of_ok hentry]
  rfl

/-- The counter of nested runs, over every execution. -/
structure DepthDiscipline (m : Machine) : Prop where
  /-- a call or create that returns or throws leaves the counter as it was -/
  restored : ∀ n (x : Nested) w',
    (x.program (vm m n) x.world).state? = some w' → w'.depth = x.world.depth
  /-- the `finally` block of `run` does not throw, whatever became of the code -/
  leaves : ∀ n fuel contract input readOnly reset (w w' : World),
    (runCode (turn m (vm m n)) fuel contract input (w.entered readOnly)).state? = some w' →
      leaveRun reset w' = .ok () (w'.left reset)
  /-- the frames active at one moment are at most one more than the configured depth -/
  bounded : ∀ frames, Active m frames → frames.length ≤ m.cfg.callCreateDepth + 1
  /-- a frame attempted beyond that changes nothing and gives all its gas back -/
  refused : ∀ n frames f (x : Nested), Active m (f :: frames) → f.opens m = some x →
    m.cfg.callCreateDepth + 1 ≤ (f :: frames).length → ∃ address, x.program (vm m (n + 1)) x.world
        = .ok (.error .callDepthExceeded x.gas address) x.world

/-- **The depth counter does its work** on every machine. -/
theorem depth_discipline (m : Machine) : DepthDiscipline m where
  restored n x w' h := (wp_program_depth m n x).of_state? h
  leaves n fuel contract input readOnly reset w w' h := leaveRun_of_runCode reset h
  bounded frames h := by
    obtain ⟨f, outer, _, _, hle⟩ := h.depth
    exact hle
  refused n frames f x h hx hfull := by
    obtain ⟨_, _, heq, hdepth, _⟩ := h.depth
    cases heq
    apply program_of_deep
    rw [(opens_same hx).depth]
    omega

/-- The sender calls a contract: one active frame. -/
example : ∃ f, Active .sample [f] := ⟨_, .first (x := .call (.sample 1000 0) (.sampleWith 0 [0x00])) rfl rfl⟩

end GrapeDag
