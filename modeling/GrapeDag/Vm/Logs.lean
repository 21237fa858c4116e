/-
WHICH LOGS ARE STORED.

`frameLogs` says which logs should be stored, over the tree of frames. The VM has ONE list of
logs per message. Every frame that has run code and succeeds saves the whole list, and a frame
that fails takes nothing off it: a log of a nested frame is saved again by every frame around
it, and a log of a failed frame is saved by the next frame that succeeds.

Main result: `logs_stored_once`.
-/
import GrapeDag.Vm.LogSteps

namespace GrapeDag

open Imperative GrapeDag.Frame Prog World List

/-! ## The logs that survive -/

def turnLogs (m : Machine) (nested : Nested → List Log) (f f' : Frame) : List Log :=
  match f.opens m with
  | some x => nested x
  | none => f'.world.eventLog.drop f.world.eventLog.length

def loopLogs (m : Machine) (calls : Calls) (nested : Nested → List Log) : Nat → Frame → List Log
  | 0, _ => []
  | fuel + 1, f =>
      match turn m calls f with
      | .ok none f' => turnLogs m nested f f' ++ loopLogs m calls nested fuel f'
      | .ok (some _) f' => turnLogs m nested f f'
      | _ => []

/-- The logs that survive a frame under `vm m n`: none if it fails or throws, else its own and
those that survive the frames it opens. -/
def frameLogs (m : Machine) : Nat → Nested → List Log
  | 0, _ => []
  | n + 1, x =>
      match x.program (vm m (n + 1)) x.world with
      | .ok r _ =>
          if r.hasError then []
          else (x.start m).elim [] (loopLogs m (vm m n) (frameLogs m n) n)
      | _ => []

/-! ## Turns that misfile a log -/

def Op.isLog : Op → Bool
  | .log _ => true
  | _ => false

def Frame.misfiles (m : Machine) (f : Frame) : Bool :=
  (1 < f.world.depth ∧ (f.currentOp m).any Op.isLog) ∨
    (f.world.eventLog ≠ [] ∧ (f.opens m).any (Nested.runsCode m))

def misfilings (m : Machine) : Nat → Nested → Nat := frameSum m fun f => if f.misfiles m then 1 else 0

/-! ## Turns and loops -/

/-- From `f` to `f'` the logs `logs` are emitted under the frame's own address, none of them in a
nested frame, and nothing is saved. -/
structure Emits (L : Address → List StoredLog) (f f' : Frame) (logs : List Log) : Prop where
  files : f.world.storage.Files L → f'.world.storage.Files L
  eventLog : f'.world.eventLog = f.world.eventLog ++ logs
  self : ∀ l ∈ logs, l.contractAddress = f.contract.self
  outer : 1 < f.world.depth → logs = []

/-- Frames that save nothing: those below the outermost frame that misfile nothing, where no log
has been emitted yet or there is no code to run. No log survives them, for they emit none. -/
def SilentFrames (m : Machine) (L : Address → List StoredLog) (calls : Calls)
    (bad : Nested → Nat) (logs : Nested → List Log) : Prop :=
  ∀ x : Nested, x.Legal → 1 ≤ x.world.depth → bad x = 0 →
    (x.world.eventLog = [] ∨ x.runsCode m = false) →
    logs x = [] ∧ wp (x.program calls) (fun _ w' => Silent L x.world w')
      (fun _ w' => x.world.storage.Files L → w'.storage.Files L) x.world

variable {c : Contract}

section Loop

variable {m : Machine} {L : Address → List StoredLog} {calls : Calls} {bad : Nested → Nat}
  {logs : Nested → List Log}

variable {f f' : Frame} {n : Nat} {input : Option Bytes}

lemma Emits.nil (h : Silent L f.world f'.world) : Emits L f f' [] :=
  ⟨h.files, h.eventLog.trans (append_nil _).symm, fun _ hl => absurd hl not_mem_nil, fun _ => rfl⟩

lemma Emits.trans {f1 : Frame} {l1 l2 : List Log} (h1 : Emits L f f1 l1)
    (hdepth : f1.world.depth = f.world.depth) (hself : f1.contract.self = f.contract.self)
    (h2 : Emits L f1 f' l2) : Emits L f f' (l1 ++ l2) := by
  refine ⟨h2.files ∘ h1.files, ?_, fun l hl => ?_, fun hdeep => ?_⟩
  · rw [h2.eventLog, h1.eventLog, append_assoc]
  · rcases mem_append.mp hl with hl | hl
    · exact h1.self l hl
    · exact (h2.self l hl).trans hself
  · rw [h1.outer hdeep, h2.outer (by omega)]
    rfl

lemma emits_wrote {op : Op} (hop : f.currentOp m = some op) (hok : f.misfiles m = false)
    (h : Wrote op f f') : Emits L f f' (f'.world.eventLog.drop f.world.eventLog.length) := by
  obtain ⟨w1, w2, hs, hw, ho⟩ := h.write
  have hsilent : Silent L w1 w2 → Emits L f f' (f'.world.eventLog.drop f.world.eventLog.length) := by
    intro hw
    have hall : Silent L f.world f'.world := ((Silent.of_same hs).trans hw).trans (.of_same ho.world)
    rw [hall.eventLog, drop_length]
    exact .nil hall
  cases hw with
  | sstore _ key value => exact hsilent ⟨fun hf => hf.putValue _ _ _, rfl, rfl⟩
  | tstore _ key value => exact hsilent ⟨id, rfl, rfl⟩
  | selfDestruct _ beneficiary account _ => exact hsilent ⟨fun hf => hf.putAccount _ _, rfl, rfl⟩
  | log _ n l hl =>
    have hlog : f'.world.eventLog = f.world.eventLog ++ [l] := by
      rw [ho.world.eventLog]
      show w1.eventLog ++ [l] = _
      rw [hs.eventLog]
    have hstore : f'.world.storage = f.world.storage := ho.world.storage.trans hs.storage
    rw [hlog, drop_left]
    refine ⟨fun hf => by rw [hstore]; exact hf, hlog, fun l' hl' => ?_, fun hdeep => ?_⟩
    · rw [mem_singleton.mp hl']
      exact hl
    -- a log below the outermost frame is misfiled
    have hmis : f.misfiles m = true := by
      refine decide_eq_true (.inl ⟨hdeep, ?_⟩)
      rw [hop]
      rfl
    rw [hok] at hmis
    cases hmis

lemma SilentFrames.turn (h : SilentFrames m L calls bad logs) (hdepth : 1 ≤ f.world.depth)
    (hok : f.misfiles m = false) (hbad : (f.opens m).elim 0 bad = 0) :
    wp (turn m calls) (fun _ f' => Emits L f f' (turnLogs m logs f f'))
      (fun _ f' => f.world.storage.Files L → f'.world.storage.Files L) f := by
  cases hopen : f.opens m with
  | none =>
    have hinto : TurnInto m .diverging f
        (fun f' => Emits L f f' (f'.world.eventLog.drop f.world.eventLog.length))
        (fun f' => f.world.storage.Files L → f'.world.storage.Files L) := by
      refine ⟨fun f' hq => ?_, fun op f' hop hw => ?_, fun _ _ _ _ _ => wp_diverging.mpr trivial,
        fun _ _ _ _ _ => wp_diverging.mpr trivial⟩
      · have hsame : Silent L f.world f'.world := .of_same hq.world
        rw [hsame.eventLog, drop_length]
        exact ⟨.nil hsame, hsame.files⟩
      · have hemits := emits_wrote (L := L) hop hok hw
        exact ⟨hemits, hemits.files⟩
    refine .of_apply_eq (turn_unopened hopen) (hinto.wp_turn.post (fun _ f' h' => ?_))
    simp only [turnLogs, hopen]
    exact h'
  | some x =>
    rw [hopen] at hbad
    have hcalm : f.world.eventLog = [] ∨ x.runsCode m = false := by
      by_cases hnil : f.world.eventLog = []
      · exact .inl hnil
      right
      by_contra hruns
      have hmis : f.misfiles m = true := by
        refine decide_eq_true (.inr ⟨hnil, ?_⟩)
        rw [hopen]
        simpa using hruns
      rw [hok] at hmis
      cases hmis
    refine (wp_turn_opened (P := fun f' => Emits L f f' (turnLogs m logs f f')) hopen ?_)
    intro hlegal hsame
    have hin : Silent L f.world x.world := .of_same hsame
    obtain ⟨hlogs, hrun⟩ := h x hlegal (by rw [hin.depth]; exact hdepth) hbad
      (by rw [hin.eventLog]; exact hcalm)
    refine hrun.mono (fun _ w' hw' f' ho => ?_) (fun _ w' hw' f' ho hf => ?_)
    · have hall : Silent L f.world f'.world := (hin.trans hw').trans (.of_same ho.world)
      simp only [turnLogs, hopen, hlogs]
      exact ⟨.nil hall, hall.files⟩
    · exact (Silent.of_same ho.world).files (hw' (hin.files hf))

lemma turn_settled (m : Machine) (n : Nat) (f : Frame) : wp (turn m (vm m n))
      (fun _ f' => f'.world.depth = f.world.depth ∧ f'.contract.self = f.contract.self)
      (fun _ f' => f'.world.depth = f.world.depth) f := by
  have hturn := ((recorded_vm m n).turnInto rfl (.refl f.world)).wp_turn
  refine hturn.mono (fun _ f' h => ⟨h.2.settled.1, ?_⟩) (fun _ f' h => h.settled.1)
  exact h.1.self

lemma SilentFrames.loop (h : SilentFrames m L (vm m n) bad logs) :
    ∀ (fuel : Nat) (f : Frame), 1 ≤ f.world.depth →
      loopSum m (vm m n) (fun f => if f.misfiles m then 1 else 0) bad fuel f = 0 →
      wp (Prog.loop (GrapeDag.turn m (vm m n)) fuel)
        (fun _ f' => Emits L f f' (loopLogs m (vm m n) logs fuel f) ∧ f'.world.depth = f.world.depth)
        (fun _ f' => (f.world.storage.Files L → f'.world.storage.Files L) ∧
          f'.world.depth = f.world.depth) f := by
  intro fuel
  induction fuel with
  | zero => exact fun f _ _ => wp_diverging.mpr trivial
  | succ fuel ih =>
    intro f hdepth hsum
    obtain ⟨hok, hbad, hsum⟩ := loopSum_succ_eq_zero hsum
    have hturn := (h.turn hdepth (by simpa using hok) hbad).and (turn_settled m n f)
    refine wp_bind.mpr (wp_iff.mpr ⟨fun r f1 hrun => ?_, fun e f1 hrun => hturn.of_err hrun⟩)
    obtain ⟨hemits, hd, hself⟩ := hturn.of_ok hrun
    simp only [loopLogs, hrun]
    cases r with
    | some rc => exact .pure ⟨hemits, hd⟩
    | none =>
      refine (ih f1 (by omega) (hsum f1 hrun)).mono ?_ ?_
      · rintro _ f' ⟨hlater, hd'⟩
        exact ⟨hemits.trans hd hself hlater, hd'.trans hd⟩
      · rintro _ f' ⟨hfiles, hd'⟩
        exact ⟨hfiles ∘ hemits.files, hd'.trans hd⟩

lemma SilentFrames.loopLogs_nil (h : SilentFrames m L (vm m n) bad logs) :
    ∀ (fuel : Nat) (f : Frame), 1 < f.world.depth →
      loopSum m (vm m n) (fun f => if f.misfiles m then 1 else 0) bad fuel f = 0 →
      loopLogs m (vm m n) logs fuel f = [] := by
  intro fuel
  induction fuel with
  | zero => exact fun _ _ _ => rfl
  | succ fuel ih =>
    intro f hdepth hsum
    obtain ⟨hok, hbad, hsum⟩ := loopSum_succ_eq_zero hsum
    unfold loopLogs
    have hturn := (h.turn (by omega) (by simpa using hok) hbad).and (turn_settled m n f)
    cases hrun : GrapeDag.turn m (vm m n) f with
    | ok r f1 =>
      obtain ⟨hemits, hd, _⟩ := hturn.of_ok hrun
      cases r with
      | some rc => exact hemits.outer hdepth
      | none => simp only [hemits.outer hdepth, ih f1 (by omega) (hsum f1 hrun), append_nil]
    | err e f1 => rfl
    | diverge => rfl

/-! ## Frames -/

/-- `Emits` for the run of a contract: `logs` are emitted under its address, and only if no frame is
around it. -/
structure RunEmits (L : Address → List StoredLog) (c : Contract) (w w' : World)
    (logs : List Log) : Prop where
  files : w.storage.Files L → w'.storage.Files L
  eventLog : w'.eventLog = w.eventLog ++ logs
  depth : w'.depth = w.depth
  self : ∀ l ∈ logs, l.contractAddress = c.self
  outer : 0 < w.depth → logs = []

lemma SilentFrames.run (h : SilentFrames m L (vm m n) bad logs) (fuel : Nat)
    {readOnly : Bool} {w : World} (hsum : (startOn c input readOnly w).elim 0
      (loopSum m (vm m n) (fun f => if f.misfiles m then 1 else 0) bad fuel) = 0) :
    wp (runContract (GrapeDag.run (GrapeDag.turn m (vm m n)) fuel) c input readOnly)
      (fun _ w' => RunEmits L c w w' ((startOn c input readOnly w).elim [] (loopLogs m (vm m n) logs fuel)))
      (fun _ w' => w.storage.Files L → w'.storage.Files L) w := by
  refine GrapeDag.wp_runContract (wp_run_world (fun hnone => ?_) fun s hs => ?_)
  · rw [hnone]
    exact ⟨id, (append_nil _).symm, rfl, fun _ hl => absurd hl not_mem_nil, fun _ => rfl⟩
  rw [hs] at hsum ⊢
  have heq := startOn_eq hs
  have hdepth : s.world.depth = w.depth + 1 := by
    rw [heq]
    rfl
  refine (h.loop fuel s (by omega) hsum).mono ?_ ?_
  · rintro _ f ⟨hemits, hd⟩
    subst heq
    refine ⟨by omega, hemits.files, hemits.eventLog, ?_, hemits.self, fun hpos => hemits.outer ?_⟩
    · show f.world.depth - 1 = w.depth
      omega
    · omega
  · rintro _ f ⟨hfiles, hd⟩
    subst heq
    exact ⟨by omega, hfiles⟩

end Loop

section Frames

variable {m : Machine} {L : Address → List StoredLog}

variable {x : Nested}

lemma start_of_entry {w1 : World} (h : x.entry m x.world = .ok (.code c) w1) :
    x.start m = startOn c x.input x.readOnly w1 := by
  simp only [Nested.start, h]

lemma misfilings_run {n : Nat} (h : misfilings m (n + 1) x = 0) {w1 : World}
    (he : x.entry m x.world = .ok (.code c) w1) :
    (startOn c x.input x.readOnly w1).elim 0
      (loopSum m (vm m n) (fun f => if f.misfiles m then 1 else 0) (misfilings m n) n) = 0 := by
  rw [← start_of_entry he]
  exact h

lemma frameLogs_nil {n : Nat} (ih : SilentFrames m L (vm m n) (misfilings m n) (frameLogs m n))
    (hdepth : 1 ≤ x.world.depth) (hbad : misfilings m (n + 1) x = 0) :
    frameLogs m (n + 1) x = [] := by
  have hloop : (x.start m).elim [] (loopLogs m (vm m n) (frameLogs m n) n) = [] := by
    cases hs : x.start m with
    | none => rfl
    | some s =>
      have hsum : (x.start m).elim 0 (loopSum m (vm m n) (fun f => if f.misfiles m then 1 else 0)
        (misfilings m n) n) = 0 := hbad
      rw [hs] at hsum
      refine ih.loopLogs_nil n s ?_ hsum
      -- the code starts one level below the frame
      unfold Nested.start at hs
      split at hs
      · next c w1 he =>
        have hsilent : Silent L x.world w1 := ((keeps_entry m x).wp x.world).of_ok he
        rw [startOn_eq hs]
        show 1 < w1.depth + 1
        rw [hsilent.depth]
        omega
      · cases hs
  unfold frameLogs
  split
  · split
    · rfl
    · exact hloop
  · rfl

lemma silent_vm (m : Machine) (L : Address → List StoredLog) :
    ∀ n, SilentFrames m L (vm m n) (misfilings m n) (frameLogs m n) := by
  intro n
  induction n with
  | zero =>
    intro x _ _ _ _
    refine ⟨rfl, ?_⟩
    cases x <;> exact wp_diverging.mpr trivial
  | succ n ih =>
    intro x _ hdepth hbad hcalm
    refine ⟨frameLogs_nil ih hdepth hbad, ?_⟩
    show wp (x.program (framesOver m (run (turn m (vm m n)) n))) _ _ x.world
    rw [Nested.program_eq]
    refine wp_framed (wp_iff.mpr ⟨fun e w1 he => ?_, fun ex w1 he => ?_⟩)
    · have hin : Silent L x.world w1 := ((keeps_entry m x).wp x.world).of_ok he
      have hbegins := (begins_entry m x).of_ok he
      cases e with
      | done r => exact hin
      | ended r =>
        exact ((silent_end m hbegins).wp w1).mono (fun _ _ h => hin.trans h)
          (fun _ _ h => (hin.trans h).files)
      | code c =>
        have hnil : w1.eventLog = [] := by
          rw [hin.eventLog]
          rcases hcalm with hnil | hno
          · exact hnil
          · rw [hbegins.runs] at hno
            cases hno
        refine (ih.run n (misfilings_run hbad he)).mono ?_ (fun _ _ h => h ∘ hin.files)
        intro r w2 h2
        -- nothing has been emitted, so there is nothing to save
        have hlogs := h2.outer (by rw [hin.depth]; omega)
        have hran : Silent L w1 w2 := by
          refine ⟨h2.files, ?_, h2.depth⟩
          rw [h2.eventLog, hlogs, append_nil]
        refine (wp_exit m x c r.1 r.2 w2).mono ?_ (fun _ _ h => (hin.trans (hran.trans h)).files)
        rintro result w3 ⟨h3, hresult⟩
        have hsaved : result.eventLog = [] := by
          rw [hresult, h3.eventLog, hran.eventLog, hnil, ite_self]
        have hall := hin.trans (hran.trans h3)
        exact ((silent_end m hsaved).wp w3).mono (fun _ _ h => hall.trans h)
          (fun _ _ h => (hall.trans h).files)
    · exact (((keeps_entry m x : Keeps (Silent L) _).wp x.world).of_err he).files

end Frames

/-! ## The outermost frame -/

section Top

variable {m : Machine} {L : Address → List StoredLog}

variable {w : World}

lemma wp_commit_logs {E : JavaException → World → Prop} {K : Address → List StoredLog}
    (hmarks : w.storage.checkPoints ≠ []) (hlogs : ∀ a, w.storage.logsOf a = K a) :
    wp commit (fun _ w' => ∀ a, w'.storage.logsOf a = K a) E w := by
  obtain ⟨c, rest, hmarks⟩ := exists_cons_of_ne_nil hmarks
  unfold commit
  rw [wp_rpc]
  exact .of_apply_eq (Storage.commit_ok hmarks) (.pure hlogs)

lemma wp_saveLog_logs {txHash : Bytes} {l : Log} {ls : List Log} (hfiles : w.storage.Files L)
    (hacc : ∀ x ∈ l :: ls, w.getAccount x.contractAddress ≠ none) :
    wp (saveLog txHash (l :: ls)) (fun _ w' => w'.storage.checkPoints = w.storage.checkPoints ∧
        ∀ a, w'.storage.logsOf a = L a ++ filed txHash (l :: ls) a)
      (fun _ w' => ∀ a, w'.storage.logsOf a = L a) w := by
  unfold saveLog
  refine .ite (fun _ => ?_) fun _ => ?_
  · -- the block number of a log is no `long`
    rw [wp_bind, wp_raise]
    exact hfiles.logs
  rw [wp_rpcLogged]
  unfold Storage.putLogs
  rw [wp_bind]
  refine (Storage.wp_putEach txHash (l :: ls) w.storage hacc).mono ?_ (fun _ _ h => h.elim)
  rintro _ s ⟨hs, hsaved⟩
  rw [wp_modify]
  refine ⟨?_, fun a => ?_⟩
  · show s.checkPoints = w.storage.checkPoints
    rw [hs]
  · rw [← hfiles.logs a]
    exact hsaved a

lemma wp_end_logs {r : VmResult} {logs : List Log}
    (hr : r.eventLog = if r.hasError then [] else logs) (hfiles : w.storage.Files L)
    (hmarks : w.storage.checkPoints ≠ [])
    (hacc : ∀ l ∈ logs, w.getAccount l.contractAddress ≠ none) :
    wp (endStateTransaction m r)
      (fun r' w' => ∀ a, w'.storage.logsOf a = L a ++ filed m.txHash (if r'.hasError then [] else logs) a)
      (fun _ w' => ∀ a, w'.storage.logsOf a = L a) w := by
  have hnothing : ∀ a, L a = L a ++ filed m.txHash [] a := fun a => (append_nil _).symm
  refine wp_end_of (fun herr => ?_) fun hok => ?_
  · -- a failed frame stores nothing, and its result stays a failure
    unfold revert
    rw [wp_rpc]
    refine hfiles.revert.mono (fun _ s hs a => ?_) (fun _ s hs => hs.logs)
    rw [if_pos (by split <;> exact herr)]
    exact (hs.logs a).trans (hnothing a)
  · have hnot : ¬ r.hasError = true := Bool.eq_false_iff.mp hok
    have hsaved : wp (if r.eventLog.length > 0 then saveLog m.txHash r.eventLog else pure ())
        (fun _ w1 => w1.storage.checkPoints ≠ [] ∧ ∀ a, w1.storage.logsOf a = L a ++ filed m.txHash logs a)
        (fun _ w1 => ∀ a, w1.storage.logsOf a = L a) w := by
      rw [hr, if_neg hnot]
      refine .ite (fun hsome => ?_) fun hnone => .pure ⟨hmarks, ?_⟩
      · obtain ⟨l, ls, rfl⟩ := exists_cons_of_length_pos hsome
        exact (wp_saveLog_logs hfiles hacc).post fun _ w1 h => ⟨h.1 ▸ hmarks, h.2⟩
      · rw [List.eq_nil_of_length_eq_zero (Nat.eq_zero_of_not_pos hnone)]
        exact fun a => (hfiles.logs a).trans (hnothing a)
    refine hsaved.post fun _ w1 h => ?_
    rw [if_neg hnot]
    exact wp_commit_logs h.1 h.2

lemma wp_outermost {n : Nat} {x : Nested} (howned : x.Owned) (hnil : x.world.eventLog = [])
    (hfiles : x.world.storage.Files L) (hbad : misfilings m (n + 1) x = 0) :
    wp (x.program (vm m (n + 1))) (fun r w' => ∀ a, w'.storage.logsOf a = L a ++ filed m.txHash
        (if r.hasError then [] else (x.start m).elim [] (loopLogs m (vm m n) (frameLogs m n) n)) a)
      (fun _ w' => ∀ a, w'.storage.logsOf a = L a) x.world := by
  show wp (x.program (framesOver m (run (turn m (vm m n)) n))) _ _ x.world
  rw [Nested.program_eq]
  refine wp_framed (wp_iff.mpr ⟨fun e w1 he => ?_, fun ex w1 he => ?_⟩)
  · have hin : Silent L x.world w1 := ((keeps_entry m x).wp x.world).of_ok he
    have hbegins := (begins_entry m x).of_ok he
    -- a frame that does not come to its code has no logs
    have hnone : x.start m = none → ∀ (r : VmResult) (s : Storage), s.Files L → ∀ a,
        s.logsOf a = L a ++ filed m.txHash (if r.hasError then []
          else (x.start m).elim [] (loopLogs m (vm m n) (frameLogs m n) n)) a := by
      intro hstart r s hs a
      rw [hstart, hs.logs, Option.elim_none, ite_self]
      exact (append_nil _).symm
    cases e with
    | done r => exact hnone (by simp only [Nested.start, he]) r w1.storage (hin.files hfiles)
    | ended r =>
      have hend : Keeps (Silent L) (endStateTransaction m r) := silent_end m hbegins
      refine (hend.wp w1).mono (fun r' w' h => ?_) (fun _ w' h => ?_)
      · exact hnone (by simp only [Nested.start, he]) r' w'.storage ((hin.trans h).files hfiles)
      · exact ((hin.trans h).files hfiles).logs
    | code c =>
      rw [start_of_entry he]
      have hrun := ((silent_vm m L n).run n (misfilings_run hbad he)).and
        (stands_run c.self n n c x.input x.readOnly w1)
      refine hrun.mono ?_ (fun _ _ h => (h.1 (hin.files hfiles)).logs)
      rintro r w2 ⟨h2, hstands2⟩
      refine ((wp_exit (L := L) m x c r.1 r.2 w2).and (stands_exit c.self x c r.1 r.2 w2)).mono ?_ ?_
      · rintro result w3 ⟨⟨h3, hresult⟩, hstands3⟩
        -- all logs of the message are those of this frame
        have hall : w3.eventLog
            = (startOn c x.input x.readOnly w1).elim [] (loopLogs m (vm m n) (frameLogs m n) n) := by
          rw [h3.eventLog, h2.eventLog, hin.eventLog, hnil, nil_append]
        rw [hall] at hresult
        refine wp_end_logs hresult (h3.files (h2.files (hin.files hfiles))) ?_ fun l hl => ?_
        · exact hstands3.marks (hstands2.marks hbegins.marked)
        · rw [h2.self l hl]
          exact hstands3.account (hstands2.account (hbegins.owned howned))
      · exact fun _ _ h => (h.1.files (h2.files (hin.files hfiles))).logs
  · exact ((((keeps_entry m x : Keeps (Silent L) _).wp x.world).of_err he).files hfiles).logs

end Top

/-! ## Messages -/

namespace Execution

def survivingLogs (x : Execution) (n : Nat) (msg : Message) (w : World) : List Log :=
  (x.opens msg w).elim [] (frameLogs (x.machine msg) n)

/-- No turn of the message, in any of its frames, misfiles a log. -/
def LogsFiled (x : Execution) (n : Nat) (msg : Message) (w : World) : Prop :=
  (x.opens msg w).elim 0 (misfilings (x.machine msg) n) = 0

instance (x : Execution) (n : Nat) (msg : Message) (w : World) : Decidable (x.LogsFiled n msg w) :=
  inferInstanceAs (Decidable (_ = _))

end Execution

lemma silent_opens {L : Address → List StoredLog} {x : Execution} {msg : Message} {w : World}
    {y : Nested} (h : x.opens msg w = some y) : Silent L w y.world ∧ y.Owned := by
  have hprep : Keeps (Silent L) (x.prepare msg) := by
    refine .bind (.liftM _) fun _ => .bind (.liftM _) fun _ => .bind (keeps_preCheck msg) fun _ => ?_
    exact .bind (keeps_buyGas (fun _ _ => silent_update _ _) msg _ _) fun _ => keeps_startGas x msg _
  unfold Execution.opens at h
  split at h
  · next gas w1 hrun =>
    have h1 : Silent L w w1 := (hprep.wp w).of_ok hrun
    split at h
    · cases h
      exact ⟨h1, trivial⟩
    · split at h
      · next w2 hset =>
        cases h
        exact ⟨h1.trans (((Entrywise.setNonce _ _).wp w1).of_ok hset), rfl⟩
      · cases h
  · cases h

/-- **THE LOGS OF A MESSAGE ARE STORED ONCE.** Where no turn misfiles a log, the store has after
the frame of the message, whether it succeeds, fails or throws, exactly the logs that survive it,
each once and in the order of emission, behind the logs it had. -/
theorem logs_stored_once (x : Execution) (n : Nat) (msg : Message) (s : Storage)
    (hfresh : ∀ a, s.mappings.lookup a = none → s.logsOf a = [])
    (hfiled : x.LogsFiled n msg (World.start s)) (y : Nested)
    (hopen : x.opens msg (World.start s) = some y) (w' : World)
    (hrun : (y.program (vm (x.machine msg) n) y.world).state? = some w') (a : Address) :
    w'.storage.logsOf a = s.logsOf a ++ ((x.survivingLogs n msg (World.start s)).filter
      (·.contractAddress = a)).map (⟨·, (x.machine msg).txHash⟩) := by
  obtain ⟨hin, howned⟩ := silent_opens (L := s.logsOf) hopen
  unfold Execution.LogsFiled at hfiled
  unfold Execution.survivingLogs
  rw [hopen, Option.elim_some] at hfiled ⊢
  cases n with
  | zero => cases y <;> cases hrun
  | succ n =>
    have hwp := wp_outermost howned hin.eventLog (hin.files ⟨fun _ => rfl, hfresh⟩) hfiled
    unfold frameLogs
    cases hout : y.program (vm (x.machine msg) (n + 1)) y.world with
    | ok r w1 =>
      rw [hout] at hrun
      obtain rfl := Option.some.inj hrun
      exact hwp.of_ok hout a
    | err e w1 =>
      rw [hout] at hrun
      obtain rfl := Option.some.inj hrun
      rw [hwp.of_err hout a]
      exact (append_nil _).symm
    | diverge =>
      rw [hout] at hrun
      cases hrun

/-- `CALL` the contract at address 501. -/
def callingCode : Bytes :=
  [0x60, 0, 0x60, 0, 0x60, 0, 0x60, 0, 0x60, 0, 0x61, 0x01, 0xf5, 0x61, 0xff, 0xff, 0xf1]

/-- `LOG0` without data. -/
def loggingCode : Bytes := [0x60, 0, 0x60, 0, 0xa0]

def Storage.sampleTwo (outer inner : Bytes) : Storage :=
  .holding [(1, .holding 1000000 []), (500, .holding 0 outer), (501, .holding 0 inner)]

/-- What the frame of a message to the contract at 500 stores for `a`. -/
def storedLogs (outer inner : Bytes) (a : Address) : Option (List StoredLog) :=
  (Execution.sample.opens (.sample 100000) (World.start (.sampleTwo outer inner))).bind fun y =>
    (y.program (vm (Execution.sample.machine (.sample 100000)) 30) y.world).state?.map fun w' =>
      w'.storage.logsOf a

lemma exists_of_storedLogs {outer inner : Bytes} {a : Address} {n : Nat}
    (h : (storedLogs outer inner a).map length = some n) :
    ∃ y w', Execution.sample.opens (.sample 100000) (start (.sampleTwo outer inner)) = some y ∧
      (y.program (vm (Execution.sample.machine (.sample 100000)) 30) y.world).state? = some w' ∧
      (w'.storage.logsOf a).length = n := by
  obtain ⟨logs, hlogs, hlen⟩ := Option.map_eq_some_iff.mp h
  obtain ⟨y, hopen, hrun⟩ := Option.bind_eq_some_iff.mp hlogs
  obtain ⟨w', hw', heq⟩ := Option.map_eq_some_iff.mp hrun
  subst heq
  exact ⟨y, w', hopen, hw', hlen⟩

/-- The log of a nested frame is stored TWICE, by that frame and by the one around it; and the log
of a nested frame that fails is stored although it should not survive. -/
theorem nested_log_stored_twice : ((Execution.sample.survivingLogs 30 (.sample 100000)
        (World.start (.sampleTwo callingCode loggingCode))).length = 1 ∧
      ∃ y w', Execution.sample.opens (.sample 100000)
          (World.start (.sampleTwo callingCode loggingCode)) = some y ∧
        (y.program (vm (Execution.sample.machine (.sample 100000)) 30) y.world).state? = some w' ∧
        (w'.storage.logsOf 501).length = 2) ∧
    ((Execution.sample.survivingLogs 30 (.sample 100000)
        (World.start (.sampleTwo callingCode (loggingCode ++ [0xfe])))).length = 0 ∧
      ∃ y w', Execution.sample.opens (.sample 100000)
          (World.start (.sampleTwo callingCode (loggingCode ++ [0xfe]))) = some y ∧
        (y.program (vm (Execution.sample.machine (.sample 100000)) 30) y.world).state? = some w' ∧
        (w'.storage.logsOf 501).length = 1) := by
  refine ⟨⟨by decide +kernel, ?_⟩, ⟨by decide +kernel, ?_⟩⟩
  · exact exists_of_storedLogs (by decide +kernel)
  · exact exists_of_storedLogs (by decide +kernel)

theorem outer_log_stored : ∃ y w', Execution.sample.opens (.sample 100000)
        (World.start (.sampleTwo (callingCode ++ loggingCode) [0])) = some y ∧
      (y.program (vm (Execution.sample.machine (.sample 100000)) 30) y.world).state? = some w' ∧
      (w'.storage.logsOf 500).length = 1 ∧
      w'.storage.logsOf 500 = ((Execution.sample.survivingLogs 30 (.sample 100000)
        (World.start (.sampleTwo (callingCode ++ loggingCode) [0]))).filter
          (·.contractAddress = 500)).map (⟨·, (Execution.sample.machine (.sample 100000)).txHash⟩) := by
  have hstored : (storedLogs (callingCode ++ loggingCode) [0] 500).map length = some 1 := by
    decide +kernel
  obtain ⟨y, w', hopen, hrun, hlen⟩ := exists_of_storedLogs hstored
  have hnone : ∀ a, (Storage.sampleTwo (callingCode ++ loggingCode) [0]).logsOf a = [] :=
    fun _ => rfl
  have hall := logs_stored_once .sample 30 (.sample 100000)
    (.sampleTwo (callingCode ++ loggingCode) [0]) (fun a _ => hnone a) (by decide +kernel)
    y hopen w' hrun 500
  rw [hnone, nil_append] at hall
  exact ⟨y, w', hopen, hrun, hlen, hall⟩

end GrapeDag
