/-
IMPERATIVE PROGRAMS AS STATE FUNCTIONS.

A program logic for code that mutates a state, throws exceptions and may run forever. A program
is a function from the state to an `Outcome`: it returns, throws (KEEPING the mutations made
before the throw, as Java and Go do), or does not finish within the fuel it was given.

  * `Prog.wp`     — weakest preconditions (partial correctness, with one postcondition for a
                    return and one for a throw);
  * `Prog.Keeps`  — a reflexive and transitive relation kept by every run;
  * `Prog.Below`  — the flat order "does not finish, or does the same", in which more fuel and
                    fewer assertions only ever go up.
-/
import Mathlib.Order.RelClasses
import Mathlib.Tactic.Common

namespace Imperative

/-- How a run ends. The state of a throw is the state AT the throw. -/
inductive Outcome (ε σ α : Type) where
  | ok (a : α) (s : σ)
  | err (e : ε) (s : σ)
  | diverge
  deriving Repr, DecidableEq

namespace Outcome

variable {ε σ α : Type}

def state? : Outcome ε σ α → Option σ
  | ok _ s | err _ s => some s
  | diverge => none

variable {o : Outcome ε σ α}

lemma ok_of_state? {s : σ} (h : o.state? = some s) (hne : ∀ e, o ≠ err e s) : ∃ a, o = ok a s := by
  cases o with
  | ok a s' =>
    obtain rfl := Option.some.inj h
    exact ⟨a, rfl⟩
  | err e s' =>
    obtain rfl := Option.some.inj h
    exact absurd rfl (hne e)
  | diverge => cases h

/-- It returned, with a value and a state that pass the test. -/
def returns (o : Outcome ε σ α) (test : α → σ → Bool) : Bool :=
  match o with
  | ok a s => test a s
  | err _ _ | diverge => false

def throws (o : Outcome ε σ α) (test : σ → Bool) : Bool :=
  match o with
  | ok _ _ => false
  | err _ s => test s
  | diverge => false

/-! What a run ends in can be evaluated. -/

instance {P : α → σ → Prop} [∀ a s, Decidable (P a s)] : Decidable (∃ a s, o = ok a s ∧ P a s) :=
  match o with
  | ok a s => decidable_of_iff (P a s) ⟨fun h => ⟨a, s, rfl, h⟩, fun ⟨_, _, heq, h⟩ => by cases heq; exact h⟩
  | err _ _ | diverge => isFalse fun ⟨_, _, heq, _⟩ => nomatch heq

instance : Decidable (∃ a s, o = ok a s) :=
  decidable_of_iff (∃ a s, o = ok a s ∧ True) (by simp only [and_true])

instance {a : α} [DecidableEq α] {P : σ → Prop} [∀ s, Decidable (P s)] : Decidable (∃ s, o = ok a s ∧ P s) :=
  decidable_of_iff (∃ b s, o = ok b s ∧ b = a ∧ P s)
    ⟨fun ⟨_, s, heq, hb, h⟩ => ⟨s, hb ▸ heq, h⟩, fun ⟨s, heq, h⟩ => ⟨a, s, heq, rfl, h⟩⟩

instance {P : ε → σ → Prop} [∀ e s, Decidable (P e s)] : Decidable (∃ e s, o = err e s ∧ P e s) :=
  match o with
  | ok _ _ => isFalse fun ⟨_, _, heq, _⟩ => nomatch heq
  | err e s => decidable_of_iff (P e s) ⟨fun h => ⟨e, s, rfl, h⟩, fun ⟨_, _, heq, h⟩ => by cases heq; exact h⟩
  | diverge => isFalse fun ⟨_, _, heq, _⟩ => nomatch heq

instance : Decidable (∃ e s, o = err e s) :=
  decidable_of_iff (∃ e s, o = err e s ∧ True) (by simp only [and_true])

instance {β : Type} {x : Option β} {P : β → Prop} [∀ b, Decidable (P b)] :
    Decidable (∃ b, x = some b ∧ P b) :=
  match x with
  | some b => decidable_of_iff (P b) ⟨fun h => ⟨b, rfl, h⟩, fun ⟨_, heq, h⟩ => by cases heq; exact h⟩
  | none => isFalse fun ⟨_, heq, _⟩ => nomatch heq

end Outcome

/-- A program with exceptions `ε`, state `σ` and result `α`. -/
def Prog (ε σ α : Type) : Type := σ → Outcome ε σ α

namespace Prog

variable {ε σ τ α β : Type}

-- the same for a run of a program, whose type instance search does not unfold
instance {m : Prog ε σ α} {s : σ} {P : α → σ → Prop} [∀ a s, Decidable (P a s)] :
    Decidable (∃ a s', m s = .ok a s' ∧ P a s') :=
  inferInstanceAs (Decidable (∃ a s', id (m s) = .ok a s' ∧ P a s'))

instance {m : Prog ε σ α} {s : σ} {a : α} [DecidableEq α] {P : σ → Prop} [∀ s, Decidable (P s)] :
    Decidable (∃ s', m s = .ok a s' ∧ P s') :=
  inferInstanceAs (Decidable (∃ s', id (m s) = .ok a s' ∧ P s'))

instance {m : Prog ε σ α} {s : σ} : Decidable (∃ e s', m s = .err e s') :=
  inferInstanceAs (Decidable (∃ e s', id (m s) = .err e s'))

/-! ## The constructs -/

protected def bind (m : Prog ε σ α) (f : α → Prog ε σ β) : Prog ε σ β := fun s =>
  match m s with
  | .ok a s' => f a s'
  | .err e s' => .err e s'
  | .diverge => .diverge

instance : Monad (Prog ε σ) where
  pure a := fun s => .ok a s
  bind := Prog.bind

def raise (e : ε) : Prog ε σ α := fun s => .err e s

def ofExcept : Except ε α → Prog ε σ α
  | .ok a => pure a
  | .error e => raise e

instance : MonadLift (Except ε) (Prog ε σ) where
  monadLift := ofExcept

def diverging : Prog ε σ α := fun _ => .diverge

def gets (f : σ → α) : Prog ε σ α := fun s => .ok (f s) s

def modify (f : σ → σ) : Prog ε σ Unit := fun s => .ok () (f s)

/-- `try m catch e => h e`; the handler rethrows what it does not handle. -/
def catching (m : Prog ε σ α) (h : ε → Prog ε σ α) : Prog ε σ α := fun s =>
  match m s with
  | .ok a s' => .ok a s'
  | .err e s' => h e s'
  | .diverge => .diverge

/-- `try m finally c`: `c` runs after a return and after a throw alike, and an exception of `c`
replaces the outcome of `m`. -/
def ensuring (m : Prog ε σ α) (c : Prog ε σ Unit) : Prog ε σ α := fun s =>
  match m s with
  | .ok a s' => (do c; return a : Prog ε σ α) s'
  | .err e s' => (do c; raise e : Prog ε σ α) s'
  | .diverge => .diverge

/-- Run a program of a part `τ` of the state on the whole state. -/
def zoom (view : σ → τ) (update : τ → σ → σ) (m : Prog ε τ α) : Prog ε σ α := fun s =>
  match m (view s) with
  | .ok a t => .ok a (update t s)
  | .err e t => .err e (update t s)
  | .diverge => .diverge

/-- An assertion: a state that violates `p` has no outcome. -/
def asserting (p : σ → Bool) : Prog ε σ Unit := fun s =>
  if p s then .ok () s else .diverge

def strict (m : Prog ε σ α) : Prog ε σ α := fun s =>
  match m s with
  | .ok a s' => .ok a s'
  | .err _ _ | .diverge => .diverge

/-- Repeat `step` until it returns a value, at most `fuel` times. -/
def loop (step : Prog ε σ (Option α)) : Nat → Prog ε σ α
  | 0 => diverging
  | fuel + 1 => do
      match ← step with
      | some a => return a
      | none => loop step fuel

/-! ## Running the constructs -/

variable {m : Prog ε σ α} {f : α → Prog ε σ β} {s s' : σ}

@[simp] lemma pure_apply (a : α) (s : σ) : (pure a : Prog ε σ α) s = .ok a s := rfl

@[simp] lemma raise_apply (e : ε) (s : σ) : (raise e : Prog ε σ α) s = .err e s := rfl

@[simp] lemma gets_apply (g : σ → α) (s : σ) : (gets g : Prog ε σ α) s = .ok (g s) s := rfl

@[simp] lemma modify_apply (g : σ → σ) (s : σ) : (modify g : Prog ε σ Unit) s = .ok () (g s) := rfl

variable {a : α} {x : Except ε α} {e : ε} {h : ε → Prog ε σ α} {c : Prog ε σ Unit}

lemma liftM_of_ok (h : x = .ok a) (s : σ) : (liftM x : Prog ε σ α) s = .ok a s := by
  rw [h]
  rfl

lemma liftM_of_error (h : x = .error e) (s : σ) : (liftM x : Prog ε σ α) s = .err e s := by
  rw [h]
  rfl

lemma bind_apply (m : Prog ε σ α) (f : α → Prog ε σ β) (s : σ) : (m >>= f) s = match m s with
      | .ok a s' => f a s'
      | .err e s' => .err e s'
      | .diverge => .diverge := rfl

lemma bind_of_ok (h : m s = .ok a s') : (m >>= f) s = f a s' := by
  rw [bind_apply, h]

@[simp] lemma gets_bind {g : σ → α} : (gets g >>= f) s = f (g s) s := rfl

lemma modify_bind {g : σ → σ} {f : Unit → Prog ε σ β} : (modify g >>= f) s = f () (g s) := rfl

lemma liftM_bind (h : x = .ok a) : ((liftM x : Prog ε σ α) >>= f) s = f a s :=
  bind_of_ok (liftM_of_ok h s)

lemma bind_of_err (h : m s = .err e s') : (m >>= f) s = .err e s' := by
  rw [bind_apply, h]

lemma bind_of_diverge (h : m s = .diverge) : (m >>= f) s = .diverge := by
  rw [bind_apply, h]

lemma catching_of_diverge (hm : m s = .diverge) : catching m h s = .diverge := by
  simp only [catching, hm]

lemma seq_assoc {γ : Type} (m : Prog ε σ α) (f : α → Prog ε σ β) (g : β → Prog ε σ γ) :
    (m >>= f) >>= g = m >>= fun a => f a >>= g := by
  funext s
  rw [bind_apply, bind_apply, bind_apply]
  cases m s <;> rfl

lemma pure_seq (a : α) (f : α → Prog ε σ β) : (pure a >>= f : Prog ε σ β) = f a := rfl

lemma ensuring_of_ok (h : m s = .ok a s') : ensuring m c s = (do c; return a : Prog ε σ α) s' := by
  simp only [ensuring, h]

lemma zoom_of_ok {view : τ → σ} {update : σ → τ → τ} {t : τ} (h : m (view t) = .ok a s') :
    zoom view update m t = .ok a (update s' t) := by
  simp only [zoom, h]

lemma zoom_of_err {view : τ → σ} {update : σ → τ → τ} {t : τ} (h : m (view t) = .err e s') :
    zoom view update m t = .err e (update s' t) := by
  simp only [zoom, h]

lemma bind_congr {g : α → Prog ε σ β} (h : ∀ a s', m s = .ok a s' → f a s' = g a s') :
    (m >>= f) s = (m >>= g) s := by
  rw [bind_apply, bind_apply]
  cases hm : m s with
  | ok a s' => exact h a s' hm
  | err e s' | diverge => rfl

lemma bind_eq_ok {b : β} : (m >>= f) s = .ok b s' ↔ ∃ a s1, m s = .ok a s1 ∧ f a s1 = .ok b s' := by
  rw [bind_apply]
  cases hm : m s with
  | ok a s1 | err e s1 | diverge => simp

/-! ## Checks -/

/-- From `s` the run has the outcome `o` if `P` holds, and throws in `s` if it does not. -/
structure Checks (P : Prop) (m : Prog ε σ α) (s : σ) (o : Outcome ε σ α) : Prop where
  pass : P → m s = o
  fail : ¬ P → ∃ e, m s = .err e s

namespace Checks

variable {P Q : Prop} {o : Outcome ε σ α}

lemma of_eq (h : m s = o) : Checks True m s o := ⟨fun _ => h, fun hP => absurd trivial hP⟩

lemma congr (h : Checks P m s o) (hiff : P ↔ Q) : Checks Q m s o := propext hiff ▸ h

lemma gets {g : σ → β} {f : β → Prog ε σ α} (h : Checks P (f (g s)) s o) :
    Checks P (gets g >>= f) s o := ⟨h.pass, h.fail⟩

lemma ite_raise [Decidable Q] (h : ¬ Q → Checks P m s o) :
    Checks (¬ Q ∧ P) (if Q then raise e else m) s o := by
  by_cases hQ : Q
  · rw [if_pos hQ]
    exact ⟨fun hboth => absurd hQ hboth.1, fun _ => ⟨e, rfl⟩⟩
  · rw [if_neg hQ]
    exact (h hQ).congr (and_iff_right hQ).symm

/-- The last check of a run that then goes on from `s'`. -/
lemma last (h : Checks P m s (.ok a s')) : Checks P (m >>= f) s (f a s') where
  pass hP := bind_of_ok (h.pass hP)
  fail hP := (h.fail hP).imp fun _ he => bind_of_err he

lemma bind {o : Outcome ε σ β} (h : Checks P m s (.ok a s)) (hf : P → Checks Q (f a) s o) :
    Checks (P ∧ Q) (m >>= f) s o := by
  by_cases hP : P
  · have hrun := bind_of_ok (f := f) (h.pass hP)
    exact ⟨fun hboth => hrun.trans ((hf hP).pass hboth.2),
      fun hnot => hrun ▸ (hf hP).fail fun hQ => hnot ⟨hP, hQ⟩⟩
  · exact ⟨fun hboth => absurd hboth.1 hP, fun _ => h.last.fail hP⟩

end Checks

/-! ## Weakest preconditions -/

/-- From `s`, every return satisfies `Q` and every throw satisfies `E`. -/
def wp (m : Prog ε σ α) (Q : α → σ → Prop) (E : ε → σ → Prop) (s : σ) : Prop :=
  match m s with
  | .ok a s' => Q a s'
  | .err e s' => E e s'
  | .diverge => True

/-- However the run from `s` ends, it ends in a state with `P`. -/
abbrev wpEnd (m : Prog ε σ α) (P : σ → Prop) (s : σ) : Prop := wp m (fun _ s' => P s') (fun _ s' => P s') s

/-- If the run from `s` returns, then with `Q`. -/
abbrev wpRet (m : Prog ε σ α) (Q : α → σ → Prop) (s : σ) : Prop := wp m Q (fun _ _ => True) s

variable {Q Q' : α → σ → Prop} {E E' : ε → σ → Prop} {P : β → σ → Prop}

@[simp] lemma wp_pure (a : α) : wp (pure a : Prog ε σ α) Q E s ↔ Q a s := Iff.rfl

@[simp] lemma wp_raise (e : ε) : wp (raise e : Prog ε σ α) Q E s ↔ E e s := Iff.rfl

@[simp] lemma wp_liftM (x : Except ε α) :
    wp (liftM x : Prog ε σ α) Q E s ↔ (∀ a, x = .ok a → Q a s) ∧ (∀ e, x = .error e → E e s) := by
  cases x with
  | ok a =>
    show Q a s ↔ _
    simp
  | error e =>
    show E e s ↔ _
    simp

lemma wp_liftM_of_ok (h : x = .ok a) : wp (liftM x : Prog ε σ α) Q E s ↔ Q a s := by
  rw [h]
  exact Iff.rfl

@[simp] lemma wp_diverging : wp (diverging : Prog ε σ α) Q E s ↔ True := Iff.rfl

@[simp] lemma wp_gets (g : σ → α) : wp (gets g) Q E s ↔ Q (g s) s := Iff.rfl

@[simp] lemma wp_modify {Q : Unit → σ → Prop} (g : σ → σ) : wp (modify g) Q E s ↔ Q () (g s) := Iff.rfl

@[simp] lemma wp_bind : wp (m >>= f) P E s ↔ wp m (fun a s' => wp (f a) P E s') E s := by
  unfold wp
  rw [bind_apply]
  cases m s <;> exact Iff.rfl

@[simp] lemma wp_catching : wp (catching m h) Q E s ↔ wp m Q (fun e s' => wp (h e) Q E s') s := by
  unfold wp catching
  cases m s <;> exact Iff.rfl

@[simp] lemma wp_ensuring : wp (ensuring m c) Q E s ↔
      wp m (fun a s' => wp c (fun _ s'' => Q a s'') E s')
        (fun e s' => wp c (fun _ s'' => E e s'') E s') s := by
  have hok : ∀ a s', wp (do c; return a : Prog ε σ α) Q E s'
      ↔ wp c (fun _ s'' => Q a s'') E s' := fun a s' => by rw [wp_bind]; exact Iff.rfl
  have herr : ∀ e s', wp (do c; raise e : Prog ε σ α) Q E s'
      ↔ wp c (fun _ s'' => E e s'') E s' := fun e s' => by rw [wp_bind]; exact Iff.rfl
  cases hm : m s with
  | ok a s' => simpa only [wp, ensuring, hm] using hok a s'
  | err e s' => simpa only [wp, ensuring, hm] using herr e s'
  | diverge => simp only [wp, ensuring, hm]

variable {view : σ → τ} {update : τ → σ → σ}

@[simp] lemma wp_zoom {m : Prog ε τ α} : wp (zoom view update m) Q E s ↔
      wp m (fun a t => Q a (update t s)) (fun e t => E e (update t s)) (view s) := by
  unfold wp zoom
  cases m (view s) <;> exact Iff.rfl

@[simp] lemma wp_asserting {Q : Unit → σ → Prop} {p : σ → Bool} :
    wp (asserting p) Q E s ↔ (p s = true → Q () s) := by
  unfold wp asserting
  by_cases hp : p s = true <;> simp [hp]

@[simp] lemma wp_strict : wp (strict m) Q E s ↔ wp m Q (fun _ _ => True) s := by
  unfold wp strict
  cases m s <;> exact Iff.rfl

lemma wp_ite {c : Prop} [Decidable c] {n : Prog ε σ α} :
    wp (if c then m else n) Q E s ↔ (c → wp m Q E s) ∧ (¬ c → wp n Q E s) := by
  by_cases hc : c <;> simp [hc]

lemma wp.pure (h : Q a s) : wp (pure a : Prog ε σ α) Q E s := h

lemma wp.ite {c : Prop} [Decidable c] {n : Prog ε σ α} (hm : c → wp m Q E s) (hn : ¬ c → wp n Q E s) :
    wp (if c then m else n) Q E s := wp_ite.mpr ⟨hm, hn⟩

lemma wp.of_apply_eq {n : Prog ε σ α} {s1 : σ} (h : m s = n s1) (hn : wp n Q E s1) : wp m Q E s := by
  unfold wp at *
  rw [h]
  exact hn

lemma wp.of_apply_err (h : m s = .err e s') (hE : E e s') : wp m Q E s := by
  unfold wp
  rw [h]
  exact hE

lemma wp.of_apply_diverge (h : m s = .diverge) : wp m Q E s := by
  unfold wp
  rw [h]
  trivial

lemma wp.self (m : Prog ε σ α) (s : σ) :
    wp m (fun a s' => m s = .ok a s') (fun e s' => m s = .err e s') s := by
  unfold wp
  split <;> trivial

lemma wp.mono (h : wp m Q E s) (hQ : ∀ a s', Q a s' → Q' a s')
    (hE : ∀ e s', E e s' → E' e s') : wp m Q' E' s := by
  unfold wp at h ⊢
  cases hm : m s with
  | ok a s' => rw [hm] at h; exact hQ a s' h
  | err e s' => rw [hm] at h; exact hE e s' h
  | diverge => trivial

/-- The rule of consequence for what is returned. -/
lemma wp.post (h : wp m Q E s) (hQ : ∀ a s', Q a s' → Q' a s') : wp m Q' E s := h.mono hQ fun _ _ h => h

/-- The rule of consequence where a throw is as good as any other. -/
lemma wp.returned (h : wp m Q E s) (hQ : ∀ a s', Q a s' → Q' a s') : wpRet m Q' s :=
  h.mono hQ fun _ _ _ => trivial

lemma wp.of_forall (hQ : ∀ a s', Q a s') (hE : ∀ e s', E e s') : wp m Q E s := by
  unfold wp
  cases m s with
  | ok a s' => exact hQ a s'
  | err e s' => exact hE e s'
  | diverge => trivial

lemma wp.always (hQ : ∀ a s', Q a s') : wpRet m Q s := .of_forall hQ fun _ _ => trivial

lemma wp.and (h : wp m Q E s) (h' : wp m Q' E' s) :
    wp m (fun a s' => Q a s' ∧ Q' a s') (fun e s' => E e s' ∧ E' e s') s := by
  unfold wp at h h' ⊢
  cases hm : m s with
  | ok a s' | err e s' => rw [hm] at h h'; exact ⟨h, h'⟩
  | diverge => trivial

lemma wp.of_ok (h : wp m Q E s) (hm : m s = .ok a s') : Q a s' := by
  simpa only [wp, hm] using h

lemma wp.of_err (h : wp m Q E s) (hm : m s = .err e s') : E e s' := by
  simpa only [wp, hm] using h

lemma wp.of_state? {P : σ → Prop} (h : wpEnd m P s) (hm : (m s).state? = some s') : P s' := by
  cases hrun : m s with
  | ok a s1 =>
    rw [hrun] at hm
    exact Option.some.inj hm ▸ h.of_ok hrun
  | err e s1 =>
    rw [hrun] at hm
    exact Option.some.inj hm ▸ h.of_err hrun
  | diverge =>
    rw [hrun] at hm
    cases hm

lemma wp_iff : wp m Q E s ↔ (∀ a s', m s = .ok a s' → Q a s') ∧ (∀ e s', m s = .err e s' → E e s') := by
  unfold wp
  cases hm : m s with
  | ok a s' | err e s' | diverge => simp

/-- The invariant rule. What one turn of the loop keeps while it goes on, and turns into `Q`
when it stops, holds of the whole loop for every fuel. -/
theorem wp_loop {step : Prog ε σ (Option α)} {I : σ → Prop}
    (hstep : ∀ s, I s → wp step (fun r s' => match r with | some a => Q a s' | none => I s') E s) :
    ∀ (fuel : Nat) (s : σ), I s → wp (loop step fuel) Q E s
  | 0, _, _ => trivial
  | fuel + 1, s, hI => by
      unfold loop
      rw [wp_bind]
      refine (hstep s hI).mono ?_ (fun _ _ h => h)
      intro r s' hr
      cases r with
      | some a => exact hr
      | none => exact wp_loop hstep fuel s' hr

lemma wp_skip {Q : β → σ → Prop} (hk : ∀ a s', wpRet (f a) Q s') : wpRet (m >>= f) Q s :=
  wp_bind.mpr (.always hk)

/-! ## Relations kept by a run -/

/-- Whatever way a run ends, its last state is `R`-related to its first. Instances follow the
constructs. -/
class Keeps (R : σ → σ → Prop) (m : Prog ε σ α) : Prop where
  of_wp ::
  wp : ∀ s, wp m (fun _ s' => R s s') (fun _ s' => R s s') s

lemma Keeps.mono {R R' : σ → σ → Prop} (h : Keeps R m) (hR : ∀ s s', R s s' → R' s s') : Keeps R' m :=
  ⟨fun s => (h.wp s).mono (fun _ _ h' => hR _ _ h') (fun _ _ h' => hR _ _ h')⟩

variable {Q : β → σ → Prop}

section Keeps

variable {R : σ → σ → Prop} [IsPreorder σ R]

instance Keeps.pure (a : α) : Keeps R (pure a : Prog ε σ α) := ⟨fun s => refl_of R s⟩

instance Keeps.raise (e : ε) : Keeps R (raise e : Prog ε σ α) := ⟨fun s => refl_of R s⟩

instance Keeps.gets (g : σ → α) : Keeps R (gets g : Prog ε σ α) := ⟨fun s => refl_of R s⟩

instance Keeps.liftM (x : Except ε α) : Keeps R (liftM x : Prog ε σ α) := by
  refine ⟨fun s => ?_⟩
  rw [wp_liftM]
  exact ⟨fun _ _ => refl_of R s, fun _ _ => refl_of R s⟩

omit [IsPreorder σ R] in
lemma Keeps.modify {g : σ → σ} (h : ∀ s, R s (g s)) : Keeps R (modify g : Prog ε σ Unit) := ⟨h⟩

lemma Keeps.bind (hm : Keeps R m) (hf : ∀ a, Keeps R (f a)) : Keeps R (m >>= f) := by
  refine ⟨fun s => ?_⟩
  rw [wp_bind]
  refine (hm.wp s).mono ?_ (fun _ _ h => h)
  intro a s' hs'
  exact ((hf a).wp s').mono (fun _ _ h => trans_of R hs' h) (fun _ _ h => trans_of R hs' h)

instance [hm : Keeps R m] [hf : ∀ a, Keeps R (f a)] : Keeps R (m >>= f) := hm.bind hf

omit [IsPreorder σ R] in
lemma Keeps.wp_bind (hm : Keeps R m) (hE : ∀ e s', R s s' → E e s')
    (hk : ∀ a s', R s s' → Prog.wp (f a) Q E s') : Prog.wp (m >>= f) Q E s :=
  Prog.wp_bind.mpr ((hm.wp s).mono hk hE)

lemma Keeps.wp_then {s0 : σ} (hm : Keeps R m) (h0 : R s0 s)
    (hE : ∀ e s', R s0 s' → E e s') (hk : ∀ a s', R s0 s' → Prog.wp (f a) Q E s') :
    Prog.wp (m >>= f) Q E s :=
  hm.wp_bind (fun e s' h => hE e s' (trans_of R h0 h)) fun a s' h => hk a s' (trans_of R h0 h)

omit [IsPreorder σ R] in
lemma Keeps.ite {c : Prop} [Decidable c] {n : Prog ε σ α} (hm : Keeps R m)
    (hn : Keeps R n) : Keeps R (if c then m else n) := by
  split
  · exact hm
  · exact hn

omit [IsPreorder σ R] in
instance {c : Prop} [Decidable c] {n : Prog ε σ α} [hm : Keeps R m] [hn : Keeps R n] :
    Keeps R (if c then m else n) := hm.ite hn

omit [IsPreorder σ R] in
lemma Keeps.zoom (h : ∀ t s, R s (update t s)) (n : Prog ε τ α) : Keeps R (zoom view update n) := by
  refine ⟨fun s => ?_⟩
  unfold Prog.wp Prog.zoom
  cases n (view s) with
  | ok a t | err e t => exact h t s
  | diverge => trivial

lemma Keeps.zoom_of_eq {n : Prog ε τ α}
    (hn : Keeps (fun t t' => t' = t) n) (h : ∀ s, update (view s) s = s) :
    Keeps R (Prog.zoom view update n) := by
  refine ⟨fun s => ?_⟩
  rw [wp_zoom]
  refine (hn.wp (view s)).mono ?_ ?_
  · intro a t ht
    rw [ht, h]
    exact refl_of R s
  · intro e t ht
    rw [ht, h]
    exact refl_of R s

lemma Keeps.catching {h : ε → Prog ε σ α} (hm : Keeps R m) (hh : ∀ e, Keeps R (h e)) :
    Keeps R (catching m h) := by
  refine ⟨fun s => ?_⟩
  rw [wp_catching]
  refine (hm.wp s).mono (fun _ _ hs => hs) fun e s' hs' => ?_
  exact ((hh e).wp s').mono (fun _ _ h => trans_of R hs' h) (fun _ _ h => trans_of R hs' h)

end Keeps

/-! ## Programs that end -/

/-- A pure computation that fails with exceptions in `P` only. -/
class Fails (P : ε → Prop) (x : Except ε α) : Prop where
  fails : ∀ e, x = .error e → P e

/-- Every run ends, and throws exceptions in `P` only. Instances follow the constructs, so that a
program without a loop has this by resolution. -/
class Ends (P : ε → Prop) (m : Prog ε σ α) : Prop where
  ends : ∀ s, m s ≠ .diverge
  throws : ∀ s e s', m s = .err e s' → P e

/-- Every run ends, one way or the other. -/
abbrev Halts (m : Prog ε σ α) : Prop := Ends (fun _ => True) m

section Ends

variable {P : ε → Prop}

instance Fails.pure (a : α) : Fails P (pure a : Except ε α) := ⟨nofun⟩

instance Fails.ok (a : α) : Fails P (.ok a : Except ε α) := ⟨nofun⟩

instance Fails.bind {x : Except ε α} {k : α → Except ε β} [hx : Fails P x]
    [hk : ∀ a, Fails P (k a)] : Fails P (x >>= k) := by
  refine ⟨fun e h => ?_⟩
  cases x with
  | ok a => exact (hk a).fails e h
  | error e' => cases h; exact hx.fails _ rfl

instance Fails.ite {c : Prop} [Decidable c] {x y : Except ε α} [hx : Fails P x]
    [hy : Fails P y] : Fails P (if c then x else y) := by
  split
  · exact hx
  · exact hy

instance Ends.pure (a : α) : Ends P (pure a : Prog ε σ α) := ⟨nofun, nofun⟩

instance Ends.gets (g : σ → α) : Ends P (gets g : Prog ε σ α) := ⟨nofun, nofun⟩

instance Ends.modify (g : σ → σ) : Ends P (modify g : Prog ε σ Unit) := ⟨nofun, nofun⟩

lemma Ends.raise {e : ε} (h : P e) : Ends P (raise e : Prog ε σ α) :=
  ⟨nofun, fun _ _ _ h' => by cases h'; exact h⟩

instance Ends.raise_any (e : ε) : Halts (Prog.raise e : Prog ε σ α) := .raise trivial

lemma Ends.of_fails {x : Except ε α} (h : ∀ e, x = .error e → P e) : Ends P (liftM x : Prog ε σ α) := by
  refine ⟨fun _ hd => ?_, fun _ e _ he => ?_⟩
  · cases x <;> cases hd
  · cases x <;> cases he
    exact h e rfl

instance Ends.liftM (x : Except ε α) [hx : Fails P x] : Ends P (liftM x : Prog ε σ α) := .of_fails hx.fails

instance Ends.liftM_any (x : Except ε α) : Halts (MonadLiftT.monadLift x : Prog ε σ α) :=
  .of_fails fun _ _ => trivial

lemma bind_ne_diverge (hm : m s ≠ .diverge)
    (hf : ∀ a s', m s = .ok a s' → f a s' ≠ .diverge) : (m >>= f) s ≠ .diverge := by
  intro hs
  rw [bind_apply] at hs
  cases hms : m s with
  | ok a s' => rw [hms] at hs; exact hf a s' hms hs
  | err e s' => rw [hms] at hs; cases hs
  | diverge => exact hm hms

variable {h : ε → Prog ε σ α}

lemma catching_ne_diverge (hm : m s ≠ .diverge) (hh : ∀ e s', h e s' ≠ .diverge) :
    catching m h s ≠ .diverge := by
  intro hs
  unfold catching at hs
  split at hs
  · cases hs
  · exact hh _ _ hs
  · exact hm ‹_›

lemma ne_diverge [h : Halts m] (s : σ) : m s ≠ .diverge := h.ends s

lemma Ends.seq (hm : Ends P m) (hf : ∀ a, Ends P (f a)) : Ends P (m >>= f) := by
  refine ⟨fun s => bind_ne_diverge (hm.ends s) fun a s' _ => (hf a).ends s', ?_⟩
  intro s e s' hs
  rw [bind_apply] at hs
  cases hms : m s with
  | ok a s1 => rw [hms] at hs; exact (hf a).throws _ _ _ hs
  | err e1 s1 => rw [hms] at hs; cases hs; exact hm.throws _ _ _ hms
  | diverge => exact absurd hms (hm.ends s)

instance Ends.bind [hm : Ends P m] [hf : ∀ a, Ends P (f a)] : Ends P (m >>= f) := hm.seq hf

instance Ends.ite {c : Prop} [Decidable c] {n : Prog ε σ α} [hm : Ends P m] [hn : Ends P n] :
    Ends P (if c then m else n) := by
  split
  · exact hm
  · exact hn

lemma Ends.catching {P' : ε → Prop} (hm : Ends P m) (hh : ∀ e, P e → Ends P' (h e)) :
    Ends P' (Prog.catching m h) := by
  have hcase : ∀ s, (∃ a s', Prog.catching m h s = .ok a s') ∨
      ∃ e s', P e ∧ Prog.catching m h s = h e s' := by
    intro s
    unfold Prog.catching
    cases hms : m s with
    | ok a s' => exact .inl ⟨a, s', rfl⟩
    | err e s' => exact .inr ⟨e, s', hm.throws _ _ _ hms, rfl⟩
    | diverge => exact absurd hms (hm.ends s)
  refine ⟨fun s hs => ?_, fun s e s' hs => ?_⟩
  · obtain ⟨a, s', hok⟩ | ⟨e, s', he, heq⟩ := hcase s
    · cases hok.symm.trans hs
    · exact (hh e he).ends s' (heq.symm.trans hs)
  · obtain ⟨a, s', hok⟩ | ⟨e, s', he, heq⟩ := hcase s
    · cases hok.symm.trans hs
    · exact (hh e he).throws s' _ _ (heq.symm.trans hs)

instance Ends.zoom {view : τ → σ} {update : σ → τ → τ} [hm : Ends P m] : Ends P (zoom view update m) := by
  refine ⟨fun t ht => ?_, fun t e t' ht => ?_⟩
  · unfold Prog.zoom at ht
    split at ht
    · cases ht
    · cases ht
    · exact hm.ends _ ‹_›
  · unfold Prog.zoom at ht
    split at ht
    · cases ht
    · cases ht
      exact hm.throws _ _ _ ‹_›
    · cases ht

lemma Keeps.exists_state {R : σ → σ → Prop} (h : Keeps R m) (hm : Ends P m) (s : σ) :
    ∃ s', (m s).state? = some s' ∧ R s s' := by
  cases hrun : m s with
  | ok a s' => exact ⟨s', rfl, (h.wp s).of_ok hrun⟩
  | err e s' => exact ⟨s', rfl, (h.wp s).of_err hrun⟩
  | diverge => exact absurd hrun (hm.ends s)

end Ends

/-- Every run ends, in a state that `R` relates to the first one, and throws exceptions in `P` only.
-/
class Settles (R : σ → σ → Prop) (P : ε → Prop) (m : Prog ε σ α) : Prop where
  keeps : Keeps R m
  ends : Ends P m

section Settles

variable {R : σ → σ → Prop} {P : ε → Prop}

lemma Settles.exists_state (h : Settles R P m) (s : σ) :
    ∃ s', (m s).state? = some s' ∧ R s s' := h.keeps.exists_state h.ends s

lemma Settles.modify {g : σ → σ} (h : ∀ s, R s (g s)) :
    Settles R P (Prog.modify g : Prog ε σ Unit) := ⟨.modify h, .modify g⟩

instance {c : Prop} [Decidable c] {n : Prog ε σ α} [hm : Settles R P m] [hn : Settles R P n] :
    Settles R P (if c then m else n) := by
  split
  · exact hm
  · exact hn

variable [IsPreorder σ R]

instance (a : α) : Settles R P (pure a : Prog ε σ α) := ⟨.pure a, .pure a⟩

instance (e : ε) [h : Ends P (raise e : Prog ε σ α)] : Settles R P (raise e : Prog ε σ α) := ⟨.raise e, h⟩

instance (g : σ → α) : Settles R P (gets g : Prog ε σ α) := ⟨.gets g, .gets g⟩

instance (x : Except ε α) [h : Ends P (liftM x : Prog ε σ α)] :
    Settles R P (liftM x : Prog ε σ α) := ⟨.liftM x, h⟩

lemma Settles.seq (hm : Settles R P m) (hf : ∀ a, Settles R P (f a)) : Settles R P (m >>= f) :=
  ⟨hm.keeps.bind fun a => (hf a).keeps, hm.ends.seq fun a => (hf a).ends⟩

instance [hm : Settles R P m] [hf : ∀ a, Settles R P (f a)] : Settles R P (m >>= f) := hm.seq hf

lemma Settles.catching {P' : ε → Prop} {h : ε → Prog ε σ α} (hm : Settles R P m)
    (hh : ∀ e, Settles R P' (h e)) : Settles R P' (Prog.catching m h) :=
  ⟨hm.keeps.catching fun e => (hh e).keeps, hm.ends.catching fun e _ => (hh e).ends⟩

instance {h : ε → Prog ε σ α} [hm : Settles R (fun _ => True) m] [hh : ∀ e, Settles R P (h e)] :
    Settles R P (Prog.catching m h) := hm.catching hh

end Settles

/-! ## Invariants and the values returned -/

/-- A run from a state in `I` stays in `I`, and what it returns satisfies `V`. -/
structure Yields (I : σ → Prop) (V : α → Prop) (m : Prog ε σ α) : Prop where
  of_wp ::
  wp : ∀ s, I s → wp m (fun a s' => V a ∧ I s') (fun _ s' => I s') s

section Yields

variable {I : σ → Prop} {V : α → Prop} {W : β → Prop}

lemma Yields.mono {V' : α → Prop} (h : Yields I V m) (hV : ∀ a, V a → V' a) : Yields I V' m :=
  ⟨fun s hs => (h.wp s hs).mono (fun a _ h' => ⟨hV a h'.1, h'.2⟩) (fun _ _ h' => h')⟩

lemma Yields.pure {a : α} (h : V a) : Yields I V (pure a : Prog ε σ α) := ⟨fun _ hs => ⟨h, hs⟩⟩

lemma Yields.raise (e : ε) : Yields I V (raise e : Prog ε σ α) := ⟨fun _ hs => hs⟩

lemma Yields.gets {g : σ → α} (h : ∀ s, I s → V (g s)) :
    Yields I V (gets g : Prog ε σ α) := ⟨fun s hs => ⟨h s hs, hs⟩⟩

lemma Yields.liftM {x : Except ε α} (h : ∀ a, x = .ok a → V a) : Yields I V (liftM x : Prog ε σ α) := by
  refine ⟨fun s hs => ?_⟩
  rw [wp_liftM]
  exact ⟨fun a ha => ⟨h a ha, hs⟩, fun _ _ => hs⟩

lemma Yields.modify {g : σ → σ} (h : ∀ s, I s → I (g s)) :
    Yields I (fun _ => True) (modify g : Prog ε σ Unit) := ⟨fun s hs => ⟨trivial, h s hs⟩⟩

lemma Yields.bind (hm : Yields I V m) (hf : ∀ a, V a → Yields I W (f a)) : Yields I W (m >>= f) := by
  refine ⟨fun s hs => ?_⟩
  rw [wp_bind]
  refine (hm.wp s hs).mono ?_ (fun _ _ h => h)
  intro a s' h'
  exact (hf a h'.1).wp s' h'.2

lemma Yields.wp_bind (hm : Yields I V m) (hs : I s)
    (hE : ∀ e s', I s' → E e s') (hk : ∀ a s', V a → I s' → Prog.wp (f a) Q E s') :
    Prog.wp (m >>= f) Q E s :=
  Prog.wp_bind.mpr ((hm.wp s hs).mono (fun a s' h => hk a s' h.1 h.2) hE)

lemma Yields.ite {c : Prop} [Decidable c] {n : Prog ε σ α} (hm : c → Yields I V m)
    (hn : ¬ c → Yields I V n) : Yields I V (if c then m else n) := by
  by_cases hc : c
  · rw [if_pos hc]; exact hm hc
  · rw [if_neg hc]; exact hn hc

end Yields

-- from here on `wp` is computed by its rules only, never by running the program
attribute [irreducible] wp

/-! ## The flat order -/

/-- `m` does not finish, or does exactly what `n` does. -/
def Below (m n : Prog ε σ α) : Prop := ∀ s, m s = .diverge ∨ m s = n s

section Below

variable {n : Prog ε σ α} {g : α → Prog ε σ β}

lemma Below.refl (m : Prog ε σ α) : Below m m := fun _ => .inr rfl

lemma Below.trans {l : Prog ε σ α} (h1 : Below l m) (h2 : Below m n) : Below l n := by
  intro s
  rcases h1 s with h | h
  · exact .inl h
  · rcases h2 s with h' | h'
    · exact .inl (h.trans h')
    · exact .inr (h.trans h')

lemma Below.diverging (m : Prog ε σ α) : Below diverging m := fun _ => .inl rfl

lemma Below.eq_of_ne_diverge (h : Below m n) (hs : m s ≠ .diverge) : m s = n s := (h s).resolve_left hs

lemma Below.eq_of_ok {a : α} (h : Below m n) (hm : m s = .ok a s') : n s = .ok a s' := by
  rw [← h.eq_of_ne_diverge (by simp [hm]), hm]

lemma Below.returns {P : α → σ → Prop} (h : Below m n) (hm : ∃ a s', m s = .ok a s' ∧ P a s') :
    m s = n s ∧ ∃ a s', n s = .ok a s' ∧ P a s' := by
  obtain ⟨a, s', hok, hP⟩ := hm
  exact ⟨hok.trans (h.eq_of_ok hok).symm, a, s', h.eq_of_ok hok, hP⟩

lemma Below.bind (hm : Below m n) (hf : ∀ a, Below (f a) (g a)) : Below (m >>= f) (n >>= g) := by
  intro s
  rw [bind_apply, bind_apply]
  rcases hm s with h | h
  · left; rw [h]
  · rw [← h]
    cases m s with
    | ok a s' => exact hf a s'
    | err e s' | diverge => exact .inr rfl

lemma Below.catching {h h' : ε → Prog ε σ α} (hm : Below m n)
    (hh : ∀ e, Below (h e) (h' e)) : Below (catching m h) (catching n h') := by
  intro s
  simp only [Prog.catching]
  rcases hm s with hs | hs
  · left; rw [hs]
  · rw [← hs]
    cases m s with
    | ok a s' => exact .inr rfl
    | err e s' => exact hh e s'
    | diverge => exact .inr rfl

lemma Below.ensuring {c : Prog ε σ Unit} (hm : Below m n) : Below (ensuring m c) (ensuring n c) := by
  intro s
  simp only [Prog.ensuring]
  rcases hm s with hs | hs
  · left; rw [hs]
  · right; rw [hs]

lemma Below.zoom {m n : Prog ε τ α}
    (hm : Below m n) : Below (zoom view update m) (zoom view update n) := by
  intro s
  simp only [Prog.zoom]
  rcases hm (view s) with hs | hs
  · left; rw [hs]
  · right; rw [hs]

lemma Below.ite {c : Prop} [Decidable c] {m' n' : Prog ε σ α} (h1 : Below m n) (h2 : Below m' n') :
    Below (if c then m else m') (if c then n else n') := by
  by_cases hc : c <;> simp only [hc, if_true, if_false] <;> assumption

lemma Below.asserting (p : σ → Bool) (m : Prog ε σ α) : Below (do Prog.asserting p; m) m := by
  intro s
  rw [bind_apply]
  by_cases hp : p s = true
  · right; simp [Prog.asserting, hp]
  · left; simp [Prog.asserting, hp]

lemma Below.strict (m : Prog ε σ α) : Below (Prog.strict m) m := by
  intro s
  unfold Prog.strict
  cases m s with
  | ok a s' => exact .inr rfl
  | err e s' | diverge => exact .inl rfl

lemma Below.loop {step step' : Prog ε σ (Option α)} (hstep : Below step step') :
    ∀ {fuel fuel' : Nat}, fuel ≤ fuel' → Below (loop step fuel) (loop step' fuel')
  | 0, _, _ => Below.diverging _
  | fuel + 1, 0, h => absurd h (Nat.not_succ_le_zero fuel)
  | fuel + 1, fuel' + 1, h => by
      refine Below.bind hstep fun r => ?_
      cases r with
      | some a => exact Below.refl _
      | none => exact Below.loop hstep (Nat.le_of_succ_le_succ h)

end Below

end Prog

end Imperative
