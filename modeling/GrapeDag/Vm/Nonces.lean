/-
NONCES NEVER FALL, AND A MESSAGE RUNS ONCE.

The nonce of the sender is raised by `executeContract` before a call and by `create` for a
deployment, in both cases OUTSIDE of every checkpoint. `preCheck` is meant to refuse senders
that have code, but the stored code hash is always that of the empty string: a contract does
pass for a sender, and its code may create.

Main results: `nonce_raised_once` and `nonces_never_fall`.
-/
import GrapeDag.Vm.Invariants
import GrapeDag.Vm.Message

namespace GrapeDag

open Imperative Prog World

/-! ## Nonces never fall -/

def nonceIn (accounts : Address → Option StoredAccount) (x : Address) : Int :=
  match accounts x with
  | none => 0
  | some account => wrap64 account.nonce

namespace World

lemma getNonce_eq {w : World} {a : Address} {account : StoredAccount}
    (h : w.getAccount a = some account) : w.getNonce a = wrap64 account.nonce := by
  unfold getNonce
  rw [h]

lemma getNonce_putAccount (w : World) (a x : Address) (account : StoredAccount) :
    (w.putAccount a account).getNonce x = if x = a then wrap64 account.nonce else w.getNonce x := by
  unfold getNonce
  rw [getAccount_putAccount]
  by_cases h : x = a
  · rw [if_pos h, if_pos h]
  · rw [if_neg h, if_neg h]

def raiseNonce (a : Address) (account : StoredAccount) (w : World) : World :=
  w.putAccount a { account with nonce := wrap64 (wrap64 account.nonce + 1) }

end World

lemma wrap64_raised {account : StoredAccount} (h : IsLong (wrap64 account.nonce + 1)) :
    wrap64 (wrap64 (wrap64 account.nonce + 1)) = wrap64 account.nonce + 1 := by
  rw [wrap64_of_isLong h, wrap64_of_isLong h]

/-- Only a create changes a nonce, by raising it: a property of the nonce of `x` that survives
the creates of `x` survives every run. -/
theorem nonces_stable {m : Machine} {g : Guard} {x : Address} {p : Int → Prop}
    (hraise : ∀ a w, g.create a w = true → a.caller.address = x → p (w.getNonce x) → p (w.getNonce x + 1)) :
    StableAccounts m g (fun _ => True) (fun acc => p (nonceIn acc x)) := by
  -- writing an account with the nonce it had
  have hput : ∀ {w : World} {y : Address} {account : StoredAccount},
      w.getNonce y = wrap64 account.nonce → p (w.getNonce x) →
      p ((w.putAccount y account).getNonce x) := by
    intro w y account hsame hp
    rw [getNonce_putAccount]
    by_cases hx : x = y
    · rw [if_pos hx, ← hsame, ← hx]
      exact hp
    · rw [if_neg hx]
      exact hp
  have hkeep : ∀ {w : World} {y : Address} {account account' : StoredAccount},
      w.getAccount y = some account → account'.nonce = account.nonce → p (w.getNonce x) →
      p ((w.putAccount y account').getNonce x) := by
    intro w y account account' hacc hnonce hp
    refine hput ?_ hp
    rw [getNonce_eq hacc, hnonce]
  refine ⟨fun _ => trivial, ?_, ?_, ?_, ?_, ?_, ?_⟩
  · intro chain f w beneficiary account _ _ _ _ hacc hp
    exact hkeep hacc rfl hp
  · intro w a habs hp
    refine hput ?_ hp
    unfold getNonce
    rw [habs]
    rfl
  · intro source target value w w' _ hmoved hp
    obtain ⟨s, t, hs, ht, rfl⟩ := hmoved.moved
    exact hkeep ht rfl (hkeep hs rfl hp)
  · intro chain a w account _ hg _ hacc hfits hp
    show p ((w.raiseNonce a.caller.address account).getNonce x)
    unfold raiseNonce
    rw [getNonce_putAccount]
    by_cases hx : x = a.caller.address
    · rw [if_pos hx, wrap64_raised hfits, ← getNonce_eq hacc, ← hx]
      exact hraise a w hg hx.symm hp
    · rw [if_neg hx]
      exact hp
  · intro chain a w0 w _ hfresh hp
    exact hput hfresh.nonce hp
  · intro chain b a w0 w w1 w2 account code _ _ _ _ hacc hp
    exact hkeep hacc rfl hp

lemma Hist.getNonce_le {m : Machine} {g : Guard} {chain : List Address} {b : Bool}
    {w w' : World} (h : Hist m g chain b w w') (x : Address) : w.getNonce x ≤ w'.getNonce x := by
  have hstable : StableAccounts m g (fun _ => True) (fun acc => w.getNonce x ≤ nonceIn acc x) :=
    nonces_stable (p := fun k => w.getNonce x ≤ k) fun _ _ _ _ hle => by omega
  exact h.keeps hstable.stable trivial (le_refl (nonceIn w.getAccount x))

/-! ## The run of a message -/

section

variable {m : Machine} {g : Guard} {msg : Message} {w : World} {account : StoredAccount}

lemma Purchases.sender_account (h : Purchases msg w) :
    ∃ account, (debited msg w).getAccount msg.sender = some account ∧
      wrap64 account.nonce = w.getNonce msg.sender := by
  obtain ⟨hsome, hnonce⟩ := getAccount_credit (a := msg.sender) (-msg.want) w msg.sender
  obtain ⟨account, hacc⟩ := Option.isSome_iff_exists.mp (hsome.trans h.account)
  exact ⟨account, hacc, (getNonce_eq hacc).symm.trans hnonce⟩

lemma wp_executeContract_nonce (n : Nat) (gas : Int)
    (hro : w.readOnly = false) (hfunds : refusal m msg.sender msg.amount w = none)
    (hacc : w.getAccount msg.sender = some account)
    (hfits : IsLong (wrap64 account.nonce + 1)) :
    wp (executeContract (vmGuarded m g n) msg gas)
      (fun _ w' => Hist m g [msg.sender] false (w.raiseNonce msg.sender account) w')
      (fun _ _ => False) w := by
  refine wp_executeContract (fun _ => ?_) fun receiver _ w1 hw1 => ?_
  · cases n with
    | zero => exact wp_diverging.mpr trivial
    | succ n =>
      refine Guard.wp_step fun hg => ?_
      exact (vm_recorded n).wp_create_of_account n hg hro hfunds hacc hfits
  · have hraised : w1 = w.raiseNonce msg.sender account := by
      rcases hw1 with ⟨hnone, _⟩ | ⟨account', hacc', rfl⟩
      · rw [hacc] at hnone
        cases hnone
      · obtain rfl := Option.some.inj (hacc.symm.trans hacc')
        rw [getNonce_eq hacc, wrap64_of_isLong hfits]
        rfl
    have hrec := vm_recorded (m := m) (g := g) n
    rw [hraised]
    have hlegal : (w.raiseNonce msg.sender account).readOnly = true →
        CallKind.call = .call → msg.amount = 0 := by
      intro htrue
      rw [show (w.raiseNonce msg.sender account).readOnly = w.readOnly from rfl, hro] at htrue
      cases htrue
    exact (hrec.executeCall ⟨.call, msg.caller, receiver, msg.data, gas, msg.amount⟩ _
      hlegal).post (fun _ _ h => h.1)

end

/-! ## Replay protection -/

/-- The sender creates nothing once its nonce is raised: the only create in its name is that of a
deployment message itself. -/
def nonceGuard (msg : Message) : Guard where
  instruction _ := true
  call _ _ := true
  create a w := a.caller.address = msg.sender → w.getNonce msg.sender = msg.nonce

lemma Hist.getNonce_sender {m : Machine} {msg : Message} {chain : List Address} {b : Bool}
    {w w' : World} (h : Hist m (nonceGuard msg) chain b w w')
    (hw : w.getNonce msg.sender = msg.nonce + 1) : w'.getNonce msg.sender = msg.nonce + 1 := by
  have hstable : StableAccounts m (nonceGuard msg) (fun _ => True)
      (fun acc => nonceIn acc msg.sender = msg.nonce + 1) := by
    refine nonces_stable (p := fun k => k = msg.nonce + 1) fun a w hg hcaller hraised => ?_
    have hnonce := of_decide_eq_true hg hcaller
    omega
  exact h.keeps hstable.stable trivial hw

lemma apply_nonce_refused {x : Execution} {calls : Calls} {msg : Message} {w : World}
    (hfake : msg.fake = false) (hnonce : w.getNonce msg.sender ≠ msg.nonce) :
    ∃ e, apply x calls msg w = .err e w := by
  refine checks_apply.fail fun hbuys => ?_
  rcases hbuys.sender with hsimulated | ⟨hsame, _⟩
  · rw [hfake] at hsimulated
    cases hsimulated
  · exact hnonce hsame

/-- **AN ACCEPTED MESSAGE RAISES THE SENDER'S NONCE BY EXACTLY ONE**, and is refused afterwards, if
the sender itself creates nothing while the contract runs. -/
theorem nonce_raised_once (x : Execution) (timestamp : Int) (hcfg : x.cfg = configAt timestamp)
    (n : Nat) (msg : Message) (s : Storage) (r : MessageResult) (w' : World)
    (hfake : msg.fake = false) (hmax : msg.nonce < 2 ^ 63 - 1)
    (hmeets : ApplyMeets x (nonceGuard msg) n msg (World.start s))
    (haccepted : apply x (vm (x.machine msg) n) msg (World.start s) = .ok r w') :
    w'.getNonce msg.sender = msg.nonce + 1 ∧
      ∀ (x' : Execution) (calls : Calls), ∃ e, apply x' calls msg (World.start w'.storage)
        = .err e (World.start w'.storage) := by
  have hs : x.cfg.Sound := hcfg ▸ configAt_sound timestamp
  obtain ⟨hbuys, hstarts, gas, result, w2, _, _, hexec, _, rfl, _⟩ :=
    apply_accepted hs (hmeets.trans haccepted)
  have hnonce : (start s).getNonce msg.sender = msg.nonce := by
    rcases hbuys.sender with hsimulated | hfits
    · rw [hfake] at hsimulated
      cases hsimulated
    · exact hfits.1
  obtain ⟨account, hacc, hfrom⟩ := hbuys.sender_account
  rw [hnonce] at hfrom
  have hfits : IsLong (wrap64 account.nonce + 1) := by
    have := msg.nonce_nonneg
    omega
  have hran := (wp_executeContract_nonce (g := nonceGuard msg) n gas (readOnly_credit _ _)
    (hstarts.refusal (debited_depth_le x hcfg msg s)) hacc hfits).of_ok hexec
  have hraised : ((debited msg (start s)).raiseNonce msg.sender account).getNonce msg.sender
      = msg.nonce + 1 := by
    unfold raiseNonce
    rw [getNonce_putAccount, if_pos rfl, wrap64_raised hfits, hfrom]
  have hfinal : (settled x msg result w2).getNonce msg.sender = msg.nonce + 1 := by
    rw [getNonce_settled]
    exact hran.getNonce_sender hraised
  refine ⟨hfinal, fun x' calls => apply_nonce_refused hfake fun hagain => ?_⟩
  have hagain : (settled x msg result w2).getNonce msg.sender = msg.nonce := hagain
  omega

/-- Create a contract from empty init code: `PUSH1 0` three times, `CREATE`. -/
def createCode : Bytes := [0x60, 0, 0x60, 0, 0x60, 0, 0xf0]

def Message.sampleSelf : Message := { Message.sample 100000 with sender := 500 }

/-- A sender that has code calls itself and creates: its nonce goes from 0 to 2. -/
theorem nonce_raised_twice :
    ∃ r w', apply .sample (vm (Execution.sample.machine .sampleSelf) 8) .sampleSelf
        (World.start (.sample 1000000 createCode)) = .ok r w' ∧
      w'.getNonce 500 = 2 := by
  decide +kernel

theorem nonce_raised_by_contract :
    ∃ r w', apply .sample (vm (Execution.sample.machine (.sample 100000)) 8) (.sample 100000)
        (World.start (.sample 5 createCode)) = .ok r w' ∧
      w'.getNonce 1 = 1 := by
  let m := Execution.sample.machine (.sample 100000)
  obtain ⟨hmeets, r, w', hrun, -⟩ :=
    (apply_below .sample (vmGuarded_below m (nonceGuard (.sample 100000)) 8) (.sample 100000)).returns
      (s := start (.sample 5 createCode)) (P := fun _ _ => True) (by decide +kernel)
  have hraised := nonce_raised_once .sample 1700000000 rfl 8 (.sample 100000) _ r w' rfl
    (by decide) hmeets hrun
  exact ⟨r, w', hrun, hraised.1⟩

/-- **NO FRAME LOWERS A NONCE**, whatever it runs and by whatever status or exception it ends. -/
theorem nonces_never_fall (m : Machine) (n : Nat) (w w' : World) (x : Address) :
    (∀ a : CallArgs, (w.readOnly = true → a.kind = .call → a.amount = 0) →
      ((vm m n).executeCall a w).state? = some w' → w.getNonce x ≤ w'.getNonce x) ∧
    (∀ a : CreateArgs, w.readOnly = false → ((vm m n).create a w).state? = some w' →
      w.getNonce x ≤ w'.getNonce x) := by
  refine ⟨fun a hlegal hrun => ?_, fun a hro hrun => ?_⟩
  · have hmeets : CallMeets m .any n a w := by rw [CallMeets, vmGuarded_any]
    exact (hmeets.hist hlegal hrun).getNonce_le x
  · have hmeets : CreateMeets m .any n a w := by rw [CreateMeets, vmGuarded_any]
    exact (hmeets.hist hro hrun).getNonce_le x

theorem creator_nonce_kept : ∃ w', ((vm .sample 8).executeCall (.sample 100000 0)
      (.sampleWith 0 createCode)).state? = some w' ∧ 0 ≤ w'.getNonce 500 :=
  (Option.isSome_iff_exists.mp (by decide +kernel)).imp fun w' hrun =>
    ⟨hrun, (nonces_never_fall .sample 8 _ w' 500).1 _ (fun _ _ => rfl) hrun⟩

end GrapeDag
