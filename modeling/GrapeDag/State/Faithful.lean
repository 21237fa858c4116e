/-
WHEN THE CACHE ANSWERS AS THE STORE WOULD.

The cache and the store are given the same operations. The store journals. The cache does not,
and it differs from the store in more than that:

  * a look at the balance or nonce of an absent account makes it EXIST;
  * a created account still shows the code it had on the server;
  * the hash of a code is the hash of the code, where the store answers with the hash it has;
  * a copied account is never empty, its storage root being 32 zero bytes;
  * the committed value of a slot is the server's, where the store answers with the current one;
  * a destroyed account shows what the server has.

`Within` says what an operation must not run into, and under it every answer is the same.

Main result: `faithful_within`.
-/
import GrapeDag.State.Overlay

namespace GrapeDag

open Imperative Simulation Storage Prog StateServerDei InMemoryStateAccess FinMap

/-! ## Runs of operations -/

/-- The answers to a run of operations, exceptions included. -/
def answers {σ : Type} (perform : StateOp → Java σ Reply) : List StateOp → Java σ (List Answer)
  | [] => return []
  | op :: ops => do
      let answer ← answering (perform op)
      let rest ← answers perform ops
      return answer :: rest

/-- The answers of the cache over a server and of a store that starts as the server are the same. -/
def Faithful (crypto : CryptoLib) (txHash : Bytes) (server : Storage) (ops : List StateOp) : Prop :=
  ∃ as s m, answers (StateServerDei.perform crypto txHash) ops server = .ok as s ∧
    answers (CachedReadStateAccess.perform crypto) ops (Simulation.start server) = .ok as m

/-! ## The condition on an operation -/

/-- What the client answers for the code. -/
def Storage.codeAt (s : Storage) (a : Address) : Bytes := (World.start s).getContractCode a

/-- Balance and nonce of an account. -/
def Storage.funds (s : Storage) (a : Address) : Option (Int × Int) :=
  (s.getAccount a).map fun acc => (acc.balance, wrap64 acc.nonce)

/-- The balance or nonce of the address has been asked for. -/
def LookedUp (past : List StateOp) (a : Address) : Prop := .getBalance a ∈ past ∨ .getNonce a ∈ past

/-- What an operation must not run into, after the operations `past` have led the store from
`server` to `s`. -/
def Within (crypto : CryptoLib) (server : Storage) (past : List StateOp) (s : Storage) :
    StateOp → Prop
  | .isAccountExists a => LookedUp past a → (s.getAccount a).isSome = true
  | .createAccount a => s.codeAt a = [] ∧ ∀ k, s.getValue a k = Storage.rawValue s.mappings a k
  | .accountIsEmpty a => ∀ balance nonce, s.funds a = some (balance, nonce) → balance ≠ 0 ∨ nonce ≠ 0
  | .getBalance _ => True
  | .addBalance a _ => (s.getAccount a).isSome = true
  | .subBalance a amount => ∃ acc, s.getAccount a = some acc ∧ amount ≤ acc.balance
  | .getNonce _ => True
  | .setNonce a nonce => (s.getAccount a).isSome = true ∧ IsLong nonce
  | .putContractCode a data =>
      (s.getAccount a).isSome = true ∧ (data = [] → s.codeAt a = [])
  | .getContractCode _ | .getContractCodeSize _ => True
  | .getContractCodeHash a => (World.start s).getContractCodeHash a
      = if (s.codeAt a).length = 0 then keccak256Null else crypto.keccak256 (s.codeAt a)
  | .getContractStorage a key => (s.getValue a key).length ≤ 32
  | .getCommittedContractStorage a key => s.getValue a key = server.getValue a key
  | .putContractStorage a _ data => (s.getAccount a).isSome = true ∧ data.length ≤ 32
  | .getBlockHash _ | .checkpoint => True
  | .commit => s.checkPoints ≠ []
  -- nothing has been written since the checkpoint
  | .revert => s.checkPoints.head? = some s.modifications.length
  | .saveLog logs => ∀ l ∈ logs, IsLong l.block
  | .hasSuicided a => .suicide a ∉ past
  | .suicide a => s.funds a = server.funds a

/-- The store after an operation. -/
def StateServerDei.after (crypto : CryptoLib) (txHash : Bytes) (op : StateOp) (s : Storage) :
    Storage := ((perform crypto txHash op s).state?).getD s

/-- Every operation of the run meets the condition. -/
def WithinAll (crypto : CryptoLib) (txHash : Bytes) (server : Storage) :
    List StateOp → List StateOp → Storage → Prop
  | _, [], _ => True
  | past, op :: ops, s => Within crypto server past s op ∧
      WithinAll crypto txHash server (op :: past) ops (StateServerDei.after crypto txHash op s)

/-! ## The simulation relation -/

def Simulation.cachedCode (m : Simulation) (a : Address) : Bytes := m.cache.contracts.getD a []

/-- What a cached account shows is the store's; an absent one was looked up. -/
def Shows (past : List StateOp) (s : Storage) (a : Address) (account : VmAccount) : Prop :=
  (∀ acc, s.getAccount a = some acc → account.balance = acc.balance ∧ account.nonce = wrap64 acc.nonce) ∧
  (s.getAccount a = none → account = .new a 0 0 ∧ LookedUp past a)

/-- The references of the cache are allocated, and no two addresses share an object. -/
structure Tidy (m : Simulation) : Prop where
  allocated : ∀ a r, m.cache.accounts.lookup a = some r → r < m.allocated
  apart : ∀ a b r, m.cache.accounts.lookup a = some r → m.cache.accounts.lookup b = some r → a = b

/-- THE MIRROR: server and cache together show the store. -/
structure Mirrors (server : Storage) (past : List StateOp) (m : Simulation) (s : Storage) : Prop
    extends Tidy m where
  server_eq : m.server = server
  cached : ∀ a r, m.cache.accounts.lookup a = some r → Shows past s a (m.objects r)
  uncached : ∀ a, m.cache.accounts.lookup a = none → s.funds a = server.funds a
  code : ∀ a, s.codeAt a = if m.cachedCode a = [] then server.codeAt a else m.cachedCode a
  slot : ∀ a k, s.getValue a k = (m.cache.localStorage.lookup (a, k)).getD (server.getValue a k)
  suicided : ∀ a ∈ m.cache.suicidedAddresses, .suicide a ∈ past

lemma mirrors_start (server : Storage) : Mirrors server [] (start server) server where
  allocated := nofun
  apart := nofun
  server_eq := rfl
  cached := nofun
  uncached _ _ := rfl
  code _ := rfl
  slot _ _ := rfl
  suicided := nofun

section

variable {server s s' : Storage} {past : List StateOp} {m : Simulation} {a x : Address} {r : Nat}

variable {acc : StoredAccount} {account : VmAccount} {nonce : Int} {data : Bytes} {key : Word}

lemma Shows.of_some (hacc : s.getAccount a = some acc)
    (hbalance : account.balance = acc.balance) (hnonce : account.nonce = wrap64 acc.nonce) :
    Shows past s a account := by
  unfold Shows
  rw [hacc]
  exact ⟨fun _ heq => Option.some.inj heq ▸ ⟨hbalance, hnonce⟩, nofun⟩

lemma Shows.congr (h : Shows past s a account) (hget : s'.getAccount a = s.getAccount a) :
    Shows past s' a account := by
  unfold Shows
  rwa [hget]

lemma Shows.later (h : Shows past s a account) (op : StateOp) : Shows (op :: past) s a account :=
  ⟨h.1, fun hnone => ⟨(h.2 hnone).1,
    (h.2 hnone).2.imp (List.mem_cons_of_mem op) (List.mem_cons_of_mem op)⟩⟩

/-! ## Accounts of the store -/

namespace Storage

lemma funds_congr (h : s'.getAccount x = s.getAccount x) : s'.funds x = s.funds x := by
  unfold funds
  rw [h]

lemma funds_eq_some {balance : Int} : s.funds a = some (balance, nonce)
      ↔ ∃ acc, s.getAccount a = some acc ∧ acc.balance = balance ∧ wrap64 acc.nonce = nonce := by
  unfold funds
  simp

lemma codeAt_congr (h : s'.getAccount x = s.getAccount x) : s'.codeAt x = s.codeAt x := by
  have hacc : (World.start s').getAccount x = (World.start s).getAccount x := h
  unfold codeAt World.getContractCode
  rw [hacc]

lemma codeAt_of_some (h : s.getAccount a = some acc) : s.codeAt a = acc.code := by
  have hacc : (World.start s).getAccount a = some acc := h
  unfold codeAt World.getContractCode
  rw [hacc]

lemma getValue_putAccount (acc : StoredAccount) (x : Address) (k : Word)
    (h : s.getValue a k = rawValue s.mappings a k) :
    (s.putAccount a acc).getValue x k = s.getValue x k := by
  unfold getValue
  rw [getAccount_putAccount, rawValue_putAccount]
  by_cases hx : x = a
  · subst hx
    rw [if_pos rfl]
    exact h.symm
  · rw [if_neg hx]

lemma getValue_of_some (h : s.getAccount a = some acc) (k : Word) :
    s.getValue a k = rawValue s.mappings a k := by
  unfold getValue
  rw [h]

/-- The server's answer to `getAccount`. -/
def answered (s : Storage) (a : Address) : VmAccount :=
  match s.getAccount a with
  | some acc => ⟨a, wrap64 acc.nonce, acc.balance, [], acc.codeHash⟩
  | none => .new a 0 0

end Storage

lemma accountIsEmpty_of_funds {balance : Int} (h : s.funds a = some (balance, nonce))
    (hne : balance ≠ 0 ∨ nonce ≠ 0) : (World.start s).accountIsEmpty a = false := by
  obtain ⟨acc, hacc, rfl, rfl⟩ := funds_eq_some.mp h
  have hget : (World.start s).getAccount a = some acc := hacc
  unfold World.accountIsEmpty
  rw [hget]
  refine decide_eq_false ?_
  rintro ⟨hbalance, -, hnonce⟩
  exact hne.elim (· hbalance) (· hnonce)

lemma accountIsEmpty_of_absent (h : s.funds a = none) : (World.start s).accountIsEmpty a = true := by
  have hget : (World.start s).getAccount a = none := Option.map_eq_none_iff.mp h
  unfold World.accountIsEmpty
  rw [hget]

lemma call_rpc {n : Go Storage Unit} (h : n s = .ok () s') : call (World.rpc n) s = .ok () s' := by
  unfold call zoom World.rpc
  rw [show (World.start s).storage = s from rfl, h]

lemma call_update (hacc : s.getAccount a = some acc) (f : StoredAccount → StoredAccount) :
    call (World.rpc (updateAccount a f)) s = .ok () (s.putAccount a (f acc)) :=
  call_rpc (updateAccount_ok hacc f)

/-! ## Accounts of the cache -/

namespace Simulation

/-- A new object for the account of an address. -/
def adopted (m : Simulation) (a : Address) (account : VmAccount) : Simulation := { m with
    objects := Function.update m.objects m.allocated account
    allocated := m.allocated + 1
    cache := { m.cache with accounts := m.cache.accounts.insert a m.allocated } }

def withSlot (m : Simulation) (a : Address) (key : Word) (data : Bytes) : Simulation :=
  { m with cache := { m.cache with localStorage := m.cache.localStorage.insert (a, key) data } }

lemma objects_adopted (h : r < m.allocated) : (m.adopted a account).objects r = m.objects r :=
  Function.update_of_ne (Nat.ne_of_lt h) _ _

lemma lookup_adopted_eq_some {q : Nat} : (m.adopted a account).cache.accounts.lookup x = some q ↔
      x = a ∧ m.allocated = q ∨ x ≠ a ∧ m.cache.accounts.lookup x = some q := by
  unfold adopted
  rw [lookup_insert_eq_ite]
  by_cases hx : x = a <;> simp [hx]

lemma lookup_adopted_eq_none (h : (m.adopted a account).cache.accounts.lookup x = none) :
    x ≠ a ∧ m.cache.accounts.lookup x = none := by
  unfold adopted at h
  rw [lookup_insert_eq_ite] at h
  by_cases hx : x = a <;> simp_all

end Simulation

lemma Tidy.adopted (h : Tidy m) : Tidy (m.adopted a account) := by
  refine ⟨fun x q hq => ?_, fun x y q hx hy => ?_⟩
  · rcases lookup_adopted_eq_some.mp hq with ⟨-, rfl⟩ | ⟨-, hold⟩
    · exact Nat.lt_succ_self _
    · exact Nat.lt_succ_of_lt (h.allocated x q hold)
  -- the new reference is above all the old ones
  rcases lookup_adopted_eq_some.mp hx with ⟨rfl, rfl⟩ | ⟨-, hxq⟩
  · rcases lookup_adopted_eq_some.mp hy with ⟨rfl, -⟩ | ⟨-, hyq⟩
    · rfl
    · exact absurd (h.allocated y _ hyq) (lt_irrefl _)
  · rcases lookup_adopted_eq_some.mp hy with ⟨-, rfl⟩ | ⟨-, hyq⟩
    · exact absurd (h.allocated x _ hxq) (lt_irrefl _)
    · exact h.apart x y q hxq hyq

lemma Tidy.of_subset (h : Tidy m) {accounts : FinMap Address Nat} (hsub : ∀ x r,
    accounts.lookup x = some r → m.cache.accounts.lookup x = some r) :
    Tidy { m with cache := { m.cache with accounts := accounts } } :=
  ⟨fun x r hx => h.allocated x r (hsub x r hx),
    fun x y r hx hy => h.apart x y r (hsub x r hx) (hsub y r hy)⟩

lemma lookup_putBack (hr : m.cache.accounts.lookup a = some r) (x : Address) :
    (m.cache.accounts.insert a r).lookup x = m.cache.accounts.lookup x := by
  rw [lookup_insert_eq_ite]
  by_cases hx : x = a
  · rw [if_pos hx, hx, hr]
  · rw [if_neg hx]

lemma lookup_of_erase {q : Nat} (h : (m.cache.accounts.erase a).lookup x = some q) :
    m.cache.accounts.lookup x = some q := by
  rw [lookup_erase_eq_ite] at h
  by_cases hx : x = a <;> simp_all

lemma isAccountExists_apply : isAccountExists a m = .ok (m.cache.accounts.lookup a).isSome m := rfl

lemma lookup_apply (hr : m.cache.accounts.lookup a = some r) : lookup a m = .ok r m := by
  unfold lookup
  rw [gets_bind, hr]
  rfl

lemma getAccount_of_cached (hr : m.cache.accounts.lookup a = some r) :
    CachedReadStateAccess.getAccount a m = .ok r m := by
  unfold CachedReadStateAccess.getAccount InMemoryStateAccess.getAccount
  rw [bind_of_ok isAccountExists_apply, hr, Option.isSome_some, if_pos rfl,
    bind_of_ok isAccountExists_apply, hr]
  exact lookup_apply hr

lemma getAccount_of_uncached (hr : m.cache.accounts.lookup a = none) :
    CachedReadStateAccess.getAccount a m = .ok m.allocated (m.adopted a (m.server.answered a).copy) := by
  unfold CachedReadStateAccess.getAccount
  rw [bind_of_ok isAccountExists_apply, hr]
  rfl

lemma putSlot_apply (hlen : data.length ≤ 32) :
    putContractStorage a key data m = .ok () (m.withSlot a key data) := by
  unfold putContractStorage
  rw [if_neg (by omega)]
  rfl

/-! ## Writing on both sides -/

variable {crypto : CryptoLib} {txHash : Bytes}

/-- Both sides give the same reply to an operation, and end in mirrored states. -/
def Matched (crypto : CryptoLib) (txHash : Bytes) (server : Storage) (past : List StateOp)
    (m : Simulation) (s : Storage) (op : StateOp) : Prop :=
  ∃ reply s' m', StateServerDei.perform crypto txHash op s = .ok reply s' ∧
    CachedReadStateAccess.perform crypto op m = .ok reply m' ∧
    Mirrors server (op :: past) m' s'

variable (h : Mirrors server past m s)

include h

lemma Mirrors.later (op : StateOp) : Mirrors server (op :: past) m s := { h with
    cached := fun a r hr => (h.cached a r hr).later op
    suicided := fun a ha => List.mem_cons_of_mem op (h.suicided a ha) }

lemma Mirrors.adopt (hshows : Shows past s' a account)
    (haccount : ∀ x, x ≠ a → s'.getAccount x = s.getAccount x) (hcode : s'.codeAt a = s.codeAt a)
    (hslot : ∀ x k, s'.getValue x k = s.getValue x k) :
    Mirrors server past (m.adopted a account) s' := by
  refine ⟨h.adopted, h.server_eq, fun x q hq => ?_, fun x hx => ?_, fun x => ?_, fun x k => ?_,
    h.suicided⟩
  · rcases lookup_adopted_eq_some.mp hq with ⟨rfl, rfl⟩ | ⟨hx, hold⟩
    · have hobject : (m.adopted x account).objects m.allocated = account :=
        Function.update_self _ _ _
      rw [hobject]
      exact hshows
    · rw [objects_adopted (h.allocated x q hold)]
      exact (h.cached x q hold).congr (haccount x hx)
  · obtain ⟨hne, hold⟩ := lookup_adopted_eq_none hx
    rw [funds_congr (haccount x hne)]
    exact h.uncached x hold
  · by_cases hx : x = a
    · rw [hx, hcode]
      exact h.code a
    · rw [codeAt_congr (haccount x hx)]
      exact h.code x
  · rw [hslot]
    exact h.slot x k

lemma Mirrors.write (hr : m.cache.accounts.lookup a = some r)
    {acc' : StoredAccount} (hacc : s.getAccount a = some acc)
    (hbalance : account.balance = acc'.balance) (hnonce : account.nonce = wrap64 acc'.nonce)
    (hcode : acc'.code = acc.code) :
    Mirrors server past { m with objects := Function.update m.objects r account } (s.putAccount a acc') := by
  have hself : (s.putAccount a acc').getAccount a = some acc' := getAccount_putAccount_self ..
  have hother : ∀ x, x ≠ a → (s.putAccount a acc').getAccount x = s.getAccount x :=
    fun x hx => (getAccount_putAccount ..).trans (if_neg hx)
  refine ⟨⟨h.allocated, h.apart⟩, h.server_eq, fun x q hq => ?_, fun x hx => ?_, fun x => ?_,
    fun x k => ?_, h.suicided⟩
  · by_cases hx : x = a
    · subst hx
      obtain rfl := Option.some.inj (hr.symm.trans hq)
      show Shows past _ x (Function.update m.objects r account r)
      rw [Function.update_self]
      exact .of_some hself hbalance hnonce
    · -- another address has another object
      have hne : q ≠ r := fun heq => hx (h.apart x a r (heq ▸ hq) hr)
      show Shows past _ x (Function.update m.objects r account q)
      rw [Function.update_of_ne hne]
      exact (h.cached x q hq).congr (hother x hx)
  · have hne : x ≠ a := by
      rintro rfl
      cases hr.symm.trans hx
    exact (funds_congr (hother x hne)).trans (h.uncached x hx)
  · refine Eq.trans ?_ (h.code x)
    by_cases hx : x = a
    · subst hx
      rw [codeAt_of_some hacc, codeAt_of_some hself, hcode]
    · exact codeAt_congr (hother x hx)
  · rw [getValue_putAccount acc' x k (getValue_of_some hacc k)]
    exact h.slot x k

lemma Mirrors.putBack (hr : m.cache.accounts.lookup a = some r) :
    Mirrors server past { m with cache := { m.cache with accounts := m.cache.accounts.insert a r } } s := by
  have hlookup := lookup_putBack hr
  exact ⟨h.of_subset fun x q hq => (hlookup x).symm.trans hq, h.server_eq,
    fun x q hq => h.cached x q ((hlookup x).symm.trans hq),
    fun x hx => h.uncached x ((hlookup x).symm.trans hx), h.code, h.slot, h.suicided⟩

/-! ## The account of an address in the cache -/

lemma Mirrors.shows_copy (hr : m.cache.accounts.lookup a = none)
    (hseen : s.getAccount a = none → LookedUp past a) :
    Shows past s a (m.server.answered a).copy := by
  have hfunds := h.uncached a hr
  rw [h.server_eq]
  refine ⟨fun acc hacc => ?_, fun hnone => ⟨?_, hseen hnone⟩⟩
  · -- the server has an account with the same balance and nonce
    rw [funds_eq_some.mpr ⟨acc, hacc, rfl, rfl⟩] at hfunds
    obtain ⟨found, hserver, hbalance, hnonce⟩ := funds_eq_some.mp hfunds.symm
    unfold answered
    rw [hserver]
    exact ⟨hbalance, hnonce⟩
  · unfold funds at hfunds
    rw [hnone] at hfunds
    have hserver : server.getAccount a = none := Option.map_eq_none_iff.mp hfunds.symm
    unfold answered
    rw [hserver]
    rfl

lemma Mirrors.getAccount (hseen : s.getAccount a = none → LookedUp past a) :
    ∃ r m', CachedReadStateAccess.getAccount a m = .ok r m' ∧
      m'.cache.accounts.lookup a = some r ∧ Mirrors server past m' s := by
  cases hr : m.cache.accounts.lookup a with
  | some r => exact ⟨r, m, getAccount_of_cached hr, hr, h⟩
  | none =>
    exact ⟨_, _, getAccount_of_uncached hr, AList.lookup_insert _,
      h.adopt (h.shows_copy hr hseen) (fun _ _ => rfl) rfl fun _ _ => rfl⟩

/-! ## One operation on both sides -/

lemma matched_isAccountExists (hseen : LookedUp past a → (s.getAccount a).isSome = true) :
    Matched crypto txHash server past m s (.isAccountExists a) := by
  refine ⟨.flag (s.getAccount a).isSome, s, m, rfl, bind_of_ok ?_, h.later _⟩
  unfold CachedReadStateAccess.isAccountExists
  rw [bind_of_ok isAccountExists_apply]
  cases hr : m.cache.accounts.lookup a with
  | some r =>
    have hsome : (s.getAccount a).isSome = true := by
      cases hacc : s.getAccount a with
      | some acc => rfl
      | none =>
        -- an absent account is in the cache only because it was looked up
        have hpresent := hseen ((h.cached a r hr).2 hacc).2
        rwa [hacc] at hpresent
    rw [hsome]
    rfl
  | none =>
    have hfunds : (s.funds a).isSome = (server.funds a).isSome := by rw [h.uncached a hr]
    unfold funds at hfunds
    rw [Option.isSome_map, Option.isSome_map] at hfunds
    rw [hfunds, ← h.server_eq]
    rfl

lemma matched_accountIsEmpty
    (hne : ∀ balance nonce, s.funds a = some (balance, nonce) → balance ≠ 0 ∨ nonce ≠ 0) :
    Matched crypto txHash server past m s (.accountIsEmpty a) := by
  refine ⟨.flag ((World.start s).accountIsEmpty a), s, m, rfl, bind_of_ok ?_, h.later _⟩
  unfold CachedReadStateAccess.accountIsEmpty
  rw [bind_of_ok isAccountExists_apply]
  cases hr : m.cache.accounts.lookup a with
  | some r =>
    rw [Option.isSome_some, if_pos rfl]
    unfold InMemoryStateAccess.accountIsEmpty
    rw [bind_of_ok (lookup_apply hr), gets_apply]
    cases hacc : s.getAccount a with
    | some acc =>
      have hfunds := funds_eq_some.mpr ⟨acc, hacc, rfl, rfl⟩
      rw [accountIsEmpty_of_funds hfunds (hne _ _ hfunds)]
      have hshown := (h.cached a r hr).1 acc hacc
      congr 1
      refine decide_eq_false ?_
      rw [hshown.1, hshown.2]
      rintro ⟨hnonce, hbalance, -⟩
      exact (hne _ _ hfunds).elim (· hbalance) (· hnonce)
    | none =>
      have hfunds : s.funds a = none := Option.map_eq_none_iff.mpr hacc
      rw [accountIsEmpty_of_absent hfunds, ((h.cached a r hr).2 hacc).1]
      rfl
  | none =>
    have hfunds := h.uncached a hr
    have hsame : (World.start server).accountIsEmpty a = (World.start s).accountIsEmpty a := by
      cases hs : s.funds a with
      | none => rw [accountIsEmpty_of_absent hs, accountIsEmpty_of_absent (hfunds ▸ hs)]
      | some funds =>
        have hwealth := hne funds.1 funds.2 hs
        rw [accountIsEmpty_of_funds hs hwealth, accountIsEmpty_of_funds (hfunds ▸ hs) hwealth]
    rw [← hsame, ← h.server_eq]
    rfl

/-! ## Balances and nonces -/

lemma Mirrors.object (hr : m.cache.accounts.lookup a = some r) :
    (m.objects r).balance = (World.start s).getBalance a ∧
      (m.objects r).nonce = (World.start s).getNonce a := by
  have hshows := h.cached a r hr
  unfold World.getBalance World.getNonce
  cases hacc : s.getAccount a with
  | some acc =>
    have hget : (World.start s).getAccount a = some acc := hacc
    rw [hget]
    exact hshows.1 acc hacc
  | none =>
    have hget : (World.start s).getAccount a = none := hacc
    rw [hget, (hshows.2 hacc).1]
    exact ⟨rfl, rfl⟩

lemma matched_getBalance : Matched crypto txHash server past m s (.getBalance a) := by
  obtain ⟨r, m', hget, hr, hm'⟩ := (h.later (.getBalance a)).getAccount
    fun _ => .inl List.mem_cons_self
  refine ⟨.number ((World.start s).getBalance a), s, m', rfl, bind_of_ok ?_, hm'⟩
  unfold CachedReadStateAccess.getBalance
  rw [bind_of_ok hget, gets_apply, (hm'.object hr).1]

lemma matched_getNonce : Matched crypto txHash server past m s (.getNonce a) := by
  obtain ⟨r, m', hget, hr, hm'⟩ := (h.later (.getNonce a)).getAccount
    fun _ => .inr List.mem_cons_self
  refine ⟨.number ((World.start s).getNonce a), s, m', rfl, bind_of_ok ?_, hm'⟩
  unfold CachedReadStateAccess.getNonce
  rw [bind_of_ok hget, gets_apply, (hm'.object hr).2]

lemma Mirrors.getExisting (op : StateOp) (hacc : s.getAccount a = some acc) :
    ∃ r m', CachedReadStateAccess.getAccount a m = .ok r m' ∧
      m'.cache.accounts.lookup a = some r ∧ Mirrors server (op :: past) m' s ∧
      (m'.objects r).balance = acc.balance ∧ (m'.objects r).nonce = wrap64 acc.nonce := by
  obtain ⟨r, m', hget, hr, hm'⟩ := (h.later op).getAccount (a := a) fun hnone =>
    nomatch hacc.symm.trans hnone
  exact ⟨r, m', hget, hr, hm', (hm'.cached a r hr).1 acc hacc⟩

/-- Both sides write the same balance. -/
lemma matched_balance {op : StateOp} {balance : Int} (hacc : s.getAccount a = some acc)
    (hserver : StateServerDei.perform crypto txHash op s
      = .ok .done (s.putAccount a { acc with balance := balance }))
    (hcache : ∀ r m', CachedReadStateAccess.getAccount a m = .ok r m' →
      (m'.objects r).balance = acc.balance → CachedReadStateAccess.perform crypto op m = .ok .done
        { m' with objects := Function.update m'.objects r { m'.objects r with balance := balance } }) :
    Matched crypto txHash server past m s op := by
  obtain ⟨r, m', hget, hr, hm', hbalance, hnonce⟩ := h.getExisting op hacc
  exact ⟨.done, _, _, hserver, hcache r m' hget hbalance, hm'.write hr hacc rfl hnonce rfl⟩

lemma matched_addBalance {amount : Int} (hsome : (s.getAccount a).isSome = true) :
    Matched crypto txHash server past m s (.addBalance a amount) := by
  obtain ⟨acc, hacc⟩ := Option.isSome_iff_exists.mp hsome
  refine matched_balance h hacc (bind_of_ok (call_update hacc _)) fun r m' hget hbalance => ?_
  rw [← hbalance]
  exact bind_of_ok (bind_of_ok hget)

lemma matched_subBalance {amount : Int} (hacc : s.getAccount a = some acc)
    (hcovered : amount ≤ acc.balance) :
    Matched crypto txHash server past m s (.subBalance a amount) := by
  refine matched_balance h hacc (bind_of_ok (call_update hacc _)) fun r m' hget hbalance => ?_
  refine bind_of_ok (a := ()) ?_
  unfold CachedReadStateAccess.subBalance
  rw [bind_of_ok hget, gets_bind, hbalance, if_neg (by omega)]
  rfl

lemma matched_setNonce (hsome : (s.getAccount a).isSome = true) (hlong : IsLong nonce) :
    Matched crypto txHash server past m s (.setNonce a nonce) := by
  obtain ⟨acc, hacc⟩ := Option.isSome_iff_exists.mp hsome
  obtain ⟨r, m', hget, hr, hm', hbalance, -⟩ := h.getExisting (.setNonce a nonce) hacc
  have hserver : call (World.setNonce a nonce) s
      = .ok () (s.putAccount a { acc with nonce := wrap64 nonce }) := by
    unfold call zoom World.setNonce World.rpcLogged catching World.rpc setNonce
    rw [show (World.start s).storage = s from rfl, updateAccount_ok hacc]
  have hset : CachedReadStateAccess.setNonce a nonce m = .ok () { m' with
      objects := Function.update m'.objects r { m'.objects r with nonce := nonce }
      cache := { m'.cache with accounts := m'.cache.accounts.insert a r } } := by
    unfold CachedReadStateAccess.setNonce
    rw [bind_of_ok hget]
    rfl
  refine ⟨.done, _, _, bind_of_ok hserver, bind_of_ok hset, ?_⟩
  have hkept : nonce = wrap64 (wrap64 nonce) := by
    rw [wrap64_of_isLong hlong, wrap64_of_isLong hlong]
  have hwritten : Mirrors server (.setNonce a nonce :: past)
      { m' with objects := Function.update m'.objects r { m'.objects r with nonce := nonce } }
      (s.putAccount a { acc with nonce := wrap64 nonce }) :=
    hm'.write hr hacc hbalance hkept rfl
  exact hwritten.putBack hr

lemma matched_createAccount (hcode : s.codeAt a = [])
    (hslots : ∀ k, s.getValue a k = rawValue s.mappings a k) :
    Matched crypto txHash server past m s (.createAccount a) := by
  refine ⟨.done, s.putAccount a .blank, m.adopted a (.new a 0 0), rfl, rfl, ?_⟩
  have hself : (s.putAccount a .blank).getAccount a = some .blank := getAccount_putAccount_self ..
  refine (h.later (.createAccount a)).adopt (.of_some hself rfl rfl) (fun x hx => ?_) ?_
    fun x k => getValue_putAccount .blank x k (hslots k)
  · rw [getAccount_putAccount, if_neg hx]
  · rw [hcode, codeAt_of_some hself]
    rfl

/-! ## Code and slots -/

lemma Mirrors.code_cached (hne : m.cachedCode a ≠ []) : s.codeAt a = m.cachedCode a := by
  rw [h.code a, if_neg hne]

lemma Mirrors.code_uncached (hempty : m.cachedCode a = []) : s.codeAt a = server.codeAt a := by
  rw [h.code a, if_pos hempty]

lemma Mirrors.putCode (haccounts : ∀ x, s'.funds x = s.funds x)
    (hexists : ∀ x, s'.getAccount x = none ↔ s.getAccount x = none)
    (hother : ∀ x, x ≠ a → s'.codeAt x = s.codeAt x)
    (hcode : s'.codeAt a = if data = [] then server.codeAt a else data)
    (hslot : ∀ x k, s'.getValue x k = s.getValue x k) :
    Mirrors server past
      { m with cache := { m.cache with contracts := m.cache.contracts.insert a data } } s' := by
  have hcached : ∀ x, cachedCode
      { m with cache := { m.cache with contracts := m.cache.contracts.insert a data } } x
        = if x = a then data else m.cachedCode x := by
    intro x
    unfold cachedCode getD
    rw [lookup_insert_eq_ite]
    by_cases hx : x = a <;> simp [hx]
  refine ⟨⟨h.allocated, h.apart⟩, h.server_eq, fun x r hr => ?_, fun x hx => ?_, fun x => ?_,
    fun x k => ?_, h.suicided⟩
  · obtain ⟨hpresent, habsent⟩ := h.cached x r hr
    refine ⟨fun acc hacc => ?_, fun hnone => habsent ((hexists x).mp hnone)⟩
    -- the account may have another code now, but not another balance or nonce
    have hfunds := haccounts x
    rw [funds_eq_some.mpr ⟨acc, hacc, rfl, rfl⟩] at hfunds
    obtain ⟨old, hold, hbalance, hnonce⟩ := funds_eq_some.mp hfunds.symm
    have hshown := hpresent old hold
    exact ⟨hshown.1.trans hbalance, hshown.2.trans hnonce⟩
  · rw [haccounts]
    exact h.uncached x hx
  · rw [hcached]
    by_cases hx : x = a
    · rw [if_pos hx, hx]
      exact hcode
    · rw [if_neg hx, hother x hx]
      exact h.code x
  · rw [hslot]
    exact h.slot x k

lemma Mirrors.getCode :
    ∃ m', CachedReadStateAccess.getContractCode a m = .ok (s.codeAt a) m' ∧ Mirrors server past m' s := by
  have hlocal : getContractCode a m = .ok (m.cachedCode a) m := rfl
  by_cases hempty : m.cachedCode a = []
  · have hserver : onServer (getContractCode a) m = .ok (s.codeAt a) m := by
      rw [h.code_uncached hempty, ← h.server_eq]
      rfl
    unfold CachedReadStateAccess.getContractCode
    rw [bind_of_ok hlocal, hempty, if_pos (show ([] : Bytes).length = 0 from rfl),
      bind_of_ok hserver]
    by_cases hlen : (s.codeAt a).length > 0
    · -- the server's code is kept for the next time
      rw [if_pos hlen]
      exact ⟨_, rfl, h.putCode (fun _ => rfl) (fun _ => Iff.rfl) (fun _ _ => rfl)
        (if_neg (List.ne_nil_of_length_pos hlen)).symm fun _ _ => rfl⟩
    · rw [if_neg hlen]
      exact ⟨m, rfl, h⟩
  · refine ⟨m, ?_, h⟩
    have hlen : ¬ (m.cachedCode a).length = 0 := fun h0 => hempty (List.length_eq_zero_iff.mp h0)
    unfold CachedReadStateAccess.getContractCode
    rw [bind_of_ok hlocal, if_neg hlen, h.code_cached hempty]
    rfl

lemma matched_getContractCode : Matched crypto txHash server past m s (.getContractCode a) := by
  obtain ⟨m', hcode, hm'⟩ := h.getCode (a := a)
  exact ⟨.bytes (s.codeAt a), s, m', rfl, bind_of_ok hcode, hm'.later _⟩

lemma matched_getContractCodeSize :
    Matched crypto txHash server past m s (.getContractCodeSize a) := by
  obtain ⟨m', hcode, hm'⟩ := h.getCode (a := a)
  exact ⟨.number (s.codeAt a).length, s, m', rfl, bind_of_ok hcode, hm'.later _⟩

lemma matched_getContractCodeHash (hhash : (World.start s).getContractCodeHash a
      = if (s.codeAt a).length = 0 then keccak256Null else crypto.keccak256 (s.codeAt a)) :
    Matched crypto txHash server past m s (.getContractCodeHash a) := by
  obtain ⟨m', hcode, hm'⟩ := h.getCode (a := a)
  refine ⟨.bytes ((World.start s).getContractCodeHash a), s, m', rfl, bind_of_ok ?_, hm'.later _⟩
  unfold CachedReadStateAccess.getContractCodeHash
  rw [bind_of_ok hcode, hhash]
  rfl

lemma matched_putContractCode (hsome : (s.getAccount a).isSome = true)
    (hdata : data = [] → s.codeAt a = []) :
    Matched crypto txHash server past m s (.putContractCode a data) := by
  obtain ⟨acc, hacc⟩ := Option.isSome_iff_exists.mp hsome
  have hget := getAccount_putAccount s a
  refine ⟨.done, _, _, bind_of_ok (call_update hacc _), rfl, ?_⟩
  refine (h.later (.putContractCode a data)).putCode (fun x => ?_) (fun x => ?_)
    (fun x hx => codeAt_congr (by rw [hget, if_neg hx])) ?_
    fun x k => getValue_putAccount _ x k (getValue_of_some hacc k)
  · unfold funds
    rw [hget]
    by_cases hx : x = a <;> simp [hx, hacc]
  · rw [hget]
    by_cases hx : x = a <;> simp [hx, hacc]
  · rw [codeAt_of_some (by rw [hget, if_pos rfl])]
    by_cases hempty : data = []
    · -- an empty code over an empty code: the server has none either
      have hnone := hdata hempty
      rw [if_pos hempty]
      by_cases hcached : m.cachedCode a = []
      · rw [← h.code_uncached hcached, hnone]
        exact hempty
      · exact absurd ((h.code_cached hcached).symm.trans hnone) hcached
    · rw [if_neg hempty]

lemma Mirrors.of_slots (haccount : ∀ x, s'.getAccount x = s.getAccount x)
    {slots : FinMap (Address × Word) Bytes}
    (hslot : ∀ x k, s'.getValue x k = (slots.lookup (x, k)).getD (server.getValue x k)) :
    Mirrors server past { m with cache := { m.cache with localStorage := slots } } s' :=
  { h with
    cached := fun x r hr => (h.cached x r hr).congr (haccount x)
    uncached := fun x hx => (funds_congr (haccount x)).trans (h.uncached x hx)
    code := fun x => (codeAt_congr (haccount x)).trans (h.code x)
    slot := hslot }

lemma Mirrors.putSlot (haccount : ∀ x, s'.getAccount x = s.getAccount x)
    (hslot : ∀ x k, s'.getValue x k = if x = a ∧ k = key then data else s.getValue x k) :
    Mirrors server past (m.withSlot a key data) s' := by
  refine h.of_slots haccount fun x k => ?_
  rw [lookup_insert_eq_ite, hslot, h.slot]
  by_cases hk : x = a ∧ k = key <;> simp [hk]

lemma matched_getContractStorage (hlen : (s.getValue a key).length ≤ 32) :
    Matched crypto txHash server past m s (.getContractStorage a key) := by
  have hslot := h.slot a key
  cases hk : m.cache.localStorage.lookup (a, key) with
  | some data =>
    refine ⟨.bytes (s.getValue a key), s, m, rfl, bind_of_ok ?_, h.later _⟩
    unfold CachedReadStateAccess.getContractStorage InMemoryStateAccess.getContractStorage
    rw [gets_bind, hk, hslot, Option.isSome_some, if_pos rfl, gets_apply]
    unfold getD
    rw [hk]
    rfl
  | none =>
    rw [hk] at hslot
    refine ⟨.bytes (s.getValue a key), s, m.withSlot a key (s.getValue a key), rfl,
      bind_of_ok ?_, (h.later _).putSlot (fun _ => rfl) fun x k => ?_⟩
    · have hserver : onServer (getContractStorage a key) m = .ok (s.getValue a key) m := by
        rw [hslot, ← h.server_eq]
        rfl
      unfold CachedReadStateAccess.getContractStorage
      rw [gets_bind, hk, Option.isSome_none,
        if_neg Bool.false_ne_true, bind_of_ok hserver, bind_of_ok (putSlot_apply hlen)]
      rfl
    · by_cases hx : x = a ∧ k = key <;> simp [hx]

lemma matched_getCommitted (hsame : s.getValue a key = server.getValue a key) :
    Matched crypto txHash server past m s (.getCommittedContractStorage a key) := by
  refine ⟨.bytes (s.getValue a key), s, m, rfl, bind_of_ok ?_, h.later _⟩
  rw [hsame, ← h.server_eq]
  rfl

lemma matched_putContractStorage (hsome : (s.getAccount a).isSome = true)
    (hlen : data.length ≤ 32) :
    Matched crypto txHash server past m s (.putContractStorage a key data) := by
  refine ⟨.done, s.putValue a key data, m.withSlot a key data, rfl, bind_of_ok (putSlot_apply hlen), ?_⟩
  have haccount : ∀ x, (s.putValue a key data).getAccount x = s.getAccount x := by
    intro x
    unfold putValue
    rw [if_pos hsome]
    rfl
  refine (h.later _).putSlot haccount fun x k => ?_
  have hraw : rawValue (s.putValue a key data).mappings x k
      = if x = a ∧ k = key then data else rawValue s.mappings x k := by
    unfold putValue
    rw [if_pos hsome]
    exact rawValue_setMapping _ _ _ _ _ _
  unfold getValue
  rw [haccount, hraw]
  cases hx : s.getAccount x with
  | none =>
    have hne : ¬ (x = a ∧ k = key) := by
      rintro ⟨rfl, -⟩
      rw [hx] at hsome
      cases hsome
    exact (if_neg hne).symm
  | some acc => rfl

/-! ## Checkpoints, logs and destroyed accounts -/

lemma Mirrors.of_tables (htables : s'.tables = s.tables) : Mirrors server past m s' := by
  have haccount : ∀ x, s'.getAccount x = s.getAccount x :=
    fun x => congrArg (fun t : Tables => t.accounts.lookup x) htables
  refine h.of_slots haccount fun x k => ?_
  rw [← h.slot x k]
  unfold getValue
  rw [haccount, show s'.mappings = s.mappings from congrArg Tables.mappings htables]

lemma matched_journal {op : StateOp} {n : Go Storage Unit}
    (hrun : n s = .ok () s') (htables : s'.tables = s.tables)
    (hserver : perform crypto txHash op = do call (World.rpc n); return .done)
    (hcache : CachedReadStateAccess.perform crypto op m = .ok .done m) :
    Matched crypto txHash server past m s op := by
  refine ⟨.done, s', m, ?_, hcache, (h.later op).of_tables htables⟩
  rw [hserver]
  exact bind_of_ok (call_rpc hrun)

lemma matched_commit (hopen : s.checkPoints ≠ []) :
    Matched crypto txHash server past m s .commit := by
  obtain ⟨c, rest, hmarks⟩ := List.exists_cons_of_ne_nil hopen
  exact matched_journal h (commit_ok hmarks) rfl rfl rfl

lemma matched_revert (hidle : s.checkPoints.head? = some s.modifications.length) :
    Matched crypto txHash server past m s .revert := by
  obtain ⟨rest, hmarks⟩ := List.head?_eq_some_iff.mp hidle
  have hrun : revert s = .ok () { s with checkPoints := rest } := by
    rw [revert_ok hmarks (le_refl _)]
    simp [revertTo]
  exact matched_journal h hrun rfl rfl rfl

lemma matched_saveLog {logs : List Log} (hlong : ∀ l ∈ logs, IsLong l.block) :
    Matched crypto txHash server past m s (.saveLog logs) := by
  have hfits : logs.any (fun l => ¬ IsLong l.block) = false := by
    rw [List.any_eq_false]
    intro l hl
    simpa using hlong l hl
  -- the store keeps the logs or refuses them, and the client does not tell
  have hends : Prog.Halts (putLogs txHash logs) := inferInstance
  obtain ⟨s', hstate, hlogs⟩ := (logsOnly_putLogs txHash logs).exists_state hends s
  have hserver : call (World.saveLog txHash logs) s = .ok () s' := by
    have hrpc : World.rpcLogged (putLogs txHash logs) (World.start s)
        = .ok () { World.start s with storage := s' } := by
      unfold World.rpcLogged catching World.rpc
      rw [show (World.start s).storage = s from rfl]
      cases hrun : putLogs txHash logs s with
      | ok u t | err e t =>
        rw [hrun] at hstate
        obtain rfl := Option.some.inj hstate
        rfl
      | diverge =>
        rw [hrun] at hstate
        cases hstate
    unfold World.saveLog
    rw [hfits]
    exact zoom_of_ok hrpc
  have hlater := (h.later (.saveLog logs)).of_tables hlogs.tables
  exact ⟨.done, s', _, bind_of_ok hserver, rfl, { hlater with }⟩

lemma matched_hasSuicided (hnew : .suicide a ∉ past) :
    Matched crypto txHash server past m s (.hasSuicided a) := by
  refine ⟨.flag false, s, m, rfl, bind_of_ok ?_, h.later _⟩
  have hnot : a ∉ m.cache.suicidedAddresses := fun ha => hnew (h.suicided a ha)
  unfold hasSuicided
  rw [gets_apply, decide_eq_false hnot]

lemma matched_suicide (hsame : s.funds a = server.funds a) :
    Matched crypto txHash server past m s (.suicide a) := by
  have htidy := h.of_subset fun _ _ => lookup_of_erase (a := a)
  refine ⟨.done, s, _, rfl, rfl, ⟨htidy.allocated, htidy.apart⟩, h.server_eq,
    fun x r hr => (h.cached x r (lookup_of_erase hr)).later _, fun x hx => ?_, h.code, h.slot,
    fun x hx => ?_⟩
  · by_cases hxa : x = a
    · rw [hxa]
      exact hsame
    · have hnone := lookup_erase_eq_ite m.cache.accounts a x
      rw [if_neg hxa] at hnone
      exact h.uncached x (hnone.symm.trans hx)
  · rcases List.mem_cons.mp hx with rfl | hx
    · exact List.mem_cons_self
    · exact List.mem_cons_of_mem _ (h.suicided x hx)

/-! ## Whole runs -/

lemma mirrors_perform (op : StateOp)
    (hw : Within crypto server past s op) : Matched crypto txHash server past m s op := by
  cases op with
  | isAccountExists a => exact matched_isAccountExists h hw
  | createAccount a => exact matched_createAccount h hw.1 hw.2
  | accountIsEmpty a => exact matched_accountIsEmpty h hw
  | getBalance a => exact matched_getBalance h
  | addBalance a amount => exact matched_addBalance h hw
  | subBalance a amount =>
    obtain ⟨acc, hacc, hcovered⟩ := hw
    exact matched_subBalance h hacc hcovered
  | getNonce a => exact matched_getNonce h
  | setNonce a nonce => exact matched_setNonce h hw.1 hw.2
  | putContractCode a data => exact matched_putContractCode h hw.1 hw.2
  | getContractCode a => exact matched_getContractCode h
  | getContractCodeSize a => exact matched_getContractCodeSize h
  | getContractCodeHash a => exact matched_getContractCodeHash h hw
  | getContractStorage a key => exact matched_getContractStorage h hw
  | getCommittedContractStorage a key => exact matched_getCommitted h hw
  | putContractStorage a key data => exact matched_putContractStorage h hw.1 hw.2
  | getBlockHash num =>
    exact ⟨.bytes (World.getBlockHash crypto num), s, m, rfl, rfl, h.later _⟩
  | checkpoint =>
    have hrun : (modify checkpoint : Go Storage Unit) s = .ok () s.checkpoint := rfl
    exact matched_journal h hrun rfl rfl rfl
  | commit => exact matched_commit h hw
  | revert => exact matched_revert h hw
  | saveLog logs => exact matched_saveLog h hw
  | hasSuicided a => exact matched_hasSuicided h hw
  | suicide a => exact matched_suicide h hw

end

lemma answers_cons {σ : Type} {perform : StateOp → Java σ Reply} {op : StateOp}
    {ops : List StateOp} {t t' t'' : σ} {reply : Reply} {as : List Answer}
    (h : perform op t = .ok reply t') (hrest : answers perform ops t' = .ok as t'') :
    answers perform (op :: ops) t = .ok (.ok reply :: as) t'' := by
  have hanswer : answering (perform op) t = .ok (.ok reply) t' := by
    unfold answering catching
    rw [bind_of_ok h]
    rfl
  unfold answers
  rw [bind_of_ok hanswer, bind_of_ok hrest]
  rfl

lemma mirrors_answers {crypto : CryptoLib} {txHash : Bytes} {server : Storage}
    (ops : List StateOp) :
    ∀ {past : List StateOp} {m : Simulation} {s : Storage}, Mirrors server past m s →
      WithinAll crypto txHash server past ops s →
      ∃ as s' m', answers (perform crypto txHash) ops s = .ok as s' ∧
        answers (CachedReadStateAccess.perform crypto) ops m = .ok as m' := by
  induction ops with
  | nil =>
    intro past m s _ _
    exact ⟨[], s, m, rfl, rfl⟩
  | cons op ops ih =>
    intro past m s h hw
    have hstep : Matched crypto txHash server past m s op := mirrors_perform h op hw.1
    obtain ⟨reply, s1, m1, hserver, hcache, h1⟩ := hstep
    have hafter : after crypto txHash op s = s1 := by
      unfold after
      rw [hserver]
      rfl
    obtain ⟨as, s', m', hrest, hrest'⟩ := ih h1 (hafter ▸ hw.2)
    exact ⟨.ok reply :: as, s', m', answers_cons hserver hrest, answers_cons hcache hrest'⟩

/-- **THE CACHE ANSWERS AS THE STORE WOULD**, on every server state and for every sequence of
operations that all meet the condition. -/
theorem faithful_within (crypto : CryptoLib) (txHash : Bytes) (server : Storage)
    (ops : List StateOp) (h : WithinAll crypto txHash server [] ops server) :
    Faithful crypto txHash server ops :=
  mirrors_answers ops (mirrors_start server) h

def Storage.oneContract : Storage := .holding [(500, .holding 3 [1])]

def keptWrites : List StateOp :=
  [.checkpoint, .putContractStorage 500 1 (natToBytes 32 7), .getContractStorage 500 1, .commit,
    .addBalance 500 4, .getBalance 500, .getBalance 600, .getContractCode 500]

theorem kept_writes_faithful : WithinAll .sample [] .oneContract [] keptWrites .oneContract ∧
      Faithful .sample [] .oneContract keptWrites := by
  have hwithin : WithinAll .sample [] .oneContract [] keptWrites .oneContract := by
    refine ⟨trivial, ⟨by decide, by decide⟩, ?_, ?_, ?_, trivial, trivial, trivial, trivial⟩
    · unfold Within
      decide +kernel
    · unfold Within
      decide +kernel
    · unfold Within
      decide +kernel
  exact ⟨hwithin, faithful_within .sample [] .oneContract keptWrites hwithin⟩

def revertedWrite : List StateOp :=
  [.checkpoint, .putContractStorage 500 1 (natToBytes 32 7), .revert, .getContractStorage 500 1]

/-- The store answers with an empty slot, the cache with the reverted value. -/
theorem reverted_write_still_read : ¬ Faithful .sample [] .oneContract revertedWrite := by
  rintro ⟨as, s, m, hserver, hcache⟩
  have hstore : (answers (perform .sample []) revertedWrite .oneContract).returns
      (fun as _ => as.getLast? = some (.ok (.bytes emptyArray))) = true := by decide +kernel
  have hcached : (answers (CachedReadStateAccess.perform .sample) revertedWrite
      (start .oneContract)).returns
      (fun as _ => as.getLast? = some (.ok (.bytes (natToBytes 32 7)))) = true := by
    decide +kernel
  rw [hserver] at hstore
  rw [hcache] at hcached
  have hempty : as.getLast? = some (.ok (.bytes emptyArray)) := of_decide_eq_true hstore
  have hseven : as.getLast? = some (.ok (.bytes (natToBytes 32 7))) := of_decide_eq_true hcached
  rw [hempty] at hseven
  revert hseven
  decide

end GrapeDag
