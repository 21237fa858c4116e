/-
TWO STORES THAT READ THE SAME.

Leader and full node keep stores of their own, whose undo logs, checkpoints and diffs have
different pasts. If accounts, slots and logs are the same in both, they stay the same under the
same nested operations.
-/
import GrapeDag.State.Diffs

namespace GrapeDag

open Imperative List Storage FinMap Prog

/-! ## Alike stores -/

/-- The VM cannot tell the stores apart, whatever order their maps have. -/
structure Alike (s s' : Storage) : Prop where
  account : ∀ a, s'.getAccount a = s.getAccount a
  value : ∀ a k, Storage.rawValue s'.mappings a k = Storage.rawValue s.mappings a k
  mapped : ∀ a, (s'.mappings.lookup a).isSome = true ↔ (s.mappings.lookup a).isSome = true
  logs : ∀ a, s'.logs.lookup a = s.logs.lookup a

lemma Alike.refl (s : Storage) : Alike s s := ⟨fun _ => rfl, fun _ _ => rfl, fun _ => Iff.rfl, fun _ => rfl⟩

lemma Alike.symm {s s' : Storage} (h : Alike s s') : Alike s' s :=
  ⟨fun a => (h.account a).symm, fun a k => (h.value a k).symm, fun a => (h.mapped a).symm,
    fun a => (h.logs a).symm⟩

lemma Alike.trans {s s1 s2 : Storage} (h : Alike s s1) (h' : Alike s1 s2) : Alike s s2 :=
  ⟨fun a => (h'.account a).trans (h.account a), fun a k => (h'.value a k).trans (h.value a k),
    fun a => (h'.mapped a).trans (h.mapped a), fun a => (h'.logs a).trans (h.logs a)⟩

lemma Alike.observed {s s' : Storage} (h : Alike s s') : s'.observed = s.observed :=
  Observed.ext (funext h.account) (funext fun a => funext fun k => h.value a k)

section

variable {s s' : Storage}

lemma alike_putAccount (h : Alike s s') (x : Address) (account : StoredAccount) :
    Alike (s.putAccount x account) (s'.putAccount x account) := by
  refine ⟨fun a => ?_, fun a k => ?_, fun a => ?_, fun a => ?_⟩
  · rw [getAccount_putAccount, getAccount_putAccount, h.account]
  · rw [rawValue_putAccount, rawValue_putAccount, h.value]
  · rw [mapped_putAccount, mapped_putAccount, h.mapped]
  -- the logs of an address are emptied when it gets its mapping
  show (if (s'.mappings.lookup x).isSome then s'.logs else s'.logs.insert x []).lookup a
    = (if (s.mappings.lookup x).isSome then s.logs else s.logs.insert x []).lookup a
  by_cases hknown : (s.mappings.lookup x).isSome = true
  · rw [if_pos hknown, if_pos ((h.mapped x).mpr hknown), h.logs]
  · rw [if_neg hknown, if_neg (fun hx => hknown ((h.mapped x).mp hx)), lookup_insert_eq_ite,
      lookup_insert_eq_ite, h.logs]

lemma alike_setMapping (h : Alike s s') (x : Address) (k : Word) (v : Bytes) {t t' : Storage}
    (haccounts : t.accounts = s.accounts) (haccounts' : t'.accounts = s'.accounts)
    (hlogs : t.logs = s.logs) (hlogs' : t'.logs = s'.logs)
    (hmappings : t.mappings = setMapping s.mappings x k v)
    (hmappings' : t'.mappings = setMapping s'.mappings x k v) : Alike t t' := by
  refine ⟨fun a => ?_, fun a y => ?_, fun a => ?_, fun a => ?_⟩
  · show t'.accounts.lookup a = t.accounts.lookup a
    rw [haccounts, haccounts']
    exact h.account a
  · rw [hmappings, hmappings', rawValue_setMapping, rawValue_setMapping, h.value]
  · rw [hmappings, hmappings', mapped_setMapping, mapped_setMapping, h.mapped]
  · rw [hlogs, hlogs', h.logs]

lemma alike_revertOne (h : Alike s s') (m : Modification) : Alike (s.revertOne m) (s'.revertOne m) := by
  cases m with
  | mapping x k v => exact alike_setMapping h x k v rfl rfl rfl rfl rfl rfl
  | account x state =>
    cases state with
    | none =>
      refine ⟨fun a => ?_, h.value, h.mapped, h.logs⟩
      show (s'.accounts.erase x).lookup a = (s.accounts.erase x).lookup a
      rw [lookup_erase_eq_ite, lookup_erase_eq_ite]
      exact congrArg _ (h.account a)
    | some account =>
      refine ⟨fun a => ?_, h.value, h.mapped, h.logs⟩
      show (s'.accounts.insert x account).lookup a = (s.accounts.insert x account).lookup a
      rw [lookup_insert_eq_ite, lookup_insert_eq_ite]
      exact congrArg _ (h.account a)

end

lemma alike_foldl_revertOne (ms : List Modification) : ∀ {s s' : Storage}, Alike s s' →
      Alike (ms.foldl revertOne s) (ms.foldl revertOne s') := by
  induction ms with
  | nil => exact fun h => h
  | cons m ms ih => exact fun h => ih (alike_revertOne h m)

/-! ## The same undo log since a common moment -/

/-- Twins: alike, with the same undo log and the same `depth` checkpoints since the stores were
`b` and `b'`. -/
structure Twin (b b' : Storage) (depth : Nat) (s s' : Storage) : Prop where
  alike : Alike s s'
  history : ∃ (new : List Modification) (opened : List Nat),
    s.modifications = new ++ b.modifications ∧ s'.modifications = new ++ b'.modifications ∧
    s.checkPoints = opened.map (· + b.modifications.length) ++ b.checkPoints ∧
    s'.checkPoints = opened.map (· + b'.modifications.length) ++ b'.checkPoints ∧
    opened.length = depth ∧ opened.Pairwise (· ≥ ·) ∧ ∀ c ∈ opened, c ≤ new.length

section

variable {b b' s s' : Storage} {depth : Nat}

lemma twin_start (h : Alike s s') : Twin s s' 0 s s' :=
  ⟨h, [], [], rfl, rfl, rfl, rfl, rfl, List.Pairwise.nil, by simp⟩

lemma Twin.write (h : Twin b b' depth s s') {t t' : Storage} {m : Modification}
    (halike : Alike t t') (hmods : t.modifications = m :: s.modifications)
    (hmods' : t'.modifications = m :: s'.modifications) (hmarks : t.checkPoints = s.checkPoints)
    (hmarks' : t'.checkPoints = s'.checkPoints) : Twin b b' depth t t' := by
  obtain ⟨new, opened, hnew, hnew', hopened, hopened', hlen, hsorted, hbounds⟩ := h.history
  refine ⟨halike, m :: new, opened, ?_, ?_, hmarks.trans hopened, hmarks'.trans hopened', hlen, hsorted, ?_⟩
  · rw [hmods, hnew]
    rfl
  · rw [hmods', hnew']
    rfl
  · intro c hc
    have hle := hbounds c hc
    rw [length_cons]
    omega

lemma twin_putAccount (h : Twin b b' depth s s') (x : Address) (account : StoredAccount) :
    Twin b b' depth (s.putAccount x account) (s'.putAccount x account) := by
  refine h.write (alike_putAccount h.alike x account) rfl ?_ rfl rfl
  show Modification.account x (s'.getAccount x) :: s'.modifications = _
  rw [h.alike.account]

lemma twin_putSlot (h : Twin b b' depth s s') (x : Address) (k : Word) (v : Bytes) : Twin b b' depth
      { s with
        modifications := .mapping x k (rawValue s.mappings x k) :: s.modifications
        mappings := setMapping s.mappings x k v
        mappingDiffs := if s.collectDiffs then s.mappingDiffs.insert (x, k) v else s.mappingDiffs }
      { s' with
        modifications := .mapping x k (rawValue s'.mappings x k) :: s'.modifications
        mappings := setMapping s'.mappings x k v
        mappingDiffs :=
          if s'.collectDiffs then s'.mappingDiffs.insert (x, k) v else s'.mappingDiffs } := by
  refine h.write (alike_setMapping h.alike x k v rfl rfl rfl rfl rfl rfl) rfl ?_ rfl rfl
  rw [h.alike.value]

lemma twin_putValue (h : Twin b b' depth s s') (x : Address) (k : Word) (v : Bytes) :
    Twin b b' depth (s.putValue x k v) (s'.putValue x k v) := by
  unfold putValue
  rw [h.alike.account]
  by_cases hsome : (s.getAccount x).isSome = true
  · rw [if_pos hsome, if_pos hsome]
    exact twin_putSlot h x k v
  · rw [if_neg hsome, if_neg hsome]
    exact twin_putSlot (twin_putAccount h x .blank) x k v

lemma twin_checkpoint (h : Twin b b' depth s s') : Twin b b' (depth + 1) s.checkpoint s'.checkpoint := by
  obtain ⟨new, opened, hnew, hnew', hopened, hopened', hlen, hsorted, hbounds⟩ := h.history
  refine ⟨⟨h.alike.account, h.alike.value, h.alike.mapped, h.alike.logs⟩, new,
    new.length :: opened, hnew, hnew', ?_, ?_, by rw [length_cons, hlen], ?_, ?_⟩
  · show s.modifications.length :: s.checkPoints = _
    rw [hopened, hnew, length_append]
    rfl
  · show s'.modifications.length :: s'.checkPoints = _
    rw [hopened', hnew', length_append]
    rfl
  · exact pairwise_cons.mpr ⟨hbounds, hsorted⟩
  · intro c hc
    rcases mem_cons.mp hc with rfl | hc
    · exact le_refl _
    · exact hbounds c hc

lemma twin_commit (h : Twin b b' (depth + 1) s s') :
    ∃ t t', commit s = .ok () t ∧ commit s' = .ok () t' ∧ Twin b b' depth t t' := by
  obtain ⟨new, opened, hnew, hnew', hopened, hopened', hlen, hsorted, hbounds⟩ := h.history
  cases opened with
  | nil => simp at hlen
  | cons c rest =>
    refine ⟨{ s with checkPoints := rest.map (· + b.modifications.length) ++ b.checkPoints },
      { s' with checkPoints := rest.map (· + b'.modifications.length) ++ b'.checkPoints },
      commit_ok hopened, commit_ok hopened',
      ⟨h.alike.account, h.alike.value, h.alike.mapped, h.alike.logs⟩, new, rest, hnew,
      hnew', rfl, rfl, by simpa using hlen, (pairwise_cons.mp hsorted).2, fun d hd => ?_⟩
    exact hbounds d (mem_cons_of_mem c hd)

lemma revert_since {new : List Modification} {c : Nat} {marks : List Nat} (hle : c ≤ new.length)
    (hmods : s.modifications = new ++ b.modifications)
    (hmarks : s.checkPoints = (c + b.modifications.length) :: marks) :
    revert s = .ok () { (new.take (new.length - c)).foldl revertOne s with
      modifications := new.drop (new.length - c) ++ b.modifications
      checkPoints := marks } := by
  have hcount : s.modifications.length - (c + b.modifications.length) = new.length - c := by
    rw [hmods, length_append]
    omega
  have hin : c + b.modifications.length ≤ s.modifications.length := by
    rw [hmods, length_append]
    omega
  rw [revert_ok hmarks hin, revertTo, hcount, hmods, take_append_of_le_length (by omega),
    drop_append_of_le_length (by omega)]

lemma twin_revert (h : Twin b b' (depth + 1) s s') :
    ∃ t t', revert s = .ok () t ∧ revert s' = .ok () t' ∧ Twin b b' depth t t' := by
  obtain ⟨new, opened, hnew, hnew', hopened, hopened', hlen, hsorted, hbounds⟩ := h.history
  cases opened with
  | nil => simp at hlen
  | cons c rest =>
    have hle := hbounds c mem_cons_self
    obtain ⟨hhead, htail⟩ := pairwise_cons.mp hsorted
    -- both undo the same entries
    have hundone := alike_foldl_revertOne (new.take (new.length - c)) h.alike
    refine ⟨_, _, revert_since hle hnew hopened, revert_since hle hnew' hopened',
      ⟨hundone.account, hundone.value, hundone.mapped, hundone.logs⟩,
      new.drop (new.length - c), rest, rfl, rfl, rfl, rfl, by simpa using hlen, htail, ?_⟩
    intro d hd
    have hd' := hhead d hd
    rw [length_drop]
    omega

lemma twin_run (h : Twin b b' depth s s') {op : StoreOp} {ops : List StoreOp}
    (hnested : StoreOp.nested depth (op :: ops) = true) :
    ∃ t t' depth', op.run s = .ok () t ∧ op.run s' = .ok () t' ∧ Twin b b' depth' t t' ∧
      StoreOp.nested depth' ops = true := by
  cases op with
  | putAccount x account => exact ⟨_, _, depth, rfl, rfl, twin_putAccount h x account, hnested⟩
  | putValue x k v => exact ⟨_, _, depth, rfl, rfl, twin_putValue h x k v, hnested⟩
  | checkpoint => exact ⟨_, _, depth + 1, rfl, rfl, twin_checkpoint h, hnested⟩
  | commit =>
    cases depth with
    | zero => simp [StoreOp.nested] at hnested
    | succ depth =>
      obtain ⟨t, t', hrun, hrun', htwin⟩ := twin_commit h
      exact ⟨t, t', depth, hrun, hrun', htwin, hnested⟩
  | revert =>
    cases depth with
    | zero => simp [StoreOp.nested] at hnested
    | succ depth =>
      obtain ⟨t, t', hrun, hrun', htwin⟩ := twin_revert h
      exact ⟨t, t', depth, hrun, hrun', htwin, hnested⟩

end

/-! ## Logs -/

lemma alike_logs {s s' : Storage} (h : Alike s s') {stored stored' : FinMap Address (List StoredLog)}
    (hstored : ∀ a, stored'.lookup a = stored.lookup a) :
    Alike { s with logs := stored } { s' with logs := stored' } :=
  ⟨h.account, h.value, h.mapped, hstored⟩

lemma putEach_alike (txHash : Bytes) (ls : List Log) :
    ∀ {s s' : Storage}, Alike s s' → ∃ stored stored', (∀ a, stored'.lookup a = stored.lookup a) ∧
      ((putEach txHash ls s = .ok () { s with logs := stored } ∧
        putEach txHash ls s' = .ok () { s' with logs := stored' }) ∨
      (putEach txHash ls s = .err .error { s with logs := stored } ∧
        putEach txHash ls s' = .err .error { s' with logs := stored' })) := by
  induction ls with
  | nil =>
    intro s s' h
    exact ⟨s.logs, s'.logs, h.logs, .inl ⟨rfl, rfl⟩⟩
  | cons l ls ih =>
    intro s s' h
    have haccount := h.account l.contractAddress
    cases hget : s.getAccount l.contractAddress with
    | none =>
      rw [hget] at haccount
      have hstop : ∀ t : Storage, t.getAccount l.contractAddress = none →
          putEach txHash (l :: ls) t = .err .error t := by
        intro t ht
        refine bind_of_err ?_
        unfold putLog
        rw [gets_bind, ht]
        rfl
      exact ⟨s.logs, s'.logs, h.logs, .inr ⟨hstop s hget, hstop s' haccount⟩⟩
    | some account =>
      rw [hget] at haccount
      have hstep : ∀ t : Storage, t.getAccount l.contractAddress = some account →
          putEach txHash (l :: ls) t = putEach txHash ls { t with
            logs := t.logs.insert l.contractAddress
              (t.logs.getD l.contractAddress [] ++ [⟨l, txHash⟩]) } := by
        intro t ht
        refine bind_of_ok (a := ()) ?_
        unfold putLog
        rw [gets_bind, ht]
        rfl
      rw [hstep s hget, hstep s' haccount]
      refine ih (alike_logs h fun a => ?_)
      unfold FinMap.getD
      rw [lookup_insert_eq_ite, lookup_insert_eq_ite, h.logs, h.logs]

lemma putLogs_alike (txHash : Bytes) (ls : List Log) {s s' : Storage} (h : Alike s s') :
    ∃ stored stored' triggered triggered', (∀ a, stored'.lookup a = stored.lookup a) ∧
      (putLogs txHash ls s).state? = some { s with logs := stored, triggered := triggered } ∧
      (putLogs txHash ls s').state? = some { s' with logs := stored', triggered := triggered' } := by
  cases ls with
  | nil => exact ⟨s.logs, s'.logs, s.triggered, s'.triggered, h.logs, rfl, rfl⟩
  | cons l ls =>
    unfold putLogs
    dsimp only
    obtain ⟨stored, stored', hstored, ⟨hok, hok'⟩ | ⟨herr, herr'⟩⟩ := putEach_alike txHash (l :: ls) h
    · rw [bind_of_ok hok, bind_of_ok hok']
      exact ⟨stored, stored', _, _, hstored, rfl, rfl⟩
    · rw [bind_of_err herr, bind_of_err herr']
      exact ⟨stored, stored', _, _, hstored, rfl, rfl⟩

end GrapeDag
