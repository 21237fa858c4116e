/-
THE STORE AND THE PRICE TABLE DO NOT RUN ON.

The operations that instructions are made of have no loops of their own; `Ends` and `Fails` say
what they can throw, over any set of exceptions that has all proper ones (`Admits`). A program
is taken apart by resolution; only a `match` needs a hand.
-/
import GrapeDag.Vm.Fuel

namespace GrapeDag

open Imperative GrapeDag.Frame Prog

/-! ## Exceptions -/

/-- A status that is thrown is a failure. -/
def JavaException.Proper (e : JavaException) : Prop := ∀ st, e = .vm st → st.isFailure = true

/-- `P` allows every proper exception. -/
class Admits (P : JavaException → Prop) : Prop where
  proper : ∀ e : JavaException, e.Proper → P e

instance : Admits JavaException.Proper := ⟨fun _ h => h⟩

instance : Admits fun _ => True := ⟨fun _ _ => trivial⟩

variable {P : JavaException → Prop} [Admits P]

section Exceptions

variable {α σ : Type}

lemma fails_error {e : JavaException} (h : e.Proper) : Fails P (.error e : Checked α) := by
  refine ⟨fun e' he => ?_⟩
  cases he
  exact Admits.proper e h

instance : Fails P (.error .arithmetic : Checked α) := fails_error nofun

instance : Fails P (.error .illegalState : Checked α) := fails_error nofun

lemma ends_failure {st : VmStatus} (h : st.isFailure = true) : Ends P (Prog.raise (.vm st) : Java σ α) := by
  refine .raise (Admits.proper _ fun st' he => ?_)
  cases he
  exact h

instance : Ends P (Prog.raise (.vm .stackUnderflow) : Java σ α) := ends_failure rfl

instance : Ends P (Prog.raise (.vm .argumentOutOfRange) : Java σ α) := ends_failure rfl

instance : Ends P (Prog.raise (.vm .outOfGas) : Java σ α) := ends_failure rfl

instance : Ends P (Prog.raise .illegalState : Java σ α) := .raise (Admits.proper _ nofun)

end Exceptions

section Checked

variable (x y : Int)

instance : Fails P (toIntExact x) := by unfold toIntExact; infer_instance

instance : Fails P (toLongExact x) := by unfold toLongExact; infer_instance

instance : Fails P (addExact x y) := inferInstanceAs (Fails _ (toLongExact _))

instance : Fails P (multiplyExact x y) := inferInstanceAs (Fails _ (toLongExact _))

instance : Fails P (divide x y) := by unfold divide; infer_instance

instance : Fails P (toWordSizeLong x) := by unfold toWordSizeLong; infer_instance

instance (w : Word) : Fails P (Word.intValueExact w) := inferInstanceAs (Fails _ (toIntExact _))

end Checked

section Prices

open GasTable

variable (m : Machine)

instance (item : PriceItem) : Fails P (price m item) := by
  unfold price ChainConfig.lookForGasPrice
  cases m.cfg.gasPriceMap item with
  | none => exact inferInstanceAs (Fails P (.error .illegalState : Checked Int))
  | some p => exact Fails.ok p

instance (condition : Bool) (fee : Int) (item : PriceItem) :
    Fails P (addFeeIf m condition fee item) := by unfold addFeeIf; infer_instance

instance (length : Int) : Fails P (initCodeFee m length) := by unfold initCodeFee; infer_instance

instance : Fails P (create2WordFee m) := by unfold create2WordFee; infer_instance

end Prices

/-! ## The store -/

section Store

instance {α : Type} (p : Go Storage α) [hp : Halts p] :
    Halts (World.rpc p) := by
  refine ⟨fun w h => ?_, fun _ _ _ _ => trivial⟩
  unfold World.rpc at h
  split at h
  · cases h
  · cases h
  · exact hp.ends _ ‹_›

instance (p : Go Storage Unit) [hp : Halts p] : Halts (World.rpcLogged p) := by
  have hrpc : Halts (World.rpc p) := inferInstance
  refine hrpc.catching fun e _ => ?_
  cases e <;> infer_instance

instance (a : Address) (g : StoredAccount → StoredAccount) :
    Halts (Storage.updateAccount a g) := by
  refine Ends.seq inferInstance fun account => ?_
  cases account <;> infer_instance

instance : Halts Storage.commit := by
  refine ⟨fun s h => ?_, fun _ _ _ _ => trivial⟩
  rcases Storage.commit_cases s with ⟨he, -⟩ | ⟨c, rest, -, he⟩ <;> rw [he] at h <;> cases h

instance : Halts Storage.revert := by
  refine ⟨fun s h => ?_, fun _ _ _ _ => trivial⟩
  rcases Storage.revert_cases s with he | ⟨c, rest, -, -, he⟩ <;> rw [he] at h <;> cases h

instance : Halts World.checkpoint := by unfold World.checkpoint; infer_instance

instance : Halts World.commit := by unfold World.commit; infer_instance

instance : Halts World.revert := by unfold World.revert; infer_instance

instance (a : Address) : Halts (World.createAccount a) := by
  unfold World.createAccount Storage.createAccount; infer_instance

instance (a : Address) (amount : Int) : Halts (World.addBalance a amount) := by
  unfold World.addBalance Storage.addBalance; infer_instance

instance (a : Address) (amount : Int) : Halts (World.subBalance a amount) := by
  unfold World.subBalance Storage.subBalance; infer_instance

instance (a : Address) (nonce : Int) : Halts (World.setNonce a nonce) := by
  unfold World.setNonce Storage.setNonce; infer_instance

instance (crypto : CryptoLib) (a : Address) (data : Bytes) :
    Halts (World.putContractCode crypto a data) := by
  unfold World.putContractCode Storage.putContractCode; infer_instance

instance (a b : Address) (value : Int) : Halts (World.transfer a b value) := by
  unfold World.transfer; infer_instance

instance (txHash : Bytes) (logs : List Log) : Halts (World.saveLog txHash logs) := by
  unfold World.saveLog; infer_instance

instance (a : Address) (key : Word) (data : Bytes) :
    Halts (World.putContractStorage a key data) := by
  unfold World.putContractStorage; infer_instance

instance (a : Address) (key : Word) (data : Bytes) :
    Halts (World.putTransientStorage a key data) := by
  unfold World.putTransientStorage; infer_instance

instance (l : Log) : Halts (World.addLog l) := by unfold World.addLog; infer_instance

instance (a : Address) : Halts (World.suicide a) := by
  unfold World.suicide; infer_instance

instance : Halts World.leave := by unfold World.leave; infer_instance

instance (data : Option Bytes) : Halts (World.setReturnData data) := by
  unfold World.setReturnData; infer_instance

instance : Halts World.clearReturnData := by
  unfold World.clearReturnData; infer_instance

end Store

end GrapeDag
