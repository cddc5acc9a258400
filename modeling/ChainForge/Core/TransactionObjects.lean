import ChainForge.Core.Transaction
import ChainForge.Lib.Machine

/-!
# Transaction objects

Transaction objects side by side: constructors, copies and assignments, the seven setters and
`calculate_hash`, which fills the cache (`TransactionOp`, `ObjectOp`, `act`).  A copy takes the cached
hash along, and every setter empties the cache of its own object alone.

* `act_coherent`          one operation keeps every cache coherent;
* `transaction_hash_true` **the hash is that of the fields**, of every object at every moment;
* `isValid_iff`           what `is_valid` asks of a transaction;
* `build_isValid_iff`     **what the builders build**: of sensible arguments, a valid transaction,
                          except by `create_contract_call_transaction`.
-/

set_option linter.unusedSectionVars false

namespace ChainForge
open Machine

inductive TransactionInit where
  /-- the default constructor leaves the fields with whatever is there -/
  | default (fields : TransactionData)
  | make (fromAddr toAddr : Address) (value : Amount)
  | ofData (data : TransactionData)

inductive TransactionOp where
  | setFrom (fromAddr : Address)
  | setTo (toAddr : Address)
  | setValue (value : Amount)
  | setGasLimit (gasLimit : UInt64)
  | setGasPrice (gasPrice : UInt64)
  | setData (data : List UInt8)
  | setNonce (nonce : UInt64)
  | calculateHash

/-- an operation on the objects, which are numbered -/
inductive ObjectOp where
  | construct (init : TransactionInit)
  | copy (source : Nat)
  | assign (target source : Nat)
  | call (target : Nat) (op : TransactionOp)

namespace Transaction

/-! ## the cache -/

def build : TransactionInit → Transaction
  | .default fields => { data := fields }
  | .make fromAddr toAddr value => make fromAddr toAddr value
  | .ofData data => ofData data

section
variable (H : List UInt8 → Hash)

def exec (tx : Transaction) : TransactionOp → Transaction
  | .setFrom fromAddr => tx.setFrom fromAddr
  | .setTo toAddr => tx.setTo toAddr
  | .setValue value => tx.setValue value
  | .setGasLimit gasLimit => tx.setGasLimit gasLimit
  | .setGasPrice gasPrice => tx.setGasPrice gasPrice
  | .setData data => tx.setData data
  | .setNonce nonce => tx.setNonce nonce
  | .calculateHash => tx.hashed H

/-- an operation on an object that does not exist changes nothing -/
def act (objects : List Transaction) : ObjectOp → List Transaction
  | .construct init => objects ++ [build init]
  | .copy source => objects ++ objects[source]?.toList
  | .assign target source =>
    match objects[source]? with
    | some tx => objects.set target tx
    | none => objects
  | .call target op => objects.modify target (·.exec H op)

variable {H}

theorem build_coherent (init : TransactionInit) : (build init).Coherent H := by
  cases init <;> exact Or.inl rfl

theorem Coherent.hashed {tx : Transaction} (h : tx.Coherent H) : (tx.hashed H).Coherent H :=
  Or.inr (congrArg some h.calculateHash_eq)

theorem Coherent.exec {tx : Transaction} (h : tx.Coherent H) (op : TransactionOp) :
    (tx.exec H op).Coherent H := by
  cases op with
  | calculateHash => exact h.hashed
  | setFrom | setTo | setValue | setGasLimit | setGasPrice | setData | setNonce => exact Or.inl rfl

/-- **One operation.** -/
theorem act_coherent {objects : List Transaction} (op : ObjectOp)
    (h : ∀ tx ∈ objects, tx.Coherent H) : ∀ tx ∈ act H objects op, tx.Coherent H := by
  cases op with
  | construct init =>
    exact List.forall_mem_append.mpr ⟨h, List.forall_mem_singleton.mpr (build_coherent init)⟩
  | copy source =>
    refine List.forall_mem_append.mpr ⟨h, fun tx htx => ?_⟩
    exact h tx (List.mem_of_getElem? (Option.mem_toList.mp htx))
  | assign target source =>
    simp only [act]
    split
    · rename_i copied hcopied
      intro tx htx
      rcases List.mem_or_eq_of_mem_set htx with hmem | rfl
      · exact h tx hmem
      · exact h tx (List.mem_of_getElem? hcopied)
    · exact h
  | call target op =>
    intro tx htx
    obtain ⟨k, hk⟩ := List.mem_iff_getElem?.mp htx
    unfold act at hk
    rw [List.getElem?_modify] at hk
    obtain ⟨old, hold, rfl⟩ := Option.map_eq_some_iff.mp hk
    have hc := h old (List.mem_of_getElem? hold)
    split
    · exact hc.exec op
    · exact hc

end

end Transaction

/-- **The hash is true**: whatever was constructed, copied, assigned, set and hashed before,
`calculate_hash` of an object returns the hash of its fields as they are. -/
theorem transaction_hash_true (H : List UInt8 → Hash) (ops : List ObjectOp) :
    EveryState (Transaction.act H)
      (fun objects => ∀ tx ∈ objects, tx.calculateHash H = H (Transaction.preimage tx.data)) [] ops :=
  (everyState_of_inv (fun objects : List Transaction => ∀ tx ∈ objects, tx.Coherent H)
    (fun _ op h => Transaction.act_coherent op h) ops (List.forall_mem_nil _)).imp
    fun _ h tx htx => (h tx htx).calculateHash_eq

/-! ## the builders -/

def createTransferTransaction (fromAddr toAddr : Address) (value : Amount) : Transaction :=
  Transaction.make fromAddr toAddr value

def createContractTransaction (fromAddr : Address) (contractData : List UInt8) : Transaction :=
  let tx := Transaction.make fromAddr Address.zero 0
  let tx := tx.setData contractData
  tx.setGasLimit 53000

def createContractCallTransaction (fromAddr contract : Address) (callData : List UInt8) :
    Transaction :=
  let tx := Transaction.make fromAddr contract 0
  tx.setData callData

/-- a call of one of the builders -/
inductive Builder where
  | transfer (fromAddr toAddr : Address) (value : Amount)
  | contract (fromAddr : Address) (contractData : List UInt8)
  | contractCall (fromAddr contractAddr : Address) (callData : List UInt8)

namespace Builder

def build : Builder → Transaction
  | transfer fromAddr toAddr value => createTransferTransaction fromAddr toAddr value
  | contract fromAddr contractData => createContractTransaction fromAddr contractData
  | contractCall fromAddr contractAddr callData =>
    createContractCallTransaction fromAddr contractAddr callData

/-- addresses and value are not zero, the payload is not empty -/
def Sensible : Builder → Prop
  | transfer fromAddr toAddr value =>
    fromAddr ≠ Address.zero ∧ toAddr ≠ Address.zero ∧ value ≠ 0
  | contract fromAddr contractData => fromAddr ≠ Address.zero ∧ contractData ≠ []
  | contractCall fromAddr contractAddr callData =>
    fromAddr ≠ Address.zero ∧ contractAddr ≠ Address.zero ∧ callData ≠ []

def isContractCall : Builder → Bool
  | contractCall _ _ _ => true
  | _ => false

end Builder

theorem Bytes.isZero_iff {n : Nat} (b : Bytes n) : b.isZero = true ↔ b = Bytes.fill n 0 := by
  unfold Bytes.isZero
  rw [List.all_eq_true, Subtype.ext_iff]
  constructor
  · intro h
    exact List.eq_replicate_iff.mpr ⟨b.2, fun x hx => beq_iff_eq.mp (h x hx)⟩
  · intro h x hx
    rw [h] at hx
    exact beq_iff_eq.mpr (List.eq_of_mem_replicate hx)

theorem Address.isValid_iff (a : Address) : a.isValid = true ↔ a ≠ Address.zero := by
  unfold Address.isValid
  rw [Bool.not_eq_true', ← Bool.not_eq_true, Bytes.isZero_iff]
  rfl

/-- **Validity**: a transfer or a call carries a value, and only a payload needs no recipient. -/
theorem Transaction.isValid_iff (tx : Transaction) :
    tx.isValid = true ↔
      tx.fromAddr ≠ Address.zero ∧ (21000 ≤ tx.gasLimit ∧ 0 < tx.gasPrice) ∧
        ((tx.toAddr ≠ Address.zero ∧ tx.value ≠ 0) ∨ (tx.toAddr = Address.zero ∧ tx.payload ≠ [])) := by
  have hfrom : tx.data.fromAddr.isValid = true ↔ tx.fromAddr ≠ Address.zero := Address.isValid_iff _
  have hto : tx.data.toAddr.isValid = true ↔ tx.toAddr ≠ Address.zero := Address.isValid_iff _
  have hcreate : tx.isContractCreation = true ↔ tx.toAddr = Address.zero ∧ tx.payload ≠ [] := by
    unfold isContractCreation
    rw [Bool.and_eq_true, Bytes.isZero_iff, Bool.not_eq_true', List.isEmpty_eq_false_iff]
    rfl
  have hgas : tx.validateGas = true ↔ 21000 ≤ tx.gasLimit ∧ 0 < tx.gasPrice := by
    unfold validateGas
    rw [Bool.and_eq_true, decide_eq_true_iff, decide_eq_true_iff]
    rfl
  have hvalue : (tx.data.value != 0) = true ↔ tx.value ≠ 0 := bne_iff_ne
  unfold isValid validateAddresses validateAmount validateNonce
  simp only [Bool.and_eq_true, Bool.or_eq_true, hfrom, hto, hcreate, hgas, hvalue, and_true]
  rw [and_or_right]
  constructor
  · rintro ⟨⟨⟨hf, ha⟩, hg⟩, hv⟩
    exact ⟨hf, hg, ha, hv⟩
  · rintro ⟨hf, hg, ha, hv⟩
    exact ⟨⟨⟨hf, ha⟩, hg⟩, hv⟩

/-- every builder sets enough gas -/
theorem Builder.build_gas (b : Builder) : 21000 ≤ b.build.gasLimit ∧ 0 < b.build.gasPrice := by
  cases b with
  | transfer => exact (by decide : (21000 : UInt64) ≤ 21000 ∧ (0 : UInt64) < 1)
  | contract => exact (by decide : (21000 : UInt64) ≤ 53000 ∧ (0 : UInt64) < 1)
  | contractCall => exact (by decide : (21000 : UInt64) ≤ 21000 ∧ (0 : UInt64) < 1)

/-- **What the builders build**: a valid transaction of sensible arguments, except by
`create_contract_call_transaction`, which sets the value to zero. -/
theorem build_isValid_iff (b : Builder) (hb : b.Sensible) :
    b.build.isValid = true ↔ b.isContractCall = false := by
  rw [Transaction.isValid_iff]
  cases b with
  | transfer fromAddr toAddr value =>
    obtain ⟨hfrom, hto, hvalue⟩ := hb
    exact ⟨fun _ => rfl, fun _ => ⟨hfrom, Builder.build_gas _, Or.inl ⟨hto, hvalue⟩⟩⟩
  | contract fromAddr contractData =>
    obtain ⟨hfrom, hdata⟩ := hb
    exact ⟨fun _ => rfl, fun _ => ⟨hfrom, Builder.build_gas _, Or.inr ⟨rfl, hdata⟩⟩⟩
  | contractCall fromAddr contractAddr callData =>
    obtain ⟨-, hto, -⟩ := hb
    constructor
    · rintro ⟨-, -, ⟨-, hvalue⟩ | ⟨hzero, -⟩⟩
      · exact absurd rfl hvalue
      · exact absurd hzero hto
    · intro h
      cases h

/-- a transfer -/
theorem build_isValid_transfer :
    let b := Builder.transfer (Bytes.fill 20 1) (Bytes.fill 20 2) 1
    b.Sensible ∧ b.build.isValid = true := by
  have hb : (Builder.transfer (Bytes.fill 20 1) (Bytes.fill 20 2) 1).Sensible := by
    refine ⟨?_, ?_, ?_⟩ <;> decide
  exact ⟨hb, (build_isValid_iff _ hb).mpr rfl⟩

/-- a call of a contract with one byte of payload -/
theorem contract_call_not_valid :
    let b := Builder.contractCall (Bytes.fill 20 1) (Bytes.fill 20 2) [1]
    b.Sensible ∧ b.build.isValid = false := by
  refine ⟨⟨?_, ?_, ?_⟩, ?_⟩ <;> decide

end ChainForge
