import ChainForge.Core.Block

/-!
# Validation of data to be serialised

`modules/serialization/src/validator.cpp`: `DefaultValidator`.  Several of its checks are not
written yet in the source and accept everything.

* `height_le_of_validateBlock`   a block that passes has a height of at most 32 bits.
-/

set_option linter.unusedSectionVars false

namespace ChainForge
namespace Serialization

inductive ValidationError where
  | invalidHash
  | invalidSignature
  | invalidAmount
  | invalidAddress
  | invalidTimestamp
  | invalidBlock
  | invalidTransaction
  | dataTooLarge
  | missingRequiredField
  deriving DecidableEq, Repr

abbrev ValidationResult := Except (ValidationError × String) Unit

/-- `Amount::is_valid`: all constructed amounts are valid -/
def isValidAmount (_ : Amount) : Bool := true

namespace DefaultValidator

def validateAddress (_ : Address) : ValidationResult := .ok ()
def validateAmount (_ : Amount) : ValidationResult := .ok ()
def validateTimestamp (_ : UInt64) : ValidationResult := .ok ()
def validateHash (_ : Hash) : ValidationResult := .ok ()

def validateTransactionStructure (tx : Transaction) : ValidationResult :=
  if Bytes.isZero tx.fromAddr then
    .error (.invalidTransaction, "Transaction from address cannot be zero")
  else if !isValidAmount tx.value then .error (.invalidAmount, "Transaction value is invalid")
  else .ok ()

def validateTransaction (tx : Transaction) : ValidationResult := do
  validateTransactionStructure tx
  validateAddress tx.fromAddr
  validateAddress tx.toAddr
  validateAmount tx.value
  if tx.gasLimit == 0 then
    .error (.invalidTransaction, "Transaction gas limit must be greater than zero")
  else .ok ()

def validateBlockHeader (b : Block) : ValidationResult := do
  validateTimestamp b.header.timestamp
  if b.gasLimit == 0 then
    .error (.invalidBlock, "Block gas limit must be greater than zero")
  else if b.height > 4294967295 then
    .error (.invalidBlock, "Block height exceeds maximum allowed value")
  else .ok ()

def validateTransactions : List Transaction → ValidationResult
  | [] => .ok ()
  | tx :: l => do
    validateTransaction tx
    validateTransactions l

def validateBlock (H : List UInt8 → Hash) (b : Block) : ValidationResult := do
  validateBlockHeader b
  validateTransactions b.transactions
  validateHash (b.calculateHash H)

theorem height_le_of_validateBlock {H : List UInt8 → Hash} {b : Block}
    (h : validateBlock H b = .ok ()) : b.height ≤ 4294967295 := by
  rw [← UInt64.not_lt]
  intro hgt
  have hheader : ∃ e, validateBlockHeader b = .error e := by
    show ∃ e, (if (b.gasLimit == 0) = true then _ else if b.height > 4294967295 then _ else _) = _
    by_cases hg : (b.gasLimit == 0) = true
    · exact ⟨_, if_pos hg⟩
    · rw [if_neg hg, if_pos hgt]
      exact ⟨_, rfl⟩
  obtain ⟨e, he⟩ := hheader
  unfold validateBlock at h
  rw [he] at h
  cases h

end DefaultValidator

end Serialization
end ChainForge
