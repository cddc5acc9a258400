import ChainForge.Lib.Machine
import ChainForge.Storage.MemoryDatabase

/-!
# Write batches

`MemoryWriteBatch` of `rocksdb_database.cpp`: `put` and `remove` append an operation, `clear` forgets
all of them.  `write` folds what is left over the map.

* `built_eq`        the batch holds the operations since the last `clear`;
* `lookup_foldl`    the last operation on a key decides what is stored under it;
* `perform_eq`      an operation of a batch does what the single call does, which looks for the key
                    first;
* `batch_sequence`  **a batch is the sequence of its operations**.
-/

set_option linter.unusedSectionVars false

namespace ChainForge
namespace Storage
open Machine

/-! ## building a batch -/

namespace MemoryWriteBatch

def put (batch : MemoryWriteBatch) (key : Key) (value : Value) : MemoryWriteBatch :=
  batch ++ [.put key value]

def remove (batch : MemoryWriteBatch) (key : Key) : MemoryWriteBatch := batch ++ [.remove key]

def clear (_ : MemoryWriteBatch) : MemoryWriteBatch := []

end MemoryWriteBatch

inductive BatchCall where
  | put (key : Key) (value : Value)
  | remove (key : Key)
  | clear
  deriving DecidableEq, Repr

namespace BatchCall

def exec (batch : MemoryWriteBatch) : BatchCall → MemoryWriteBatch
  | put key value => MemoryWriteBatch.put batch key value
  | remove key => MemoryWriteBatch.remove batch key
  | clear => MemoryWriteBatch.clear batch

/-- a new batch after the calls -/
def built (calls : List BatchCall) : MemoryWriteBatch := run exec [] calls

def operation : BatchCall → Option Operation
  | put key value => some (.put key value)
  | remove key => some (.remove key)
  | clear => none

/-- the operations since the last `clear` -/
def sinceClear (calls : List BatchCall) : List Operation :=
  (calls.reverse.takeWhile (·.operation.isSome)).reverse.filterMap operation

theorem built_eq (calls : List BatchCall) : built calls = sinceClear calls := by
  induction calls using List.reverseRecOn with
  | nil => rfl
  | append_singleton calls c ih =>
    unfold built at ih ⊢
    rw [run_concat, ih]
    cases c with
    | put key value =>
      show sinceClear calls ++ [.put key value] = sinceClear (calls ++ [.put key value])
      simp [sinceClear, operation]
    | remove key =>
      show sinceClear calls ++ [.remove key] = sinceClear (calls ++ [.remove key])
      simp [sinceClear, operation]
    | clear =>
      show [] = sinceClear (calls ++ [.clear])
      simp [sinceClear, operation]

end BatchCall

/-! ## the operations of a batch -/

namespace Operation

def key : Operation → Key
  | put key _ => key
  | remove key => key

/-- what is stored under its key afterwards -/
def stored : Operation → Option Value
  | put _ value => some value
  | remove _ => none

/-- what `get` answers for its key afterwards -/
def answer : Operation → StorageResult Value
  | put _ value => ⟨value, .success⟩
  | remove _ => ⟨[], .notFound⟩

theorem lookup_apply (op : Operation) (data : UMap Key Value) (k : Key) :
    (op.apply data).lookup k = if k = op.key then op.stored else data.lookup k := by
  cases op with
  | put key value => exact UMap.lookup_insert data key k value
  | remove key => exact UMap.lookup_erase data key k

end Operation

/-- the last operation on the key -/
def lastOn (k : Key) (ops : List Operation) : Option Operation :=
  ops.reverse.find? fun op => decide (op.key = k)

theorem lastOn_concat (k : Key) (ops : List Operation) (op : Operation) :
    lastOn k (ops ++ [op]) = if op.key = k then some op else lastOn k ops := by
  unfold lastOn
  rw [List.reverse_append, List.reverse_singleton, List.singleton_append, List.find?_cons]
  by_cases h : op.key = k <;> simp [h]

theorem lookup_foldl (ops : List Operation) (data : UMap Key Value) (k : Key) :
    (ops.foldl Operation.apply data).lookup k
      = (lastOn k ops).elim (data.lookup k) Operation.stored := by
  induction ops using List.reverseRecOn with
  | nil => rfl
  | append_singleton ops op ih =>
    rw [List.foldl_append, List.foldl_cons, List.foldl_nil, Operation.lookup_apply, ih, lastOn_concat]
    by_cases h : op.key = k
    · rw [if_pos h.symm, if_pos h]
      rfl
    · rw [if_neg (Ne.symm h), if_neg h]

/-! ## one by one -/

namespace MemoryDatabase

/-- the call of `put` or `remove` that an operation stands for -/
def perform (db : MemoryDatabase) : Operation → MemoryDatabase
  | .put key value => (db.put key value).2
  | .remove key => (db.remove key).2

variable {data : UMap Key Value}

/-- a remove of an absent key changes nothing in either form -/
theorem perform_eq (op : Operation) : perform ⟨data, true⟩ op = ⟨op.apply data, true⟩ := by
  cases op with
  | put key value => rfl
  | remove key =>
    show (remove ⟨data, true⟩ key).2 = ⟨data.erase key, true⟩
    unfold remove
    cases h : data.lookup key with
    | none => simp [UMap.erase_of_none h]
    | some value => simp

theorem foldl_perform (ops : List Operation) :
    ops.foldl perform ⟨data, true⟩ = ⟨ops.foldl Operation.apply data, true⟩ := by
  induction ops generalizing data with
  | nil => rfl
  | cons op ops ih => rw [List.foldl_cons, perform_eq, ih, List.foldl_cons]

theorem get_of_lookup {k : Key} {op : Operation} (h : data.lookup k = op.stored) :
    get ⟨data, true⟩ k = op.answer := by
  cases op <;> simp [get, h, Operation.stored, Operation.answer]

theorem get_congr {data' : UMap Key Value} {k : Key} (h : data.lookup k = data'.lookup k) :
    get ⟨data, true⟩ k = get ⟨data', true⟩ k := by
  unfold get
  simp only [h]

end MemoryDatabase

open BatchCall MemoryDatabase

/-- **A batch is the sequence of its operations.**  For an open database with any content and a batch
built by any calls: `write` succeeds, the last operation on a key since the last `clear` decides what
`get` answers, other keys keep their values, and the content is that of the operations one by one. -/
theorem batch_sequence (data : UMap Key Value) (calls : List BatchCall) :
    let db : MemoryDatabase := ⟨data, true⟩
    let after := (db.write (some (built calls))).2
    (db.write (some (built calls))).1 = .success ∧
      (∀ k, after.get k = (lastOn k (sinceClear calls)).elim (db.get k) Operation.answer) ∧
      (∀ k, (∀ op ∈ built calls, op.key ≠ k) → after.data.lookup k = data.lookup k) ∧
      after = (sinceClear calls).foldl perform db := by
  intro db after
  have hafter : after = ⟨(sinceClear calls).foldl Operation.apply data, true⟩ := by
    show (db.write (some (built calls))).2 = _
    rw [built_eq]
    rfl
  have hlookup := lookup_foldl (sinceClear calls) data
  refine ⟨rfl, fun k => ?_, fun k hk => ?_, ?_⟩
  · rw [hafter]
    cases hlast : lastOn k (sinceClear calls) with
    | none =>
      apply get_congr
      rw [hlookup k, hlast]
      rfl
    | some op =>
      apply get_of_lookup
      rw [hlookup k, hlast]
      rfl
  · have hnone : lastOn k (sinceClear calls) = none := by
      unfold lastOn
      rw [List.find?_eq_none]
      intro op hop
      rw [built_eq] at hk
      simpa using hk op (List.mem_reverse.mp hop)
    rw [hafter]
    show AList.lookup k _ = _
    rw [hlookup k, hnone]
    rfl
  · rw [hafter, foldl_perform]

end Storage
end ChainForge
