import ChainForge.Core.Types
import ChainForge.Lib.Cursor
import ChainForge.Lib.Store

/-!
# The in-memory database

`modules/storage/src/rocksdb_database.cpp`: `MemoryDatabase`, its write batches and its iterators.
Keys and values are byte vectors, compared byte by byte; the options are read nowhere, and of the
configuration only `error_if_exists` is.

An iterator keeps the sorted keys that the database had when it was created, and a position in them
of type `int`; a value is looked up in the database when it is asked for.  `value` is therefore given
the data of the moment.

* `make_sorted`, `mem_make`, `make_length`   the keys of a new iterator are those of the database, in
                                            strictly ascending order.
-/

set_option linter.unusedSectionVars false

namespace ChainForge
namespace Storage
open Cursor

abbrev Key := List UInt8
abbrev Value := List UInt8

inductive StorageError where
  | success | notFound | alreadyExists | invalidArgument | ioError | corruption | notSupported
  | timeout | lockConflict
  deriving DecidableEq, Repr

structure StorageResult (α : Type) where
  value : α
  error : StorageError
  deriving DecidableEq, Repr

structure DatabaseConfig where
  errorIfExists : Bool := false
  deriving DecidableEq, Repr

/-- the operations that a `MemoryWriteBatch` collects -/
inductive Operation where
  | put (key : Key) (value : Value)
  | remove (key : Key)
  deriving DecidableEq, Repr

abbrev MemoryWriteBatch := List Operation

/-- the effect of an operation on the data -/
def Operation.apply (data : UMap Key Value) : Operation → UMap Key Value
  | put key value => data.insert key value
  | remove key => data.erase key

/-! ## iterators -/

/-- `static_cast<int>`, on 32 bits -/
def toInt (n : Int) : Int := n.bmod 4294967296

theorem toInt_of_lt {n : Nat} (h : n < 2 ^ 31) : toInt n = n := by
  unfold toInt
  rw [Int.bmod_eq_of_le] <;> omega

structure MemoryIterator where
  keys : List Key
  currentIndex : Int
  deriving DecidableEq, Repr

namespace MemoryIterator

def make (data : UMap Key Value) : MemoryIterator where
  keys := data.keys.insertionSort (· ≤ ·)
  currentIndex := -1

def valid (it : MemoryIterator) : Bool :=
  it.currentIndex ≥ 0 && it.currentIndex.toNat < it.keys.length

def seekToFirst (it : MemoryIterator) : MemoryIterator :=
  { it with currentIndex := if it.keys.isEmpty then -1 else 0 }

def seekToLast (it : MemoryIterator) : MemoryIterator :=
  { it with currentIndex := if it.keys.isEmpty then -1 else toInt (it.keys.length - 1 : Nat) }

def seek (it : MemoryIterator) (key : Key) : MemoryIterator :=
  let found := lowerBound it.keys key
  { it with currentIndex := if it.keys[found]? = some key then toInt found else -1 }

/-- `keys_.size() - 1` is a number of type `size_t` -/
def next (it : MemoryIterator) : MemoryIterator :=
  { it with
    currentIndex :=
      if it.currentIndex ≥ 0 ∧ it.currentIndex.toNat < (UInt64.ofNat it.keys.length - 1).toNat then
        toInt (it.currentIndex + 1)
      else -1 }

def prev (it : MemoryIterator) : MemoryIterator :=
  { it with currentIndex := if it.currentIndex > 0 then it.currentIndex - 1 else -1 }

def key (it : MemoryIterator) : Key :=
  if !it.valid then [] else it.keys.getD it.currentIndex.toNat []

def value (it : MemoryIterator) (data : UMap Key Value) : Value :=
  if !it.valid then []
  else
    match data.lookup (it.keys.getD it.currentIndex.toNat []) with
    | some value => value
    | none => []

/-- what a caller reads who asks `valid()` first -/
def item (data : UMap Key Value) (it : MemoryIterator) : Option (Key × Value) :=
  if it.valid then some (it.key, it.value data) else none

end MemoryIterator

/-! ## the database -/

structure MemoryDatabase where
  data : UMap Key Value
  isOpen : Bool

namespace MemoryDatabase

def make : MemoryDatabase := ⟨∅, false⟩

def openWith (db : MemoryDatabase) (config : DatabaseConfig) : StorageError × MemoryDatabase :=
  if db.isOpen then (.alreadyExists, db)
  else if config.errorIfExists && !db.data.entries.isEmpty then (.alreadyExists, db)
  else (.success, { db with isOpen := true })

def close (db : MemoryDatabase) : StorageError × MemoryDatabase :=
  if !db.isOpen then (.success, db) else (.success, ⟨∅, false⟩)

def get (db : MemoryDatabase) (key : Key) : StorageResult Value :=
  if !db.isOpen then ⟨[], .ioError⟩
  else
    match db.data.lookup key with
    | none => ⟨[], .notFound⟩
    | some value => ⟨value, .success⟩

def put (db : MemoryDatabase) (key : Key) (value : Value) : StorageError × MemoryDatabase :=
  if !db.isOpen then (.ioError, db) else (.success, { db with data := db.data.insert key value })

def remove (db : MemoryDatabase) (key : Key) : StorageError × MemoryDatabase :=
  if !db.isOpen then (.ioError, db)
  else
    match db.data.lookup key with
    | none => (.notFound, db)
    | some _ => (.success, { db with data := db.data.erase key })

/-- `none` is a batch of another class, which the `dynamic_cast` refuses -/
def write (db : MemoryDatabase) (batch : Option MemoryWriteBatch) : StorageError × MemoryDatabase :=
  if !db.isOpen then (.ioError, db)
  else
    match batch with
    | none => (.invalidArgument, db)
    | some operations => (.success, { db with data := operations.foldl Operation.apply db.data })

def newIterator (db : MemoryDatabase) : Option MemoryIterator :=
  if !db.isOpen then none else some (.make db.data)

end MemoryDatabase

/-! ## a new iterator -/

theorem MemoryIterator.make_sorted (data : UMap Key Value) :
    (MemoryIterator.make data).keys.Pairwise (· < ·) := by
  have hle : (data.keys.insertionSort (· ≤ ·)).Pairwise (· ≤ ·) := List.pairwise_insertionSort _ _
  have hne : (data.keys.insertionSort (· ≤ ·)).Pairwise (· ≠ ·) :=
    (List.perm_insertionSort _ _).nodup_iff.mpr data.nodupKeys
  exact (hle.and hne).imp fun h => lt_of_le_of_ne h.1 h.2

theorem MemoryIterator.mem_make {data : UMap Key Value} {key : Key} :
    key ∈ (MemoryIterator.make data).keys ↔ ∃ value, data.lookup key = some value := by
  show key ∈ data.keys.insertionSort (· ≤ ·) ↔ _
  rw [List.mem_insertionSort, UMap.mem_keys]

theorem MemoryIterator.make_length (data : UMap Key Value) :
    (MemoryIterator.make data).keys.length = data.entries.length := by
  show (data.keys.insertionSort (· ≤ ·)).length = _
  rw [List.length_insertionSort]
  exact List.length_map _

end Storage
end ChainForge
