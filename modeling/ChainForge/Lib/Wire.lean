import Mathlib.Data.List.Basic
import Mathlib.Data.UInt

/-!
# The proto3 wire format

A message is a list of numbered fields with values of two kinds, varints and length-delimited
bytes; nested messages and repeated fields are made of the latter.  Fields that hold their default
are left out.

* `decodeFields_encodeFields`   a list of fields reads back;
* `MessageType M`               how a record `M` is a list of fields, with the law that it reads back
                                from them; `select`, `fieldsOf` and the four pairs of value functions
                                are what such a description is built from;
* `MessageType.decode_encode`   **an encoded message decodes to itself**;
* `Codec M`                     a serialiser and a parser of messages of which just this is known.

Other wire types than the two are not read, and of several values for a singular field the last is
taken.
-/

set_option linter.unusedSectionVars false

namespace Wire

/-! ## varints -/

/-- base 128, the lowest group first, a continuation bit on all bytes but the last -/
def encodeVarint (n : Nat) : List UInt8 :=
  if n < 128 then [UInt8.ofNat n] else UInt8.ofNat (n % 128 + 128) :: encodeVarint (n / 128)
termination_by n

def decodeVarint : List UInt8 → Option (Nat × List UInt8)
  | [] => none
  | b :: rest =>
    if b.toNat < 128 then some (b.toNat, rest)
    else (decodeVarint rest).map fun p => (b.toNat - 128 + 128 * p.1, p.2)

theorem decodeVarint_encodeVarint (n : Nat) (rest : List UInt8) :
    decodeVarint (encodeVarint n ++ rest) = some (n, rest) := by
  induction n using Nat.strong_induction_on with
  | _ n ih =>
    rw [encodeVarint]
    by_cases h : n < 128
    · have hb : (UInt8.ofNat n).toNat = n := by
        rw [UInt8.toNat_ofNat']
        omega
      rw [if_pos h, List.singleton_append, decodeVarint, hb, if_pos h]
    · have hb : (UInt8.ofNat (n % 128 + 128)).toNat = n % 128 + 128 := by
        rw [UInt8.toNat_ofNat']
        omega
      have hge : ¬ n % 128 + 128 < 128 := by omega
      have hn : n % 128 + 128 - 128 + 128 * (n / 128) = n := by omega
      rw [if_neg h, List.cons_append, decodeVarint, hb, if_neg hge, ih (n / 128) (by omega),
        Option.map_some, hn]

theorem encodeVarint_ne_nil (n : Nat) : encodeVarint n ≠ [] := by
  rw [encodeVarint]
  split <;> exact List.cons_ne_nil _ _

/-! ## fields -/

inductive Value where
  | varint (n : Nat)
  | bytes (b : List UInt8)
  deriving DecidableEq, Repr

structure Field where
  num : Nat
  value : Value
  deriving DecidableEq, Repr

/-- the tag, number and wire type, and the value -/
def encodeField (f : Field) : List UInt8 :=
  match f.value with
  | .varint n => encodeVarint (8 * f.num) ++ encodeVarint n
  | .bytes b => encodeVarint (8 * f.num + 2) ++ (encodeVarint b.length ++ b)

def decodeField (s : List UInt8) : Option (Field × List UInt8) := do
  let (tag, s) ← decodeVarint s
  let (n, s) ← decodeVarint s
  if tag % 8 = 0 then return (⟨tag / 8, .varint n⟩, s)
  else if tag % 8 = 2 ∧ n ≤ s.length then return (⟨tag / 8, .bytes (s.take n)⟩, s.drop n)
  else none

theorem decodeField_encodeField (f : Field) (rest : List UInt8) :
    decodeField (encodeField f ++ rest) = some (f, rest) := by
  obtain ⟨num, value⟩ := f
  unfold encodeField decodeField
  cases value with
  | varint n =>
    have hdiv : 8 * num / 8 = num := by omega
    have hmod : 8 * num % 8 = 0 := by omega
    simp only [List.append_assoc, decodeVarint_encodeVarint, Option.bind_eq_bind, Option.bind_some,
      hmod, if_true, hdiv]
    rfl
  | bytes b =>
    have hdiv : (8 * num + 2) / 8 = num := by omega
    have hmod : (8 * num + 2) % 8 = 2 := by omega
    have hlen : b.length ≤ (b ++ rest).length := by
      rw [List.length_append]
      omega
    simp only [List.append_assoc, decodeVarint_encodeVarint, Option.bind_eq_bind, Option.bind_some,
      hmod, hdiv, hlen, and_self, if_true, List.take_left, List.drop_left]
    rfl

theorem encodeField_ne_nil (f : Field) : encodeField f ≠ [] := by
  unfold encodeField
  cases f.value with
  | varint n => exact List.append_ne_nil_of_left_ne_nil (encodeVarint_ne_nil _) _
  | bytes b => exact List.append_ne_nil_of_left_ne_nil (encodeVarint_ne_nil _) _

def encodeFields (fs : List Field) : List UInt8 := fs.flatMap encodeField

/-- at most `n` fields -/
def decodeUpTo : Nat → List UInt8 → Option (List Field)
  | _, [] => some []
  | 0, _ :: _ => none
  | n + 1, b :: s => do
    let (f, s) ← decodeField (b :: s)
    let fs ← decodeUpTo n s
    return f :: fs

/-- there are no more fields than bytes -/
def decodeFields (s : List UInt8) : Option (List Field) := decodeUpTo s.length s

theorem decodeUpTo_encodeFields (fs : List Field) {n : Nat} (hn : fs.length ≤ n) :
    decodeUpTo n (encodeFields fs) = some fs := by
  induction fs generalizing n with
  | nil => cases n <;> rfl
  | cons f fs ih =>
    obtain ⟨k, rfl⟩ : ∃ k, n = k + 1 := ⟨n - 1, by rw [List.length_cons] at hn; omega⟩
    have hne : encodeFields (f :: fs) ≠ [] :=
      List.append_ne_nil_of_left_ne_nil (encodeField_ne_nil f) _
    have hfield : decodeField (encodeFields (f :: fs)) = some (f, encodeFields fs) :=
      decodeField_encodeField f _
    cases hs : encodeFields (f :: fs) with
    | nil => exact absurd hs hne
    | cons b s =>
      rw [hs] at hfield
      rw [decodeUpTo, hfield]
      simp only [Option.bind_eq_bind, Option.bind_some]
      rw [ih (by rw [List.length_cons] at hn; omega)]
      rfl

theorem length_le_encodeFields (fs : List Field) : fs.length ≤ (encodeFields fs).length := by
  induction fs with
  | nil => exact Nat.zero_le _
  | cons f fs ih =>
    have h : 0 < (encodeField f).length := List.length_pos_iff.mpr (encodeField_ne_nil f)
    show fs.length + 1 ≤ (encodeField f ++ encodeFields fs).length
    rw [List.length_append]
    omega

theorem decodeFields_encodeFields (fs : List Field) :
    decodeFields (encodeFields fs) = some fs :=
  decodeUpTo_encodeFields fs (length_le_encodeFields fs)

/-! ## messages -/

/-- the values of the fields with this number -/
def select (num : Nat) (fs : List Field) : List Value :=
  (fs.filter (·.num == num)).map (·.value)

/-- fields with this number and these values -/
def fieldsOf (num : Nat) (vs : List Value) : List Field := vs.map (⟨num, ·⟩)

@[simp] theorem select_append (num : Nat) (fs gs : List Field) :
    select num (fs ++ gs) = select num fs ++ select num gs := by
  unfold select
  rw [List.filter_append, List.map_append]

@[simp] theorem select_fieldsOf (num k : Nat) (vs : List Value) :
    select k (fieldsOf num vs) = if num = k then vs else [] := by
  unfold select fieldsOf
  rw [List.filter_map, List.map_map]
  by_cases h : num = k
  · rw [if_pos h, List.filter_eq_self.mpr (by simp [h])]
    exact List.map_id vs
  · rw [if_neg h, List.filter_eq_nil_iff.mpr (by simp [h]), List.map_nil]

/-- a singular number; zero is left out -/
def varintValues (n : Nat) : List Value := if n = 0 then [] else [.varint n]

def getVarint (vs : List Value) : Nat :=
  match vs.getLast? with
  | some (.varint n) => n
  | _ => 0

@[simp] theorem getVarint_varintValues (n : Nat) : getVarint (varintValues n) = n := by
  unfold varintValues
  by_cases h : n = 0
  · rw [if_pos h, h]
    rfl
  · rw [if_neg h]
    rfl

/-- singular bytes; the empty string is left out -/
def bytesValues (b : List UInt8) : List Value := if b.isEmpty then [] else [.bytes b]

def getBytes (vs : List Value) : List UInt8 :=
  match vs.getLast? with
  | some (.bytes b) => b
  | _ => []

@[simp] theorem getBytes_bytesValues (b : List UInt8) : getBytes (bytesValues b) = b := by
  cases b <;> rfl

/-- a record as a list of fields -/
structure MessageType (M : Type) where
  toFields : M → List Field
  ofFields : List Field → Option M
  ofFields_toFields : ∀ m, ofFields (toFields m) = some m

namespace MessageType
variable {M : Type} (t : MessageType M)

def encode (m : M) : List UInt8 := encodeFields (t.toFields m)

def decode (s : List UInt8) : Option M := (decodeFields s).bind t.ofFields

@[simp] theorem decode_encode (m : M) : t.decode (t.encode m) = some m := by
  unfold decode encode
  rw [decodeFields_encodeFields, Option.bind_some, t.ofFields_toFields]

/-- a singular message, present or not -/
def subValues (o : Option M) : List Value := (o.map fun m => Value.bytes (t.encode m)).toList

def getSub (vs : List Value) : Option (Option M) :=
  match vs.getLast? with
  | some (.bytes b) => (t.decode b).map some
  | _ => some none

@[simp] theorem getSub_subValues (o : Option M) : t.getSub (t.subValues o) = some o := by
  cases o with
  | none => rfl
  | some m =>
    show (t.decode (t.encode m)).map some = _
    rw [decode_encode]
    rfl

/-- a repeated message -/
def repValues (l : List M) : List Value := l.map fun m => Value.bytes (t.encode m)

def getRep (vs : List Value) : Option (List M) :=
  vs.mapM fun v =>
    match v with
    | .bytes b => t.decode b
    | .varint _ => none

@[simp] theorem getRep_repValues (l : List M) : t.getRep (t.repValues l) = some l := by
  induction l with
  | nil => rfl
  | cons m l ih =>
    unfold getRep repValues at ih ⊢
    rw [List.map_cons, List.mapM_cons, ih]
    dsimp only
    rw [decode_encode]
    rfl

end MessageType

/-! ## codecs -/

/-- a serialiser and a parser, each of which may refuse, that undo each other on messages -/
structure Codec (M : Type) where
  serializeToArray : M → Option (List UInt8)
  parseFromArray : List UInt8 → Option M
  parse_serialize : ∀ m, ∃ b, serializeToArray m = some b ∧ parseFromArray b = some m

def MessageType.codec {M : Type} (t : MessageType M) : Codec M where
  serializeToArray m := some (t.encode m)
  parseFromArray := t.decode
  parse_serialize m := ⟨t.encode m, rfl, t.decode_encode m⟩

end Wire
