import ChainForge.Core.Types
import Mathlib.Data.Int.Order.Basic

/-!
# Arithmetic of amounts

`modules/core/src/amount.cpp`: the four operators, which throw where the 64 bits do not hold the
result, and the compound assignments.  Over them the expression trees, with their exact value in `ℤ`
and the nodes at which it cannot be computed (`Off`).

`Settles r off v` says that `r` is `v`, exactly, or an exception that is justified by `off`.

* `add_settles` .. `div_settles`   the four operators;
* `Settles.bind`                   exact steps make an exact computation;
* `eval_settles`                   every tree;
* `amount_exact`                   **exact or refused**, and the target of a refused assignment keeps
                                   its value.
-/

set_option linter.unusedSectionVars false

namespace ChainForge

/-- the exceptions of the operators, with their texts -/
inductive ArithmeticExn where
  | overflowError (what : String)
  | underflowError (what : String)
  | domainError (what : String)
  deriving DecidableEq, Repr

namespace Amount

def maxValue : UInt64 := 18446744073709551615

/-- the test of the source names one operand twice -/
def validateOverflow (wei result : UInt64) (operation : String) : Except ArithmeticExn Unit :=
  if result < wei || result < wei then
    .error (.overflowError ("Amount " ++ operation ++ " overflow"))
  else .ok ()

def add (a other : Amount) : Except ArithmeticExn Amount := do
  validateOverflow a (a + other) "addition"
  return a + other

def sub (a other : Amount) : Except ArithmeticExn Amount :=
  if a < other then .error (.underflowError "Amount subtraction underflow")
  else .ok (a - other)

def mul (a : Amount) (multiplier : UInt64) : Except ArithmeticExn Amount :=
  if multiplier == 0 then .ok 0
  else if a > maxValue / multiplier then .error (.overflowError "Amount multiplication overflow")
  else .ok (a * multiplier)

def div (a : Amount) (divisor : UInt64) : Except ArithmeticExn Amount :=
  if divisor == 0 then .error (.domainError "Division by zero")
  else .ok (a / divisor)

/-! ## the operators -/

/-- what 64 bits hold -/
def InRange (v : ℤ) : Prop := 0 ≤ v ∧ v < 2^64

instance decidableInRange (v : ℤ) : Decidable (InRange v) :=
  inferInstanceAs (Decidable (_ ∧ _))

/-- the value `v`, or an exception where the result is `off` -/
def Settles (r : Except ArithmeticExn Amount) (off : Prop) (v : ℤ) : Prop :=
  match r with
  | .ok a => ¬ off ∧ (a.toNat : ℤ) = v
  | .error _ => off

theorem add_settles (a b : Amount) :
    Settles (add a b) (¬ InRange (a.toNat + b.toNat)) (a.toNat + b.toNat) := by
  have ha := a.toNat_lt
  have hb := b.toNat_lt
  have hsum : (a + b).toNat = (a.toNat + b.toNat) % 2^64 := UInt64.toNat_add a b
  unfold add validateOverflow InRange
  by_cases hlt : a + b < a
  · -- the sum has wrapped
    rw [if_pos (by rw [decide_eq_true hlt]; rfl)]
    rw [UInt64.lt_iff_toNat_lt] at hlt
    show ¬ _
    omega
  · rw [if_neg (by rw [decide_eq_false hlt]; exact Bool.false_ne_true)]
    rw [UInt64.lt_iff_toNat_lt] at hlt
    exact ⟨by omega, by omega⟩

theorem sub_settles (a b : Amount) :
    Settles (sub a b) (¬ InRange (a.toNat - b.toNat)) (a.toNat - b.toNat) := by
  have ha := a.toNat_lt
  unfold sub InRange
  by_cases hlt : a < b
  · rw [if_pos hlt]
    rw [UInt64.lt_iff_toNat_lt] at hlt
    show ¬ _
    omega
  · rw [if_neg hlt]
    have hle : b ≤ a := UInt64.not_lt.mp hlt
    have hdiff : (a - b).toNat = a.toNat - b.toNat := UInt64.toNat_sub_of_le _ _ hle
    rw [UInt64.le_iff_toNat_le] at hle
    exact ⟨by omega, by omega⟩

/-- the division before the multiplication -/
theorem maxValue_div_lt_iff (a : Amount) {m : UInt64} (hm : m ≠ 0) :
    a > maxValue / m ↔ 2^64 ≤ a.toNat * m.toNat := by
  have hpos : 0 < m.toNat := Nat.pos_of_ne_zero fun h => hm (UInt64.toNat_inj.mp h)
  rw [gt_iff_lt, UInt64.lt_iff_toNat_lt, UInt64.toNat_div, Nat.div_lt_iff_lt_mul hpos]
  exact Nat.lt_iff_add_one_le

theorem mul_settles (a : Amount) (m : UInt64) :
    Settles (mul a m) (¬ InRange (a.toNat * m.toNat)) (a.toNat * m.toNat) := by
  unfold mul InRange
  by_cases hm : m = 0
  · subst hm
    rw [if_pos (beq_self_eq_true _)]
    exact ⟨by simp, by simp⟩
  rw [if_neg (by rwa [beq_iff_eq])]
  have hprod : (a * m).toNat = a.toNat * m.toNat % 2^64 := UInt64.toNat_mul a m
  rw [← Nat.cast_mul]
  by_cases hgt : a > maxValue / m
  · rw [if_pos hgt]
    rw [maxValue_div_lt_iff a hm] at hgt
    show ¬ _
    omega
  · rw [if_neg hgt]
    rw [maxValue_div_lt_iff a hm] at hgt
    exact ⟨by omega, by omega⟩

theorem div_settles (a : Amount) (d : UInt64) :
    Settles (div a d) (d = 0 ∨ ¬ InRange (a.toNat / d.toNat)) (a.toNat / d.toNat) := by
  unfold div InRange
  by_cases hd : d = 0
  · rw [if_pos (beq_iff_eq.mpr hd)]
    exact Or.inl hd
  rw [if_neg (by rwa [beq_iff_eq])]
  have hquot : (a / d).toNat = a.toNat / d.toNat := UInt64.toNat_div a d
  have hle : a.toNat / d.toNat ≤ a.toNat := Nat.div_le_self _ _
  have ha := a.toNat_lt
  rw [← Int.natCast_ediv, ← hquot]
  refine ⟨?_, rfl⟩
  rintro (h | h)
  · exact hd h
  · omega

/-- **An exact step after an exact computation.** -/
theorem Settles.bind {r : Except ArithmeticExn Amount} {off off' : Prop} {v w : ℤ}
    {f : Amount → Except ArithmeticExn Amount} (hr : Settles r off v)
    (hf : ∀ a : Amount, (a.toNat : ℤ) = v → Settles (f a) off' w) :
    Settles (r.bind f) (off ∨ off') w := by
  cases r with
  | error e => exact Or.inl hr
  | ok a =>
    obtain ⟨hoff, hv⟩ := hr
    have hstep := hf a hv
    show Settles (f a) (off ∨ off') w
    cases hfa : f a with
    | error e =>
      rw [hfa] at hstep
      exact Or.inr hstep
    | ok b =>
      rw [hfa] at hstep
      exact ⟨fun h => h.elim hoff hstep.1, hstep.2⟩

theorem Settles.congr {r : Except ArithmeticExn Amount} {off off' : Prop} {v : ℤ}
    (h : Settles r off v) (hoff : off' ↔ off) : Settles r off' v := by
  rwa [propext hoff]

/-! ## expression trees -/

inductive Expr where
  | const (wei : UInt64)
  | add (l r : Expr)
  | sub (l r : Expr)
  | mul (e : Expr) (multiplier : UInt64)
  | div (e : Expr) (divisor : UInt64)
  deriving DecidableEq, Repr

namespace Expr

/-- C++ leaves the order of the operands open; it shows only in which of two exceptions is thrown -/
def eval : Expr → Except ArithmeticExn Amount
  | const wei => .ok wei
  | add l r => do
    let a ← l.eval
    let b ← r.eval
    Amount.add a b
  | sub l r => do
    let a ← l.eval
    let b ← r.eval
    Amount.sub a b
  | mul e multiplier => do
    let a ← e.eval
    Amount.mul a multiplier
  | div e divisor => do
    let a ← e.eval
    Amount.div a divisor

/-- the exact value; `/` rounds down -/
def value : Expr → ℤ
  | const wei => wei.toNat
  | add l r => l.value + r.value
  | sub l r => l.value - r.value
  | mul e multiplier => e.value * multiplier.toNat
  | div e divisor => e.value / divisor.toNat

def nodes : Expr → List Expr
  | const wei => [const wei]
  | add l r => add l r :: (l.nodes ++ r.nodes)
  | sub l r => sub l r :: (l.nodes ++ r.nodes)
  | mul e multiplier => mul e multiplier :: e.nodes
  | div e divisor => div e divisor :: e.nodes

def dividesByZero : Expr → Bool
  | div _ divisor => divisor == 0
  | _ => false

/-- the node divides by zero, or its value is not in range -/
def Off (n : Expr) : Prop := n.dividesByZero = true ∨ ¬ InRange n.value

instance decidableOff (n : Expr) : Decidable n.Off := inferInstanceAs (Decidable (_ ∨ _))

theorem exists_off_binary (n : Expr) (ls rs : List Expr) :
    (∃ m ∈ n :: (ls ++ rs), m.Off) ↔ (∃ m ∈ ls, m.Off) ∨ (∃ m ∈ rs, m.Off) ∨ n.Off := by
  have happend : (∃ m ∈ ls ++ rs, m.Off) ↔ (∃ m ∈ ls, m.Off) ∨ ∃ m ∈ rs, m.Off := by
    simp only [List.mem_append, or_and_right, exists_or]
  rw [List.exists_mem_cons_iff, happend, or_comm, or_assoc]

theorem exists_off_unary (n : Expr) (es : List Expr) :
    (∃ m ∈ n :: es, m.Off) ↔ (∃ m ∈ es, m.Off) ∨ n.Off := by
  rw [List.exists_mem_cons_iff, or_comm]

theorem off_iff_of_no_division {n : Expr} (h : n.dividesByZero = false) :
    n.Off ↔ ¬ InRange n.value := by
  unfold Off
  rw [h]
  exact ⟨fun h => h.resolve_left Bool.false_ne_true, Or.inr⟩

/-- **Every tree**, by induction: the operators are exact on the exact values of their operands. -/
theorem eval_settles (e : Expr) : Settles e.eval (∃ n ∈ e.nodes, n.Off) e.value := by
  induction e with
  | const wei =>
    refine ⟨?_, rfl⟩
    rintro ⟨n, hn, hoff⟩
    rw [List.mem_singleton.mp hn, off_iff_of_no_division rfl] at hoff
    exact hoff ⟨Int.natCast_nonneg _, Int.ofNat_lt.mpr wei.toNat_lt⟩
  | add l r ihl ihr =>
    refine (ihl.bind fun a ha => ihr.bind fun b hb => ?_).congr
      (exists_off_binary (add l r) l.nodes r.nodes)
    rw [off_iff_of_no_division rfl, value, ← ha, ← hb]
    exact add_settles a b
  | sub l r ihl ihr =>
    refine (ihl.bind fun a ha => ihr.bind fun b hb => ?_).congr
      (exists_off_binary (sub l r) l.nodes r.nodes)
    rw [off_iff_of_no_division rfl, value, ← ha, ← hb]
    exact sub_settles a b
  | mul e multiplier ih =>
    refine (ih.bind fun a ha => ?_).congr (exists_off_unary (mul e multiplier) e.nodes)
    rw [off_iff_of_no_division rfl, value, ← ha]
    exact mul_settles a multiplier
  | div e divisor ih =>
    refine (ih.bind fun a ha => ?_).congr (exists_off_unary (div e divisor) e.nodes)
    unfold Off
    rw [value, ← ha]
    exact (div_settles a divisor).congr (or_congr beq_iff_eq Iff.rfl)

-- one node is off range, although the value of the whole is not
example : ∃ n ∈ (add (sub (const 1) (const 2)) (const 3)).nodes, n.Off := by decide

end Expr

/-! ## compound assignments -/

/-- `+=`, `-=`, `*=` and `/=` with their right sides -/
inductive Assign where
  | add (other : Amount)
  | sub (other : Amount)
  | mul (multiplier : UInt64)
  | div (divisor : UInt64)

/-- the right side of `*this = *this + other` and its like -/
def Assign.result (target : Amount) : Assign → Except ArithmeticExn Amount
  | add other => Amount.add target other
  | sub other => Amount.sub target other
  | mul multiplier => Amount.mul target multiplier
  | div divisor => Amount.div target divisor

/-- the target after the assignment, and the exception that left it -/
def Assign.exec (target : Amount) (op : Assign) : Amount × Option ArithmeticExn :=
  match op.result target with
  | .ok a => (a, none)
  | .error e => (target, some e)

end Amount

/-- **Exact or refused.**  A tree throws exactly if a node of it divides by zero or has a value that
64 bits do not hold, and is evaluated to its exact value otherwise.  An assignment that throws leaves
its target. -/
theorem amount_exact (e : Amount.Expr) :
    ((∃ x, e.eval = .error x) ↔ ∃ n ∈ e.nodes, n.Off) ∧
      (∀ a, e.eval = .ok a → (a.toNat : ℤ) = e.value) ∧
      ∀ (op : Amount.Assign) (target : Amount) (x : ArithmeticExn),
        (op.exec target).2 = some x → (op.exec target).1 = target := by
  have h := e.eval_settles
  refine ⟨?_, fun a ha => ?_, fun op target x hx => ?_⟩
  · cases he : e.eval with
    | ok a =>
      rw [he] at h
      refine ⟨?_, fun hoff => absurd hoff h.1⟩
      rintro ⟨x, hx⟩
      cases hx
    | error x =>
      rw [he] at h
      exact ⟨fun _ => h, fun _ => ⟨x, rfl⟩⟩
  · rw [ha] at h
    exact h.2
  · unfold Amount.Assign.exec at hx ⊢
    split at hx
    · cases hx
    · rfl

end ChainForge
