/-!
# Token counts

A place holds finitely many tokens, or so many that the number does not matter any more, written
ω. Finite counts may be limited by a capacity: a count that would grow beyond it stays where it is.
ω exceeds every finite count, and stays ω when tokens come or go.
-/

namespace DrawnModels

/-- How far finite counts go. -/
inductive Capacity
  | upTo (most : Nat)
  | unlimited
deriving DecidableEq

namespace Capacity

/-- The counts that fit into 64 bits. -/
abbrev word : Capacity :=
  .upTo 18446744073709551615

def Allows : Capacity → Nat → Prop
  | upTo most, n => n ≤ most
  | unlimited, _ => True

instance : (cap : Capacity) → (n : Nat) → Decidable (cap.Allows n)
  | upTo most, n => inferInstanceAs (Decidable (n ≤ most))
  | unlimited, _ => inferInstanceAs (Decidable True)

/-- The number itself, or the largest one that is allowed. -/
def clamp : Capacity → Nat → Nat
  | upTo most, n => min n most
  | unlimited, n => n

theorem allows_clamp (cap : Capacity) (n : Nat) : cap.Allows (cap.clamp n) := by
  cases cap with
  | upTo most => exact Nat.min_le_right n most
  | unlimited => trivial

theorem Allows.mono {cap : Capacity} {m n : Nat} (h : cap.Allows n) (hm : m ≤ n) :
    cap.Allows m := by
  cases cap with
  | upTo most => exact Nat.le_trans hm h
  | unlimited => trivial

theorem clamp_eq_self {cap : Capacity} {n : Nat} (h : cap.Allows n) : cap.clamp n = n := by
  cases cap with
  | upTo most => exact Nat.min_eq_left h
  | unlimited => rfl

end Capacity

structure Count (cap : Capacity) where
  val : Nat
  allowed : cap.Allows val
deriving DecidableEq

namespace Count

variable {cap : Capacity}

/-- The number itself, or the largest count. -/
def ofNat (cap : Capacity) (n : Nat) : Count cap :=
  ⟨cap.clamp n, cap.allows_clamp n⟩

/-- The number itself, if it is allowed. -/
def ofNat? (cap : Capacity) (n : Nat) : Option (Count cap) :=
  if h : cap.Allows n then some ⟨n, h⟩ else none

def zero : Count cap :=
  .ofNat cap 0

def succ (n : Count cap) : Count cap :=
  .ofNat cap (n.val + 1)

def pred? (n : Count cap) : Option (Count cap) :=
  if n.val = 0 then none else some ⟨n.val - 1, n.allowed.mono (Nat.sub_le _ _)⟩

theorem ext {m n : Count cap} (h : m.val = n.val) : m = n := by
  cases m; cases n; cases h; rfl

end Count

inductive Tokens (cap : Capacity)
  | finite (n : Count cap)
  | omega
deriving DecidableEq

namespace Tokens

variable {cap : Capacity}

def zero : Tokens cap :=
  finite .zero

def isOmega : Tokens cap → Bool
  | finite _ => false
  | omega => true

/-- Whether a token can be taken away. -/
def isPositive : Tokens cap → Bool
  | finite n => 0 < n.val
  | omega => true

def pred? : Tokens cap → Option (Tokens cap)
  | finite n => n.pred?.map finite
  | omega => some omega

def succ : Tokens cap → Tokens cap
  | finite n => finite n.succ
  | omega => omega

/-- Whether there are at least `k` tokens. -/
def atLeast (k : Nat) : Tokens cap → Bool
  | finite n => k ≤ n.val
  | omega => true

/-- By number, with ω above all finite counts. -/
def Le : Tokens cap → Tokens cap → Prop
  | _, omega => True
  | omega, finite _ => False
  | finite m, finite n => m.val ≤ n.val

/-- Strictly by number, with ω above all finite counts. -/
def Lt : Tokens cap → Tokens cap → Prop
  | omega, _ => False
  | finite _, omega => True
  | finite m, finite n => m.val < n.val

instance : LE (Tokens cap) := ⟨Tokens.Le⟩

instance : LT (Tokens cap) := ⟨Tokens.Lt⟩

instance : (s t : Tokens cap) → Decidable (s ≤ t)
  | finite _, omega => inferInstanceAs (Decidable True)
  | omega, omega => inferInstanceAs (Decidable True)
  | omega, finite _ => inferInstanceAs (Decidable False)
  | finite m, finite n => inferInstanceAs (Decidable (m.val ≤ n.val))

instance : (s t : Tokens cap) → Decidable (s < t)
  | omega, omega => inferInstanceAs (Decidable False)
  | omega, finite _ => inferInstanceAs (Decidable False)
  | finite _, omega => inferInstanceAs (Decidable True)
  | finite m, finite n => inferInstanceAs (Decidable (m.val < n.val))

instance : Ord (Tokens cap) where
  compare
    | finite m, finite n => compare m.val n.val
    | finite _, omega => .lt
    | omega, finite _ => .gt
    | omega, omega => .eq

instance : Std.LawfulEqOrd (Tokens cap) where
  compare_self {s} := by
    cases s with
    | finite n => exact Std.ReflOrd.compare_self (a := n.val)
    | omega => rfl
  eq_of_compare {s t} h := by
    cases s with
    | finite m =>
      cases t with
      | finite n => exact congrArg finite (Count.ext (Std.LawfulEqOrd.eq_of_compare h))
      | omega => cases h
    | omega =>
      cases t with
      | finite n => cases h
      | omega => rfl

instance : Std.TransOrd (Tokens cap) where
  eq_swap {s t} := by
    cases s with
    | finite m =>
      cases t with
      | finite n => exact Std.OrientedOrd.eq_swap (a := m.val) (b := n.val)
      | omega => rfl
    | omega => cases t <;> rfl
  isLE_trans {s t u} h h' := by
    cases s with
    | finite m =>
      cases t with
      | finite n =>
        cases u with
        | finite k => exact Std.TransOrd.isLE_trans (a := m.val) (b := n.val) (c := k.val) h h'
        | omega => rfl
      | omega =>
        cases u with
        | finite k => cases h'
        | omega => rfl
    | omega =>
      cases t with
      | finite n => cases h
      | omega => exact h'

/-- The number in decimal digits, or `∞`. -/
def render : Tokens cap → String
  | finite n => toString n.val
  | omega => "∞"

end Tokens

end DrawnModels
