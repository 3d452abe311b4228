import Mathlib.Tactic

/-!
# Formatted text

The part of `sprintf` that prints decimal numbers: a format is cut into
directives, and the length of the text follows from what the arguments are long.
-/

namespace EthMange.Format

inductive Directive
  | text (c : UInt8)
  -- `%d`, with the least number of digits
  | decimal (precision : ℕ)
  deriving DecidableEq, Repr

/-- The directives of a format up to its NUL: `%d`, and `%0.nd`, where the flag
has no effect because there is a precision. -/
def parse : List UInt8 → List Directive
  | [] => []
  | 0 :: _ => []
  | 37 :: 100 :: fmt => .decimal 1 :: parse fmt
  | 37 :: 48 :: 46 :: n :: 100 :: fmt => .decimal (n.toNat - 48) :: parse fmt
  | c :: fmt => .text c :: parse fmt

def digits (n : ℕ) : List UInt8 := (Nat.digits 10 n).reverse.map fun d => UInt8.ofNat (48 + d)

/-- A number in at least `precision` digits. Zero has no digit of its own. -/
def decimal (precision : ℕ) (v : ℤ) : List UInt8 :=
  (if v < 0 then [45] else []) ++
    List.replicate (precision - (digits v.natAbs).length) 48 ++ digits v.natAbs

def render : List Directive → List ℤ → List UInt8
  | [], _ => []
  | .text c :: ds, args => c :: render ds args
  | .decimal precision :: ds, v :: args => decimal precision v ++ render ds args
  | .decimal _ :: ds, [] => render ds []

/-- What `sprintf` writes, with the NUL. -/
def sprintf (fmt : List UInt8) (args : List ℤ) : List UInt8 := render (parse fmt) args ++ [0]

def Directive.isText : Directive → Bool
  | .text _ => true
  | .decimal _ => false

/-- The precisions of the numbers in a format. -/
def precisions (ds : List Directive) : List ℕ :=
  ds.filterMap fun d => match d with
    | .text _ => none
    | .decimal precision => some precision

/-- How long a number is. -/
def width (precision : ℕ) (v : ℤ) : ℕ :=
  (if v < 0 then 1 else 0) + max precision (Nat.digits 10 v.natAbs).length

@[simp] theorem digits_length (n : ℕ) : (digits n).length = (Nat.digits 10 n).length := by
  simp [digits]

theorem decimal_length (precision : ℕ) (v : ℤ) :
    (decimal precision v).length = width precision v := by
  have hsign : (if v < 0 then [(45 : UInt8)] else []).length = if v < 0 then 1 else 0 := by
    split_ifs <;> rfl
  rw [decimal, List.length_append, List.length_append, List.length_replicate, digits_length, hsign,
    width]
  omega

theorem render_length (ds : List Directive) (args : List ℤ) :
    (render ds args).length =
      ds.countP Directive.isText + ((precisions ds).zipWith width args).sum := by
  induction ds generalizing args with
  | nil => simp [render, precisions]
  | cons d ds ih =>
    cases d with
    | text c =>
      rw [render, List.length_cons, ih, List.countP_cons_of_pos rfl]
      exact Nat.add_right_comm _ _ _
    | decimal precision =>
      rw [List.countP_cons_of_neg (by simp [Directive.isText])]
      cases args with
      | nil =>
        rw [render, ih]
        simp
      | cons v args =>
        rw [render, List.length_append, decimal_length, ih]
        simp only [precisions, List.filterMap_cons, List.zipWith_cons_cons, List.sum_cons]
        exact Nat.add_left_comm _ _ _

theorem sprintf_length (fmt : List UInt8) (args : List ℤ) :
    (sprintf fmt args).length =
      (parse fmt).countP Directive.isText +
        ((precisions (parse fmt)).zipWith width args).sum + 1 := by
  rw [sprintf, List.length_append, render_length]
  rfl

/-- The number of decimal digits of a natural number below `10 ^ (k + 1)`. -/
theorem width_of_lt {k n : ℕ} (hlow : 10 ^ k ≤ n) (hhigh : n < 10 ^ (k + 1)) :
    width 1 n = k + 1 := by
  have hpos : n ≠ 0 := (lt_of_lt_of_le (by positivity) hlow).ne'
  have hlog : Nat.log 10 n = k :=
    (Nat.log_eq_iff (.inr ⟨by decide, hpos⟩)).mpr ⟨hlow, hhigh⟩
  have hlen : (Nat.digits 10 n).length = k + 1 := by
    rw [Nat.length_digits 10 n (by decide) hpos, hlog]
  simp [width, hlen]

end EthMange.Format
