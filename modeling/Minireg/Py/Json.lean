import Mathlib.Data.Rat.Defs

/-!
# JSON documents as Python sees them

`Json` is what `json.loads` returns: numbers without a fraction are Python
ints, the others floats (`float q` holds the exact value, `float none` is NaN
or an infinity, which the decoder accepts). `truthy`, `asInt?` and `eqInt` are
Python's truth test, `isinstance(v, int)` (a bool is an int there) and `v == n`.
-/

namespace Minireg.Py

inductive Json where
  | null
  | bool (b : Bool)
  | int (n : Int)
  | float (q : Option Rat)
  | str (s : String)
  | arr (xs : List Json)
  | obj (fields : List (String × Json))

namespace Json

mutual

def beq : Json → Json → Bool
  | .null, .null => true
  | .bool a, .bool b => a == b
  | .int a, .int b => a == b
  | .float a, .float b => a == b
  | .str a, .str b => a == b
  | .arr a, .arr b => beqList a b
  | .obj a, .obj b => beqFields a b
  | _, _ => false

def beqList : List Json → List Json → Bool
  | [], [] => true
  | a :: as, b :: bs => beq a b && beqList as bs
  | _, _ => false

def beqFields : List (String × Json) → List (String × Json) → Bool
  | [], [] => true
  | (k, a) :: as, (l, b) :: bs => k == l && beq a b && beqFields as bs
  | _, _ => false

end

mutual

theorem beq_iff : ∀ a b : Json, beq a b = true ↔ a = b
  | .null, b | .bool _, b | .int _, b | .float _, b | .str _, b => by cases b <;> simp [beq]
  | .arr xs, b => by
    cases b with
    | arr ys => simpa [beq] using beqList_iff xs ys
    | _ => simp [beq]
  | .obj xs, b => by
    cases b with
    | obj ys => simpa [beq] using beqFields_iff xs ys
    | _ => simp [beq]

theorem beqList_iff : ∀ xs ys : List Json, beqList xs ys = true ↔ xs = ys
  | [], ys => by cases ys <;> simp [beqList]
  | x :: xs, ys => by
    cases ys with
    | nil => simp [beqList]
    | cons y ys => simp [beqList, beq_iff x y, beqList_iff xs ys]

theorem beqFields_iff : ∀ xs ys : List (String × Json), beqFields xs ys = true ↔ xs = ys
  | [], ys => by cases ys <;> simp [beqFields]
  | (k, x) :: xs, ys => by
    cases ys with
    | nil => simp [beqFields]
    | cons y ys => obtain ⟨l, y⟩ := y; simp [beqFields, beq_iff x y, beqFields_iff xs ys]

end

instance : DecidableEq Json := fun a b => decidable_of_iff _ (beq_iff a b)

instance : Inhabited Json := ⟨.null⟩

/-- Python's truth value. -/
def truthy : Json → Bool
  | .null => false
  | .bool b => b
  | .int n => n != 0
  | .float (some q) => q != 0
  | .float none => true
  | .str s => s != ""
  | .arr xs => !xs.isEmpty
  | .obj fs => !fs.isEmpty

/-- `isinstance(v, int)`, with the integer: `True` and `False` count. -/
def asInt? : Json → Option Int
  | .bool b => some (if b then 1 else 0)
  | .int n => some n
  | _ => none

/-- `v == n` across Python's number types. -/
def eqInt (v : Json) (n : Int) : Bool :=
  match v with
  | .bool b => (if b then 1 else 0) == n
  | .int m => m == n
  | .float (some q) => q == (n : Rat)
  | _ => false

def asStr? : Json → Option String
  | .str s => some s
  | _ => none

def asArr? : Json → Option (List Json)
  | .arr xs => some xs
  | _ => none

def asObj? : Json → Option (List (String × Json))
  | .obj fs => some fs
  | _ => none

/-- `d.get(key)` on a JSON object (`null` when absent, as Python's `None`). -/
def get (fields : List (String × Json)) (key : String) : Json := (fields.lookup key).getD .null

end Json

end Minireg.Py
