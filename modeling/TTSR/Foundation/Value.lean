import Mathlib.Data.Rat.Floor
import Mathlib.Data.Rat.Defs
import Mathlib.Algebra.Order.Ring.Rat
import TTSR.Foundation.Dict

/-!
# Dynamic values

JSON values as the host language holds them, with integers and floats apart,
and the conversions `float(x)`, `int(x)`, `str(x)`, `x.get(key, default)` and
iteration, each with the exception it raises. Finite float arithmetic is exact;
infinities and NaN follow IEEE. The numeral grammar of `float(str)` and
`int(str)`, and the rendering of values that are not strings, are parameters.
-/

namespace TTSR.Foundation

/-! ## Floats -/

inductive PyFloat where
  | fin (q : ℚ)
  | inf (neg : Bool)
  | nan
deriving DecidableEq

namespace PyFloat

def neg : PyFloat → PyFloat
  | fin q => fin (-q)
  | inf b => inf (!b)
  | nan => nan

def add : PyFloat → PyFloat → PyFloat
  | fin p, fin q => fin (p + q)
  | nan, _ => nan
  | _, nan => nan
  | inf b, inf c => if b = c then inf b else nan
  | inf b, fin _ => inf b
  | fin _, inf c => inf c

def sub (x y : PyFloat) : PyFloat := add x (neg y)

def mul : PyFloat → PyFloat → PyFloat
  | fin p, fin q => fin (p * q)
  | nan, _ => nan
  | _, nan => nan
  | inf b, inf c => inf (xor b c)
  | inf b, fin q => if q = 0 then nan else inf (xor b (decide (q < 0)))
  | fin p, inf c => if p = 0 then nan else inf (xor (decide (p < 0)) c)

/-- `x > q`, false on NaN. -/
def gt (q : ℚ) : PyFloat → Bool
  | fin p => decide (q < p)
  | inf b => !b
  | nan => false

/-- `max(0.0, x)`: the second argument replaces the first only if greater. -/
def max0 (x : PyFloat) : PyFloat := if gt 0 x then x else fin 0

/-- The least magnitude of an integer that no float is near enough to. -/
def intBound : ℕ := 2 ^ 1024 - 2 ^ 970

end PyFloat

/-! ## JSON values -/

inductive Json where
  | null
  | bool (b : Bool)
  | int (n : ℤ)
  | float (x : PyFloat)
  | str (s : String)
  | arr (xs : List Json)
  | obj (fields : List (String × Json))

/-- The exceptions the conversions raise. -/
inductive ErrorKind where
  | typeError
  | valueError
  | overflowError
  | attributeError
  | keyError
  | indexError
deriving DecidableEq

/-- What the language does with texts and renderings, left open. -/
structure Builtins where
  parseFloat : String → Option PyFloat
  parseInt : String → Option ℤ
  repr : Json → String

/-- Builtins that recognise no numeral, for inputs that contain none. -/
def Builtins.plain : Builtins := ⟨fun _ => none, fun _ => none, fun _ => ""⟩

namespace Json

/-- The name the language gives to the type of a value. -/
def typeName : Json → String
  | null => "NoneType"
  | bool _ => "bool"
  | int _ => "int"
  | float _ => "float"
  | str _ => "str"
  | arr _ => "list"
  | obj _ => "dict"

/-- `x.get(key, default)`. -/
def get : Json → String → Json → Except ErrorKind Json
  | obj fields, key, dflt => .ok ((Dict.lookupEntries key fields).getD dflt)
  | _, _, _ => .error .attributeError

/-- `bool(x)`. -/
def truthy : Json → Bool
  | null => false
  | bool b => b
  | int n => n != 0
  | float x => x != .fin 0
  | str s => s != ""
  | arr xs => !xs.isEmpty
  | obj fields => !fields.isEmpty

/-- `float(x)`. -/
def toFloat (py : Builtins) : Json → Except ErrorKind PyFloat
  | bool b => .ok (.fin (if b then 1 else 0))
  | int n =>
      if n.natAbs < PyFloat.intBound then .ok (.fin n)
      else .error .overflowError
  | float x => .ok x
  | str s => match py.parseFloat s with
      | some x => .ok x
      | none => .error .valueError
  | null | arr _ | obj _ => .error .typeError

/-- Truncation towards zero. -/
def truncate (q : ℚ) : ℤ := if 0 ≤ q then ⌊q⌋ else ⌈q⌉

/-- `int(x)`. -/
def toInt (py : Builtins) : Json → Except ErrorKind ℤ
  | bool b => .ok (if b then 1 else 0)
  | int n => .ok n
  | float (.fin q) => .ok (truncate q)
  | float (.inf _) => .error .overflowError
  | float .nan => .error .valueError
  | str s => match py.parseInt s with
      | some n => .ok n
      | none => .error .valueError
  | null | arr _ | obj _ => .error .typeError

/-- `str(x)`. -/
def toStr (py : Builtins) : Json → String
  | str s => s
  | j => py.repr j

/-- The values a `for` loop over `x` sees. A string yields its characters, a
dictionary its keys. -/
def iterate : Json → Except ErrorKind (List Json)
  | arr xs => .ok xs
  | str s => .ok (s.toList.map fun c => .str (String.singleton c))
  | obj fields => .ok (fields.map fun f => .str f.1)
  | null | bool _ | int _ | float _ => .error .typeError

end Json

/-! ## Fallible traversals -/

section Except

universe u v

variable {ε : Type u} {α β : Type v} {b : β}

/-- A sequence succeeds if both halves do. -/
theorem bind_eq_ok_iff {x : Except ε α} {f : α → Except ε β} :
    x >>= f = .ok b ↔ ∃ a, x = .ok a ∧ f a = .ok b := by
  cases x with
  | error exc => simp [bind, Except.bind]
  | ok a => simp [bind, Except.bind]

theorem map_eq_ok_iff {x : Except ε α} {f : α → β} :
    x.map f = .ok b ↔ ∃ a, x = .ok a ∧ f a = b := by
  cases x with
  | error exc => simp [Except.map]
  | ok a => simp [Except.map]

theorem toOption_eq_some_iff {x : Except ε α} {a : α} :
    x.toOption = some a ↔ x = .ok a := by
  cases x <;> simp [Except.toOption]

end Except

/-- A traversal succeeds if and only if every step of it does. -/
theorem mapM_eq_ok_iff {ε α β : Type*} {f : α → Except ε β} {xs : List α}
    {ys : List β} :
    xs.mapM f = .ok ys ↔ List.Forall₂ (fun x y => f x = .ok y) xs ys := by
  induction xs generalizing ys with
  | nil => cases ys <;> simp [pure, Except.pure]
  | cons x xs ih =>
      rw [List.mapM_cons]
      constructor
      · intro h
        obtain ⟨y, hy, h⟩ := bind_eq_ok_iff.mp h
        obtain ⟨ys', hys, h⟩ := bind_eq_ok_iff.mp h
        obtain rfl := Except.ok.inj h
        exact .cons hy (ih.mp hys)
      · rintro (_ | ⟨hy, hys⟩)
        exact bind_eq_ok_iff.mpr ⟨_, hy, bind_eq_ok_iff.mpr ⟨_, ih.mpr hys, rfl⟩⟩

theorem exists_mapM_eq_ok_iff {ε α β : Type*} {f : α → Except ε β}
    {xs : List α} :
    (∃ ys, xs.mapM f = .ok ys) ↔ ∀ x ∈ xs, ∃ y, f x = .ok y := by
  simp only [mapM_eq_ok_iff]
  constructor
  · rintro ⟨ys, h⟩
    induction h with
    | nil => simp
    | cons hy _ ih => exact List.forall_mem_cons.mpr ⟨⟨_, hy⟩, ih⟩
  · intro h
    induction xs with
    | nil => exact ⟨[], .nil⟩
    | cons x xs ih =>
        obtain ⟨y, hy⟩ := h x List.mem_cons_self
        obtain ⟨ys, hys⟩ := ih fun x' hx' => h x' (List.mem_cons_of_mem _ hx')
        exact ⟨y :: ys, .cons hy hys⟩

theorem exists_of_forall₂_right {α β : Type*} {R : α → β → Prop} {xs : List α}
    {ys : List β} (h : List.Forall₂ R xs ys) {y : β} (hy : y ∈ ys) :
    ∃ x ∈ xs, R x y := by
  induction h with
  | nil => cases hy
  | cons hxy _ ih =>
      rcases List.mem_cons.mp hy with rfl | hy
      · exact ⟨_, List.mem_cons_self, hxy⟩
      · obtain ⟨x, hx, hxy⟩ := ih hy
        exact ⟨x, List.mem_cons_of_mem _ hx, hxy⟩

end TTSR.Foundation
