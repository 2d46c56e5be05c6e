import Mathlib.Algebra.Group.Nat.Defs
import Mathlib.Data.Rat.Defs

/-! # JSON values in Python

A JSON text, what `json.loads` makes of it, and the operations of a program that takes the value for a
dictionary without looking: each raises when the value has another shape. An object is the list of its
entries in the order of the text; the last entry of a key counts. -/

namespace InterviewScheduler.Python

/-- A float. The two infinities are not told apart. -/
inductive Float where
  | finite (x : ℚ)
  | nan
  | infinity
  deriving DecidableEq, Repr

inductive Json where
  | null
  | bool (b : Bool)
  | int (n : ℤ)
  | float (x : Float)
  | str (s : String)
  | array (items : List Json)
  | object (fields : List (String × Json))

/-- The exceptions of these operations. -/
inductive Error where
  | attributeError
  | keyError (key : String)
  | typeError
  | valueError
  | overflowError
  | recursionError
  deriving DecidableEq, Repr

/-- A computation of Python. -/
abbrev Py := Except Error

namespace Json

def lookup (fields : List (String × Json)) (key : String) : Option Json :=
  (fields.reverse.find? fun f => f.1 = key).map (·.2)

def IsObject (x : Json) : Prop := ∃ fields, x = object fields

/-- `x.get(key, default)` -/
def get (x : Json) (key : String) (default : Json) : Py Json :=
  match x with
  | object fields => .ok ((lookup fields key).getD default)
  | _ => .error .attributeError

/-- `x[key]` -/
def item (x : Json) (key : String) : Py Json :=
  match x with
  | object fields =>
    match lookup fields key with
    | some v => .ok v
    | none => .error (.keyError key)
  | _ => .error .typeError

/-- `bool(x)` -/
def truthy : Json → Bool
  | null => false
  | bool b => b
  | int n => n ≠ 0
  | float x => x ≠ .finite 0
  | str s => s ≠ ""
  | array items => !items.isEmpty
  | object fields => !fields.isEmpty

/-- `x == s`, for a string `s`. -/
def isStr (x : Json) (s : String) : Bool :=
  match x with
  | str t => t = s
  | _ => false

/-- `iter(x)`, to its end. -/
def iter : Json → Py (List Json)
  | array items => .ok items
  | object fields => .ok ((fields.map (·.1)).eraseDups.map str)
  | str s => .ok (s.toList.map fun c => str (String.singleton c))
  | _ => .error .typeError

/-- `int(x)`; `parse` is what it does with a string. -/
def toInt (parse : String → Option ℤ) : Json → Py ℤ
  | bool b => .ok (if b then 1 else 0)
  | int n => .ok n
  | float (.finite x) => .ok (x.num.tdiv x.den)
  | float .nan => .error .valueError
  | float .infinity => .error .overflowError
  | str s =>
    match parse s with
    | some n => .ok n
    | none => .error .valueError
  | _ => .error .typeError

/-- `x.replace(old, new)` -/
def replace (x : Json) (old new : String) : Py String :=
  match x with
  | str s => .ok (s.replace old new)
  | _ => .error .attributeError

/-! ### The parser -/

/-- The limits of an interpreter. -/
structure Limits where
  /-- how deep the parser can descend before the recursion limit -/
  nesting : ℕ
  /-- `sys.get_int_max_str_digits()`; there is no limit when it is 0 -/
  intMaxStrDigits : ℕ := 4300

/-- `int` converts the digits of `n`. -/
def Limits.Converts (limits : Limits) (n : ℤ) : Prop :=
  limits.intMaxStrDigits = 0 ∨ n.natAbs < 10 ^ limits.intMaxStrDigits

instance (limits : Limits) (n : ℤ) : Decidable (limits.Converts n) := inferInstanceAs (Decidable (_ ∨ _))

mutual

/-- The scanner on a value, which may still descend `depth` times. -/
def scan (limits : Limits) : Json → ℕ → Py Unit
  | int n, _ => if limits.Converts n then .ok () else .error .valueError
  | array _, 0 => .error .recursionError
  | array items, depth + 1 => scanItems limits items depth
  | object _, 0 => .error .recursionError
  | object fields, depth + 1 => scanFields limits fields depth
  | _, _ => .ok ()

def scanItems (limits : Limits) : List Json → ℕ → Py Unit
  | [], _ => .ok ()
  | x :: items, depth => do
    scan limits x depth
    scanItems limits items depth

def scanFields (limits : Limits) : List (String × Json) → ℕ → Py Unit
  | [], _ => .ok ()
  | (_, x) :: fields, depth => do
    scan limits x depth
    scanFields limits fields depth

end

/-- `json.loads` -/
def loads (limits : Limits) (x : Json) : Py Json := do
  scan limits x limits.nesting
  pure x

mutual

/-- How deep arrays and objects are nested. -/
def depth : Json → ℕ
  | array items => depthItems items + 1
  | object fields => depthFields fields + 1
  | _ => 0

def depthItems : List Json → ℕ
  | [] => 0
  | x :: items => max (depth x) (depthItems items)

def depthFields : List (String × Json) → ℕ
  | [] => 0
  | (_, x) :: fields => max (depth x) (depthFields fields)

end

mutual

/-- The integers of a text. -/
def integers : Json → List ℤ
  | int n => [n]
  | array items => integersOfItems items
  | object fields => integersOfFields fields
  | _ => []

def integersOfItems : List Json → List ℤ
  | [] => []
  | x :: items => integers x ++ integersOfItems items

def integersOfFields : List (String × Json) → List ℤ
  | [] => []
  | (_, x) :: fields => integers x ++ integersOfFields fields

end

/-- The text is within the limits. -/
structure Fits (limits : Limits) (x : Json) : Prop where
  depth : x.depth ≤ limits.nesting
  integers : ∀ n ∈ x.integers, limits.Converts n

theorem bind_unit_eq_ok {p q : Py Unit} : (p >>= fun _ => q) = .ok () ↔ p = .ok () ∧ q = .ok () := by
  cases p with
  | ok a => simp [bind, Except.bind]
  | error e => simp [bind, Except.bind]

mutual

theorem scan_eq_ok (limits : Limits) (x : Json) (d : ℕ) :
    scan limits x d = .ok () ↔ x.depth ≤ d ∧ ∀ n ∈ x.integers, limits.Converts n := by
  cases x with
  | int n => simp [scan, Json.depth, Json.integers]
  | array items =>
    cases d with
    | zero => simp [scan, Json.depth]
    | succ d =>
      rw [scan, scanItems_eq_ok limits items d, Json.depth, Json.integers, Nat.add_le_add_iff_right]
  | object fields =>
    cases d with
    | zero => simp [scan, Json.depth]
    | succ d =>
      rw [scan, scanFields_eq_ok limits fields d, Json.depth, Json.integers, Nat.add_le_add_iff_right]
  | _ => simp [scan, Json.depth, Json.integers]

theorem scanItems_eq_ok (limits : Limits) (items : List Json) (d : ℕ) :
    scanItems limits items d = .ok () ↔
      depthItems items ≤ d ∧ ∀ n ∈ integersOfItems items, limits.Converts n := by
  cases items with
  | nil => simp [scanItems, depthItems, integersOfItems]
  | cons x items =>
    rw [scanItems, bind_unit_eq_ok, scan_eq_ok limits x d, scanItems_eq_ok limits items d, depthItems,
      integersOfItems, Nat.max_le, List.forall_mem_append]
    exact and_and_and_comm

theorem scanFields_eq_ok (limits : Limits) (fields : List (String × Json)) (d : ℕ) :
    scanFields limits fields d = .ok () ↔
      depthFields fields ≤ d ∧ ∀ n ∈ integersOfFields fields, limits.Converts n := by
  cases fields with
  | nil => simp [scanFields, depthFields, integersOfFields]
  | cons f fields =>
    obtain ⟨key, x⟩ := f
    rw [scanFields, bind_unit_eq_ok, scan_eq_ok limits x d, scanFields_eq_ok limits fields d, depthFields,
      integersOfFields, Nat.max_le, List.forall_mem_append]
    exact and_and_and_comm

end

mutual

/-- The parser raises these two. -/
theorem scan_error (limits : Limits) (x : Json) (d : ℕ) {e : Error} (h : scan limits x d = .error e) :
    e = .valueError ∨ e = .recursionError := by
  cases x with
  | int n =>
    simp only [scan] at h
    split_ifs at h
    exact .inl (Except.error.inj h).symm
  | array items =>
    cases d with
    | zero => exact .inr (Except.error.inj h).symm
    | succ d => exact scanItems_error limits items d h
  | object fields =>
    cases d with
    | zero => exact .inr (Except.error.inj h).symm
    | succ d => exact scanFields_error limits fields d h
  | _ => simp [scan] at h

theorem scanItems_error (limits : Limits) (items : List Json) (d : ℕ) {e : Error}
    (h : scanItems limits items d = .error e) : e = .valueError ∨ e = .recursionError := by
  cases items with
  | nil => simp [scanItems] at h
  | cons x items =>
    rw [scanItems] at h
    cases hx : scan limits x d with
    | ok a =>
      rw [hx] at h
      exact scanItems_error limits items d h
    | error e' =>
      rw [hx] at h
      exact Except.error.inj h ▸ scan_error limits x d hx

theorem scanFields_error (limits : Limits) (fields : List (String × Json)) (d : ℕ) {e : Error}
    (h : scanFields limits fields d = .error e) : e = .valueError ∨ e = .recursionError := by
  cases fields with
  | nil => simp [scanFields] at h
  | cons f fields =>
    obtain ⟨key, x⟩ := f
    rw [scanFields] at h
    cases hx : scan limits x d with
    | ok a =>
      rw [hx] at h
      exact scanFields_error limits fields d h
    | error e' =>
      rw [hx] at h
      exact Except.error.inj h ▸ scan_error limits x d hx

end

/-- **A text within the limits is loaded, and no other.** -/
theorem loads_eq_ok {limits : Limits} {x v : Json} : loads limits x = .ok v ↔ x = v ∧ x.Fits limits := by
  have hscan := scan_eq_ok limits x limits.nesting
  unfold loads
  cases hx : scan limits x limits.nesting with
  | ok a =>
    obtain ⟨hdepth, hint⟩ := hscan.mp hx
    simp [bind, Except.bind, pure, Except.pure, Fits.mk hdepth hint]
  | error e =>
    have hnot : ¬ x.Fits limits := fun h => by
      rw [hscan.mpr ⟨h.depth, h.integers⟩] at hx
      cases hx
    simp [bind, Except.bind, hnot]

theorem loads_error {limits : Limits} {x : Json} {e : Error} (h : loads limits x = .error e) :
    e = .valueError ∨ e = .recursionError := by
  unfold loads at h
  cases hx : scan limits x limits.nesting with
  | ok a =>
    rw [hx] at h
    cases h
  | error e' =>
    rw [hx] at h
    exact Except.error.inj h ▸ scan_error limits x _ hx

/-- Arrays inside one another. -/
def nested : ℕ → Json
  | 0 => array []
  | n + 1 => array [nested n]

/-- **A text that is nested too deep** stops the parser. -/
theorem loads_nested (limits : Limits) : loads limits (nested limits.nesting) = .error .recursionError := by
  have hscan : ∀ n, scan limits (nested n) n = .error .recursionError := by
    intro n
    induction n with
    | zero => rfl
    | succ n ih => rw [nested, scan, scanItems, ih]; rfl
  unfold loads
  rw [hscan]
  rfl

/-! ### When they return -/

variable {x v : Json} {key : String} {fields : List (String × Json)}

@[simp] theorem get_object {default : Json} :
    (object fields).get key default = .ok ((lookup fields key).getD default) := rfl

theorem get_eq_ok {default : Json} : x.get key default = .ok v ↔
    ∃ fields, x = object fields ∧ v = (lookup fields key).getD default := by
  cases x <;> simp [get, eq_comm]

theorem item_eq_ok : x.item key = .ok v ↔
    ∃ fields, x = object fields ∧ lookup fields key = some v := by
  cases x with
  | object fields =>
    simp only [item, object.injEq, exists_eq_left']
    cases lookup fields key <;> simp
  | _ => simp [item]

/-- A value that an iteration over its parts treats as empty, or as a list. -/
theorem iter_eq_ok {items : List Json} : x.iter = .ok items ↔
    x = array items ∨ (∃ fields, x = object fields ∧ items = (fields.map (·.1)).eraseDups.map str) ∨
      ∃ s, x = str s ∧ items = s.toList.map fun c => str (String.singleton c) := by
  cases x <;> simp [iter, eq_comm]

/-- The values that `int` takes. -/
def Integral (parse : String → Option ℤ) : Json → Prop
  | bool _ => True
  | int _ => True
  | float (.finite _) => True
  | str s => parse s ≠ none
  | _ => False

theorem exists_toInt_eq_ok {parse : String → Option ℤ} :
    (∃ n, x.toInt parse = .ok n) ↔ x.Integral parse := by
  cases x with
  | float x => cases x <;> simp [toInt, Integral]
  | str s =>
    simp only [toInt, Integral]
    cases parse s <;> simp
  | _ => simp [toInt, Integral]

end Json

end InterviewScheduler.Python
