import BeaconHarness.Datum.Bytes
import BeaconHarness.Decimal.Arithmetic

/-!
# Arithmetic on data

Parameters that were set by hand need not be integers, and still take part in comparisons and
divisions. Numbers of all sorts are equal when they denote the same number, a truth value being one
or zero, and are ordered as numbers; texts, byte strings and lists are ordered item by item. Data
of different sorts have no order. An integer and a floating-point number make a floating-point
number, and a number under a schema keeps its schema, whose range the result must not leave.

Main statements: on integers the order, the quotient and the product are those of the integers
(`order_int`, `floorDivide_int`, `times_int`).
-/

namespace BeaconHarness.Datum

open Decimal (Binary64 Number)

/-! ## Equality -/

/-- The text that a datum is. A fork is its name. -/
def text? : Datum → Option String
  | str s => some s
  | fork f => some f.name
  | _ => none

/-- The byte string that a datum is. -/
def bytes? : Datum → Option Bytes
  | bytes b | ssz ⟨_, .bytes b⟩ => some b
  | _ => none

/-- Whether two data that are no lists or mappings are equal. -/
def sameAtom (a b : Datum) : Bool :=
  match a.number?, b.number? with
  | some x, some y => x.compare y = some .eq
  | _, _ =>
    match a.text?, b.text? with
    | some s, some t => s = t
    | _, _ =>
      match a.bytes?, b.bytes? with
      | some x, some y => x = y
      | _, _ =>
        match a, b with
        | null, null => true
        | date x, date y => x = y
        | moment x, moment y => x = y
        | ssz x, ssz y => x.schema.typeName = y.schema.typeName && x.encode = y.encode
        | _, _ => false

mutual
/-- Whether two data are equal. -/
def same : Datum → Datum → Bool
  | list xs, list ys | tuple xs, tuple ys => sameAll xs ys
  | dict xs, dict ys => xs.length = ys.length && sameEntries xs ys
  | a, b => sameAtom a b

/-- Whether two lists have equal items. -/
def sameAll : List Datum → List Datum → Bool
  | [], [] => true
  | x :: xs, y :: ys => same x y && sameAll xs ys
  | _, _ => false

/-- Whether all entries are among others. -/
def sameEntries : List (Datum × Datum) → List (Datum × Datum) → Bool
  | [], _ => true
  | (k, v) :: rest, others =>
    others.any (fun e => same k e.1 && same v e.2) && sameEntries rest others
end

/-! ## Keys -/

mutual
/-- Whether a datum may be the key of an entry: it is no collection that can be changed and holds
none. -/
def canBeKey : Datum → Bool
  | list _ | dict _ | set _ | enclosing _ => false
  | tuple items => canAllBeKeys items
  | _ => true

/-- Whether all items of a list may be keys. -/
def canAllBeKeys : List Datum → Bool
  | [] => true
  | d :: rest => canBeKey d && canAllBeKeys rest
end

/-- Puts an entry into a mapping: in the place of an earlier one of the same key, or at the end. -/
def put (key value : Datum) : List (Datum × Datum) → List (Datum × Datum)
  | [] => [(key, value)]
  | (k, v) :: rest => if same k key then (k, value) :: rest else (k, v) :: put key value rest

/-- The mapping of entries of which later ones win. -/
def collect (entries : List (Datum × Datum)) : List (Datum × Datum) :=
  entries.foldl (fun read e => put e.1 e.2 read) []

/-! ## Order -/

/-- The order of two data that are no lists; `none` if one is not-a-number. -/
def orderAtom (a b : Datum) : Except Failure (Option Ordering) :=
  match a.number?, b.number? with
  | some x, some y => .ok (x.compare y)
  | _, _ =>
    match a.text?, b.text? with
    | some s, some t => .ok (some (compare s t))
    | _, _ =>
      match a.bytes?, b.bytes? with
      | some x, some y => .ok (some (compare x y))
      | _, _ => .error .wrongKind

mutual
/-- The order of two data; `none` if they have none because of a not-a-number. -/
def order : Datum → Datum → Except Failure (Option Ordering)
  | list xs, list ys | tuple xs, tuple ys => orderAll xs ys
  | a, b => orderAtom a b

/-- The order of two lists: that of the first items that differ, or else of the lengths. -/
def orderAll : List Datum → List Datum → Except Failure (Option Ordering)
  | [], [] => .ok (some .eq)
  | [], _ :: _ => .ok (some .lt)
  | _ :: _, [] => .ok (some .gt)
  | x :: xs, y :: ys => if same x y then orderAll xs ys else order x y
end

/-- Whether a datum comes before another one. -/
def isBelow (a b : Datum) : Except Failure Bool := (order a b).map (· = some .lt)

/-- Whether a datum comes before another one or is equal to it. -/
def isAtMost (a b : Datum) : Except Failure Bool :=
  (order a b).map fun o => o = some .lt || o = some .eq

@[simp] theorem order_int (n k : Int) : order (int n) (int k) = .ok (some (compare n k)) := by
  simp [order, orderAtom, number?, exactInteger?]

@[simp] theorem isBelow_int (n k : Int) : isBelow (int n) (int k) = .ok (decide (n < k)) := by
  simp [isBelow, Except.map, Int.compare_eq_lt]

@[simp] theorem isAtMost_int (n k : Int) : isAtMost (int n) (int k) = .ok (decide (n ≤ k)) := by
  have h : (decide (n < k) || decide (n = k)) = decide (n ≤ k) := by
    rw [Bool.eq_iff_iff]
    simp only [Bool.or_eq_true, decide_eq_true_eq]
    omega
  simp [isAtMost, Except.map, Int.compare_eq_lt, ← h]

@[simp] theorem same_int (n k : Int) : same (int n) (int k) = decide (n = k) := by
  simp [same, sameAtom, number?, exactInteger?]

@[simp] theorem same_str (s t : String) : same (str s) (str t) = decide (s = t) := rfl

@[simp] theorem same_bool (a b : Bool) : same (bool a) (bool b) = decide (a = b) := by
  cases a <;> cases b <;> decide

/-! ## Products and quotients -/

/-- The floating-point number nearest to an integer, unless it is out of range. -/
def toFloat (n : Int) : Except Failure Binary64 :=
  match Binary64.ofInt n with
  | .finite negative m e => .ok (.finite negative m e)
  | _ => .error .outOfRange

/-- A number under the schema of unsigned integers of `width` bytes. -/
def unsigned (width : Nat) (n : Int) : Except Failure Datum :=
  if 0 ≤ n && n.toNat < Bytes.capacity width then .ok (ssz ⟨.uint width, .uint n.toNat⟩)
  else .error .malformed

/-- The quotient of an integer by a datum, rounded down. -/
def floorDivide (n : Int) : Datum → Except Failure Datum
  | float x => do
    let n ← toFloat n
    if x.isZero then .error .divisionByZero else return float (n.floorDiv x)
  | ssz ⟨.uint width, .uint d⟩ => do
    let _ ← unsigned width n
    if d = 0 then .error .malformed else unsigned width (n / d)
  | d =>
    match d.exactInteger? with
    | some d => if d = 0 then .error .divisionByZero else .ok (int (n.fdiv d))
    | none => .error .wrongKind

/-- Items repeated as often as a number says, not at all below zero. -/
def repeated {α : Type} (n : Int) (items : List α) : Except Failure (List α) :=
  if lengthBound ≤ n || n < -lengthBound then .error .outOfRange
  else if items.isEmpty then .ok []
  else if memoryBound < n * items.length then .error (.ofKind .memory)
  else .ok (List.replicate n.toNat items).flatten

/-- Characters or bytes repeated as often as a number says. A length out of bounds is noticed. -/
def repeatedText {α : Type} (n : Int) (text : List α) : Except Failure (List α) :=
  if lengthBound ≤ n * text.length then .error .outOfRange else repeated n text

/-- The product of an integer and a datum. Of a text, a byte string or a list it is a repetition. -/
def times (n : Int) : Datum → Except Failure Datum
  | float x => do return float ((← toFloat n).mul x)
  | ssz ⟨.uint width, .uint d⟩ => do
    let _ ← unsigned width n
    unsigned width (n * d)
  | str s => do return str (String.ofList (← repeatedText n s.toList))
  | fork f => do return str (String.ofList (← repeatedText n f.name.toList))
  | bytes b | ssz ⟨_, .bytes b⟩ => do return bytes (← repeatedText n b)
  | list xs => do return list (← repeated n xs)
  | tuple xs => do return tuple (← repeated n xs)
  | d =>
    match d.exactInteger? with
    | some d => .ok (int (n * d))
    | none => .error .wrongKind

/-- The sum of an integer and a number. -/
def plus (n : Int) : Datum → Except Failure Datum
  | float x => do return float ((← toFloat n).add x)
  | ssz ⟨.uint width, .uint d⟩ => do
    let _ ← unsigned width n
    unsigned width (n + d)
  | d =>
    match d.exactInteger? with
    | some d => .ok (int (n + d))
    | none => .error .wrongKind

/-- What is left of an integer when a number is taken away. -/
def less (n : Int) : Datum → Except Failure Datum
  | float x => do return float ((← toFloat n).sub x)
  | ssz ⟨.uint width, .uint d⟩ => do
    let _ ← unsigned width n
    unsigned width (n - d)
  | d =>
    match d.exactInteger? with
    | some d => .ok (int (n - d))
    | none => .error .wrongKind

@[simp] theorem floorDivide_int (n d : Int) :
    floorDivide n (int d) = if d = 0 then .error .divisionByZero else .ok (int (n.fdiv d)) := rfl

@[simp] theorem times_int (n d : Int) : times n (int d) = .ok (int (n * d)) := rfl

@[simp] theorem plus_int (n d : Int) : plus n (int d) = .ok (int (n + d)) := rfl

@[simp] theorem less_int (n d : Int) : less n (int d) = .ok (int (n - d)) := rfl

/-! ## Counts -/

/-- How many of the natural numbers below `room` come before a datum. -/
def countBelow (room : Nat) (d : Datum) : Except Failure Nat :=
  match d.number? with
  | some x => .ok (x.countBelow room)
  | none => .error .wrongKind

@[simp] theorem countBelow_int (room : Nat) (n : Int) :
    countBelow room (int n) = .ok (min room n.toNat) := rfl

end BeaconHarness.Datum
