import Maruhi.Lib.Text

/-!
# JSON values, as `JSON.parse` yields them
-/

/-- A number as a check on it sees it: an integer of any size (`-0` is `0`), or one that is
no integer (a fraction, an infinity), which every check refuses alike. -/
inductive JsonNumber
  | int (n : Int)
  | fraction
  deriving DecidableEq, Repr

inductive Json
  | null
  | bool (b : Bool)
  | num (n : JsonNumber)
  | str (s : JsString)
  | arr (items : List Json)
  | obj (fields : List (JsString × Json))
  deriving Inhabited

namespace Json

/-- `Number.MAX_SAFE_INTEGER` -/
def maxSafeInteger : Nat := 9007199254740991

/-- The own property `key`; of a repeated key `JSON.parse` keeps the last value. -/
def find? : Json → String → Option Json
  | obj fields, key => fields.reverse.lookup (Text.lit key)
  | _, _ => none

/-- The property `key`. A missing one reads as `undefined`, which the shape checks do not tell from `null`. -/
def get (value : Json) (key : String) : Json := (value.find? key).getD null

def str? : Json → Option JsString
  | str s => some s
  | _ => none

def arr? : Json → Option (List Json)
  | arr items => some items
  | _ => none

/-- `typeof value === "object" && value !== null` -/
def isRecord : Json → Bool
  | arr _ => true
  | obj _ => true
  | _ => false

/-- A number that is a non-negative safe integer. -/
def safeNat? : Json → Option Nat
  | num (.int n) => if 0 ≤ n ∧ n ≤ maxSafeInteger then some n.toNat else none
  | _ => none

/-- A number that equals some natural number (`===` on a counter). -/
def nat? : Json → Option Nat
  | num (.int n) => if 0 ≤ n then some n.toNat else none
  | _ => none

/-- The object with these properties. -/
def object (fields : List (String × Json)) : Json :=
  obj (fields.map fun f => (Text.lit f.1, f.2))

def ofNat (n : Nat) : Json := num (.int n)

@[simp] theorem str?_str (s : JsString) : (str s).str? = some s := rfl

@[simp] theorem arr?_arr (items : List Json) : (arr items).arr? = some items := rfl

@[simp] theorem isRecord_obj (fields : List (JsString × Json)) : (obj fields).isRecord = true := rfl

@[simp] theorem nat?_ofNat (n : Nat) : (ofNat n).nat? = some n := by simp [ofNat, nat?]

theorem safeNat?_ofNat {n : Nat} (h : n ≤ maxSafeInteger) : (ofNat n).safeNat? = some n := by
  simp [ofNat, safeNat?, h]

theorem safeNat?_le {value : Json} {n : Nat} (h : value.safeNat? = some n) : n ≤ maxSafeInteger := by
  unfold safeNat? at h
  split at h
  · split_ifs at h with hn
    cases h
    omega
  · cases h

end Json
