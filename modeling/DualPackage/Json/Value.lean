/-!
# JSON values

A number is an integer as long as 64 bits hold it and a double otherwise.
An object is the list of its fields in the order of the text; giving a key
again replaces the value where the key already stands.
-/

namespace DualPackage

namespace Json

/-- A number of a JSON text. -/
inductive Number where
  | integer (i : Int)
  | double (x : Float)

/-- A JSON value. -/
inductive Value where
  | null
  | bool (b : Bool)
  | number (n : Number)
  | string (s : String)
  | array (items : List Value)
  | object (fields : List (String × Value))

instance : Inhabited Value := ⟨.null⟩

/-- The fields of an object. -/
abbrev Fields := List (String × Value)

namespace Fields

/-- The value of a key. -/
def get? (fields : Fields) (key : String) : Option Value :=
  match fields with
  | [] => none
  | (k, v) :: rest => if k = key then some v else get? rest key

/-- The fields with `key` set to `value`: in place where it stands already,
and else at the end. -/
def set (fields : Fields) (key : String) (value : Value) : Fields :=
  match fields with
  | [] => [(key, value)]
  | (k, v) :: rest => if k = key then (k, value) :: rest else (k, v) :: set rest key value

@[simp] theorem get?_set_self (fields : Fields) (key : String) (value : Value) :
    get? (set fields key value) key = some value := by
  induction fields with
  | nil => simp [set, get?]
  | cons field rest ih =>
    obtain ⟨k, v⟩ := field
    by_cases h : k = key <;> simp [set, get?, h, ih]

@[simp] theorem get?_set_ne {key other : String} (fields : Fields) (value : Value)
    (h : other ≠ key) : get? (set fields key value) other = get? fields other := by
  induction fields with
  | nil => simp [set, get?, h.symm]
  | cons field rest ih =>
    obtain ⟨k, v⟩ := field
    by_cases hk : k = key
    · simp [set, get?, hk, h.symm]
    · simp [set, get?, hk, ih]

end Fields

/-- The kinds of a JSON value. -/
inductive Kind where
  | null
  | boolean
  | number
  | string
  | array
  | object
  deriving DecidableEq, Repr

/-- What a kind is called in a message. -/
def Kind.phrase : Kind → String
  | null => "null"
  | boolean => "a boolean"
  | number => "a number"
  | string => "a string"
  | array => "an array"
  | object => "an object"

/-- The kind of a value. -/
def Value.kind : Value → Kind
  | null => .null
  | bool _ => .boolean
  | number _ => .number
  | string _ => .string
  | array _ => .array
  | object _ => .object

end Json

end DualPackage
