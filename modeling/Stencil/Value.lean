import Stencil.Number

/-!
# Values

The values that names are bound to: null, truth values, numbers, texts, arrays and objects. An
object keeps its fields in the order of their names, each name once.

Main statements: a field that is put into an object can be found there (`find?_put_self`), and the
other fields are as before (`find?_put_of_ne`).
-/

namespace Stencil

/-- A value of a name. -/
inductive Value where
  | null
  | bool (value : Bool)
  | number (value : Number)
  | string (value : String)
  | array (items : List Value)
  | object (fields : List (String × Value))
  deriving Repr, Inhabited

namespace Value

mutual

/-- Whether two values are the same. -/
protected def beq : Value → Value → Bool
  | .null, .null => true
  | .bool a, .bool b => a = b
  | .number a, .number b => a == b
  | .string a, .string b => a = b
  | .array xs, .array ys => beqItems xs ys
  | .object fs, .object gs => beqFields fs gs
  | _, _ => false

/-- Whether two lists hold the same values in the same order. -/
def beqItems : List Value → List Value → Bool
  | [], [] => true
  | x :: xs, y :: ys => Value.beq x y && beqItems xs ys
  | _, _ => false

/-- Whether two lists hold the same names and values in the same order. -/
def beqFields : List (String × Value) → List (String × Value) → Bool
  | [], [] => true
  | (k, x) :: fs, (l, y) :: gs => k = l && Value.beq x y && beqFields fs gs
  | _, _ => false

end

instance : BEq Value := ⟨Value.beq⟩

/-- The value of a name among fields. -/
def find? (fields : List (String × Value)) (key : String) : Option Value :=
  (fields.find? fun field => field.1 = key).map Prod.snd

/-- The fields with `key` bound to `value`, in the order of the names. -/
def put (fields : List (String × Value)) (key : String) (value : Value) :
    List (String × Value) :=
  match fields with
  | [] => [(key, value)]
  | field :: rest =>
    if key < field.1 then (key, value) :: field :: rest
    else if key = field.1 then (key, value) :: rest
    else field :: put rest key value

/-- The object with the given fields; of several values of one name the last counts. -/
def ofFields (fields : List (String × Value)) : Value :=
  .object (fields.foldl (fun kept field => put kept field.1 field.2) [])

/-- The field `key` of an object. -/
def field? (value : Value) (key : String) : Option Value :=
  match value with
  | .object fields => find? fields key
  | _ => none

/-- Whether a value counts as true: null, zero and what is empty do not. -/
def isTruthy : Value → Bool
  | .null => false
  | .bool value => value
  | .number value => !value.isZero
  | .string value => value ≠ ""
  | .array items => !items.isEmpty
  | .object fields => !fields.isEmpty

/-- The text of a value that is a text, a number or a truth value. -/
def text? : Value → Option String
  | .string value => some value
  | .number value => some value.text
  | .bool value => some (toString value)
  | _ => none

theorem find?_put_self (fields : List (String × Value)) (key : String) (value : Value) :
    find? (put fields key value) key = some value := by
  induction fields with
  | nil => simp [put, find?]
  | cons field rest ih =>
    unfold put
    split
    · simp [find?]
    · split
      · simp [find?]
      · next hne =>
        have : ¬ field.1 = key := fun h => hne h.symm
        simpa [find?, List.find?_cons, this] using ih

theorem find?_put_of_ne (fields : List (String × Value)) {key other : String} (value : Value)
    (h : other ≠ key) : find? (put fields key value) other = find? fields other := by
  have hkey : ¬ key = other := fun e => h e.symm
  induction fields with
  | nil => simp [put, find?, hkey]
  | cons field rest ih =>
    unfold put
    split
    · simp [find?, List.find?_cons, hkey]
    · split
      · next heq => simp [find?, hkey, ← heq]
      · by_cases hf : field.1 = other
        · simp [find?, hf]
        · simpa [find?, List.find?_cons, hf] using ih

end Value

end Stencil
