import BlackSiren.VTWord.Word

/-! # JSON values

    The part of json-c the loader of the configuration uses: objects are looked
    up by key, and a value is read only after its type has been asked for.

    - `Json` and its readers
    - `JsonC`: the parser and the conversions of numbers
-/

namespace BlackSiren

/-- A `json_object`; `D` is C's `double`. -/
inductive Json (D : Type) where
  | null
  | boolean (b : Bool)
  | double (d : D)
  | int (v : Int)
  | string (s : List UInt8)
  | array (l : List (Json D))
  | object (l : List (String × Json D))

namespace Json

variable {D : Type}

/-- `json_object_object_get_ex`: false on anything but an object. -/
def json_object_object_get_ex : Json D → String → Option (Json D)
  | .object l, key => l.lookup key
  | _, _ => none

/-- `json_object_get_int` of a value of type int: clamped to 32 bits. -/
def json_object_get_int (v : Int) : Int := max (-2 ^ 31) (min v (2 ^ 31 - 1))

/-- `json_object_get_int64`. -/
def json_object_get_int64 (v : Int) : Int := max (-2 ^ 63) (min v (2 ^ 63 - 1))

/-- The value behind `json_type_boolean`. -/
def asBoolean : Json D → Option Bool
  | .boolean b => some b
  | _ => none

/-- The value behind `json_type_int`, as an `int`. -/
def asInt : Json D → Option Int
  | .int v => some (json_object_get_int v)
  | _ => none

/-- The value behind `json_type_int`, as an `int64_t`. -/
def asInt64 : Json D → Option Int
  | .int v => some (json_object_get_int64 v)
  | _ => none

/-- The value behind `json_type_double`. -/
def asDouble : Json D → Option D
  | .double d => some d
  | _ => none

/-- The value behind `json_type_string`, as the C string it is. -/
def asString : Json D → Option (List UInt8)
  | .string s => some (cstr s)
  | _ => none

/-- The elements behind `json_type_array`. -/
def asArray : Json D → Option (List (Json D))
  | .array l => some l
  | _ => none

/-- The members behind `json_type_object`. -/
def asObject : Json D → Option (List (String × Json D))
  | .object l => some l
  | _ => none

end Json

/-- What is outside the repository: json-c's parser, C's conversion of a
    `double` to a `float`, and the bits of an `unsigned long`. -/
structure JsonC (F D : Type) where
  json_tokener_parse : List UInt8 → Option (Json D)
  toFloat : D → F
  ulong : Nat

end BlackSiren
