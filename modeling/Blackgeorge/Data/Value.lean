import Blackgeorge.Data.Characters
import Mathlib.Data.Rat.Defs

/-! Python values of type `Any` and the forms in which the program writes them down: the
JSON value that a model dump makes of one, what `to_json_value` makes of one, the text of
`json.dumps`, and the texts of `str` and `repr`. -/

namespace Blackgeorge.Data

/-- What pydantic writes for a value of one of the types it knows. -/
inductive NativeForm where
  | int (n : ℤ)
  | float (value : ℚ) (repr : String)
  | str (s : String)

/-- A Python value; the keys of a dictionary are strings. A float carries its shortest
decimal text. A model has the name of its class and its `str`, a dataclass its `repr`. A
native is a value that pydantic writes as a number or a text without its being one: a
datetime, a UUID, a member of a plain enum. A collection is written as a list: a set for
example. Of an object of any other type there are its `str` and its `repr`. -/
inductive Value where
  | none
  | bool (b : Bool)
  | int (n : ℤ)
  | float (value : ℚ) (repr : String)
  | str (s : String)
  | list (items : List Value)
  | tuple (items : List Value)
  | dict (fields : List (String × Value))
  | model (cls text : String) (fields : List (String × Value))
  | dataclass (text : String) (fields : List (String × Value))
  | native (text repr : String) (form : NativeForm)
  | collection (text : String) (items : List Value)
  | object (text repr : String)

def NativeForm.value : NativeForm → Value
  | int n => .int n
  | float q repr => .float q repr
  | str s => .str s

namespace Value

/-! ### JSON values -/

mutual

/-- What `model_dump(mode="json")` writes for a value. An object that pydantic cannot write
stays as it is; the dump raises then. -/
def dumped : Value → Value
  | list items => list (dumpedItems items)
  | tuple items => list (dumpedItems items)
  | dict fields => dict (dumpedFields fields)
  | model _ _ fields => dict (dumpedFields fields)
  | dataclass _ fields => dict (dumpedFields fields)
  | native _ _ form => form.value
  | collection _ items => list (dumpedItems items)
  | v => v

def dumpedItems : List Value → List Value
  | [] => []
  | v :: vs => v.dumped :: dumpedItems vs

def dumpedFields : List (String × Value) → List (String × Value)
  | [] => []
  | (k, v) :: fs => (k, v.dumped) :: dumpedFields fs

end

mutual

/-- `to_json_value`: models are dumped, dataclasses become dictionaries and tuples lists, and
what is none of these stays as it is. -/
def toJsonValue : Value → Value
  | list items => list (toJsonItems items)
  | tuple items => list (toJsonItems items)
  | dict fields => dict (toJsonFields fields)
  | model _ _ fields => dict (dumpedFields fields)
  | dataclass _ fields => dict (toJsonFields fields)
  | v => v

def toJsonItems : List Value → List Value
  | [] => []
  | v :: vs => v.toJsonValue :: toJsonItems vs

def toJsonFields : List (String × Value) → List (String × Value)
  | [] => []
  | (k, v) :: fs => (k, v.toJsonValue) :: toJsonFields fs

end

mutual

/-- A value as `json.loads` gives it: no other types than those of JSON. -/
def plain : Value → Bool
  | list items => plainItems items
  | dict fields => plainFields fields
  | none => true
  | bool _ => true
  | int _ => true
  | float .. => true
  | str _ => true
  | _ => false

def plainItems : List Value → Bool
  | [] => true
  | v :: vs => v.plain && plainItems vs

def plainFields : List (String × Value) → Bool
  | [] => true
  | (_, v) :: fs => v.plain && plainFields fs

end

/-- `model_dump(mode="json")` of a field of type `Any`, which raises on an object that
pydantic cannot serialize. -/
def dumpJson (v : Value) : Option Value := if v.dumped.plain then some v.dumped else Option.none

mutual

theorem dumped_of_plain : ∀ {v : Value}, v.plain = true → v.dumped = v
  | none, _ | bool _, _ | int _, _ | float .., _ | str _, _ => rfl
  | list items, h => by rw [dumped, dumpedItems_of_plain h]
  | dict fields, h => by rw [dumped, dumpedFields_of_plain h]
  | tuple _, h | model .., h | dataclass .., h | native .., h | collection .., h | object .., h => by
    cases h

theorem dumpedItems_of_plain : ∀ {vs : List Value}, plainItems vs = true → dumpedItems vs = vs
  | [], _ => rfl
  | v :: vs, h => by
    simp only [plainItems, Bool.and_eq_true] at h
    rw [dumpedItems, dumped_of_plain h.1, dumpedItems_of_plain h.2]

theorem dumpedFields_of_plain : ∀ {fs : List (String × Value)}, plainFields fs = true →
    dumpedFields fs = fs
  | [], _ => rfl
  | (k, v) :: fs, h => by
    simp only [plainFields, Bool.and_eq_true] at h
    rw [dumpedFields, dumped_of_plain h.1, dumpedFields_of_plain h.2]

end

mutual

theorem toJsonValue_of_plain : ∀ {v : Value}, v.plain = true → v.toJsonValue = v
  | none, _ | bool _, _ | int _, _ | float .., _ | str _, _ => rfl
  | list items, h => by rw [toJsonValue, toJsonItems_of_plain h]
  | dict fields, h => by rw [toJsonValue, toJsonFields_of_plain h]
  | tuple _, h | model .., h | dataclass .., h | native .., h | collection .., h | object .., h => by
    cases h

theorem toJsonItems_of_plain : ∀ {vs : List Value}, plainItems vs = true → toJsonItems vs = vs
  | [], _ => rfl
  | v :: vs, h => by
    simp only [plainItems, Bool.and_eq_true] at h
    rw [toJsonItems, toJsonValue_of_plain h.1, toJsonItems_of_plain h.2]

theorem toJsonFields_of_plain : ∀ {fs : List (String × Value)}, plainFields fs = true →
    toJsonFields fs = fs
  | [], _ => rfl
  | (k, v) :: fs, h => by
    simp only [plainFields, Bool.and_eq_true] at h
    rw [toJsonFields, toJsonValue_of_plain h.1, toJsonFields_of_plain h.2]

end

/-- A dumped value is dumped as itself. -/
theorem dumpJson_dumpJson {v u : Value} (h : v.dumpJson = some u) : u.dumpJson = some u := by
  unfold dumpJson at h
  split_ifs at h with hp
  obtain rfl := Option.some.inj h
  simp only [dumpJson, dumped_of_plain hp, hp, if_true]

/-! ### Texts -/

def hexDigit (n : ℕ) : Char :=
  if n < 10 then Char.ofNat (48 + n) else Char.ofNat (87 + n)

/-- The escape `\uXXXX` of one UTF-16 unit. -/
def unicodeEscape (n : ℕ) : List Char :=
  ['\\', 'u', hexDigit (n / 4096 % 16), hexDigit (n / 256 % 16), hexDigit (n / 16 % 16),
    hexDigit (n % 16)]

/-- One character of a JSON string, in ASCII only or not. -/
def escapeChar (ascii : Bool) (c : Char) : List Char :=
  if c = '"' then ['\\', '"']
  else if c = '\\' then ['\\', '\\']
  else if c = '\n' then ['\\', 'n']
  else if c = '\r' then ['\\', 'r']
  else if c = '\t' then ['\\', 't']
  else if c.toNat = 8 then ['\\', 'b']
  else if c.toNat = 12 then ['\\', 'f']
  else if c.toNat < 32 then unicodeEscape c.toNat
  else if !ascii || c.toNat < 127 then [c]
  else if c.toNat < 65536 then unicodeEscape c.toNat
  else unicodeEscape (55296 + (c.toNat - 65536) / 1024) ++
    unicodeEscape (56320 + (c.toNat - 65536) % 1024)

def quote (ascii : Bool) (s : String) : String :=
  "\"" ++ String.ofList (s.toList.flatMap (escapeChar ascii)) ++ "\""

/-- How a JSON text is laid out: its separators and whether it is ASCII only. -/
structure Layout where
  item : String
  key : String
  ascii : Bool

/-- `json.dumps(value, ensure_ascii=True)`. -/
def Layout.dumps : Layout := ⟨", ", ": ", true⟩

/-- `model_dump_json`. -/
def Layout.compact : Layout := ⟨",", ":", false⟩

mutual

/-- The JSON text of a value; what is not JSON is written as its `str`, as
`default=str` has it. -/
def write (l : Layout) : Value → String
  | none => "null"
  | bool b => if b then "true" else "false"
  | int n => toString n
  | float _ repr => repr
  | str s => quote l.ascii s
  | list items => "[" ++ l.item.intercalate (writeItems l items) ++ "]"
  | tuple items => "[" ++ l.item.intercalate (writeItems l items) ++ "]"
  | dict fields => "\x7b" ++ l.item.intercalate (writeFields l fields) ++ "\x7d"
  | model _ text _ => quote l.ascii text
  | dataclass text _ => quote l.ascii text
  | native text _ _ => quote l.ascii text
  | collection text _ => quote l.ascii text
  | object text _ => quote l.ascii text

def writeItems (l : Layout) : List Value → List String
  | [] => []
  | v :: vs => v.write l :: writeItems l vs

def writeFields (l : Layout) : List (String × Value) → List String
  | [] => []
  | (k, v) :: fs => (quote l.ascii k ++ l.key ++ v.write l) :: writeFields l fs

end

/-- `json.dumps(value, ensure_ascii=True, default=str)`. -/
def dumps (v : Value) : String := v.write .dumps

mutual

/-- What `json.dumps` knows: values of JSON, and tuples, which it writes as lists. -/
def dumpable : Value → Bool
  | list items => dumpableItems items
  | tuple items => dumpableItems items
  | dict fields => dumpableFields fields
  | none => true
  | bool _ => true
  | int _ => true
  | float .. => true
  | str _ => true
  | _ => false

def dumpableItems : List Value → Bool
  | [] => true
  | v :: vs => v.dumpable && dumpableItems vs

def dumpableFields : List (String × Value) → Bool
  | [] => true
  | (_, v) :: fs => v.dumpable && dumpableFields fs

end

mutual

theorem dumpable_of_plain : ∀ {v : Value}, v.plain = true → v.dumpable = true
  | none, _ | bool _, _ | int _, _ | float .., _ | str _, _ => rfl
  | list items, h => by rw [dumpable, dumpableItems_of_plain h]
  | dict fields, h => by rw [dumpable, dumpableFields_of_plain h]
  | tuple _, h | model .., h | dataclass .., h | native .., h | collection .., h | object .., h => by
    cases h

theorem dumpableItems_of_plain : ∀ {vs : List Value}, plainItems vs = true →
    dumpableItems vs = true
  | [], _ => rfl
  | v :: vs, h => by
    simp only [plainItems, Bool.and_eq_true] at h
    rw [dumpableItems, dumpable_of_plain h.1, dumpableItems_of_plain h.2, Bool.and_self]

theorem dumpableFields_of_plain : ∀ {fs : List (String × Value)}, plainFields fs = true →
    dumpableFields fs = true
  | [], _ => rfl
  | (_, v) :: fs, h => by
    simp only [plainFields, Bool.and_eq_true] at h
    rw [dumpableFields, dumpable_of_plain h.1, dumpableFields_of_plain h.2, Bool.and_self]

end

/-- `json.dumps(value, ensure_ascii=True)`, which raises on what it does not know. -/
def dumpsStrict (v : Value) : Option String := if v.dumpable then some v.dumps else Option.none

theorem dumpsStrict_of_plain {v : Value} (h : v.plain = true) : v.dumpsStrict = some v.dumps := by
  rw [dumpsStrict, if_pos (dumpable_of_plain h)]

mutual

def sortKeys : Value → Value
  | list items => list (sortItems items)
  | tuple items => tuple (sortItems items)
  | dict fields => dict ((sortFields fields).mergeSort fun f g => f.1 ≤ g.1)
  | v => v

def sortItems : List Value → List Value
  | [] => []
  | v :: vs => v.sortKeys :: sortItems vs

def sortFields : List (String × Value) → List (String × Value)
  | [] => []
  | (k, v) :: fs => (k, v.sortKeys) :: sortFields fs

end

/-- The escape `\xXX`, `\uXXXX` or `\UXXXXXXXX` of a character that is not printable. -/
def reprEscape (n : ℕ) : List Char :=
  if n < 256 then ['\\', 'x', hexDigit (n / 16), hexDigit (n % 16)]
  else if n < 65536 then unicodeEscape n
  else ['\\', 'U', '0', '0', hexDigit (n / 1048576), hexDigit (n / 65536 % 16)] ++
    (unicodeEscape (n % 65536)).drop 2

/-- `repr` of a string, in single quotes unless it holds one and no double quote. -/
def reprStr (s : String) : String :=
  let mark := if s.toList.contains '\'' && !s.toList.contains '"' then '"' else '\''
  let escape (c : Char) : List Char :=
    if c = mark || c = '\\' then ['\\', c]
    else if c = '\n' then ['\\', 'n']
    else if c = '\r' then ['\\', 'r']
    else if c = '\t' then ['\\', 't']
    else if Text.isPrintable c then [c]
    else reprEscape c.toNat
  String.ofList ([mark] ++ s.toList.flatMap escape ++ [mark])

/-- The text of a tuple; one item is followed by a comma. -/
def reprTuple : List String → String
  | [item] => "(" ++ item ++ ",)"
  | items => "(" ++ ", ".intercalate items ++ ")"

mutual

/-- `repr(value)`. -/
def repr : Value → String
  | none => "None"
  | bool b => if b then "True" else "False"
  | int n => toString n
  | float _ repr => repr
  | str s => reprStr s
  | list items => "[" ++ ", ".intercalate (reprItems items) ++ "]"
  | tuple items => reprTuple (reprItems items)
  | dict fields => "\x7b" ++ ", ".intercalate (reprFields fields) ++ "\x7d"
  | model cls text _ => cls ++ "(" ++ text ++ ")"
  | dataclass text _ => text
  | native _ repr _ => repr
  | collection text _ => text
  | object _ repr => repr

def reprItems : List Value → List String
  | [] => []
  | v :: vs => v.repr :: reprItems vs

def reprFields : List (String × Value) → List String
  | [] => []
  | (k, v) :: fs => (reprStr k ++ ": " ++ v.repr) :: reprFields fs

end

/-- `str(value)`. -/
def pyStr : Value → String
  | str s => s
  | model _ text _ => text
  | native text _ _ => text
  | object text _ => text
  | v => v.repr

/-! ### Truth and numbers -/

/-- `bool(value)`. -/
def truthy : Value → Bool
  | none => false
  | bool b => b
  | int n => n ≠ 0
  | float q _ => q ≠ 0
  | str s => s ≠ ""
  | list items => !items.isEmpty
  | tuple items => !items.isEmpty
  | dict fields => !fields.isEmpty
  | collection _ items => !items.isEmpty
  | _ => true

/-- `_is_number`: an integer or a float that is not a boolean. -/
def number? : Value → Option ℚ
  | int n => some n
  | float q _ => some q
  | _ => Option.none

/-- The number a value is equal to, if it is one: `True` is 1. -/
def numeric? : Value → Option ℚ
  | bool b => some b.toNat
  | int n => some n
  | float q _ => some q
  | _ => Option.none

mutual

/-- `==` of values that JSON can give; a dictionary's order does not matter. -/
def pyEq : Value → Value → Bool
  | none, none => true
  | str s, str t => s = t
  | list items, list others => eqItems items others
  | dict fields, dict others => fields.length = others.length && eqFields fields others
  | v, w =>
    match v.numeric?, w.numeric? with
    | some q, some r => q = r
    | _, _ => false

def eqItems : List Value → List Value → Bool
  | [], [] => true
  | v :: vs, w :: ws => v.pyEq w && eqItems vs ws
  | _, _ => false

def eqFields : List (String × Value) → List (String × Value) → Bool
  | [], _ => true
  | (k, v) :: fs, others =>
    match others.lookup k with
    | some w => v.pyEq w && eqFields fs others
    | Option.none => false

end

/-- `value is None`. -/
def isNone : Value → Bool
  | none => true
  | _ => false

/-- `isinstance(value, str)`. -/
def str? : Value → Option String
  | str s => some s
  | _ => Option.none

end Value

end Blackgeorge.Data
