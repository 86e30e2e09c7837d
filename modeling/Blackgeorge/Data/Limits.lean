import Blackgeorge.Data.RoundTrip
import Blackgeorge.Data.Scans

/-! What the interpreter refuses of JSON: texts and values that nest too deep, and integers
with too many digits. What it does not refuse is written and read back as it is. -/

namespace Blackgeorge.Data.Json

open Value

/-- The exceptions of `json`: a `JSONDecodeError`, a `RecursionError`, and the `ValueError` of
an integer that is too long. -/
inductive JsonError where
  | decode
  | recursion
  | digits
  deriving DecidableEq

def JsonError.exn : JsonError → Exn
  | decode => ⟨.valueError, "JSONDecodeError", "Expecting value"⟩
  | recursion => ⟨.other, "RecursionError", "maximum recursion depth exceeded"⟩
  | digits => ⟨.valueError, "ValueError", "Exceeds the limit for integer string conversion"⟩

/-- The interpreter's limits: the digits of an integer that becomes a text or comes from one,
the calls of `to_json_value` in one another, and the arrays and objects in one another that
`json` writes and reads. -/
structure Limits where
  digits : ℕ
  calls : ℕ
  calls_pos : 0 < calls
  nesting : ℕ

/-- The limits that Python has by default. -/
def defaultLimits : Limits where
  digits := 4300
  calls := 1000
  calls_pos := by decide
  nesting := 10000

/-! ### Reading -/

section Reading

variable (limits : Limits) (float : String → ℚ × String)

/-- An integer with too many digits. -/
def overrunLeaf (s : List Char) : Option JsonError :=
  match scanParts s with
  | some (_, whole, [], _) => if limits.digits < whole.length then some .digits else Option.none
  | _ => Option.none

mutual

/-- The limit that `scan_once` runs into where `depth` arrays and objects are open, if it does
so before an error in the text. -/
def overrunOnce : (fuel depth : ℕ) → List Char → Option JsonError
  | 0, _, _ => Option.none
  | fuel + 1, depth, '[' :: s =>
    if limits.nesting ≤ depth then some .recursion
    else
      match skipSpace s with
      | ']' :: _ => Option.none
      | s => overrunItems fuel (depth + 1) s
  | fuel + 1, depth, '\x7b' :: s =>
    if limits.nesting ≤ depth then some .recursion
    else
      match skipSpace s with
      | '\x7d' :: _ => Option.none
      | s => overrunPairs fuel (depth + 1) s
  | _ + 1, _, s => overrunLeaf limits s

def overrunItems : (fuel depth : ℕ) → List Char → Option JsonError
  | 0, _, _ => Option.none
  | fuel + 1, depth, s =>
    match overrunOnce fuel depth s, scanOnce float fuel s with
    | some e, _ => some e
    | Option.none, some (_, s) =>
      match skipSpace s with
      | ',' :: s => overrunItems fuel depth (skipSpace s)
      | _ => Option.none
    | Option.none, Option.none => Option.none

def overrunPairs : (fuel depth : ℕ) → List Char → Option JsonError
  | 0, _, _ => Option.none
  | fuel + 1, depth, s =>
    match scanKey s with
    | Option.none => Option.none
    | some (_, s) =>
      match overrunOnce fuel depth s, scanOnce float fuel s with
      | some e, _ => some e
      | Option.none, some (_, s) =>
        match skipSpace s with
        | ',' :: s => overrunPairs fuel depth (skipSpace s)
        | _ => Option.none
      | Option.none, Option.none => Option.none

end

/-- `json.loads` and what it raises. -/
def decode (text : String) : Except JsonError Value :=
  match overrunOnce limits float (text.toList.length + 1) 0 (skipSpace text.toList) with
  | some e => .error e
  | Option.none => (loads float text).elim (.error .decode) .ok

end Reading

/-! ### Writing -/

mutual

/-- The lists and dictionaries in one another; a value without parts counts as `leaf`. -/
def depthOf (leaf : ℕ) : Value → ℕ
  | .list items => depthOfItems leaf items + 1
  | .dict fields => depthOfFields leaf fields + 1
  | _ => leaf

def depthOfItems (leaf : ℕ) : List Value → ℕ
  | [] => 0
  | v :: vs => max (depthOf leaf v) (depthOfItems leaf vs)

def depthOfFields (leaf : ℕ) : List (String × Value) → ℕ
  | [] => 0
  | (_, v) :: fs => max (depthOf leaf v) (depthOfFields leaf fs)

end

mutual

/-- The digits of the longest integer. -/
def mostDigits : Value → ℕ
  | .int n => (Nat.toDigits 10 n.natAbs).length
  | .list items => mostDigitsItems items
  | .dict fields => mostDigitsFields fields
  | _ => 0

def mostDigitsItems : List Value → ℕ
  | [] => 0
  | v :: vs => max (mostDigits v) (mostDigitsItems vs)

def mostDigitsFields : List (String × Value) → ℕ
  | [] => 0
  | (_, v) :: fs => max (mostDigits v) (mostDigitsFields fs)

end

/-- What `to_json_value` and `json.dumps` raise on a JSON value, if they do: each nested call
of the first is one more than a list, `json.dumps` counts the lists and dictionaries. -/
def Limits.refuses (limits : Limits) (v : Value) : Option JsonError :=
  if limits.calls < depthOf 1 v ∨ limits.nesting < depthOf 0 v then some .recursion
  else if limits.digits < mostDigits v then some .digits
  else Option.none

/-- `json.dumps(to_json_value(value), ensure_ascii=True, default=str)`. -/
def encode (limits : Limits) (v : Value) : Except JsonError String :=
  match limits.refuses v.toJsonValue with
  | some e => .error e
  | Option.none => .ok v.toJsonValue.dumps

theorem encode_ok {limits : Limits} {v : Value} {text : String} (h : encode limits v = .ok text) :
    limits.refuses v.toJsonValue = Option.none ∧ text = v.toJsonValue.dumps := by
  unfold encode at h
  cases hrefuses : limits.refuses v.toJsonValue with
  | some e =>
    rw [hrefuses] at h
    cases h
  | none =>
    rw [hrefuses] at h
    exact ⟨rfl, (Except.ok.inj h).symm⟩

theorem encode_of_refuses {limits : Limits} {v : Value}
    (h : limits.refuses v.toJsonValue = Option.none) :
    encode limits v = .ok v.toJsonValue.dumps := by
  rw [encode, h]

theorem refuses_none_iff {limits : Limits} {v : Value} :
    limits.refuses v = Option.none ↔
      depthOf 1 v ≤ limits.calls ∧ depthOf 0 v ≤ limits.nesting ∧ mostDigits v ≤ limits.digits := by
  unfold Limits.refuses
  split_ifs with hdeep hlong
  · simp only [false_iff]
    omega
  · simp only [false_iff]
    omega
  · simp only [true_iff]
    omega

/-! ### What is written is read -/

section Spared

variable {limits : Limits} {float : String → ℚ × String}

/-- The text of a value is read without running into a limit, whatever mark follows it. -/
def Spared (limits : Limits) (float : String → ℚ × String) (depth : ℕ) (v : Value) : Prop :=
  ∀ fuel s, Ends s → v.dumps.toList.length ≤ fuel →
    overrunOnce limits float fuel depth (v.dumps.toList ++ s) = Option.none

theorem overrunOnce_leaf {c : Char} (hlist : c ≠ '[') (hdict : c ≠ '\x7b') (s : List Char)
    (fuel depth : ℕ) :
    overrunOnce limits float (fuel + 1) depth (c :: s) = overrunLeaf limits (c :: s) := by
  rw [overrunOnce]
  · intro t ht
    exact hlist (List.cons.inj ht).1
  · intro t ht
    exact hdict (List.cons.inj ht).1

theorem overrunOnce_number {s : List Char}
    {p : List Char × List Char × List Char × List Char} (h : scanParts s = some p)
    (fuel depth : ℕ) :
    overrunOnce limits float (fuel + 1) depth s = overrunLeaf limits s := by
  rw [overrunOnce]
  all_goals
    rintro t rfl
    simp [scanParts, scanSign, scanWhole, digitsOf] at h

theorem overrunOnce_list {fuel depth : ℕ} {s : List Char} (hs : Begins s)
    (hdepth : depth < limits.nesting)
    (h : overrunItems limits float fuel (depth + 1) s = Option.none) :
    overrunOnce limits float (fuel + 1) depth ('[' :: s) = Option.none := by
  have hskip := hs.skipSpace
  obtain ⟨c, u, rfl, _, hc, _⟩ := hs
  rw [overrunOnce, if_neg (by omega), hskip]
  split
  · rfl
  · exact h

theorem overrunOnce_dict {fuel depth : ℕ} {s : List Char} (hs : Begins s)
    (hdepth : depth < limits.nesting)
    (h : overrunPairs limits float fuel (depth + 1) s = Option.none) :
    overrunOnce limits float (fuel + 1) depth ('\x7b' :: s) = Option.none := by
  have hskip := hs.skipSpace
  obtain ⟨c, u, rfl, _, _, hc⟩ := hs
  rw [overrunOnce, if_neg (by omega), hskip]
  split
  · rfl
  · exact h

theorem overrunItems_last {fuel depth : ℕ} {s t : List Char} {v : Value}
    (hspared : overrunOnce limits float fuel depth s = Option.none)
    (h : scanOnce float fuel s = some (v, ']' :: t)) :
    overrunItems limits float (fuel + 1) depth s = Option.none := by
  have hskip : skipSpace (']' :: t) = ']' :: t := rfl
  simp [overrunItems, hspared, h, hskip]

theorem overrunItems_next {fuel depth : ℕ} {s t : List Char} {v : Value} (ht : Begins t)
    (hspared : overrunOnce limits float fuel depth s = Option.none)
    (h : scanOnce float fuel s = some (v, ',' :: ' ' :: t))
    (hrest : overrunItems limits float fuel depth t = Option.none) :
    overrunItems limits float (fuel + 1) depth s = Option.none := by
  have hskip : skipSpace (',' :: ' ' :: t) = ',' :: ' ' :: t := rfl
  have hspace : skipSpace (' ' :: t) = t := ht.skipSpace
  simp [overrunItems, hspared, h, hskip, hspace, hrest]

theorem overrunPairs_last {fuel depth : ℕ} {s r t : List Char} {k : String} {v : Value}
    (hk : scanKey s = some (k, r))
    (hspared : overrunOnce limits float fuel depth r = Option.none)
    (h : scanOnce float fuel r = some (v, '\x7d' :: t)) :
    overrunPairs limits float (fuel + 1) depth s = Option.none := by
  have hskip : skipSpace ('\x7d' :: t) = '\x7d' :: t := rfl
  simp [overrunPairs, hk, hspared, h, hskip]

theorem overrunPairs_next {fuel depth : ℕ} {s r t : List Char} {k : String} {v : Value}
    (ht : Begins t) (hk : scanKey s = some (k, r))
    (hspared : overrunOnce limits float fuel depth r = Option.none)
    (h : scanOnce float fuel r = some (v, ',' :: ' ' :: t))
    (hrest : overrunPairs limits float fuel depth t = Option.none) :
    overrunPairs limits float (fuel + 1) depth s = Option.none := by
  have hskip : skipSpace (',' :: ' ' :: t) = ',' :: ' ' :: t := rfl
  have hspace : skipSpace (' ' :: t) = t := ht.skipSpace
  simp [overrunPairs, hk, hspared, h, hskip, hspace, hrest]

variable {depth : ℕ}

theorem spared_int {n : ℤ} (h : (Nat.toDigits 10 n.natAbs).length ≤ limits.digits) :
    Spared limits float depth (.int n) := by
  intro fuel s hs hfuel
  obtain ⟨fuel, rfl⟩ := @exists_fuel float (.int n) _ trivial hfuel
  obtain ⟨sign, hparts, _⟩ := scanParts_int n
  have happend := scanParts_append hs hparts
  change overrunOnce limits float (fuel + 1) depth ((toString n).toList ++ s) = _
  rw [overrunOnce_number happend, overrunLeaf, happend]
  exact if_neg (by omega)

theorem spared_float {q : ℚ} {text : String} (h : IsFloat float q text) :
    Spared limits float depth (.float q text) := by
  intro fuel s hs hfuel
  obtain ⟨fuel, rfl⟩ := @exists_fuel float (.float q text) _ h hfuel
  obtain ⟨⟨sign, whole, rest, hparts, hrest⟩, _⟩ := h
  have happend := scanParts_append hs hparts
  obtain ⟨c, rest, rfl⟩ := List.exists_cons_of_ne_nil hrest
  change overrunOnce limits float (fuel + 1) depth (text.toList ++ s) = _
  rw [overrunOnce_number happend, overrunLeaf, happend]

theorem spared_str (text : String) : Spared limits float depth (.str text) := by
  intro fuel s _ hfuel
  obtain ⟨fuel, rfl⟩ := @exists_fuel float (.str text) _ trivial hfuel
  rw [toList_dumps_str, List.cons_append, overrunOnce_leaf (by decide) (by decide)]
  simp [overrunLeaf, scanParts, scanSign, scanWhole, digitsOf]

theorem spared_list {vs : List Value} (h : IsJsonItems float vs)
    (hdepth : depth + depthOf 0 (.list vs) ≤ limits.nesting)
    (hitems : vs ≠ [] → ∀ fuel s, (itemsText vs).length < fuel →
      overrunItems limits float fuel (depth + 1) (itemsText vs ++ ']' :: s) = Option.none) :
    Spared limits float depth (.list vs) := by
  intro fuel s _ hfuel
  obtain ⟨fuel, rfl⟩ := @exists_fuel float (.list vs) _ h hfuel
  rw [depthOf] at hdepth
  cases vs with
  | nil =>
    change overrunOnce limits float (fuel + 1) depth ('[' :: ']' :: s) = _
    rw [overrunOnce, if_neg (by omega)]
    rfl
  | cons v vs =>
    rw [toList_dumps_list] at hfuel ⊢
    simp only [List.length_cons, List.length_append] at hfuel
    rw [List.cons_append, List.append_assoc, List.singleton_append]
    exact overrunOnce_list ((begins_itemsText h.1 vs).append _) (by omega)
      (hitems (List.cons_ne_nil v vs) fuel s (by omega))

theorem spared_dict {fs : List (String × Value)} (hnodup : (fs.map Prod.fst).Nodup)
    (h : IsJsonFields float fs) (hdepth : depth + depthOf 0 (.dict fs) ≤ limits.nesting)
    (hpairs : fs ≠ [] → ∀ fuel s, (pairsText fs).length < fuel →
      overrunPairs limits float fuel (depth + 1) (pairsText fs ++ '\x7d' :: s) = Option.none) :
    Spared limits float depth (.dict fs) := by
  intro fuel s _ hfuel
  obtain ⟨fuel, rfl⟩ := @exists_fuel float (.dict fs) _ ⟨hnodup, h⟩ hfuel
  rw [depthOf] at hdepth
  cases fs with
  | nil =>
    change overrunOnce limits float (fuel + 1) depth ('\x7b' :: '\x7d' :: s) = _
    rw [overrunOnce, if_neg (by omega)]
    rfl
  | cons f fs =>
    rw [toList_dumps_dict] at hfuel ⊢
    simp only [List.length_cons, List.length_append] at hfuel
    rw [List.cons_append, List.append_assoc, List.singleton_append]
    exact overrunOnce_dict ((begins_pairsText f fs).append _) (by omega)
      (hpairs (List.cons_ne_nil f fs) fuel s (by omega))

mutual

/-- A value within the limits is read without running into one. -/
theorem spared : ∀ (v : Value) (depth : ℕ), IsJson float v → depth + depthOf 0 v ≤ limits.nesting →
    mostDigits v ≤ limits.digits → Spared limits float depth v
  | .none, _, _, _, _ => fun fuel _ _ hfuel => by
    obtain ⟨fuel, rfl⟩ := @exists_fuel float .none _ trivial hfuel
    rfl
  | .bool b, _, _, _, _ => fun fuel _ _ hfuel => by
    obtain ⟨fuel, rfl⟩ := @exists_fuel float (.bool b) _ trivial hfuel
    cases b <;> rfl
  | .int _, _, _, _, hdigits => spared_int hdigits
  | .float _ _, _, h, _, _ => spared_float h
  | .str text, _, _, _, _ => spared_str text
  | .list vs, depth, h, hdepth, hdigits => spared_list h hdepth fun hne =>
      sparedItems vs hne (depth + 1) h (by rw [depthOf] at hdepth; omega) hdigits
  | .dict fs, depth, h, hdepth, hdigits => spared_dict h.1 h.2 hdepth fun hne =>
      sparedPairs fs hne (depth + 1) h.2 (by rw [depthOf] at hdepth; omega) hdigits
  | .tuple _, _, h, _, _ | .model .., _, h, _, _ | .dataclass .., _, h, _, _
  | .native .., _, h, _, _ | .collection .., _, h, _, _ | .object .., _, h, _, _ => h.elim

theorem sparedItems : ∀ vs : List Value, vs ≠ [] → ∀ depth, IsJsonItems float vs →
    depth + depthOfItems 0 vs ≤ limits.nesting → mostDigitsItems vs ≤ limits.digits → ∀ fuel s,
    (itemsText vs).length < fuel →
      overrunItems limits float fuel depth (itemsText vs ++ ']' :: s) = Option.none
  | [], hne => absurd rfl hne
  | [v], _ => fun depth h hdepth hdigits fuel s hfuel => by
    obtain ⟨fuel, rfl⟩ : ∃ n, fuel = n + 1 := ⟨fuel - 1, by omega⟩
    simp only [depthOfItems, mostDigitsItems] at hdepth hdigits
    rw [itemsText_singleton] at hfuel ⊢
    exact overrunItems_last
      (spared v depth h.1 (by omega) (by omega) fuel _ (ends_bracket s) (Nat.le_of_lt_succ hfuel))
      (reads v h.1 fuel _ (ends_bracket s) (Nat.le_of_lt_succ hfuel))
  | v :: w :: vs, _ => fun depth h hdepth hdigits fuel s hfuel => by
    obtain ⟨fuel, rfl⟩ : ∃ n, fuel = n + 1 := ⟨fuel - 1, by omega⟩
    rw [depthOfItems] at hdepth
    rw [mostDigitsItems] at hdigits
    rw [itemsText_cons] at hfuel ⊢
    simp only [List.length_append, List.length_cons] at hfuel
    have hends := ends_comma (' ' :: (itemsText (w :: vs) ++ ']' :: s))
    have hfirst := spared v depth h.1 (by omega) (by omega) fuel _ hends (by omega)
    have hread := reads v h.1 fuel _ hends (by omega)
    have hrest := sparedItems (w :: vs) (List.cons_ne_nil w vs) depth h.2 (by omega) (by omega)
      fuel s (by omega)
    rw [List.append_assoc, List.cons_append, List.cons_append]
    exact overrunItems_next ((begins_itemsText h.2.1 vs).append _) hfirst hread hrest

theorem sparedPairs : ∀ fs : List (String × Value), fs ≠ [] → ∀ depth, IsJsonFields float fs →
    depth + depthOfFields 0 fs ≤ limits.nesting → mostDigitsFields fs ≤ limits.digits → ∀ fuel s,
    (pairsText fs).length < fuel →
      overrunPairs limits float fuel depth (pairsText fs ++ '\x7d' :: s) = Option.none
  | [], hne => absurd rfl hne
  | [(k, v)], _ => fun depth h hdepth hdigits fuel s hfuel => by
    obtain ⟨fuel, rfl⟩ : ∃ n, fuel = n + 1 := ⟨fuel - 1, by omega⟩
    simp only [depthOfFields, mostDigitsFields] at hdepth hdigits
    simp only [pairsText_singleton, pairText, List.length_append, List.length_cons] at hfuel ⊢
    have hfirst := spared v depth h.1 (by omega) (by omega) fuel _ (ends_brace s) (by omega)
    have hread := reads v h.1 fuel _ (ends_brace s) (by omega)
    rw [List.append_assoc, List.cons_append, List.cons_append]
    exact overrunPairs_last (scanKey_quote k ((begins_dumps h.1).append _)) hfirst hread
  | (k, v) :: g :: fs, _ => fun depth h hdepth hdigits fuel s hfuel => by
    obtain ⟨fuel, rfl⟩ : ∃ n, fuel = n + 1 := ⟨fuel - 1, by omega⟩
    have hfields : IsJson float v ∧ IsJsonFields float (g :: fs) := h
    rw [depthOfFields] at hdepth
    rw [mostDigitsFields] at hdigits
    simp only [pairsText_cons, pairText, List.length_append, List.length_cons] at hfuel ⊢
    have hends := ends_comma (' ' :: (pairsText (g :: fs) ++ '\x7d' :: s))
    have hfirst := spared v depth hfields.1 (by omega) (by omega) fuel _ hends (by omega)
    have hread := reads v hfields.1 fuel _ hends (by omega)
    have hrest := sparedPairs (g :: fs) (List.cons_ne_nil g fs) depth hfields.2 (by omega)
      (by omega) fuel s (by omega)
    have hkey := scanKey_quote k
      ((begins_dumps hfields.1).append (',' :: ' ' :: (pairsText (g :: fs) ++ '\x7d' :: s)))
    simp only [List.append_assoc, List.cons_append]
    exact overrunPairs_next ((begins_pairsText g fs).append _) hkey hfirst hread hrest

end

/-- What `json.dumps` wrote within the limits, `json.loads` reads back. -/
theorem decode_dumps {v : Value} (h : IsJson float v) (hlimits : limits.refuses v = Option.none) :
    decode limits float v.dumps = .ok v := by
  obtain ⟨_, hdepth, hdigits⟩ := refuses_none_iff.mp hlimits
  have hspared := spared v 0 h (by omega) hdigits _ [] trivial (Nat.le_succ v.dumps.toList.length)
  rw [List.append_nil] at hspared
  rw [decode, (begins_dumps h).skipSpace, hspared, loads_dumps h]
  rfl

/-- A JSON value is written and read back exactly when it is within the limits. -/
theorem decode_encode {v : Value} {text : String} (h : IsJson float v)
    (htext : encode limits v = .ok text) : decode limits float text = .ok v := by
  have hplain := Value.toJsonValue_of_plain (plain_of_isJson v h)
  obtain ⟨hlimits, rfl⟩ := encode_ok htext
  rw [hplain] at hlimits ⊢
  exact decode_dumps h hlimits

theorem loads_of_decode {text : String} {v : Value} (h : decode limits float text = .ok v) :
    loads float text = some v := by
  unfold decode at h
  split at h
  · cases h
  · cases hloads : loads float text with
    | none =>
      rw [hloads] at h
      cases h
    | some w =>
      rw [hloads] at h
      exact congrArg some (Except.ok.inj h)

/-- No text is the string it stands for. -/
theorem decode_ne_self (text : String) : decode limits float text ≠ .ok (.str text) :=
  fun h => loads_ne_self text (loads_of_decode h)

end Spared

end Blackgeorge.Data.Json
