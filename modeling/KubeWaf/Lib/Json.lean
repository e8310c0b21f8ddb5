import Mathlib.Data.String.Basic

/-!
# JSON values as Go reads them

A document is a value; its text, such as the order of white space, is not modelled. Decoding into a
Go map keeps the last value of each key, and encoding a map writes its keys in order. A field of a
Go struct takes the value of a key that is equal to its name up to the case of letters; where
there are several, the last one counts.
-/

namespace KubeWaf.Lib

/-- A number is kept as it is written. -/
inductive Json where
  | null
  | bool (b : Bool)
  | number (literal : String)
  | string (s : String)
  | array (items : List Json)
  | object (fields : List (String × Json))
  deriving Repr

namespace Json

/-- `map[string]json.RawMessage` -/
abbrev Fields := Std.ExtTreeMap String Json

/-- `json.Unmarshal` into a map, where it does not fail. -/
def toFields : Json → Option Fields
  | .null => some ∅
  | .object fields => some (.ofList fields)
  | _ => none

/-- `json.Unmarshal` into a slice, where it does not fail. -/
def toItems : Json → Option (List Json)
  | .null => some []
  | .array items => some items
  | _ => none

/-- `json.Marshal` of a map. -/
def ofFields (fields : Fields) : Json := .object fields.toList

lemma toFields_ofFields (fields : Fields) : (ofFields fields).toFields = some fields := by
  refine congrArg some (Std.ExtTreeMap.ext_getElem? fun key => ?_)
  cases hkey : fields[key]? with
  | some value =>
    exact Std.ExtTreeMap.getElem?_ofList_of_mem Std.ReflCmp.compare_self
      Std.ExtTreeMap.distinct_keys_toList
      (Std.ExtTreeMap.mem_toList_iff_getElem?_eq_some.mpr hkey)
  | none =>
    apply Std.ExtTreeMap.getElem?_ofList_of_contains_eq_false
    refine Bool.eq_false_iff.mpr fun hcontains => ?_
    obtain ⟨⟨key', value⟩, hentry, rfl⟩ := List.mem_map.mp (List.contains_iff_mem.mp hcontains)
    rw [Std.ExtTreeMap.mem_toList_iff_getElem?_eq_some.mp hentry] at hkey
    cases hkey

/-- The letter in which the letters that are equal up to case are compared. -/
def foldChar (c : Char) : Char :=
  if 'A' ≤ c ∧ c ≤ 'Z' then Char.ofNat (c.toNat + 32)
  -- the Kelvin sign and the long s
  else if c.toNat = 0x212A then 'k'
  else if c.toNat = 0x17F then 's'
  else c

/-- The key is for the field `name` of a struct. -/
def isField (name key : String) : Bool := key.toList.map foldChar = name.toList.map foldChar

/-- The keys and values from which a struct is decoded, where that does not fail. -/
def structFields : Json → Option (List (String × Json))
  | .null => some []
  | .object fields => some fields
  | _ => none

/-- The value of the field `name` of a struct. -/
def field (name : String) (fields : List (String × Json)) : Option Json :=
  (fields.reverse.find? fun f => isField name f.1).map Prod.snd

/-- A field that is a string. A `null` leaves it as it is, that is empty. -/
def toText : Json → Option String
  | .null => some ""
  | .string s => some s
  | _ => none

end Json

end KubeWaf.Lib
