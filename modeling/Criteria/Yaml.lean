import Criteria.Json
import Criteria.Number.Decimal

/-!
# YAML documents

A document is made of scalars, lists and maps. What a scalar stands for depends on how it is
written: one in quotes is a text, and a plain one is whatever its form suggests, a text if it
suggests nothing.

    null    := "" | "~" | "null" | "Null" | "NULL"
    bool    := "true" | "True" | "TRUE" | "false" | "False" | "FALSE"
    integer := sign? (digits without a leading zero | "0x" hex+ | "0o" octal+ | "0b" binary+)
    float   := sign? ".inf" | ".nan" | decimal, in the usual three spellings each

A whole number that 64 bits cannot hold but 128 bits can stands for nothing; a longer one is a
float.
-/

namespace Criteria

/-- A YAML node. -/
inductive Yaml where
  /-- A text; plain if it is written without quotes. -/
  | scalar (plain : Bool) (text : String)
  | list (items : List Yaml)
  | map (entries : List (Yaml × Yaml))

namespace Yaml

/-- What stands where nothing is written. -/
def empty : Yaml := scalar true ""

instance : Inhabited Yaml := ⟨empty⟩

/-- The truth value that a plain scalar stands for. -/
def bool? (s : String) : Option Bool :=
  if ["true", "True", "TRUE"].contains s then some true
  else if ["false", "False", "FALSE"].contains s then some false
  else none

/-- Digits of a base, at least one. -/
def digits? (base : Nat) (cs : List Char) : Option Nat :=
  if !cs.isEmpty && cs.all (isDigitOf base) then some (ofDigits base cs) else none

/-- Digits that begin with a zero and go on are no number. -/
def isPadded : List Char → Bool
  | '0' :: c :: rest => (c :: rest).all Char.isDigit
  | _ => false

/-- A whole number without its sign. -/
def natural? : List Char → Option Nat
  | '0' :: 'x' :: rest => digits? 16 rest
  | '0' :: 'o' :: rest => digits? 8 rest
  | '0' :: 'b' :: rest => digits? 2 rest
  | cs => if isPadded cs then none else digits? 10 cs

/-- The whole number that a plain scalar stands for, of whatever size. -/
def integer? (s : String) : Option Int :=
  let (negative, rest) := takeSign s.toList
  (natural? rest).map fun n => if negative then -(n : Int) else n

/-- The double that a plain scalar stands for. -/
def double? (s : String) : Option Double :=
  if [".inf", ".Inf", ".INF", "+.inf", "+.Inf", "+.INF"].contains s then some (.infinity false)
  else if ["-.inf", "-.Inf", "-.INF"].contains s then some (.infinity true)
  else if [".nan", ".NaN", ".NAN"].contains s then some .nan
  else if isPadded (takeSign s.toList).2 then none
  else ((Decimal.read? s.toList).map Decimal.toDouble).filter Double.isFinite

/-- A whole number that 128 bits can hold, with a sign or without. -/
def fitsDoubleWord (n : Int) : Bool :=
  -(UInt64.size * UInt64.size / 2 : Nat) ≤ n && n < (UInt64.size * UInt64.size : Nat)

/-- What a plain scalar stands for. -/
def ofPlain (s : String) : Json :=
  if ["", "~", "null", "Null", "NULL"].contains s then .null
  else
    match bool? s, integer? s, double? s with
    | some b, _, _ => .bool b
    | none, some n, x =>
      match Numeral.ofInt? n with
      | some k => .number (some k)
      | none =>
        if fitsDoubleWord n then .number none
        else (x.map fun x => .number (some (.double x))).getD (.text (some s))
    | none, none, some x => .number (some (.double x))
    | none, none, none => .text (some s)

/-- A scalar as a value; lists and maps lose what they hold. -/
def shape : Yaml → Json
  | scalar true s => ofPlain s
  | scalar false s => .text (some s)
  | list _ => .array []
  | map _ => .object []

/-- The text of a scalar, in whatever way it is written. -/
def scalarText? : Yaml → Option String
  | scalar _ s => some s
  | _ => none

mutual

/-- No number of a node stands for nothing, its lists and maps nest at most `levels` deep, and its
keys are scalars if `scalarKeys` is set. -/
def isSound (scalarKeys : Bool) : (levels : Nat) → Yaml → Bool
  | _, scalar plain s => shape (scalar plain s) |>.isSound 0
  | 0, list _ | 0, map _ => false
  | levels + 1, list items => areSound scalarKeys levels items
  | levels + 1, map entries => areSoundEntries scalarKeys levels entries

/-- All items of a list are sound. -/
def areSound (scalarKeys : Bool) : (levels : Nat) → List Yaml → Bool
  | _, [] => true
  | levels, y :: rest => isSound scalarKeys levels y && areSound scalarKeys levels rest

/-- All entries of a map are sound. A key that is read as text is a text whatever its form. -/
def areSoundEntries (scalarKeys : Bool) : (levels : Nat) → List (Yaml × Yaml) → Bool
  | _, [] => true
  | levels, (key, y) :: rest =>
    (if scalarKeys then key.scalarText?.isSome else isSound scalarKeys levels key) &&
      isSound scalarKeys levels y && areSoundEntries scalarKeys levels rest

end

/-- How deep the lists and maps of a document may nest. -/
def maxLevels : Nat := 128

end Yaml

end Criteria
