import Criteria.Json.Number

/-!
# Reading JSON texts

    text   := blank* value blank*
    value  := "null" | "true" | "false" | number | string
            | "[" (blank* value blank* ("," blank* value blank*)*)? blank* "]"
            | "{" (member ("," member)*)? blank* "}"
    member := blank* string blank* ":" blank* value blank*
    string := '"' (char | escape)* '"'
    escape := "\" one of `"\/bfnrt` | "\u" four hexadecimal digits

Blanks are the space, the tabulator, the line feed and the carriage return. A character below
U+0020 cannot stand in a string. The result keeps everything that the grammar allows; whether a
value stands for something is `Json.isSound`.
-/

namespace Criteria.Json

/-! ## Strings -/

/-- The upper half of a surrogate pair. -/
def isHighSurrogate (n : Nat) : Bool := 0xD800 ≤ n && n < 0xDC00

/-- The lower half of a surrogate pair. -/
def isLowSurrogate (n : Nat) : Bool := 0xDC00 ≤ n && n < 0xE000

/-- The characters of a sequence of code units. Two halves of a pair that stand side by side are one
character, and a half alone is none. -/
def ofUnits? : List Nat → Option (List Char)
  | [] => some []
  | high :: low :: rest =>
    if isHighSurrogate high && isLowSurrogate low then
      (ofUnits? rest).map (Char.ofNat (0x10000 + (high - 0xD800) * 0x400 + (low - 0xDC00)) :: ·)
    else if isHighSurrogate high || isLowSurrogate high then none
    else (ofUnits? (low :: rest)).map (Char.ofNat high :: ·)
  | [n] => if isHighSurrogate n || isLowSurrogate n then none else some [Char.ofNat n]

/-- The character that a letter behind a backslash stands for. -/
def unescapeLetter? : Char → Option Char
  | '"' => some '"'
  | '\\' => some '\\'
  | '/' => some '/'
  | 'b' => some '\x08'
  | 'f' => some '\x0c'
  | 'n' => some '\n'
  | 'r' => some '\r'
  | 't' => some '\t'
  | _ => none

/-- Reads a string behind its opening quote into code units. -/
def readUnits? : List Char → Option (List Nat × List Char)
  | [] => none
  | '"' :: rest => some ([], rest)
  | '\\' :: 'u' :: a :: b :: c :: d :: rest =>
    if [a, b, c, d].all (isDigitOf 16) then
      (readUnits? rest).map fun (units, rest) => (ofDigits 16 [a, b, c, d] :: units, rest)
    else none
  | '\\' :: letter :: rest =>
    match unescapeLetter? letter with
    | some c => (readUnits? rest).map fun (units, rest) => (c.toNat :: units, rest)
    | none => none
  | c :: rest =>
    if c.toNat < 0x20 || c == '\\' then none
    else (readUnits? rest).map fun (units, rest) => (c.toNat :: units, rest)

/-- Reads a string behind its opening quote. -/
def readString? (cs : List Char) : Option (Option String × List Char) :=
  (readUnits? cs).map fun (units, rest) => ((ofUnits? units).map String.ofList, rest)

/-! ## Values -/

/-- The characters that may stand between the parts of a text. -/
def isSpace (c : Char) : Bool := c == ' ' || c == '\t' || c == '\n' || c == '\r'

/-- Drops blanks. -/
def skipSpace (cs : List Char) : List Char := cs.dropWhile isSpace

/-- What stands behind a word, if a text begins with it. -/
def word? (w : String) (cs : List Char) : Option (List Char) :=
  if w.toList.isPrefixOf cs then some (cs.drop w.length) else none

mutual

/-- Reads a value, which begins with the first character. The fuel bounds the nesting and the number
of items; `2 * length + 2` is always enough. -/
def readValue? : (fuel : Nat) → List Char → Option (Json × List Char)
  | 0, _ => none
  | fuel + 1, cs =>
    match cs with
    | '"' :: rest => (readString? rest).map fun (s, rest) => (text s, rest)
    | '[' :: rest =>
      match skipSpace rest with
      | ']' :: rest => some (array [], rest)
      | rest => (readItems? fuel rest).map fun (items, rest) => (array items, rest)
    | '{' :: rest =>
      match skipSpace rest with
      | '}' :: rest => some (object [], rest)
      | rest => (readMembers? fuel rest).map fun (members, rest) => (object members, rest)
    | 'n' :: _ => (word? "null" cs).map (null, ·)
    | 't' :: _ => (word? "true" cs).map (bool true, ·)
    | 'f' :: _ => (word? "false" cs).map (bool false, ·)
    | _ => (NumberParts.read? cs).map fun (parts, rest) => (number parts.numeral?, rest)

/-- Reads the items of an array up to its end. -/
def readItems? : (fuel : Nat) → List Char → Option (List Json × List Char)
  | 0, _ => none
  | fuel + 1, cs => do
    let (item, rest) ← readValue? fuel cs
    match skipSpace rest with
    | ']' :: rest => return ([item], rest)
    | ',' :: rest =>
      let (items, rest) ← readItems? fuel (skipSpace rest)
      return (item :: items, rest)
    | _ => none

/-- Reads the members of an object up to its end. -/
def readMembers? : (fuel : Nat) → List Char → Option (List (Option String × Json) × List Char)
  | 0, _ => none
  | fuel + 1, cs => do
    let '"' :: rest := cs | none
    let (name, rest) ← readString? rest
    let ':' :: rest := skipSpace rest | none
    let (value, rest) ← readValue? fuel (skipSpace rest)
    match skipSpace rest with
    | '}' :: rest => return ([(name, value)], rest)
    | ',' :: rest =>
      let (members, rest) ← readMembers? fuel (skipSpace rest)
      return ((name, value) :: members, rest)
    | _ => none

end

/-- The value of a text; the whole text has to be one. -/
def ofText? (s : String) : Option Json := do
  let cs := s.toList
  let (value, rest) ← readValue? (2 * cs.length + 2) (skipSpace cs)
  if (skipSpace rest).isEmpty then some value else none

end Criteria.Json
