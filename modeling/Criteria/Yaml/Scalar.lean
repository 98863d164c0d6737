import Criteria.Number.Decimal
import Criteria.Yaml.Cursor

/-!
# Scalars of YAML

A scalar is written in single quotes, in double quotes, or plain. It may run over several lines: a
line end inside it counts as a space, and each empty line after that as a line end; but a line
separator or a paragraph separator stays what it is. Blanks around a line end are dropped.

Single quotes know one escape, the quote written twice. Double quotes know escapes with a backslash,
also one for a line end that is to leave no trace. A plain scalar ends before `: ` and ` #`, between
brackets also before what belongs to them, and in a block before a line that is not indented deeper
than the block.
-/

namespace Criteria.Yaml

/-- Blanks that have been read, but are not yet part of a scalar. -/
inductive Fold where
  /-- Blanks of one line, nearest first. -/
  | spaces (blanks : List Char)
  /-- Line ends: the first, unless it was escaped, and the others, nearest first. -/
  | breaks (first : Option Char) (more : List Char)

namespace Fold

/-- Nothing. -/
def nothing : Fold := spaces []

/-- What the blanks add to a scalar, nearest first. -/
def text : Fold → List Char
  | spaces blanks => blanks
  | breaks none more => more
  | breaks (some first) more =>
    if first != '\n' then more ++ [first] else if more.isEmpty then [' '] else more

/-- One more blank. -/
def blank (c : Char) : Fold → Fold
  | spaces blanks => spaces (c :: blanks)
  | breaks first more => breaks first more

/-- One more line end. -/
def lineEnd (c : Char) : Fold → Fold
  | spaces _ => breaks (some c) []
  | breaks first more => breaks first (c :: more)

/-- A line end is among the blanks. -/
def isBroken : Fold → Bool
  | spaces _ => false
  | breaks .. => true

/-- Nothing has been read. -/
def isNothing : Fold → Bool
  | spaces blanks => blanks.isEmpty
  | breaks .. => false

end Fold

/-- The character that stands for one letter behind a backslash. -/
def unescapeLetter? : Char → Option Char
  | '0' => some '\x00'
  | 'a' => some '\x07'
  | 'b' => some '\x08'
  | 't' | '\t' => some '\t'
  | 'n' => some '\n'
  | 'v' => some '\x0b'
  | 'f' => some '\x0c'
  | 'r' => some '\r'
  | 'e' => some '\x1b'
  | ' ' => some ' '
  | '"' => some '"'
  | '/' => some '/'
  | '\\' => some '\\'
  | 'N' => some '\u0085'
  | '_' => some '\u00a0'
  | 'L' => some '\u2028'
  | 'P' => some '\u2029'
  | _ => none

/-- The character with a number in base sixteen. -/
def hexChar? (digits : List Char) : Option Char :=
  let n := ofDigits 16 digits
  if digits.all (isDigitOf 16) && n.isValidChar then some (Char.ofNat n) else none

/-- Reads a scalar in single quotes behind the opening one. `text` is what has been read, nearest
character first. -/
def readSingle? (text : List Char) (fold : Fold) (line column : Nat) :
    List Char → Option (String × Cursor)
  | [] => none
  | '\'' :: '\'' :: rest => readSingle? ('\'' :: fold.text ++ text) .nothing line (column + 2) rest
  | '\'' :: rest =>
    some (String.ofList (fold.text ++ text).reverse, ⟨rest, line, column + 1, false⟩)
  | c :: rest =>
    if isBreak c then readSingle? text (fold.lineEnd c) (line + 1) 0 rest
    else if isSpace c then readSingle? text (fold.blank c) line (column + 1) rest
    else if column == 0 && isDocumentMark (c :: rest) then none
    else readSingle? (c :: fold.text ++ text) .nothing line (column + 1) rest

/-- Reads a scalar in double quotes behind the opening one. -/
def readDouble? (text : List Char) (fold : Fold) (line column : Nat) :
    List Char → Option (String × Cursor)
  | [] => none
  | '"' :: rest => some (String.ofList (fold.text ++ text).reverse, ⟨rest, line, column + 1, false⟩)
  | '\\' :: 'x' :: a :: b :: rest => do
    readDouble? ((← hexChar? [a, b]) :: fold.text ++ text) .nothing line (column + 4) rest
  | '\\' :: 'u' :: a :: b :: c :: d :: rest => do
    readDouble? ((← hexChar? [a, b, c, d]) :: fold.text ++ text) .nothing line (column + 6) rest
  | '\\' :: 'U' :: a :: b :: c :: d :: e :: f :: g :: h :: rest => do
    readDouble? ((← hexChar? [a, b, c, d, e, f, g, h]) :: fold.text ++ text) .nothing line
      (column + 10) rest
  | '\\' :: c :: rest =>
    if isBreak c then readDouble? (fold.text ++ text) (.breaks none []) (line + 1) 0 rest
    else do
      readDouble? ((← unescapeLetter? c) :: fold.text ++ text) .nothing line (column + 2) rest
  | c :: rest =>
    if isBreak c then readDouble? text (fold.lineEnd c) (line + 1) 0 rest
    else if isSpace c then readDouble? text (fold.blank c) line (column + 1) rest
    else if c == '\\' || (column == 0 && isDocumentMark (c :: rest)) then none
    else readDouble? (c :: fold.text ++ text) .nothing line (column + 1) rest

/-- The characters that mean something between brackets. -/
def isFlowMark (c : Char) : Bool := c == ',' || c == '[' || c == ']' || c == '\x7b' || c == '\x7d'

/-- The other characters that no plain scalar begins with. -/
def isReserved (c : Char) : Bool :=
  ['#', '&', '*', '!', '|', '>', '\'', '"', '%', '@', '\x60'].contains c

/-- Whether a plain scalar may begin with a text. -/
def beginsPlain (flow : Bool) : List Char → Bool
  | [] => false
  | c :: rest =>
    if c == '-' then !endsHere rest
    else if c == '?' || c == ':' then !flow && !endsHere rest
    else !endsHere (c :: rest) && !isFlowMark c && !isReserved c

/-- Whether a plain scalar ends before a text, wherever in a line that stands. -/
def endsPlain (flow : Bool) : List Char → Bool
  | [] => true
  | c :: rest => (c == ':' && endsHere rest) || (flow && isFlowMark c)

/-- Between brackets a colon in a plain scalar must not touch what belongs to the brackets. -/
def clashes (flow : Bool) : List Char → Bool
  | ':' :: c :: _ => flow && (isFlowMark c || c == '?')
  | _ => false

/-- Reads a plain scalar whose lines have to stand at column `depth` or behind it. -/
def readPlain? (flow : Bool) (depth : Nat) (text : List Char) (fold : Fold) (line column : Nat) :
    List Char → Option (String × Cursor)
  | [] => some (String.ofList text.reverse, ⟨[], line, column, fold.isBroken⟩)
  | c :: rest =>
    let outdented := !flow && column < depth
    if isBreak c then readPlain? flow depth text (fold.lineEnd c) (line + 1) 0 rest
    else if isSpace c then
      if fold.isBroken && column < depth && c == '\t' then none
      else readPlain? flow depth text (fold.blank c) line (column + 1) rest
    else if !fold.isNothing &&
        (outdented || c == '#' || (column == 0 && isDocumentMark (c :: rest))) then
      some (String.ofList text.reverse, ⟨c :: rest, line, column, fold.isBroken⟩)
    else if clashes flow (c :: rest) then none
    else if endsPlain flow (c :: rest) then
      some (String.ofList text.reverse, ⟨c :: rest, line, column, fold.isBroken⟩)
    else readPlain? flow depth (c :: fold.text ++ text) .nothing line (column + 1) rest

end Criteria.Yaml
