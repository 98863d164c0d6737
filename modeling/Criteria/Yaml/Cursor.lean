/-!
# Places in a YAML text

YAML is read with an eye on columns: the column of the first character of a node decides where the
node belongs. A cursor is what is left of a text, together with its line and column. It is fresh if
a key or an entry of a block may begin there: at the first character of a line, and directly behind
the dash of an entry.

Blanks between nodes are skipped as a whole, with line ends and comments. A tabulator is no
indentation, so it is not skipped where a cursor is fresh, except between brackets. A byte order
mark may begin any line; it is skipped, but takes up a column.
-/

namespace Criteria.Yaml

/-- A place in a text. -/
structure Cursor where
  /-- What is left of the text. -/
  rest : List Char
  /-- The line, counted from zero. -/
  line : Nat
  /-- The column, counted from zero. -/
  column : Nat
  /-- A key or an entry of a block may begin here. -/
  fresh : Bool

/-- The characters that end a line: the usual one, the line separator and the paragraph
separator. -/
def isBreak (c : Char) : Bool := c == '\n' || c == '\u2028' || c == '\u2029'

/-- The blanks within a line. -/
def isSpace (c : Char) : Bool := c == ' ' || c == '\t'

/-- Whether a text ends its current word. -/
def endsHere : List Char → Bool
  | [] => true
  | c :: _ => isSpace c || isBreak c

/-- A line that begins or ends a document. -/
def isDocumentMark : List Char → Bool
  | '-' :: '-' :: '-' :: rest | '.' :: '.' :: '.' :: rest => endsHere rest
  | _ => false

/-- Skips blanks. Inside a comment everything is blank up to the end of the line. -/
def gap (flow comment : Bool) (line column : Nat) (fresh : Bool) : List Char → Cursor
  | [] => ⟨[], line, column, fresh⟩
  | c :: rest =>
    if isBreak c then gap flow false (line + 1) 0 (fresh || !flow) rest
    else if comment || c == ' ' || (c == '\t' && (flow || !fresh)) ||
        (c == '\ufeff' && column == 0) then
      gap flow comment line (column + 1) fresh rest
    else if c == '#' then gap flow true line (column + 1) fresh rest
    else ⟨c :: rest, line, column, fresh⟩

namespace Cursor

/-- Skips blanks in a block. -/
def blockGap (c : Cursor) : Cursor := gap false false c.line c.column c.fresh c.rest

/-- Skips blanks between brackets. -/
def flowGap (c : Cursor) : Cursor := gap true false c.line c.column c.fresh c.rest

/-- Passes over characters of the current line; what follows them is not fresh. -/
def advance (c : Cursor) (n : Nat) : Cursor := ⟨c.rest.drop n, c.line, c.column + n, false⟩

/-- The first character. -/
def head? (c : Cursor) : Option Char := c.rest.head?

/-- The document ends here. -/
def isEnd (c : Cursor) : Bool := c.rest.isEmpty || (c.column == 0 && isDocumentMark c.rest)

/-- An entry of a block list begins here. -/
def isEntry (c : Cursor) : Bool := c.head? == some '-' && endsHere c.rest.tail

/-- A colon that ends a key stands here. -/
def isKeyEnd (c : Cursor) : Bool := c.head? == some ':' && endsHere c.rest.tail

/-- A key that begins at one place may have its colon at another: on the same line, with at most
1024 bytes of UTF-8 in between. -/
def reaches (start stop : Cursor) : Bool :=
  start.line == stop.line &&
    (String.ofList (start.rest.take (stop.column - start.column))).utf8ByteSize ≤ 1024

end Cursor

end Criteria.Yaml
