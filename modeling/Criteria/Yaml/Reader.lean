import Criteria.Yaml
import Criteria.Yaml.Scalar

/-!
# Reading YAML texts

A node is a scalar, a list or map between brackets, or a list or map in a block. The entries of a
block stand in one column, each on a line of its own; whatever belongs to an entry stands behind
that column. Only the entries of a list that is the value of a key may stand in the column of the
key.

    a:
    - b: 1
      c: [2, 3]
    - d

A key and its colon stand on one line, and a map cannot begin on the line of the key that it is the
value of. Anchors, tags, block scalars and keys with a question mark are not read.
-/

namespace Criteria.Yaml

/-! ## Between brackets -/

mutual

/-- Reads a node between brackets, or one that is in brackets. The fuel bounds the nesting and the
number of items. -/
def readFlow? (depth : Nat) : (fuel : Nat) → Cursor → Option (Yaml × Cursor)
  | 0, _ => none
  | fuel + 1, c =>
    if c.isEnd then none
    else
      match c.head? with
      | some '[' =>
        (readItems? depth fuel (c.advance 1).flowGap).map fun (items, c) => (list items, c)
      | some '\x7b' =>
        (readPairs? depth fuel (c.advance 1).flowGap).map fun (pairs, c) => (map pairs, c)
      | some '\'' =>
        (readSingle? [] .nothing c.line (c.column + 1) c.rest.tail).map fun (s, c) =>
          (scalar false s, c)
      | some '"' =>
        (readDouble? [] .nothing c.line (c.column + 1) c.rest.tail).map fun (s, c) =>
          (scalar false s, c)
      | _ =>
        if beginsPlain true c.rest then
          (readPlain? true depth [] .nothing c.line c.column c.rest).map fun (s, c) =>
            (scalar true s, c)
        else none

/-- Reads the items of a list up to its bracket. An item with a colon behind it is a map of one
entry. -/
def readItems? (depth : Nat) : (fuel : Nat) → Cursor → Option (List Yaml × Cursor)
  | 0, _ => none
  | fuel + 1, c =>
    if c.head? == some ']' then some ([], c.advance 1)
    else do
      let start := c
      let (item, c) ← readFlow? depth fuel c
      let (item, c) ←
        if c.flowGap.head? == some ':' then
          (readFlowValue? depth fuel start c.flowGap).map fun (value, c) => (map [(item, value)], c)
        else some (item, c.flowGap)
      match c.head? with
      | some ']' => return ([item], c.advance 1)
      | some ',' =>
        let (items, c) ← readItems? depth fuel (c.advance 1).flowGap
        return (item :: items, c)
      | _ => none

/-- Reads the entries of a map up to its bracket. A key without a colon has nothing as its value. -/
def readPairs? (depth : Nat) : (fuel : Nat) → Cursor → Option (List (Yaml × Yaml) × Cursor)
  | 0, _ => none
  | fuel + 1, c =>
    if c.head? == some '\x7d' then some ([], c.advance 1)
    else do
      let start := c
      let (key, c) ← readFlow? depth fuel c
      let (value, c) ←
        if c.flowGap.head? == some ':' then readFlowValue? depth fuel start c.flowGap
        else some (empty, c.flowGap)
      match c.head? with
      | some '\x7d' => return ([(key, value)], c.advance 1)
      | some ',' =>
        let (pairs, c) ← readPairs? depth fuel (c.advance 1).flowGap
        return ((key, value) :: pairs, c)
      | _ => none

/-- Reads a value from the colon on, whose key began at `start`, and the blanks behind it. -/
def readFlowValue? (depth : Nat) : (fuel : Nat) → (start : Cursor) → Cursor → Option (Yaml × Cursor)
  | 0, _, _ => none
  | fuel + 1, start, c =>
    if !start.reaches c then none
    else
      let c := (c.advance 1).flowGap
      if [some ',', some ']', some '\x7d'].contains c.head? then some (empty, c)
      else (readFlow? depth fuel c).map fun (value, c) => (value, c.flowGap)

end

/-! ## In blocks -/

/-- Reads a node of a block that is no block itself. -/
def readInline? (depth fuel : Nat) (c : Cursor) : Option (Yaml × Cursor) :=
  if [some '[', some '\x7b', some '\'', some '"'].contains c.head? then readFlow? depth fuel c
  else if beginsPlain false c.rest then
    (readPlain? false depth [] .nothing c.line c.column c.rest).map fun (s, c) => (scalar true s, c)
  else none

mutual

/-- Reads a node that stands at column `depth` or behind it. `isValue` says that it is the value of
a key; then a list may stand one column before that. -/
def readBlock? : (fuel depth : Nat) → (isValue : Bool) → Cursor → Option (Yaml × Cursor)
  | 0, _, _, _ => none
  | fuel + 1, depth, isValue, c =>
    let start := c.blockGap
    if start.isEnd then some (empty, start)
    else if start.fresh && start.column < depth then
      if isValue && start.column + 1 == depth && start.isEntry then
        (readEntries? fuel true start).map fun (items, c) => (list items, c)
      else some (empty, start)
    else if start.isEntry then
      if start.fresh then (readEntries? fuel false start).map fun (items, c) => (list items, c)
      else none
    else do
      let (node, c) ← readInline? depth fuel start
      if c.blockGap.isKeyEnd then
        if start.fresh && start.reaches c.blockGap then
          let (value, c) ← readBlock? fuel (start.column + 1) true (c.blockGap.advance 1)
          let (rest, c) ← readKeys? fuel start.column c
          return (map ((node, value) :: rest), c)
        else none
      else return (node, c)

/-- Reads the further keys of a map in a column, with their values. -/
def readKeys? : (fuel column : Nat) → Cursor → Option (List (Yaml × Yaml) × Cursor)
  | 0, _, _ => none
  | fuel + 1, column, c =>
    let start := c.blockGap
    if start.isEnd || (start.fresh && start.column < column) then some ([], start)
    else if !start.fresh || start.column != column || start.isEntry then none
    else do
      let (key, c) ← readInline? (column + 1) fuel start
      if c.blockGap.isKeyEnd && start.reaches c.blockGap then
        let (value, c) ← readBlock? fuel (column + 1) true (c.blockGap.advance 1)
        let (rest, c) ← readKeys? fuel column c
        return ((key, value) :: rest, c)
      else none

/-- Reads the entries of a list from a dash on. `amongKeys` says that they stand in the column of
keys, the next of which ends the list. -/
def readEntries? : (fuel : Nat) → (amongKeys : Bool) → Cursor → Option (List Yaml × Cursor)
  | 0, _, _ => none
  | fuel + 1, amongKeys, start => do
    let (item, c) ←
      readBlock? fuel (start.column + 1) false { start.advance 1 with fresh := true }
    let c := c.blockGap
    if c.isEnd || (c.fresh && c.column < start.column) then return ([item], c)
    else if !c.fresh || c.column != start.column then none
    else if c.isEntry then
      let (items, c) ← readEntries? fuel amongKeys c
      return (item :: items, c)
    else if amongKeys then return ([item], c)
    else none

end

/-! ## Documents -/

/-- The characters that may occur in a document. -/
def isPrintable (c : Char) : Bool :=
  let n := c.toNat
  n == 0x09 || n == 0x0A || n == 0x0D || (0x20 ≤ n && n ≤ 0x7E) || n == 0x85 ||
    (0xA0 ≤ n && n ≤ 0xFFFD) || 0x10000 ≤ n

/-- Writes all line ends in one way, except the line separator and the paragraph separator. -/
def normalizeBreaks : List Char → List Char
  | '\r' :: '\n' :: rest => '\n' :: normalizeBreaks rest
  | c :: rest => (if c == '\r' || c == '\u0085' then '\n' else c) :: normalizeBreaks rest
  | [] => []

/-- What may follow a document: nothing but marks of its end. The fuel bounds their number. -/
def isClosed : (fuel : Nat) → Cursor → Bool
  | 0, _ => false
  | fuel + 1, c =>
    let c := c.blockGap
    c.rest.isEmpty || (c.head? == some '.' && c.isEnd && isClosed fuel (c.advance 3))

/-- The document of a text. A text without one is read as a document in which nothing is written. -/
def ofText? (s : String) : Option Yaml := do
  let cs := normalizeBreaks s.toList
  let start := gap false false 0 0 true cs
  if !cs.all isPrintable || (start.head? == some '.' && start.isEnd) then none
  else
    let start := if start.head? == some '-' && start.isEnd then start.advance 3 else start
    let (document, c) ← readBlock? (8 * cs.length + 8) 0 false start
    if isClosed (cs.length + 1) c then some document else none

end Criteria.Yaml
