import Criteria.Text.LowercaseTable

/-!
# Lowercase

The full lowercase mapping of Unicode. Every character is mapped by itself, except the capital
sigma, whose small form depends on its place: `ς` at the end of a word and `σ` elsewhere. Because
of that one rule the lowercase of a text is not the concatenation of the lowercase of its parts.
-/

namespace Criteria.Text

/-- Membership in a list of code point intervals. -/
def inRanges (ranges : List CodeRange) (c : Char) : Bool :=
  ranges.any fun r => r.first ≤ c.toNat && c.toNat ≤ r.last

/-- Letters with a case, less those that casing ignores. -/
def isCased (c : Char) : Bool := inRanges casedRanges c

/-- Characters that the end-of-word test looks through. -/
def isCaseIgnorable (c : Char) : Bool := inRanges caseIgnorableRanges c

/-- The lowercase form of a character on its own. The capital I with a dot keeps its dot as a
combining mark, so the form has two characters; all others have one. -/
def lowercaseChar (c : Char) : List Char :=
  if c.toNat < 0x80 then
    [if 'A' ≤ c && c ≤ 'Z' then Char.ofNat (c.toNat + 0x20) else c]
  else if c == 'İ' then ['i', '\u0307']
  else
    match lowercaseRuns.find? fun r => r.first ≤ c.toNat && c.toNat ≤ r.last with
    | none => [c]
    | some r =>
      if (c.toNat - r.first) % r.stride == 0 then [Char.ofNat (r.target + (c.toNat - r.first))]
      else [c]

/-- The nearest character that casing does not ignore is cased. -/
def meetsCased (cs : List Char) : Bool :=
  match cs.dropWhile isCaseIgnorable with
  | [] => false
  | c :: _ => isCased c

/-- A sigma ends a word when a cased letter stands before it and none behind it, characters that
casing ignores aside. `before` is what precedes it, nearest first. -/
def endsWord (before after : List Char) : Bool := meetsCased before && !meetsCased after

/-- The lowercase of a text that stands behind `before`, which is given nearest first. -/
def lowercaseAfter : (before : List Char) → List Char → List Char
  | _, [] => []
  | before, c :: rest =>
    (if c == 'Σ' then [if endsWord before rest then 'ς' else 'σ'] else lowercaseChar c)
      ++ lowercaseAfter (c :: before) rest

/-- The lowercase of a text. -/
def lowercase (s : String) : String := String.ofList (lowercaseAfter [] s.toList)

/-- A sigma is final behind a letter and before none. -/
example : lowercase "ΑΣ" = "ας" ∧ lowercase "ΑΣΑ" = "ασα" := by decide +kernel

end Criteria.Text
