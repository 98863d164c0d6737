/-!
# Parts of a text

The parts of a text between the occurrences of a separator, which has no escapes. There is always
one part more than there are separators, so a part may be empty.
-/

namespace Criteria.Text

/-- The parts between separators. `part` is what has been read of the current one, nearest character
first. -/
def partsFrom (separator : Char) (part : List Char) : List Char → List String
  | [] => [String.ofList part.reverse]
  | c :: rest =>
    if c == separator then String.ofList part.reverse :: partsFrom separator [] rest
    else partsFrom separator (c :: part) rest

/-- The parts of a text between separators. -/
def parts (separator : Char) (s : String) : List String := partsFrom separator [] s.toList

end Criteria.Text
