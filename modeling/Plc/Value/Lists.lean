import Plc.Value.Basic

/-! The lists of a run, and what they mean for the text and the equality of
values. A list may contain lists, and after assignments even itself; then
neither the text nor a comparison need come to an end. -/

namespace Plc

/-- The elements of every list, by its number. -/
abbrev Lists := Array (List Value)

def Lists.elements (lists : Lists) (id : Nat) : List Value :=
  match lists[id]? with
  | some elements => elements
  | none => []

namespace Value

/-! ## Text -/

/-- The text of a value in the pieces it is written in, if lists are nested at
most `depth` deep. -/
def piecesUpTo (lists : Lists) : Nat → Value → Option (List String)
  | _, .nil => some ["nil"]
  | _, .boolean value => some [if value then "true" else "false"]
  | _, .integer value => some [toString value]
  | _, .decimal value => some [value.display]
  | _, .character value => some [value.toString]
  | _, .string value => some [value]
  | 0, .list _ => none
  | depth + 1, .list id => do
      let elements ← (lists.elements id).mapM (piecesUpTo lists depth)
      return "[" :: (elements.intersperse [", "]).flatten ++ ["]"]

/-- Without a list inside itself, lists are nested no deeper than there are
lists. -/
def pieces? (lists : Lists) (value : Value) : Option (List String) :=
  piecesUpTo lists lists.size value

def display? (lists : Lists) (value : Value) : Option String :=
  (value.pieces? lists).map String.join

/-! ## Equality -/

/-- Whether two sequences agree, from the front to the first difference. -/
def allEqual? (equal? : Value → Value → Option Bool) :
    List Value → List Value → Option Bool
  | left :: lefts, right :: rights => do
      if ← equal? left right then allEqual? equal? lefts rights else return false
  | [], [] => some true
  | _, _ => some false

/-- Equality of values, if lists are nested at most `depth` deep. Decimals are
compared by what they are worth, lists by their elements. -/
def equalUpTo (lists : Lists) : Nat → Value → Value → Option Bool
  | _, .decimal left, .decimal right => some (left.equals right)
  | 0, .list left, .list right => if left = right then some true else none
  | depth + 1, .list left, .list right =>
      if left = right then
        some true
      else if (lists.elements left).length ≠ (lists.elements right).length then
        some false
      else
        allEqual? (equalUpTo lists depth) (lists.elements left) (lists.elements right)
  | _, left, right => some (left = right)

/-- A comparison that comes back to the same two lists never ends; one that
does not is nested no deeper than there are pairs of lists. -/
def equal? (lists : Lists) (left right : Value) : Option Bool :=
  equalUpTo lists (lists.size * lists.size) left right

end Value

end Plc
