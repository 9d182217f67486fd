/-! Positions in a text. Offsets count UTF-8 bytes, columns count characters. -/

namespace Plc.Text

def byteLength : List Char → Nat
  | [] => 0
  | head :: tail => head.utf8Size + byteLength tail

@[simp] theorem byteLength_nil : byteLength [] = 0 := rfl

@[simp] theorem byteLength_cons (head : Char) (tail : List Char) :
    byteLength (head :: tail) = head.utf8Size + byteLength tail := rfl

@[simp] theorem byteLength_append (left right : List Char) :
    byteLength (left ++ right) = byteLength left + byteLength right := by
  induction left with
  | nil => simp
  | cons head tail induction =>
      rw [List.cons_append, byteLength_cons, byteLength_cons, induction]
      omega

theorem utf8ByteSize_ofList (text : List Char) :
    (String.ofList text).utf8ByteSize = byteLength text := by
  induction text with
  | nil => rfl
  | cons head tail induction =>
      have split : String.ofList (head :: tail) = String.singleton head ++ String.ofList tail := by
        rw [String.singleton_eq_ofList, ← String.ofList_append]
        rfl
      rw [split, String.utf8ByteSize_append, String.utf8ByteSize_singleton, induction]
      rfl

/-- Splits a text at a byte offset: the longest front that ends at or before
it, and what follows. An offset past the end splits off the whole text. -/
def splitAtByte : Nat → List Char → List Char × List Char
  | _, [] => ([], [])
  | offset, head :: tail =>
      if head.utf8Size ≤ offset then
        let (before, after) := splitAtByte (offset - head.utf8Size) tail
        (head :: before, after)
      else
        ([], head :: tail)

example : splitAtByte 2 ['é', 'a'] = (['é'], ['a']) := by decide

def lastLine (text : List Char) : List Char :=
  (text.reverse.takeWhile (· != '\n')).reverse

def firstLine (text : List Char) : List Char :=
  text.takeWhile (· != '\n')

/-- A line of a text and a column in it, both counted from one. The column
may stand one past the last character. -/
structure Place where
  line : Nat
  column : Nat
  content : List Char
  deriving DecidableEq, Repr

def locate (text : List Char) (offset : Nat) : Place :=
  let (before, after) := splitAtByte offset text
  { line := before.count '\n' + 1
    column := (lastLine before).length + 1
    content := lastLine before ++ firstLine after }

example : locate ['a', '\n', 'é', 'b'] 4 = ⟨2, 2, ['é', 'b']⟩ := by decide

end Plc.Text
