import Mathlib.Data.List.Induction
import Mathlib.Data.List.TakeWhile
import Plc.Text.Position

/-! The lines of a text, and the way from a byte to its line and column and back. -/

namespace Plc.Text

/-! ## Lines -/

/-- The lines of a text, without the newlines between them. -/
def lines (text : List Char) : List (List Char) :=
  text.splitOn '\n'

@[simp] theorem lines_newline (tail : List Char) : lines ('\n' :: tail) = [] :: lines tail := by
  rw [lines, List.splitOn_cons_eq_if_modifyHead]
  rfl

theorem lines_cons {head : Char} (plain : head ≠ '\n') (tail : List Char) :
    lines (head :: tail) = (lines tail).modifyHead (head :: ·) := by
  rw [lines, List.splitOn_cons_eq_if_modifyHead, if_neg (by simpa using plain)]
  rfl

theorem firstLine_cons {head : Char} (plain : head ≠ '\n') (tail : List Char) :
    firstLine (head :: tail) = head :: firstLine tail := by
  simp [firstLine, plain]

theorem lines_eq_cons (text : List Char) : lines text = firstLine text :: (lines text).tail := by
  induction text with
  | nil => rfl
  | cons head tail induction =>
      by_cases newline : head = '\n'
      · subst newline
        simp [firstLine]
      · rw [lines_cons newline, firstLine_cons newline, induction]
        rfl

theorem lastLine_append_newline (text : List Char) : lastLine (text ++ ['\n']) = [] := by
  simp [lastLine]

theorem lastLine_append {last : Char} (plain : last ≠ '\n') (text : List Char) :
    lastLine (text ++ [last]) = lastLine text ++ [last] := by
  simp [lastLine, plain]

theorem newline_notMem_content (text : List Char) (offset : Nat) :
    '\n' ∉ (locate text offset).content := by
  intro member
  rcases List.mem_append.mp member with inLast | inFirst
  · simpa using List.mem_takeWhile_imp (List.mem_reverse.mp inLast)
  · simpa using List.mem_takeWhile_imp inFirst

/-- The bytes of these lines, each with a newline after it. -/
def bytesOfLines : List (List Char) → Nat
  | [] => 0
  | line :: below => byteLength line + 1 + bytesOfLines below

@[simp] theorem bytesOfLines_append (above below : List (List Char)) :
    bytesOfLines (above ++ below) = bytesOfLines above + bytesOfLines below := by
  induction above with
  | nil => simp [bytesOfLines]
  | cons line above induction => simp [bytesOfLines, induction, Nat.add_assoc]

/-- Around every place in a text there are the lines above it, the line it is in, and the lines
below. By induction on what comes before, from its end: a character belongs to the line it is
in, and a newline ends that line. -/
theorem exists_lines_append (before after : List Char) :
    ∃ above, lines (before ++ after) =
        above ++ (lastLine before ++ firstLine after) :: (lines after).tail ∧
      above.length = before.count '\n' ∧
      byteLength before = bytesOfLines above + byteLength (lastLine before) := by
  induction before using List.reverseRecOn generalizing after with
  | nil => exact ⟨[], lines_eq_cons after, rfl, rfl⟩
  | append_singleton before last induction =>
      rcases induction (last :: after) with ⟨above, same, count, bytes⟩
      rw [List.append_assoc, List.singleton_append, same]
      by_cases newline : last = '\n'
      · subst newline
        refine ⟨above ++ [lastLine before], ?_, ?_, ?_⟩
        · rw [lastLine_append_newline, lines_newline, List.tail_cons, lines_eq_cons after]
          simp [firstLine]
        · simp [count]
        · rw [lastLine_append_newline, byteLength_append, bytes]
          simp [bytesOfLines]
          rfl
      · refine ⟨above, ?_, ?_, ?_⟩
        · rw [lastLine_append newline, firstLine_cons newline, lines_cons newline,
            lines_eq_cons after]
          simp
        · simp [count, newline]
        · rw [lastLine_append newline, byteLength_append, byteLength_append, bytes]
          omega

/-! ## Lines and columns -/

def offsetAt (text : List Char) (line column : Nat) : Nat :=
  bytesOfLines ((lines text).take (line - 1)) +
    byteLength (((lines text).getD (line - 1) []).take (column - 1))

theorem splitAtByte_byteLength (before after : List Char) :
    splitAtByte (byteLength before) (before ++ after) = (before, after) := by
  induction before with
  | nil =>
      cases after with
      | nil => rfl
      | cons head tail =>
          have positive := head.utf8Size_pos
          rw [byteLength_nil, List.nil_append, splitAtByte, if_neg (by omega)]
  | cons head before induction =>
      rw [byteLength_cons, List.cons_append, splitAtByte, if_pos (Nat.le_add_right _ _),
        Nat.add_sub_cancel_left, induction]

theorem locate_append (before after : List Char) :
    locate (before ++ after) (byteLength before) =
      ⟨before.count '\n' + 1, (lastLine before).length + 1, lastLine before ++ firstLine after⟩ := by
  rw [locate, splitAtByte_byteLength]

/-! ## Slices -/

theorem toByteArray_extract_append (before middle after : String) :
    (before ++ middle ++ after).toByteArray.extract before.utf8ByteSize
      (before ++ middle).utf8ByteSize = middle.toByteArray := by
  have front : (before.toByteArray ++ middle.toByteArray ++ after.toByteArray).extract
      before.utf8ByteSize (before ++ middle).utf8ByteSize =
      (before.toByteArray ++ middle.toByteArray).extract before.utf8ByteSize
        (before ++ middle).utf8ByteSize := by
    rw [ByteArray.extract_append]
    simp
  rw [String.toByteArray_append, String.toByteArray_append, front,
    ByteArray.extract_append_eq_right]
  · rfl
  · exact String.utf8ByteSize_append

theorem isValid_of_append {text : String} {before after : List Char}
    (same : text.toList = before ++ after) :
    String.Pos.Raw.IsValid text ⟨byteLength before⟩ := by
  refine String.Pos.Raw.isValid_iff_exists_append.mpr
    ⟨String.ofList before, String.ofList after, ?_, ?_⟩
  · rw [← String.ofList_append, ← same, String.ofList_toList]
  · rw [← utf8ByteSize_ofList]
    rfl

/-- The place belongs to the byte at `offset`: the line is the one that the byte is in, and the
column begins there. All columns of the line are at boundaries of characters, so that the line
and its parts can be cut out of the text. -/
structure Place.IsAt (place : Place) (text : String) (offset : Nat) : Prop where
  above : ∃ before after : String, text = before ++ after ∧ before.utf8ByteSize = offset ∧
    place.line = before.toList.count '\n' + 1
  content : (lines text.toList)[place.line - 1]? = some place.content
  positive : 0 < place.column
  within : place.column ≤ place.content.length + 1
  begins : offsetAt text.toList place.line place.column = offset
  boundaries : ∀ column, String.Pos.Raw.IsValid text ⟨offsetAt text.toList place.line column⟩
  start_le : offsetAt text.toList place.line 1 ≤ offset
  le_stop : offset ≤ offsetAt text.toList place.line (place.content.length + 1)
  slice : (String.ofList place.content).toByteArray = text.toByteArray.extract
    (offsetAt text.toList place.line 1)
    (offsetAt text.toList place.line (place.content.length + 1))

theorem exists_append_lastLine (text : List Char) : ∃ front, text = front ++ lastLine text := by
  refine ⟨(text.reverse.dropWhile (· != '\n')).reverse, ?_⟩
  rw [lastLine, ← List.reverse_append, List.takeWhile_append_dropWhile, List.reverse_reverse]

theorem exists_firstLine_append (text : List Char) : ∃ back, text = firstLine text ++ back :=
  ⟨_, List.takeWhile_append_dropWhile.symm⟩

theorem offsetAt_eq {text content : List Char} {above below : List (List Char)}
    (same : lines text = above ++ content :: below) (column : Nat) :
    offsetAt text (above.length + 1) column =
      bytesOfLines above + byteLength (content.take (column - 1)) := by
  simp [offsetAt, same]

theorem isAt_of_parts {text : String} {above below : List (List Char)}
    {front left right back : List Char} (whole : text.toList = front ++ (left ++ right) ++ back)
    (parts : lines text.toList = above ++ (left ++ right) :: below)
    (count : above.length = (front ++ left).count '\n')
    (bytes : byteLength front = bytesOfLines above) :
    Place.IsAt ⟨above.length + 1, left.length + 1, left ++ right⟩ text
      (byteLength (front ++ left)) := by
  have columns (column : Nat) : offsetAt text.toList (above.length + 1) column =
      byteLength (front ++ (left ++ right).take (column - 1)) := by
    rw [offsetAt_eq parts, byteLength_append, bytes]
  have first : offsetAt text.toList (above.length + 1) 1 = byteLength front := by
    simp [columns]
  have last : offsetAt text.toList (above.length + 1) ((left ++ right).length + 1) =
      byteLength (front ++ (left ++ right)) := by
    rw [columns, Nat.add_sub_cancel, List.take_length]
  have split : text = String.ofList front ++ String.ofList (left ++ right) ++
      String.ofList back := by
    rw [← String.ofList_append, ← String.ofList_append, ← whole, String.ofList_toList]
  constructor
  · refine ⟨String.ofList (front ++ left), String.ofList (right ++ back), ?_,
      utf8ByteSize_ofList _, by simp [count]⟩
    rw [split]
    simp [String.ofList_append, String.append_assoc]
  · simp [parts]
  · simp
  · simp
  · simp [columns]
  · intro column
    have cut : text.toList = (front ++ (left ++ right).take (column - 1)) ++
        ((left ++ right).drop (column - 1) ++ back) := by
      rw [List.append_assoc, ← List.append_assoc (List.take _ _), List.take_append_drop,
        ← List.append_assoc, whole]
    rw [columns]
    exact isValid_of_append cut
  · simp [first]
  · dsimp only
    rw [last]
    simp [← Nat.add_assoc]
  · have sliced := toByteArray_extract_append (String.ofList front) (String.ofList (left ++ right))
      (String.ofList back)
    rw [← split, ← String.ofList_append, utf8ByteSize_ofList, utf8ByteSize_ofList] at sliced
    dsimp only
    rw [first, last, sliced]

/-- Where a byte is located is the place of that byte. -/
theorem locate_isAt {text : String} {before after : List Char}
    (same : text.toList = before ++ after) :
    (locate text.toList (byteLength before)).IsAt text (byteLength before) := by
  rcases exists_lines_append before after with ⟨above, parts, count, bytes⟩
  rcases exists_append_lastLine before with ⟨front, before_eq⟩
  rcases exists_firstLine_append after with ⟨back, after_eq⟩
  have located : locate text.toList (byteLength before) =
      ⟨above.length + 1, (lastLine before).length + 1, lastLine before ++ firstLine after⟩ := by
    rw [same, locate_append, count]
  have whole : text.toList = front ++ (lastLine before ++ firstLine after) ++ back := by
    rw [List.append_assoc, List.append_assoc, ← after_eq, ← List.append_assoc, ← before_eq, same]
  have frontBytes : byteLength front = bytesOfLines above := by
    have split := congrArg byteLength before_eq
    rw [byteLength_append] at split
    omega
  rw [← same] at parts
  rw [before_eq] at count
  have placed := isAt_of_parts whole parts count frontBytes
  rw [← before_eq] at placed
  rw [located]
  exact placed

end Plc.Text
