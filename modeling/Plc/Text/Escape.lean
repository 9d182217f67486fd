/-! Escaped spellings of characters, for messages and for the display of
literals. -/

namespace Plc.Text

/-- A character by its code point, in lower-case hexadecimal. -/
def codePoint (character : Char) : String :=
  "\\u\x7b" ++ String.ofList (Nat.toDigits 16 character.toNat) ++ "\x7d"

/-- The characters that have a two-character spelling. -/
def shortEscape? : Char → Option String
  | '\t' => some "\\t"
  | '\r' => some "\\r"
  | '\n' => some "\\n"
  | '\'' => some "\\'"
  | '"' => some "\\\""
  | '\\' => some "\\\\"
  | _ => none

def asciiEscape (character : Char) : String :=
  match shortEscape? character with
  | some spelling => spelling
  | none =>
      if 0x20 ≤ character.toNat ∧ character.toNat ≤ 0x7e then
        character.toString
      else
        codePoint character

/-- What the character database says of characters, as far as spellings depend on it. It is not
the same in all of its versions. -/
structure CharacterData where
  /-- The character is drawn, in some script. -/
  isPrintable : Char → Bool
  /-- The character is drawn together with the one before it. -/
  isExtender : Char → Bool

def within (ranges : List (Nat × Nat)) (character : Char) : Bool :=
  ranges.any fun (first, last) => first ≤ character.toNat && character.toNat ≤ last

/-- Control and format characters, separators other than the space, private use, and of what is
not assigned the noncharacters and all that lies outside of the scripts. -/
def unprintableRanges : List (Nat × Nat) :=
  [(0x00, 0x1f), (0x7f, 0xa0), (0xad, 0xad), (0x600, 0x605), (0x61c, 0x61c),
    (0x6dd, 0x6dd), (0x70f, 0x70f), (0x890, 0x891), (0x8e2, 0x8e2), (0x1680, 0x1680),
    (0x180e, 0x180e), (0x2000, 0x200f), (0x2028, 0x202f), (0x205f, 0x206f), (0x3000, 0x3000),
    (0xe000, 0xf8ff), (0xfdd0, 0xfdef), (0xfeff, 0xfeff), (0xfff0, 0xfffb), (0xfffe, 0xffff),
    (0x110bd, 0x110bd), (0x110cd, 0x110cd), (0x1bca0, 0x1bca3), (0x1d173, 0x1d17a),
    (0x1fffe, 0x1ffff), (0x2fa1e, 0x2ffff), (0x323b0, 0xe00ff), (0xe01f0, 0x10ffff)]

/-- The blocks of combining marks and variation selectors. -/
def extenderRanges : List (Nat × Nat) :=
  [(0x300, 0x36f), (0x483, 0x489), (0x591, 0x5bd), (0x610, 0x61a), (0x64b, 0x65f),
    (0x1ab0, 0x1ace), (0x1dc0, 0x1dff), (0x20d0, 0x20f0), (0x302a, 0x302f), (0x3099, 0x309a),
    (0xfe00, 0xfe0f), (0xfe20, 0xfe2f), (0xff9e, 0xff9f), (0xe0100, 0xe01ef)]

/-- The characters that are common in text. -/
def CharacterData.usual : CharacterData :=
  ⟨fun character => !within unprintableRanges character, within extenderRanges⟩

/-- A spelling that keeps printable characters, in any script, as they are, and those that are
drawn together with the character before them only if they follow one. -/
def printableEscape (data : CharacterData) (follows : Bool) (character : Char) : String :=
  if character = '\x00' then
    "\\0"
  else
    match shortEscape? character with
    | some spelling => spelling
    | none =>
        if data.isPrintable character && (follows || !data.isExtender character) then
          character.toString
        else
          codePoint character

def printableText (data : CharacterData) (text : String) : String :=
  match text.toList with
  | [] => ""
  | head :: tail =>
      printableEscape data false head ++ String.join (tail.map (printableEscape data true))

end Plc.Text
