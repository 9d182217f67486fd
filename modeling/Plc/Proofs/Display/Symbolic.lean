import Plc.Operator
import Plc.Proofs.Display.Escapes

/-! Symbolic expressions: words, quoted texts, and lists of such in parentheses that say by a word
in front what they are. No two of them are written alike. -/

namespace Plc

/-! ## Words and quoted texts -/

namespace Text

def delimiters : List Char :=
  [' ', '(', ')', '\'', '"']

structure IsWord (text : List Char) : Prop where
  nonempty : text ≠ []
  undivided : ∀ character ∈ text, character ∉ delimiters

theorem isWord_iff_all {text : List Char} :
    IsWord text ↔ text ≠ [] ∧ text.all (fun character => !delimiters.contains character) = true := by
  constructor
  · exact fun word => ⟨word.nonempty, by simpa using word.undivided⟩
  · exact fun holds => ⟨holds.1, by simpa using holds.2⟩

instance (text : List Char) : Decidable (IsWord text) :=
  decidable_of_iff _ isWord_iff_all.symm

/-- What stands in a symbolic expression as it is. -/
inductive IsAtom : List Char → Prop where
  | word {text : List Char} (word : IsWord text) : IsAtom text
  | quoted {quote : Char} {inner : List Char} (known : quote ∈ ['\'', '"'])
      (inside : Escaped quote inner) : IsAtom (quote :: (inner ++ [quote]))

/-- What comes behind a symbolic expression: nothing, the next one or the end of the list. -/
def Ends (rest : List Char) : Prop :=
  ∀ character ∈ rest.head?, character ∈ [' ', ')']

section

variable {text other rest others : List Char}

theorem IsWord.takeWhile (word : IsWord text) (ends : Ends rest) :
    (text ++ rest).takeWhile (fun character => !delimiters.contains character) = text := by
  rw [List.takeWhile_append_of_pos]
  · cases rest with
    | nil => simp
    | cons head tail =>
        have delimiter : head ∈ delimiters := by
          have last := ends head rfl
          simp only [List.mem_cons, List.not_mem_nil, or_false] at last
          rcases last with rfl | rfl <;> decide
        simp [delimiter]
  · intro character member
    simpa using word.undivided character member

theorem IsWord.append_inj (first : IsWord text) (second : IsWord other) (ends : Ends rest)
    (otherEnds : Ends others) (same : text ++ rest = other ++ others) :
    text = other ∧ rest = others := by
  have taken : text = other := by
    rw [← first.takeWhile ends, same, second.takeWhile otherEnds]
  subst taken
  exact ⟨rfl, List.append_cancel_left same⟩

theorem IsWord.head_notMem (word : IsWord text) {quote : Char}
    (same : text ++ rest = quote :: others) : quote ∉ delimiters := by
  cases text with
  | nil => exact absurd rfl word.nonempty
  | cons head tail =>
      cases same
      exact word.undivided quote List.mem_cons_self

theorem IsAtom.head_ne (atom : IsAtom text) (same : text ++ rest = '(' :: others) : False := by
  cases atom with
  | word word => exact absurd (word.head_notMem same) (by decide)
  | quoted known inside =>
      rw [(List.cons.inj same).1] at known
      exact absurd known (by decide)

theorem IsAtom.append_inj (first : IsAtom text) (second : IsAtom other) (ends : Ends rest)
    (otherEnds : Ends others) (same : text ++ rest = other ++ others) :
    text = other ∧ rest = others := by
  have delimits : ∀ quote ∈ ['\'', '"'], quote ∈ delimiters := by simp [delimiters]
  cases first with
  | word word =>
      cases second with
      | word otherWord => exact word.append_inj otherWord ends otherEnds same
      | quoted known => exact absurd (delimits _ known) (word.head_notMem same)
  | quoted known inside =>
      cases second with
      | word word => exact absurd (delimits _ known) (word.head_notMem same.symm)
      | quoted _ otherInside =>
          rw [List.cons_append, List.cons_append, List.append_assoc, List.append_assoc] at same
          rcases List.cons.inj same with ⟨rfl, tails⟩
          have distinct := ne_of_mem_of_not_mem known (by decide : '\\' ∉ ['\'', '"'])
          rcases inside.append_inj otherInside distinct tails with ⟨rfl, behind⟩
          exact ⟨rfl, behind⟩

end

end Text

open Text

/-! ## Symbolic expressions -/

inductive Form where
  | group
  | operation (operator : Operator)
  | index
  | call
  | list

namespace Form

def word : Form → String
  | .group => "group"
  | .operation operator => operator.symbol
  | .index => "index"
  | .call => "call"
  | .list => "list"

def ofWord? : String → Option Form
  | "group" => some .group
  | "index" => some .index
  | "call" => some .call
  | "list" => some .list
  | other => (Operator.ofSymbol? other).map .operation

theorem ofWord?_word (form : Form) : ofWord? form.word = some form := by
  cases form with
  | operation operator => cases operator <;> rfl
  | _ => rfl

theorem word_injective : Function.Injective word := by
  intro first second same
  apply Option.some.inj
  rw [← ofWord?_word, same, ofWord?_word]

theorem isWord_word (form : Form) : IsWord form.word.toList := by
  cases form with
  | operation operator => cases operator <;> decide
  | _ => decide

end Form

inductive Symbolic where
  | atom (text : List Char)
  | list (form : Form) (parts : List Symbolic)

namespace Symbolic

mutual

def write : Symbolic → List Char
  | .atom text => text
  | .list form parts => '(' :: (form.word.toList ++ (writeAll parts ++ [')']))

def writeAll : List Symbolic → List Char
  | [] => []
  | head :: tail => ' ' :: (head.write ++ writeAll tail)

end

/-- All atoms in the expression are atoms. -/
inductive Proper : Symbolic → Prop where
  | atom {text : List Char} (known : IsAtom text) : Proper (.atom text)
  | list (form : Form) {parts : List Symbolic} (proper : ∀ part ∈ parts, Proper part) :
      Proper (.list form parts)

theorem ends_writeAll (parts : List Symbolic) (rest : List Char) :
    Ends (writeAll parts ++ ')' :: rest) := by
  intro character first
  cases parts <;> cases first <;> decide

mutual

/-- The text of an expression tells where it ends and which one it is. -/
theorem write_append_inj : ∀ {first second : Symbolic} {rest others : List Char},
    first.Proper → second.Proper → Ends rest → Ends others →
      first.write ++ rest = second.write ++ others → first = second ∧ rest = others
  | .atom _, .atom _, _, _, .atom known, .atom otherKnown, ends, otherEnds, same => by
      rcases known.append_inj otherKnown ends otherEnds same with ⟨rfl, behind⟩
      exact ⟨rfl, behind⟩
  | .atom _, .list .., _, _, .atom known, _, _, _, same => (known.head_ne same).elim
  | .list .., .atom _, _, _, _, .atom known, _, _, same => (known.head_ne same.symm).elim
  | .list form parts, .list other others, rest, after, .list _ proper, .list _ otherProper,
      _, _, same => by
      simp only [write, List.cons_append, List.append_assoc, List.nil_append, List.cons.injEq,
        true_and] at same
      -- the word ends before the first part or at the closing parenthesis
      rcases form.isWord_word.append_inj other.isWord_word (ends_writeAll parts rest)
        (ends_writeAll others after) same with ⟨words, tails⟩
      cases Form.word_injective (String.toList_inj.mp words)
      rcases writeAll_append_inj proper otherProper tails with ⟨rfl, behind⟩
      exact ⟨rfl, behind⟩

theorem writeAll_append_inj : ∀ {first second : List Symbolic} {rest others : List Char},
    (∀ part ∈ first, part.Proper) → (∀ part ∈ second, part.Proper) →
      writeAll first ++ ')' :: rest = writeAll second ++ ')' :: others →
        first = second ∧ rest = others
  | [], [], _, _, _, _, same => ⟨rfl, (List.cons.inj same).2⟩
  | [], _ :: _, _, _, _, _, same => absurd (List.cons.inj same).1 (by decide)
  | _ :: _, [], _, _, _, _, same => absurd (List.cons.inj same).1 (by decide)
  | head :: tail, other :: others, rest, after, proper, otherProper, same => by
      simp only [writeAll, List.cons_append, List.append_assoc, List.cons.injEq, true_and] at same
      rcases write_append_inj (proper head List.mem_cons_self)
        (otherProper other List.mem_cons_self) (ends_writeAll tail rest)
        (ends_writeAll others after) same with ⟨rfl, tails⟩
      rcases writeAll_append_inj (fun part member => proper part (.tail _ member))
        (fun part member => otherProper part (.tail _ member)) tails with ⟨rfl, behind⟩
      exact ⟨rfl, behind⟩

end

theorem write_inj {first second : Symbolic} (proper : first.Proper) (other : second.Proper)
    (same : first.write = second.write) : first = second := by
  have ends : Ends [] := nofun
  exact (write_append_inj proper other ends ends (congrArg (· ++ []) same)).1

end Symbolic

end Plc
