import Plc.Proofs.Token.Language
import Plc.Proofs.Token.Spelled
import Plc.Text.Position

/-! Every token is the longest text that is a token and stands where it stands. -/

namespace Plc.Token

open Text

/-! ## Reading a token from its first character -/

/-- The mode after all characters of a token in progress. -/
def readMode? : List Char → Option Mode
  | [] => none
  | first :: rest => if isBlank first then none else (Mode.start first).through? rest

theorem Kind.mem_language_iff {kind : Kind} {word : List Char} :
    word ∈ kind.language ↔ ∃ mode, readMode? word = some mode ∧ mode.finish = .ok kind := by
  cases word with
  | nil => simp [nil_notMem_language, readMode?]
  | cons first rest =>
      rw [cons_mem_language, Mode.mem_remainder_iff, readMode?]
      cases isBlank first <;> simp

theorem Mode.through?_append (mode : Mode) (text more : List Char) :
    mode.through? (text ++ more) = (mode.through? text).bind (·.through? more) := by
  induction text generalizing mode with
  | nil => rfl
  | cons character rest induction =>
      rw [List.cons_append, through?, through?, Option.bind_assoc]
      exact congrArg _ (funext fun after => induction after)

theorem readMode?_append {word : List Char} {mode : Mode} (read : readMode? word = some mode)
    (more : List Char) : readMode? (word ++ more) = mode.through? more := by
  cases word with
  | nil => cases read
  | cons first rest =>
      rw [readMode?] at read
      rw [List.cons_append, readMode?]
      split at read
      · cases read
      · rename_i notBlank
        rw [if_neg notBlank, Mode.through?_append, read]
        rfl

theorem Mode.extension?_of_extend {mode after : Mode} {character : Char}
    (extended : mode.next character = .ok (.extend after)) :
    mode.extension? character = some after := by
  rw [extension?, extended]

theorem Mode.extension?_eq_none {mode : Mode} {character : Char} {kind : Kind}
    (closes : mode.next character = .ok (.close kind)) : mode.extension? character = none := by
  rw [extension?, closes]

/-! ## Longest matches -/

/-- The text begins with the word, and with no longer text that is a token. -/
structure IsLongestMatch (word text : List Char) : Prop where
  front : word <+: text
  longest : ∀ (kind : Kind) other, other ∈ kind.language → other <+: text →
    other.length ≤ word.length

/-- A longer token goes on with what comes after the word, so that its next character belongs
to the token in progress. -/
theorem IsLongestMatch.of_extension? {word rest : List Char} {mode : Mode}
    (read : readMode? word = some mode)
    (ends : ∀ character ∈ rest.head?, mode.extension? character = none) :
    IsLongestMatch word (word ++ rest) := by
  refine ⟨List.prefix_append word rest, fun kind other member front => ?_⟩
  rcases List.prefix_or_prefix_of_prefix front (List.prefix_append word rest) with
    shorter | ⟨more, rfl⟩
  · exact shorter.length_le
  · rcases Kind.mem_language_iff.mp member with ⟨last, reached, -⟩
    rw [readMode?_append read] at reached
    cases more with
    | nil => simp
    | cons character more =>
        have next : character ∈ rest.head? := by
          rcases (List.prefix_append_right_inj word).mp front with ⟨others, rfl⟩
          rfl
        rw [Mode.through?, ends character next] at reached
        cases reached

/-! ## Cutting a text -/

/-- The text, which starts at the offset, falls into blanks and the tokens, and each of these
is a longest match. -/
inductive Cuts : Nat → List Char → List Token → Prop where
  | done {offset : Nat} : Cuts offset [] []
  | blank {offset : Nat} {character : Char} {rest : List Char} {tokens : List Token}
      (blank : isBlank character = true)
      (others : Cuts (offset + character.utf8Size) rest tokens) :
      Cuts offset (character :: rest) tokens
  | token {offset : Nat} {kind : Kind} {word rest : List Char} {tokens : List Token}
      (member : word ∈ kind.language) (longest : IsLongestMatch word (word ++ rest))
      (others : Cuts (offset + byteLength word) rest tokens) :
      Cuts offset (word ++ rest) (⟨kind, String.ofList word, offset⟩ :: tokens)

/-- The token in progress is read up to the offset. -/
structure Pending.UpTo (pending : Pending) (offset : Nat) : Prop where
  read : readMode? pending.characters.reverse = some pending.mode
  offset : pending.offset + byteLength pending.characters.reverse = offset

theorem Pending.UpTo.extend {pending : Pending} {offset : Nat} {mode : Mode} {character : Char}
    (upTo : pending.UpTo offset) (extended : pending.mode.next character = .ok (.extend mode)) :
    (pending.extend mode character).UpTo (offset + character.utf8Size) := by
  constructor
  · rw [Pending.extend, List.reverse_cons, readMode?_append upTo.read, Mode.through?,
      Mode.extension?_of_extend extended]
    rfl
  · rw [Pending.extend, List.reverse_cons, byteLength_append, ← upTo.offset]
    exact (Nat.add_assoc _ _ _).symm

theorem Pending.UpTo.cuts {pending : Pending} {offset : Nat} {kind : Kind} {rest : List Char}
    {tokens : List Token} (upTo : pending.UpTo offset) (finishes : pending.mode.finish = .ok kind)
    (ends : ∀ character ∈ rest.head?, pending.mode.extension? character = none)
    (others : Cuts offset rest tokens) :
    Cuts pending.offset (pending.characters.reverse ++ rest) (pending.close kind :: tokens) := by
  rw [← upTo.offset] at others
  exact .token (Kind.mem_language_iff.mpr ⟨pending.mode, upTo.read, finishes⟩)
    (.of_extension? upTo.read ends) others

/-- The text is cut into the tokens, from the token in progress on if there is one. -/
def CutsFrom (offset : Nat) (text : List Char) (tokens : List Token) : Option Pending → Prop
  | none => Cuts offset text tokens
  | some pending => pending.UpTo offset →
      Cuts pending.offset (pending.characters.reverse ++ text) tokens

theorem CutsFrom.cons {offset : Nat} {character : Char} {rest : List Char} {tokens : List Token}
    (cuts : CutsFrom (offset + character.utf8Size) rest tokens
      (Pending.start? offset character)) :
    Cuts offset (character :: rest) tokens := by
  unfold Pending.start? at cuts
  split at cuts
  · rename_i blank
    exact .blank blank cuts
  · rename_i notBlank
    exact cuts ⟨if_neg notBlank, by simp⟩

theorem cutsFrom_of_scanFrom {offset : Nat} {pending : Option Pending} {text : List Char}
    {tokens : List Token} (scanned : scanFrom offset pending text = .ok tokens) :
    CutsFrom offset text tokens pending := by
  induction text generalizing offset pending tokens with
  | nil =>
      cases pending with
      | none =>
          cases scanned
          exact .done
      | some pending =>
          intro upTo
          rw [scanFrom] at scanned
          split at scanned
          · cases scanned
          · rename_i kind finishes
            cases scanned
            exact upTo.cuts finishes (fun _ impossible => by cases impossible) .done
  | cons character rest induction =>
      cases pending with
      | none =>
          rw [scanFrom] at scanned
          exact (induction scanned).cons
      | some pending =>
          intro upTo
          rw [scanFrom] at scanned
          split at scanned
          · cases scanned
          · rename_i mode extended
            have cuts := induction scanned (upTo.extend extended)
            rw [Pending.extend, List.reverse_cons, List.append_assoc] at cuts
            exact cuts
          · rename_i kind closes
            cases others : scanFrom (offset + character.utf8Size)
              (Pending.start? offset character) rest with
            | error error =>
                rw [others] at scanned
                cases scanned
            | ok scannedRest =>
                rw [others] at scanned
                cases scanned
                refine upTo.cuts (Mode.finish_of_close closes) (fun next member => ?_)
                  (induction others).cons
                cases member
                exact Mode.extension?_eq_none closes

theorem cuts_of_scan {text : String} {tokens : List Token} (scanned : scan text = .ok tokens) :
    Cuts 0 text.toList tokens := by
  have cuts := cutsFrom_of_scanFrom scanned
  exact cuts

/-- Where a token stands: its text is there, and is the longest match. -/
structure StandsAt (token : Token) (before after : List Char) : Prop where
  offset : byteLength before = token.offset
  member : token.literal.toList ∈ token.kind.language
  longest : IsLongestMatch token.literal.toList (token.literal.toList ++ after)

theorem Cuts.standsAt {start : List Char} {offset : Nat} {text : List Char} {tokens : List Token}
    (cuts : Cuts offset text tokens) (starts : byteLength start = offset) :
    ∀ token ∈ tokens, ∃ before after,
      start ++ text = before ++ token.literal.toList ++ after ∧ token.StandsAt before after := by
  induction cuts generalizing start with
  | done => exact fun _ member => by cases member
  | @blank offset character rest tokens blank others induction =>
      have moved : byteLength (start ++ [character]) = offset + character.utf8Size := by
        simp [starts]
      simpa using induction moved
  | @token offset kind word rest tokens member longest others induction =>
      intro token among
      rcases List.mem_cons.mp among with rfl | among
      · refine ⟨start, rest, ?_, starts, ?_, ?_⟩
        · simp
        · simpa using member
        · simpa using longest
      · have moved : byteLength (start ++ word) = offset + byteLength word := by
          simp [starts]
        simpa using induction moved token among

/-! ## Scanning a single token -/

theorem scanFrom_of_through? {mode last : Mode} {word : List Char}
    (reached : mode.through? word = some last) (offset start : Nat) (read rest : List Char) :
    scanFrom offset (some ⟨mode, start, read⟩) (word ++ rest) =
      scanFrom (offset + byteLength word) (some ⟨last, start, word.reverse ++ read⟩) rest := by
  induction word generalizing mode offset read with
  | nil =>
      cases reached
      rfl
  | cons character word induction =>
      rw [Mode.through?] at reached
      cases extended : mode.extension? character with
      | none =>
          rw [extended] at reached
          cases reached
      | some after =>
          rw [extended] at reached
          have next : mode.next character = .ok (.extend after) := by
            unfold Mode.extension? at extended
            split at extended
            · rename_i next
              cases extended
              exact next
            · cases extended
          rw [List.cons_append, scanFrom]
          simp only [next, Pending.extend]
          rw [induction reached, byteLength_cons, List.reverse_cons, List.append_assoc,
            Nat.add_assoc]
          rfl

theorem scan_of_mem_language {text : String} {kind : Kind} (member : text.toList ∈ kind.language) :
    scan text = .ok [⟨kind, text, 0⟩] := by
  rcases Kind.mem_language_iff.mp member with ⟨mode, read, finishes⟩
  rw [scan]
  cases word : text.toList with
  | nil =>
      rw [word] at read
      cases read
  | cons first rest =>
      rw [word, readMode?] at read
      split at read
      · cases read
      · rename_i notBlank
        have begun := scanFrom_of_through? read (0 + first.utf8Size) 0 [first] []
        rw [List.append_nil] at begun
        rw [scanFrom]
        simp only [Pending.start?, if_neg notBlank]
        rw [begun, scanFrom]
        simp only [finishes, Pending.close]
        have whole : String.ofList (rest.reverse ++ [first]).reverse = text := by
          rw [List.reverse_append, List.reverse_reverse, List.reverse_singleton,
            List.singleton_append, ← word, String.ofList_toList]
        rw [whole]

/-- A text is scanned as one token of a kind exactly when it is in the language of the kind.
Every token of a text is in the language of its kind, and no longer text in any language
begins where it does. -/
theorem scan_longest_match :
    (∀ (text : String) (kind : Kind),
      scan text = .ok [⟨kind, text, 0⟩] ↔ text.toList ∈ kind.language) ∧
    ∀ (text : String) (tokens : List Token), scan text = .ok tokens →
      ∀ token ∈ tokens, ∃ before after : List Char,
        text.toList = before ++ token.literal.toList ++ after ∧
        byteLength before = token.offset ∧ token.literal.toList ∈ token.kind.language ∧
        ∀ (kind : Kind) other, other ∈ kind.language →
          other <+: token.literal.toList ++ after → other.length ≤ token.literal.toList.length := by
  have stands : ∀ (text : String) (tokens : List Token), scan text = .ok tokens →
      ∀ token ∈ tokens, ∃ before after,
        text.toList = before ++ token.literal.toList ++ after ∧ token.StandsAt before after := by
    intro text tokens scanned
    have cuts := (cuts_of_scan scanned).standsAt byteLength_nil
    rw [List.nil_append] at cuts
    exact cuts
  refine ⟨fun text kind => ⟨fun scanned => ?_, scan_of_mem_language⟩,
    fun text tokens scanned => ?_⟩
  · rcases stands text _ scanned _ List.mem_cons_self with ⟨_, _, -, standing⟩
    exact standing.member
  · intro token among
    rcases stands text tokens scanned token among with ⟨before, after, same, standing⟩
    exact ⟨before, after, same, standing.offset, standing.member, standing.longest.longest⟩

/-- A minus after an operator belongs to the number, and the point to its fraction. -/
theorem scan_longest_match_of_minus :
    scan "<=-1.50" = .ok [⟨.operator, "<=", 0⟩, ⟨.decimal, "-1.50", 2⟩] ∧
      ∃ before after : List Char, "<=-1.50".toList = before ++ "-1.50".toList ++ after ∧
        byteLength before = 2 ∧ "-1.50".toList ∈ Kind.decimal.language ∧
        ∀ (kind : Kind) other, other ∈ kind.language → other <+: "-1.50".toList ++ after →
          other.length ≤ "-1.50".toList.length :=
  ⟨rfl, scan_longest_match.2 "<=-1.50" _ rfl ⟨.decimal, "-1.50", 2⟩ (.tail _ (.head _))⟩

end Plc.Token
