import Plc.Proofs.Text.Lines
import Plc.Proofs.Token.Longest

/-! The tokens of a text stand in it one after the other, with only blanks between them. -/

namespace Plc.Token

open Text

/-! ## Places in a text -/

def Covers (token : Token) (offset : Nat) : Prop :=
  token.offset ≤ offset ∧ offset < token.stop

/-- The bytes from `start` on, with the literals of the tokens in place of what is there. -/
def interleave (bytes : ByteArray) (start : Nat) : List Token → ByteArray
  | [] => bytes.extract start bytes.size
  | token :: rest =>
      bytes.extract start token.offset ++ token.literal.toByteArray ++
        interleave bytes token.stop rest

/-- Tokens and blanks make up the text. -/
structure Tile (tokens : List Token) (text : String) : Prop where
  nonempty : ∀ token ∈ tokens, token.literal ≠ ""
  literal : ∀ token ∈ tokens,
    token.literal.toByteArray = text.toByteArray.extract token.offset token.stop
  boundaries : ∀ token ∈ tokens,
    String.Pos.Raw.IsValid text ⟨token.offset⟩ ∧ String.Pos.Raw.IsValid text ⟨token.stop⟩
  ordered : tokens.IsChain fun token next => token.stop ≤ next.offset
  within : ∀ token ∈ tokens.getLast?, token.stop ≤ text.utf8ByteSize
  blanks : ∀ (before : String) (character : Char) (after : String),
    text = before ++ String.singleton character ++ after →
    (∀ token ∈ tokens, ¬token.Covers before.utf8ByteSize) → isBlank character = true
  whole : interleave text.toByteArray 0 tokens = text.toByteArray

/-! ## Single tokens -/

section

variable {token : Token} {text before after : String}

theorem stop_eq (starts : before.utf8ByteSize = token.offset) :
    token.stop = (before ++ token.literal).utf8ByteSize := by
  rw [stop, String.utf8ByteSize_append, starts]

theorem literal_eq_extract (starts : before.utf8ByteSize = token.offset) :
    token.literal.toByteArray =
      (before ++ token.literal ++ after).toByteArray.extract token.offset token.stop := by
  rw [stop_eq starts, ← starts, toByteArray_extract_append]

theorem boundaries_of_append (starts : before.utf8ByteSize = token.offset) :
    String.Pos.Raw.IsValid (before ++ token.literal ++ after) ⟨token.offset⟩ ∧
      String.Pos.Raw.IsValid (before ++ token.literal ++ after) ⟨token.stop⟩ := by
  constructor
  · apply String.Pos.Raw.isValid_iff_exists_append.mpr
    refine ⟨before, token.literal ++ after, String.append_assoc, ?_⟩
    rw [← starts]
    rfl
  · apply String.Pos.Raw.isValid_iff_exists_append.mpr
    refine ⟨before ++ token.literal, after, rfl, ?_⟩
    rw [stop_eq starts]
    rfl

end

/-! ## Order -/

theorem Cuts.offset_le {offset : Nat} {text : List Char} {tokens : List Token}
    (cuts : Cuts offset text tokens) : ∀ token ∈ tokens, offset ≤ token.offset := by
  induction cuts with
  | done => exact fun _ member => by cases member
  | blank blank others induction =>
      exact fun token member => Nat.le_trans (Nat.le_add_right _ _) (induction token member)
  | token member longest others induction =>
      intro token among
      rcases List.mem_cons.mp among with rfl | among
      · exact Nat.le_refl _
      · exact Nat.le_trans (Nat.le_add_right _ _) (induction token among)

theorem stop_mk (kind : Kind) (word : List Char) (offset : Nat) :
    stop ⟨kind, String.ofList word, offset⟩ = offset + byteLength word := by
  rw [stop, utf8ByteSize_ofList]

theorem Cuts.pairwise {offset : Nat} {text : List Char} {tokens : List Token}
    (cuts : Cuts offset text tokens) :
    tokens.Pairwise fun token next => token.stop ≤ next.offset := by
  induction cuts with
  | done => exact .nil
  | blank blank others induction => exact induction
  | @token offset kind word rest tokens member longest others induction =>
      refine .cons (fun next among => ?_) induction
      rw [stop_mk]
      exact others.offset_le next among

/-! ## Blanks -/

theorem Cuts.isBlank_of_uncovered {offset : Nat} {text : List Char} {tokens : List Token}
    (cuts : Cuts offset text tokens) {before after : List Char} {character : Char}
    (same : text = before ++ character :: after)
    (uncovered : ∀ token ∈ tokens, ¬token.Covers (offset + byteLength before)) :
    isBlank character = true := by
  induction cuts generalizing before with
  | done => simp at same
  | @blank offset first rest tokens blank others induction =>
      cases before with
      | nil =>
          cases same
          exact blank
      | cons head before =>
          cases same
          refine induction rfl fun token among => ?_
          have outside := uncovered token among
          rw [byteLength_cons, ← Nat.add_assoc] at outside
          exact outside
  | @token offset kind word rest tokens member longest others induction =>
      -- the character comes after the token, or the token covers it
      have behind : ∀ middle, before = word ++ middle → rest = middle ++ character :: after →
          isBlank character = true := by
        rintro middle rfl rest_eq
        refine induction rest_eq fun token among => ?_
        have outside := uncovered token (.tail _ among)
        rw [byteLength_append, ← Nat.add_assoc] at outside
        exact outside
      rcases List.append_eq_append_iff.mp same with ⟨middle, before_eq, rest_eq⟩ |
        ⟨middle, word_eq, rest_eq⟩
      · exact behind middle before_eq rest_eq
      · cases middle with
        | nil => exact behind [] (by simpa using word_eq.symm) rest_eq.symm
        | cons head middle =>
            have positive := head.utf8Size_pos
            refine absurd ⟨Nat.le_add_right _ _, ?_⟩ (uncovered _ List.mem_cons_self)
            rw [stop_mk, word_eq, byteLength_append, byteLength_cons]
            omega

/-! ## All tokens -/

theorem interleave_eq {bytes : ByteArray} {tokens : List Token} {start : Nat}
    (literals : ∀ token ∈ tokens,
      token.literal.toByteArray = bytes.extract token.offset token.stop)
    (ordered : tokens.Pairwise fun token next => token.stop ≤ next.offset)
    (after : ∀ token ∈ tokens, start ≤ token.offset)
    (within : ∀ token ∈ tokens, token.stop ≤ bytes.size) (inside : start ≤ bytes.size) :
    interleave bytes start tokens = bytes.extract start bytes.size := by
  induction tokens generalizing start with
  | nil => rfl
  | cons token rest induction =>
      have stops : token.stop ≤ bytes.size := within token List.mem_cons_self
      have starts : start ≤ token.offset := after token List.mem_cons_self
      have length : token.offset ≤ token.stop := Nat.le_add_right _ _
      rw [List.pairwise_cons] at ordered
      have others := induction (fun next among => literals next (.tail _ among)) ordered.2
        ordered.1 (fun next among => within next (.tail _ among)) stops
      rw [interleave, literals token List.mem_cons_self, others, ByteArray.extract_append_extract,
        Nat.min_eq_left starts, Nat.max_eq_right length, ByteArray.extract_append_extract,
        Nat.min_eq_left (Nat.le_trans starts length), Nat.max_eq_right stops]

theorem exists_append_of_scan {text : String} {tokens : List Token}
    (scanned : scan text = .ok tokens) {token : Token} (among : token ∈ tokens) :
    ∃ before after : String, text = before ++ token.literal ++ after ∧
      before.utf8ByteSize = token.offset ∧ token.literal ≠ "" := by
  rcases (cuts_of_scan scanned).standsAt byteLength_nil token among with
    ⟨before, after, same, standing⟩
  refine ⟨String.ofList before, String.ofList after, ?_, ?_, fun empty => ?_⟩
  · apply String.toList_inj.mp
    simpa using same
  · rw [utf8ByteSize_ofList, standing.offset]
  · have member := standing.member
    rw [empty] at member
    exact Kind.nil_notMem_language member

/-- The tokens of a text and blanks make up the text. -/
theorem scan_tiles {text : String} {tokens : List Token} (scanned : scan text = .ok tokens) :
    Tile tokens text := by
  have cuts := cuts_of_scan scanned
  have literals : ∀ token ∈ tokens, token.literal.toByteArray =
      text.toByteArray.extract token.offset token.stop := by
    intro token among
    rcases exists_append_of_scan scanned among with ⟨before, after, rfl, starts, -⟩
    exact literal_eq_extract starts
  have boundaries : ∀ token ∈ tokens,
      String.Pos.Raw.IsValid text ⟨token.offset⟩ ∧ String.Pos.Raw.IsValid text ⟨token.stop⟩ := by
    intro token among
    rcases exists_append_of_scan scanned among with ⟨before, after, rfl, starts, -⟩
    exact boundaries_of_append starts
  have within : ∀ token ∈ tokens, token.stop ≤ text.utf8ByteSize :=
    fun token among => (boundaries token among).2.le_utf8ByteSize
  refine ⟨?_, literals, boundaries, cuts.pairwise.isChain, ?_, ?_, ?_⟩
  · intro token among
    rcases exists_append_of_scan scanned among with ⟨_, _, _, _, nonempty⟩
    exact nonempty
  · exact fun token last => within token (List.mem_of_getLast? last)
  · intro before character after same uncovered
    have split : text.toList = before.toList ++ character :: after.toList := by
      rw [same]
      simp
    apply cuts.isBlank_of_uncovered split
    simpa [← utf8ByteSize_ofList] using uncovered
  · rw [interleave_eq literals cuts.pairwise (fun _ _ => Nat.zero_le _) within (Nat.zero_le _)]
    exact ByteArray.extract_zero_size

/-- Letters of two bytes, as names and between quotes. -/
theorem scan_tiles_of_accents :
    scan "é =\t'é' " = .ok [⟨.operator, "é", 0⟩, ⟨.operator, "=", 3⟩, ⟨.character, "'é'", 5⟩] ∧
      Tile [⟨.operator, "é", 0⟩, ⟨.operator, "=", 3⟩, ⟨.character, "'é'", 5⟩] "é =\t'é' " := by
  have scanned : scan "é =\t'é' " =
      .ok [⟨.operator, "é", 0⟩, ⟨.operator, "=", 3⟩, ⟨.character, "'é'", 5⟩] := rfl
  exact ⟨scanned, scan_tiles scanned⟩

end Plc.Token
