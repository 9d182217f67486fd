import Plc.Proofs.Grammar.Phrase
import Plc.Proofs.Token.Spelled

/-! Parsers that read the phrases of a form. Such a parser finds a phrase at the front of
its input if there is one; the phrase it finds is then the only one, among all that end
where no token continues them. -/

namespace Plc

open Grammar

/-! ## Reading -/

structure Cursor.Within (cursor : Cursor) (limit : Nat) : Prop where
  length : cursor.rest.length ≤ limit
  spelled : ∀ token ∈ cursor.rest, token.Spelled

theorem Cursor.Within.mono {cursor : Cursor} {limit larger : Nat} (within : cursor.Within limit)
    (le : limit ≤ larger) : cursor.Within larger :=
  ⟨Nat.le_trans within.length le, within.spelled⟩

theorem Cursor.Within.rest_eq_nil {cursor : Cursor} (within : cursor.Within 0) :
    cursor.rest = [] :=
  List.eq_nil_of_length_eq_zero (Nat.le_zero.mp within.length)

theorem Cursor.Within.after {cursor after : Cursor} {limit : Nat} {tokens : List Token}
    (within : cursor.Within limit) (consumed : cursor.rest = tokens ++ after.rest) :
    after.Within (limit - tokens.length) := by
  have length := within.length
  rw [consumed, List.length_append] at length
  refine ⟨by omega, fun token member => within.spelled token ?_⟩
  rw [consumed]
  exact List.mem_append_right tokens member

namespace Parser

/-- What the parser finds at the cursor. -/
def ReadsAt (parser : Parser δ) (cursor : Cursor) (form : Form α) (continues : Option Token → Bool)
    (agree : δ → α → Prop) : Prop :=
  match parser.run cursor with
  | .ok (result, after) => ∃ phrase : Phrase form,
      cursor.rest = phrase.tokens ++ after.rest ∧ agree result phrase.value ∧
      ∀ (other : Phrase form) rest, other.Fronts continues cursor.rest rest → other = phrase
  | .error _ => ∀ (other : Phrase form) rest, ¬other.Fronts continues cursor.rest rest

/-- The parser reads phrases of the form from inputs of at most `limit` tokens. What it
gives agrees with the tree of the phrase. -/
def Reads (limit : Nat) (parser : Parser δ) (form : Form α) (continues : Option Token → Bool)
    (agree : δ → α → Prop) : Prop :=
  ∀ cursor : Cursor, cursor.Within limit → parser.ReadsAt cursor form continues agree

section

variable {parser : Parser δ} {cursor : Cursor} {limit : Nat} {form : Form α}
  {continues : Option Token → Bool} {agree : δ → α → Prop}

theorem ReadsAt.mono {others : Option Token → Bool} {agree' : δ → α → Prop}
    (reads : parser.ReadsAt cursor form continues agree)
    (included : ∀ next, continues next = true → others next = true)
    (implies : ∀ result value, agree result value → agree' result value) :
    parser.ReadsAt cursor form others agree' := by
  unfold ReadsAt at reads ⊢
  split at reads
  · rcases reads with ⟨phrase, consumed, agrees, only⟩
    exact ⟨phrase, consumed, implies _ _ agrees, fun other rest fronts =>
      only other rest ⟨fronts.stops.mono included, fronts.eq⟩⟩
  · exact fun other rest fronts => reads other rest ⟨fronts.stops.mono included, fronts.eq⟩

theorem Reads.mono {larger : Nat} {others : Option Token → Bool} {agree' : δ → α → Prop}
    (reads : Reads larger parser form continues agree) (le : limit ≤ larger)
    (included : ∀ next, continues next = true → others next = true)
    (implies : ∀ result value, agree result value → agree' result value) :
    Reads limit parser form others agree' :=
  fun cursor within => (reads cursor (within.mono le)).mono included implies

theorem Reads.shorter {smaller : Nat} (reads : Reads limit parser form continues agree)
    (le : smaller ≤ limit) : Reads smaller parser form continues agree :=
  fun cursor within => reads cursor (within.mono le)

/-! ## Steps that read no tokens -/

theorem Reads.pure {result : δ} {value : α} (agrees : agree result value) :
    Reads limit (Pure.pure result : Parser δ) (.nothing value) continues agree := by
  intro cursor within
  exact ⟨⟨[], .nothing⟩, rfl, agrees, fun other _ _ => other.nothing_cases⟩

theorem Reads.freshId {next : Nat → Parser δ}
    (reads : ∀ id, Reads limit (next id) form continues agree) :
    Reads limit (Parser.freshId >>= next) form continues agree := by
  intro cursor within
  exact reads cursor.nextId { cursor with nextId := cursor.nextId + 1 } ⟨within.1, within.2⟩

/-! ## Phrases one after the other -/

theorem run_bind (parser : Parser δ) (next : δ → Parser ε) (cursor : Cursor) :
    (parser >>= next).run cursor = parser.run cursor >>= fun pair => (next pair.1).run pair.2 :=
  rfl

/-- A phrase after which the next one is read. It takes a token, unless it can be empty. -/
theorem ReadsAt.bind {next : δ → Parser ε} {second : Form β} {make : α → β → γ}
    {agree' : ε → γ → Prop} {others : Option Token → Bool} (within : cursor.Within limit)
    (head : parser.ReadsAt cursor form continues agree)
    (tail : ∀ result value, agree result value →
      Reads (if form.nullable then limit else limit - 1) (next result) second others
        fun out other => agree' out (make value other))
    (apart : ∀ next, continues next = true → second.Avoids others next) :
    (parser >>= next).ReadsAt cursor (.sequence form second make) others agree' := by
  unfold ReadsAt at head ⊢
  rw [run_bind]
  cases ran : parser.run cursor with
  | error error =>
      rw [ran] at head
      intro other rest fronts
      rcases other.sequence_cases with ⟨front, back, rfl⟩
      refine head front (back.tokens ++ rest) ⟨fronts.stops.append back apart, ?_⟩
      rw [← List.append_assoc]
      exact fronts.eq
  | ok pair =>
      rcases pair with ⟨result, middle⟩
      rw [ran] at head
      rcases head with ⟨front, consumed, agrees, only⟩
      -- all phrases begin alike, so that they differ only in what the second parser reads
      have same : ∀ (other : Phrase (.sequence form second make)) rest,
          other.Fronts others cursor.rest rest →
          ∃ back : Phrase second, other = front.sequence back ∧
            back.Fronts others middle.rest rest := by
        intro other rest fronts
        rcases other.sequence_cases with ⟨head, back, rfl⟩
        have eq : head.tokens ++ (back.tokens ++ rest) = cursor.rest := by
          rw [← List.append_assoc]
          exact fronts.eq
        cases only head (back.tokens ++ rest) ⟨fronts.stops.append back apart, eq⟩
        rw [consumed] at eq
        exact ⟨back, rfl, fronts.stops, List.append_cancel_left eq⟩
      have limited : middle.Within (if form.nullable then limit else limit - 1) := by
        apply (within.after consumed).mono
        split
        · exact Nat.sub_le _ _
        · rename_i nonempty
          have positive := List.length_pos_iff.mpr
            (front.tokens_ne_nil (Bool.eq_false_iff.mpr nonempty))
          omega
      have second := tail result front.value agrees middle limited
      unfold ReadsAt at second
      show match (next result).run middle with
        | .ok (result, after) => _
        | .error _ => _
      cases rest : (next result).run middle with
      | error error =>
          rw [rest] at second
          intro other rest fronts
          rcases same other rest fronts with ⟨back, rfl, backFronts⟩
          exact second back rest backFronts
      | ok pair =>
          rw [rest] at second
          rcases second with ⟨back, consumed', agrees', only'⟩
          refine ⟨front.sequence back, ?_, agrees', fun other rest fronts => ?_⟩
          · rw [consumed, consumed']
            exact (List.append_assoc _ _ _).symm
          · rcases same other rest fronts with ⟨other, rfl, otherFronts⟩
            rw [only' other rest otherFronts]

theorem apart_of_first {second : Form β} {others : Option Token → Bool}
    (nonempty : second.nullable = false)
    (first : ∀ token, second.first token = true → continues (some token) = false) :
    ∀ next, continues next = true → second.Avoids others next := by
  intro next continuing
  refine .of_nonempty nonempty fun token member => Bool.eq_false_iff.mpr fun begins => ?_
  rw [Option.mem_def.mp member, first token begins] at continuing
  cases continuing

theorem Reads.bind {next : δ → Parser ε} {second : Form β} {make : α → β → γ}
    {agree' : ε → γ → Prop} {others : Option Token → Bool}
    (head : Reads limit parser form continues agree)
    (tail : ∀ result value, agree result value →
      Reads (if form.nullable then limit else limit - 1) (next result) second others
        fun out other => agree' out (make value other))
    (apart : ∀ next, continues next = true → second.Avoids others next) :
    Reads limit (parser >>= next) (.sequence form second make) others agree' :=
  fun cursor within => (head cursor within).bind within tail apart

theorem ReadsAt.finish {next : δ → Parser ε} {agree' : ε → α → Prop}
    (reads : parser.ReadsAt cursor form continues agree)
    (finishes : ∀ result value cursor, agree result value → ∃ out after,
      (next result).run cursor = .ok (out, after) ∧ after.rest = cursor.rest ∧ agree' out value) :
    (parser >>= next).ReadsAt cursor form continues agree' := by
  unfold ReadsAt at reads ⊢
  rw [run_bind]
  cases ran : parser.run cursor with
  | error error =>
      rw [ran] at reads
      exact reads
  | ok pair =>
      rcases pair with ⟨result, middle⟩
      rw [ran] at reads
      rcases reads with ⟨phrase, consumed, agrees, only⟩
      rcases finishes result phrase.value middle agrees with ⟨out, after, finished, kept, agrees'⟩
      show match (next result).run middle with
        | .ok (result, after) => _
        | .error _ => _
      rw [finished]
      exact ⟨phrase, by rw [kept]; exact consumed, agrees', only⟩

theorem ReadsAt.last {finish : δ → ε} {agree' : ε → α → Prop}
    (reads : parser.ReadsAt cursor form continues agree)
    (implies : ∀ result value, agree result value → agree' (finish result) value) :
    (do return finish (← parser)).ReadsAt cursor form continues agree' :=
  reads.finish fun result value cursor agrees =>
    ⟨finish result, cursor, rfl, rfl, implies result value agrees⟩

theorem Reads.last {finish : δ → ε} {agree' : ε → α → Prop}
    (reads : Reads limit parser form continues agree)
    (implies : ∀ result value, agree result value → agree' (finish result) value) :
    Reads limit (do return finish (← parser)) form continues agree' :=
  fun cursor within => (reads cursor within).last implies

theorem Reads.numbered {finish : δ → Nat → ε} {agree' : ε → α → Prop}
    (reads : Reads limit parser form continues agree)
    (implies : ∀ result id value, agree result value → agree' (finish result id) value) :
    Reads limit (do
      let result ← parser
      return finish result (← Parser.freshId)) form continues agree' :=
  fun cursor within => (reads cursor within).finish fun result value cursor agrees =>
    ⟨finish result cursor.nextId, { cursor with nextId := cursor.nextId + 1 }, rfl, rfl,
      implies result cursor.nextId value agrees⟩

theorem ReadsAt.rule {name : Rule} {make : name.Tree → β} {agree' : δ → β → Prop}
    (reads : parser.ReadsAt cursor (rules name) continues fun result value =>
      agree' result (make value)) :
    parser.ReadsAt cursor (.rule name make) continues agree' := by
  unfold ReadsAt at reads ⊢
  split at reads
  · rcases reads with ⟨phrase, consumed, agrees, only⟩
    refine ⟨phrase.rule, consumed, agrees, fun other rest fronts => ?_⟩
    rcases other.rule_cases with ⟨inner, rfl⟩
    rw [only inner rest ⟨fronts.stops, fronts.eq⟩]
  · intro other rest fronts
    rcases other.rule_cases with ⟨inner, rfl⟩
    exact reads inner rest ⟨fronts.stops, fronts.eq⟩

theorem Reads.rule {name : Rule} {make : name.Tree → β} {agree' : δ → β → Prop}
    (reads : Reads limit parser (rules name) continues fun result value =>
      agree' result (make value)) :
    Reads limit parser (.rule name make) continues agree' :=
  fun cursor within => (reads cursor within).rule

/-! ## Single tokens -/

theorem run_take?_of_stops {property : Token → Bool} {cursor : Cursor}
    (stops : Stops (·.any property) cursor.rest) :
    (Parser.take? property).run cursor = .ok (none, cursor) := by
  show Parser.take? property cursor = _
  unfold Parser.take?
  split
  · rfl
  · rename_i token rest nonempty
    rw [Stops, nonempty] at stops
    exact if_neg (Bool.eq_false_iff.mp stops)

theorem run_take?_of_fits {property : Token → Bool} {cursor : Cursor} {token : Token}
    {rest : List Token} (next : cursor.rest = token :: rest) (fits : property token = true) :
    (Parser.take? property).run cursor =
      .ok (some token, { cursor with rest, lastEnd := token.stop }) := by
  show Parser.take? property cursor = _
  rw [Parser.take?, next]
  exact if_pos fits

theorem run_take?_bind_of_fits {property : Token → Bool} {cursor : Cursor} {token : Token}
    {rest : List Token} {next : Option Token → Parser δ} (comes : cursor.rest = token :: rest)
    (fits : property token = true) :
    (Parser.take? property >>= next).run cursor =
      (next (some token)).run { cursor with rest, lastEnd := token.stop } := by
  rw [run_bind, run_take?_of_fits comes fits]
  rfl

theorem run_nextIs_bind (property : Token → Bool) (next : Bool → Parser δ) (cursor : Cursor) :
    (Parser.nextIs property >>= next).run cursor =
      (next (cursor.rest.head?.any property)).run cursor :=
  rfl

theorem run_skip_of_stops {property : Token → Bool} {cursor : Cursor} (next : Bool → Parser δ)
    (stops : Stops (·.any property) cursor.rest) :
    ((do return (← Parser.take? property).isSome) >>= next).run cursor =
      (next false).run cursor := by
  rw [run_bind, run_bind, run_take?_of_stops stops]
  rfl

theorem run_skip_of_fits {property : Token → Bool} {cursor : Cursor} {token : Token}
    {rest : List Token} (next : Bool → Parser δ) (comes : cursor.rest = token :: rest)
    (fits : property token = true) :
    ((do return (← Parser.take? property).isSome) >>= next).run cursor =
      (next true).run { cursor with rest, lastEnd := token.stop } := by
  rw [run_bind, run_bind, run_take?_of_fits comes fits]
  rfl

theorem next_cases (property : Token → Bool) (tokens : List Token) :
    Stops (·.any property) tokens ∨
      ∃ token rest, tokens = token :: rest ∧ property token = true := by
  cases tokens with
  | nil => exact .inl rfl
  | cons token rest =>
      cases fits : property token with
      | false => exact .inl fits
      | true => exact .inr ⟨token, rest, rfl, fits⟩

theorem not_stops_of_fits {property : Token → Bool} {tokens : List Token} {token : Token}
    {rest : List Token} (next : tokens = token :: rest) (fits : property token = true) :
    ¬Stops (·.any property) tokens := by
  intro stops
  rw [Stops, next, List.head?_cons, Option.any_some, fits] at stops
  cases stops

theorem run_take_of_stops (expected : String) {property : Token → Bool} {cursor : Cursor}
    (stops : Stops (·.any property) cursor.rest) :
    ∃ error, (Parser.take expected property).run cursor = .error error := by
  have failed : ∃ error, (Parser.fail expected : Parser Token).run cursor = .error error := by
    show ∃ error, Parser.fail expected cursor = .error error
    unfold Parser.fail
    split <;> exact ⟨_, rfl⟩
  rw [Parser.take, run_bind, run_take?_of_stops stops]
  exact failed

theorem run_take_of_fits {expected : String} {property : Token → Bool} {cursor : Cursor}
    {token : Token} {rest : List Token} (next : cursor.rest = token :: rest)
    (fits : property token = true) :
    (Parser.take expected property).run cursor =
      .ok (token, { cursor with rest, lastEnd := token.stop }) := by
  rw [Parser.take, run_bind, run_take?_of_fits next fits]
  rfl

theorem run_take_bind_of_fits {expected : String} (property : Token → Bool) {cursor : Cursor}
    {token : Token} {rest : List Token} {next : Token → Parser δ}
    (comes : cursor.rest = token :: rest) (fits : property token = true) :
    (Parser.take expected property >>= next).run cursor =
      (next token).run { cursor with rest, lastEnd := token.stop } := by
  rw [run_bind, run_take_of_fits comes fits]
  rfl

theorem Reads.take (expected : String) (property : Token → Bool) (make : Token → α) :
    Reads limit (Parser.take expected property) (.terminal property make) continues
      fun token value => property token = true ∧ make token = value := by
  intro cursor within
  unfold ReadsAt
  rcases next_cases property cursor.rest with stops | ⟨token, rest, next, fits⟩
  · rcases run_take_of_stops expected stops with ⟨error, failed⟩
    rw [failed]
    intro other rest fronts
    rcases other.terminal_cases with ⟨token, fits, rfl⟩
    rw [Stops, ← fronts.eq] at stops
    exact absurd fits (Bool.eq_false_iff.mp stops)
  · rw [run_take_of_fits next fits]
    refine ⟨⟨[token], .terminal token fits⟩, next, ⟨fits, rfl⟩,
      fun other rest fronts => ?_⟩
    rcases other.terminal_cases with ⟨start, startFits, rfl⟩
    have eq := fronts.eq
    rw [next] at eq
    cases eq
    rfl

theorem Reads.token {expected : String} {property : Token → Bool} {make : Token → α}
    {next : Token → Parser ε} {second : Form β} {combine : α → β → γ} {agree : ε → γ → Prop}
    (tail : ∀ token, property token = true → Reads (limit - 1) (next token) second continues
      fun out other => agree out (combine (make token) other)) :
    Reads limit (Parser.take expected property >>= next)
      (.sequence (.terminal property make) second combine) continues agree := by
  have head : Reads limit (Parser.take expected property) (.terminal property make)
      (fun _ => false) fun token value => property token = true ∧ make token = value :=
    .take expected property make
  refine head.bind (fun token value agrees => ?_) (by simp)
  rw [← agrees.2]
  exact tail token agrees.1

end

end Parser

end Plc
