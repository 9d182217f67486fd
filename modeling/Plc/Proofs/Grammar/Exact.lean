import Plc.Proofs.Grammar.Reads
import Plc.Proofs.Grammar.Viable

/-! Parsers that stop where they should. Such a parser reads on as long as its tokens open
a phrase, and what it does is settled by the tokens it has read and the one that comes
next: it does the same before any other rest that begins alike. -/

namespace Plc

open Grammar

def endAfter (lastEnd : Nat) (read : List Token) : Nat :=
  (read.getLast?.map Token.stop).getD lastEnd

theorem endAfter_append (lastEnd : Nat) (front back : List Token) :
    endAfter lastEnd (front ++ back) = endAfter (endAfter lastEnd front) back := by
  unfold endAfter
  rw [List.getLast?_append]
  cases back.getLast? <;> rfl

def GrammarError.unexpected (expected : String) (lastEnd : Nat) : Option Token → GrammarError
  | none => ⟨lastEnd, .expected expected none⟩
  | some token => ⟨token.offset, .expected expected (some token.literal)⟩

theorem head?_append_congr {rest others : List Token} (front : List Token)
    (same : rest.head? = others.head?) : (front ++ rest).head? = (front ++ others).head? := by
  rw [List.head?_append, List.head?_append, same]

theorem Grammar.Stops.of_head? {continues : Option Token → Bool} {tokens rest : List Token}
    (stops : Stops continues tokens) (same : rest.head? = tokens.head?) :
    Stops continues rest := by
  rw [Stops, same]
  exact stops

namespace Parser

/-! ## Exact parsers -/

/-- Each twin has the outcome after the tokens read, before every rest that begins as
stated and is not too long for it. -/
def Settled (bound : ι → Nat) (twins : ι → Parser δ) (cursor : Cursor) (read : List Token)
    (next : Option Token) (outcome : List Token → Except GrammarError (δ × Cursor)) : Prop :=
  ∀ index rest, (read ++ rest).length ≤ bound index → rest.head? = next →
    (twins index).run { cursor with rest := read ++ rest } = outcome rest

/-- Where the parser stops at the cursor. When it fails, what it read opens a phrase, and the
error is about the next token. Parsers are bounded by the number of their tokens, so that
before another rest one with another bound may run: the twins are these parsers, and they
stop at the same place. -/
def ExactAt (parser : Parser δ) (cursor : Cursor) (form : Form α) (bound : ι → Nat)
    (twins : ι → Parser δ) : Prop :=
  match parser.run cursor with
  | .ok (result, after) => ∃ phrase : Phrase form,
      cursor.rest = phrase.tokens ++ after.rest ∧
      after.lastEnd = endAfter cursor.lastEnd phrase.tokens ∧
      Settled bound twins cursor phrase.tokens after.rest.head? fun rest =>
        .ok (result, { after with rest })
  | .error error => ∃ read rest expected,
      cursor.rest = read ++ rest ∧ form.Viable read ∧
      error = .unexpected expected (endAfter cursor.lastEnd read) rest.head? ∧
      Settled bound twins cursor read rest.head? fun _ => .error error

/-- The parser and its twins stop at the same places, in inputs of at most `limit` tokens. -/
def Exact (limit : Nat) (parser : Parser δ) (form : Form α) (bound : ι → Nat)
    (twins : ι → Parser δ) : Prop :=
  ∀ cursor : Cursor, cursor.Within limit → parser.ExactAt cursor form bound twins

section

variable {ι κ : Type} {parser : Parser δ} {cursor : Cursor} {limit : Nat} {form : Form α}
  {bound : ι → Nat} {twins : ι → Parser δ}

/-- Twins can be exchanged for others that run alike wherever the next token is the same. -/
theorem ExactAt.congr {other : Parser δ} {lower : κ → Nat} {others : κ → Parser δ}
    (holds : other.ExactAt cursor form bound twins) (same : parser.run cursor = other.run cursor)
    (alike : ∀ index rest, rest.length ≤ lower index → rest.head? = cursor.rest.head? →
      ∃ twin, rest.length ≤ bound twin ∧
        (others index).run { cursor with rest } = (twins twin).run { cursor with rest }) :
    parser.ExactAt cursor form lower others := by
  have settled : ∀ {read rest outcome}, cursor.rest = read ++ rest →
      Settled bound twins cursor read rest.head? outcome →
      Settled lower others cursor read rest.head? outcome := by
    intro read rest outcome consumed settled index other within next
    rcases alike index (read ++ other) within
      (by rw [consumed]; exact head?_append_congr read next) with ⟨twin, enough, ran⟩
    rw [ran]
    exact settled twin other enough next
  unfold ExactAt at holds ⊢
  rw [same]
  split at holds
  · rcases holds with ⟨phrase, consumed, lastEnd, settles⟩
    exact ⟨phrase, consumed, lastEnd, settled consumed settles⟩
  · rcases holds with ⟨read, rest, expected, consumed, viable, error, settles⟩
    exact ⟨read, rest, expected, consumed, viable, error, settled consumed settles⟩

theorem Exact.shorter {smaller : Nat} {lower : ι → Nat}
    (holds : Exact limit parser form bound twins) (le : smaller ≤ limit)
    (lowers : ∀ index, lower index ≤ bound index) : Exact smaller parser form lower twins :=
  fun cursor within => (holds cursor (within.mono le)).congr rfl fun index _ enough _ =>
    ⟨index, Nat.le_trans enough (lowers index), rfl⟩

theorem Exact.pred (holds : Exact limit parser form bound twins) :
    Exact (limit - 1) parser form (fun index => bound index - 1) twins :=
  holds.shorter (Nat.sub_le _ _) fun _ => Nat.sub_le _ _

theorem ExactAt.widen {wider : Form β} (holds : parser.ExactAt cursor form bound twins)
    (includes : ∀ phrase : Phrase form, ∃ other : Phrase wider, other.tokens = phrase.tokens) :
    parser.ExactAt cursor wider bound twins := by
  unfold ExactAt at holds ⊢
  split at holds
  · rcases holds with ⟨phrase, consumed, lastEnd, settled⟩
    rcases includes phrase with ⟨other, same⟩
    exact ⟨other, by rw [same]; exact consumed, by rw [same]; exact lastEnd,
      by rw [same]; exact settled⟩
  · rcases holds with ⟨read, rest, expected, consumed, viable, error, settled⟩
    exact ⟨read, rest, expected, consumed, viable.widen includes, error, settled⟩

theorem Exact.widen {wider : Form β} (holds : Exact limit parser form bound twins)
    (includes : ∀ phrase : Phrase form, ∃ other : Phrase wider, other.tokens = phrase.tokens) :
    Exact limit parser wider bound twins :=
  fun cursor within => (holds cursor within).widen includes

theorem ExactAt.rule {name : Rule} {make : name.Tree → β}
    (holds : parser.ExactAt cursor (rules name) bound twins) :
    parser.ExactAt cursor (.rule name make) bound twins :=
  holds.widen fun phrase => ⟨phrase.rule, rfl⟩

theorem Exact.rule {name : Rule} {make : name.Tree → β}
    (holds : Exact limit parser (rules name) bound twins) :
    Exact limit parser (.rule name make) bound twins :=
  fun cursor within => (holds cursor within).rule

/-! ## Steps that read no tokens -/

theorem Exact.pure (result : δ) (value : α) :
    Exact limit (Pure.pure result : Parser δ) (.nothing value) bound
      fun _ => Pure.pure result := by
  intro cursor within
  exact ⟨⟨[], .nothing⟩, rfl, rfl, fun _ _ _ _ => rfl⟩

theorem Exact.freshId {next : Nat → Parser δ} {nexts : ι → Nat → Parser δ}
    (holds : ∀ id, Exact limit (next id) form bound fun index => nexts index id) :
    Exact limit (Parser.freshId >>= next) form bound fun index => Parser.freshId >>= nexts index :=
  fun cursor within =>
    holds cursor.nextId { cursor with nextId := cursor.nextId + 1 } ⟨within.1, within.2⟩

theorem ExactAt.finish {next : δ → Parser ε} (holds : parser.ExactAt cursor form bound twins)
    (finishes : ∀ result (after : Cursor), ∃ out id, ∀ rest,
      (next result).run { after with rest } = .ok (out, { after with rest, nextId := id })) :
    (parser >>= next).ExactAt cursor form bound fun index => twins index >>= next := by
  unfold ExactAt at holds ⊢
  rw [run_bind]
  cases ran : parser.run cursor with
  | error error =>
      rw [ran] at holds
      rcases holds with ⟨read, rest, expected, consumed, viable, same, settled⟩
      refine ⟨read, rest, expected, consumed, viable, same, fun index other within next => ?_⟩
      rw [run_bind, settled index other within next]
      rfl
  | ok pair =>
      rcases pair with ⟨result, after⟩
      rw [ran] at holds
      rcases holds with ⟨phrase, consumed, lastEnd, settled⟩
      rcases finishes result after with ⟨out, id, finished⟩
      show match (next result).run after with
        | .ok (result, after) => _
        | .error _ => _
      rw [finished after.rest]
      refine ⟨phrase, consumed, lastEnd, fun index rest within next => ?_⟩
      rw [run_bind, settled index rest within next]
      exact finished rest

theorem ExactAt.last (finish : δ → ε) (holds : parser.ExactAt cursor form bound twins) :
    (do return finish (← parser)).ExactAt cursor form bound fun index =>
      do return finish (← twins index) :=
  holds.finish fun result after => ⟨finish result, after.nextId, fun _ => rfl⟩

theorem Exact.last (finish : δ → ε) (holds : Exact limit parser form bound twins) :
    Exact limit (do return finish (← parser)) form bound fun index =>
      do return finish (← twins index) :=
  fun cursor within => (holds cursor within).last finish

theorem Exact.numbered (finish : δ → Nat → ε) (holds : Exact limit parser form bound twins) :
    Exact limit (do let result ← parser; return finish result (← Parser.freshId)) form bound
      fun index => do let result ← twins index; return finish result (← Parser.freshId) :=
  fun cursor within => (holds cursor within).finish fun result after =>
    ⟨finish result after.nextId, after.nextId + 1, fun _ => rfl⟩

/-! ## Phrases one after the other -/

theorem ExactAt.append {other : Parser ε} {parser : Parser ε} {others twins : ι → Parser ε}
    {second : Form β} {make : α → β → γ} {middle : Cursor} (front : Phrase form)
    (spelled : ∀ token ∈ cursor.rest, token.Spelled)
    (consumed : cursor.rest = front.tokens ++ middle.rest)
    (lastEnd : middle.lastEnd = endAfter cursor.lastEnd front.tokens)
    (holds : other.ExactAt middle second (fun index => bound index - front.tokens.length) others)
    (same : parser.run cursor = other.run middle)
    (alike : ∀ index rest, (front.tokens ++ rest).length ≤ bound index →
      rest.head? = middle.rest.head? →
      (twins index).run { cursor with rest := front.tokens ++ rest } =
        (others index).run { middle with rest }) :
    parser.ExactAt cursor (.sequence form second make) bound twins := by
  have settled : ∀ {read rest outcome}, middle.rest = read ++ rest →
      Settled (fun index => bound index - front.tokens.length) others middle read rest.head?
        outcome →
      Settled bound twins cursor (front.tokens ++ read) rest.head? outcome := by
    intro read rest outcome consumed settled index other within next
    rw [List.append_assoc] at within
    have shorter : (read ++ other).length ≤ bound index - front.tokens.length := by
      rw [List.length_append] at within
      omega
    rw [List.append_assoc, alike index (read ++ other) within
      (by rw [consumed]; exact head?_append_congr read next)]
    exact settled index other shorter next
  have frontSpelled : ∀ token ∈ front.tokens, token.Spelled := by
    intro token member
    apply spelled
    rw [consumed]
    exact List.mem_append_left _ member
  unfold ExactAt at holds ⊢
  rw [same]
  split at holds
  · rcases holds with ⟨back, consumed', lastEnd', settles⟩
    refine ⟨front.sequence back, ?_, ?_, settled consumed' settles⟩
    · rw [consumed, consumed']
      exact (List.append_assoc _ _ _).symm
    · rw [lastEnd', lastEnd]
      exact (endAfter_append _ _ _).symm
  · rcases holds with ⟨read, rest, expected, consumed', viable, error, settles⟩
    refine ⟨front.tokens ++ read, rest, expected, ?_, .append front frontSpelled viable, ?_,
      settled consumed' settles⟩
    · rw [consumed, consumed', List.append_assoc]
    · rw [endAfter_append, ← lastEnd]
      exact error

theorem ExactAt.bind {next : δ → Parser ε} {nexts : ι → δ → Parser ε} {second : Form β}
    {make : α → β → γ} (spelled : ∀ token ∈ cursor.rest, token.Spelled)
    (head : parser.ExactAt cursor form bound twins)
    (tail : ∀ result (front : Phrase form) (after : Cursor),
      cursor.rest = front.tokens ++ after.rest →
      (next result).ExactAt after second (fun index => bound index - front.tokens.length)
        fun index => nexts index result)
    (completes : second.Viable []) :
    (parser >>= next).ExactAt cursor (.sequence form second make) bound fun index =>
      twins index >>= nexts index := by
  unfold ExactAt at head
  cases ran : parser.run cursor with
  | error error =>
      rw [ran] at head
      rcases head with ⟨read, rest, expected, consumed, viable, same, settled⟩
      -- the first phrase is not complete: any second one can follow it
      unfold ExactAt
      rw [run_bind, ran]
      refine ⟨read, rest, expected, consumed, viable.sequence completes, same,
        fun index other within next => ?_⟩
      rw [run_bind, settled index other within next]
      rfl
  | ok pair =>
      rcases pair with ⟨result, middle⟩
      rw [ran] at head
      rcases head with ⟨front, consumed, lastEnd, settled⟩
      apply ExactAt.append front spelled consumed lastEnd (tail result front middle consumed)
      · rw [run_bind, ran]
        rfl
      · intro index rest within next
        rw [run_bind, settled index rest within next]
        rfl

theorem Exact.bind {next : δ → Parser ε} {nexts : ι → δ → Parser ε} {second : Form β}
    {make : α → β → γ} (head : Exact limit parser form bound twins)
    (tail : ∀ result, Exact limit (next result) second bound fun index => nexts index result)
    (completes : second.Viable []) :
    Exact limit (parser >>= next) (.sequence form second make) bound fun index =>
      twins index >>= nexts index := by
  intro cursor within
  refine (head cursor within).bind within.spelled (fun result front after consumed => ?_) completes
  exact (tail result).shorter (Nat.sub_le _ _) (fun index => Nat.sub_le _ _) after
    (within.after consumed)

/-! ## Single tokens -/

theorem run_take_of_absent (expected : String) {property : Token → Bool} {cursor : Cursor}
    (stops : Stops (·.any property) cursor.rest) :
    (Parser.take expected property).run cursor =
      .error (.unexpected expected cursor.lastEnd cursor.rest.head?) := by
  rw [Parser.take, run_bind, run_take?_of_stops stops]
  show Parser.fail expected cursor = _
  unfold Parser.fail
  cases cursor.rest <;> rfl

theorem ExactAt.fails {expected : String} (viable : form.Viable [])
    (failed : parser.run cursor =
      .error (.unexpected expected cursor.lastEnd cursor.rest.head?))
    (alike : ∀ index rest, rest.head? = cursor.rest.head? →
      (twins index).run { cursor with rest } =
        .error (.unexpected expected cursor.lastEnd rest.head?)) :
    parser.ExactAt cursor form bound twins := by
  unfold ExactAt
  rw [failed]
  refine ⟨[], cursor.rest, expected, rfl, viable, rfl, fun index rest _ next => ?_⟩
  rw [← next]
  exact alike index rest next

theorem ExactAt.single {property : Token → Bool} {make : Token → α} {token : Token}
    {rest : List Token} (result : δ) (id : Nat) (next : cursor.rest = token :: rest)
    (fits : property token = true)
    (ran : parser.run cursor = .ok (result, ⟨rest, token.stop, id⟩))
    (alike : ∀ index rest, (twins index).run { cursor with rest := token :: rest } =
      .ok (result, ⟨rest, token.stop, id⟩)) :
    parser.ExactAt cursor (.terminal property make) bound twins := by
  unfold ExactAt
  rw [ran]
  exact ⟨⟨[token], .terminal token fits⟩, next, rfl, fun index rest _ _ => alike index rest⟩

theorem Exact.take (expected : String) {property : Token → Bool} {make : Token → α}
    (viable : (Form.terminal property make).Viable []) :
    Exact limit (Parser.take expected property) (.terminal property make) bound
      fun _ => Parser.take expected property := by
  intro cursor within
  rcases next_cases property cursor.rest with stops | ⟨token, rest, next, fits⟩
  · exact .fails viable (run_take_of_absent expected stops) fun _ _ same =>
      run_take_of_absent expected (stops.of_head? same)
  · exact .single _ _ next fits (run_take_of_fits next fits) fun _ _ => run_take_of_fits rfl fits

theorem Exact.symbol (literal : String) :
    Exact limit (Parser.symbol literal) (.symbol literal) bound fun _ => Parser.symbol literal :=
  .take literal (Form.viable_symbol ..)

theorem Exact.word (literal : String) :
    Exact limit (Parser.word literal) (.word literal) bound fun _ => Parser.word literal :=
  .take literal (Form.viable_word ..)

theorem ExactAt.token {parser other : Parser ε} {twins others : ι → Parser ε}
    {property : Token → Bool} {make : Token → α} {second : Form β} {combine : α → β → γ}
    {token : Token} {rest : List Token} (within : cursor.Within limit)
    (next : cursor.rest = token :: rest) (fits : property token = true)
    (holds : Exact (limit - 1) other second (fun index => bound index - 1) others)
    (same : parser.run cursor = other.run { cursor with rest, lastEnd := token.stop })
    (alike : ∀ index rest, (twins index).run { cursor with rest := token :: rest } =
      (others index).run { cursor with rest, lastEnd := token.stop }) :
    parser.ExactAt cursor (.sequence (.terminal property make) second combine) bound twins := by
  let middle : Cursor := { cursor with rest, lastEnd := token.stop }
  have consumed : cursor.rest = [token] ++ middle.rest := next
  exact .append (⟨[token], .terminal token fits⟩ : Phrase (.terminal property make))
    within.spelled consumed rfl (holds middle (within.after consumed)) same
    fun index rest _ _ => alike index rest

/-! ## Bounded depth -/

/-- Parsers of every depth are twins when each of them is made from the one before it. -/
theorem exact_upTo {upTo : Nat → Parser δ}
    (nil : ∀ depth (cursor : Cursor), cursor.rest = [] →
      (upTo depth).run cursor = (upTo 0).run cursor)
    (zero : Exact 0 (upTo 0) form id upTo)
    (step : ∀ depth, Exact depth (upTo depth) form id upTo →
      Exact (depth + 1) (upTo (depth + 1)) form (· + 1) fun depth => upTo (depth + 1))
    (depth : Nat) : Exact depth (upTo depth) form id upTo := by
  induction depth with
  | zero => exact zero
  | succ depth induction =>
      intro cursor within
      refine (step depth induction cursor within).congr rfl fun twin rest enough _ => ?_
      cases twin with
      | zero =>
          have empty : rest = [] := List.eq_nil_of_length_eq_zero (Nat.le_zero.mp enough)
          exact ⟨0, Nat.le_succ_of_le enough, (nil 1 { cursor with rest } empty).symm⟩
      | succ twin => exact ⟨twin, enough, rfl⟩

/-- A parser whose depth is bounded by the number of its tokens is its own twin. -/
theorem Exact.ofUpTo {upTo : Nat → Parser δ}
    (holds : ∀ depth, Exact depth (upTo depth) form id upTo)
    (same : ∀ cursor, parser.run cursor = (upTo cursor.rest.length).run cursor) :
    Exact limit parser form bound fun _ => parser := by
  intro cursor within
  exact (holds cursor.rest.length cursor ⟨Nat.le_refl _, within.spelled⟩).congr (same cursor)
    fun _ rest _ _ => ⟨rest.length, Nat.le_refl _, same _⟩

end

end Parser

end Plc
