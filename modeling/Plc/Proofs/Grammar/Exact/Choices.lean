import Plc.Proofs.Grammar.Exact

/-! Choices and repetitions stop where they should. The next token alone decides how they
go on, so that it also decides for their twins. -/

namespace Plc.Parser

open Grammar

variable {ι : Type} {parser : Parser δ} {cursor : Cursor} {limit : Nat} {form : Form α}
  {bound : ι → Nat} {twins : ι → Parser δ}

/-! ## Choices -/

theorem ExactAt.left {right : Form α} (holds : parser.ExactAt cursor form bound twins) :
    parser.ExactAt cursor (.choice form right) bound twins :=
  holds.widen fun phrase => ⟨phrase.left, rfl⟩

theorem ExactAt.right {left : Form α} (holds : parser.ExactAt cursor form bound twins) :
    parser.ExactAt cursor (.choice left form) bound twins :=
  holds.widen fun phrase => ⟨phrase.right, rfl⟩

theorem ExactAt.skip {property : Token → Bool} {other : Parser δ} {others : ι → Parser δ}
    {right : Form β} {convert : α → β} {make : Token → γ} {skipped : Parser Bool}
    (within : cursor.Within limit)
    (skips : skipped = do return (← Parser.take? property).isSome)
    (whenTrue : Exact (limit - 1) parser form (fun index => bound index - 1) twins)
    (whenFalse : Stops (·.any property) cursor.rest → other.ExactAt cursor right bound others) :
    (skipped >>= fun found => if found then parser else other).ExactAt cursor
      (.choice (.sequence (.terminal property make) form fun _ value => convert value) right)
      bound fun index => skipped >>= fun found => if found then twins index else others index := by
  subst skips
  rcases next_cases property cursor.rest with stops | ⟨token, rest, next, fits⟩
  · apply ExactAt.right
    exact (whenFalse stops).congr (run_skip_of_stops _ stops) fun index rest enough same =>
      ⟨index, enough, run_skip_of_stops _ (stops.of_head? same)⟩
  · apply ExactAt.left
    exact .token within next fits whenTrue (run_skip_of_fits _ next fits) fun index rest =>
      run_skip_of_fits _ rfl fits

theorem Exact.skip {property : Token → Bool} {other : Parser δ} {others : ι → Parser δ}
    {right : Form β} {convert : α → β} {make : Token → γ} {skipped : Parser Bool}
    (skips : skipped = do return (← Parser.take? property).isSome)
    (whenTrue : Exact (limit - 1) parser form (fun index => bound index - 1) twins)
    (whenFalse : Exact limit other right bound others) :
    Exact limit (skipped >>= fun found => if found then parser else other)
      (.choice (.sequence (.terminal property make) form fun _ value => convert value) right)
      bound fun index => skipped >>= fun found => if found then twins index else others index :=
  fun cursor within => .skip within skips whenTrue fun _ => whenFalse cursor within

theorem Exact.optional {property : Token → Bool} {skipped : Parser Bool} {make : Token → α}
    {value : α} (skips : skipped = do return (← Parser.take? property).isSome) :
    Exact limit skipped (.choice (.terminal property make) (.nothing value)) bound
      fun _ => skipped := by
  subst skips
  intro cursor within
  rcases next_cases property cursor.rest with stops | ⟨token, rest, next, fits⟩
  · apply ExactAt.right
    refine (Exact.pure false value cursor within).congr ?_ fun index rest enough same =>
      ⟨index, enough, ?_⟩
    · rw [run_bind, run_take?_of_stops stops]
      rfl
    · rw [run_bind, run_take?_of_stops (stops.of_head? same)]
      rfl
  · refine .left (.single true cursor.nextId next fits ?_ fun index rest => ?_)
    · rw [run_bind, run_take?_of_fits next fits]
      rfl
    · rw [run_bind, run_take?_of_fits rfl fits]
      rfl

theorem Exact.unless (close : String) (default : δ) (value : α)
    (holds : Exact limit parser form bound twins) :
    Exact limit (do if ← nextIs (·.isSymbol close) then return default else parser)
      (.choice form (.nothing value)) bound fun index =>
        (do if ← nextIs (·.isSymbol close) then return default else twins index) := by
  intro cursor within
  cases closing : cursor.rest.head?.any (·.isSymbol close) with
  | true =>
      apply ExactAt.right
      refine (Exact.pure default value cursor within).congr ?_ fun index rest enough same =>
        ⟨index, enough, ?_⟩
      · rw [run_nextIs_bind, closing]
        rfl
      · rw [run_nextIs_bind, same, closing]
        rfl
  | false =>
      apply ExactAt.left
      refine (holds cursor within).congr ?_ fun index rest enough same => ⟨index, enough, ?_⟩
      · rw [run_nextIs_bind, closing]
        rfl
      · rw [run_nextIs_bind, same, closing]
        rfl

theorem ExactAt.guarded {property : Token → Bool}
    (holds : parser.ExactAt cursor form bound twins) (nonempty : form.nullable = false)
    (allowed : ∀ token ∈ cursor.rest.head?, property token = true)
    (viable : (Form.guarded property form).Viable []) :
    parser.ExactAt cursor (.guarded property form) bound twins := by
  unfold ExactAt at holds ⊢
  split at holds
  · rcases holds with ⟨⟨tokens, derivation⟩, consumed, lastEnd, settled⟩
    cases tokens with
    | nil => exact absurd rfl (Phrase.tokens_ne_nil ⟨[], derivation⟩ nonempty)
    | cons token tokens =>
        have fits := allowed token (by rw [consumed]; rfl)
        exact ⟨⟨token :: tokens, .guarded derivation fits⟩, consumed, lastEnd, settled⟩
  · rcases holds with ⟨read, rest, expected, consumed, opens, error, settled⟩
    refine ⟨read, rest, expected, consumed, ?_, error, settled⟩
    cases read with
    | nil => exact viable
    | cons token read => exact opens.guarded (allowed token (by rw [consumed]; rfl))

/-! ## Repetition -/

/-- The parser and its twins read an item when the next token enters one, and else give
nothing. -/
structure ExactItem (limit : Nat) (item? : Parser (Option δ)) (form : Form α)
    (enters : Token → Bool) (bound : ι → Nat) (items? : ι → Parser (Option δ)) : Prop where
  absent : ∀ cursor : Cursor, Stops (·.any enters) cursor.rest →
    item?.run cursor = .ok (none, cursor)
  absents : ∀ index (cursor : Cursor), Stops (·.any enters) cursor.rest →
    (items? index).run cursor = .ok (none, cursor)
  present : ∀ cursor : Cursor, cursor.Within limit → ¬Stops (·.any enters) cursor.rest →
    item?.ExactAt cursor form bound items?

section

variable {item? : Parser (Option δ)} {items? : ι → Parser (Option δ)} {enters : Token → Bool}

theorem run_manyUpTo_of_none (none : item?.run cursor = .ok (none, cursor)) (count : Nat) :
    (manyUpTo item? count).run cursor = .ok ([], cursor) := by
  cases count with
  | zero => rfl
  | succ count =>
      rw [manyUpTo, run_bind, none]
      rfl

def itemsFrom (others : Parser (List δ)) : Option δ → Parser (List δ)
  | none => return []
  | some item => return item :: (← others)

theorem ExactAt.itemsFrom {others : Parser (List δ)} {twins : ι → Parser (List δ)}
    (within : cursor.Within limit) (found : Option δ)
    (holds : others.ExactAt cursor (.list form) bound twins) :
    (Parser.itemsFrom others found).ExactAt cursor (.list form) bound fun index =>
      Parser.itemsFrom (twins index) found := by
  cases found with
  | none =>
      have nothing : (Pure.pure [] : Parser (List δ)).ExactAt cursor (.nothing ()) bound fun _ =>
          Pure.pure [] :=
        Exact.pure [] () cursor within
      refine nothing.widen fun phrase => ⟨.done, ?_⟩
      rw [phrase.nothing_cases]
      rfl
  | some item => exact holds.last (item :: ·)

theorem ExactAt.more {parser : Parser δ}
    (holds : parser.ExactAt cursor (.sequence form (.list form) List.cons) bound twins) :
    parser.ExactAt cursor (.list form) bound twins := by
  refine holds.widen fun phrase => ?_
  rcases phrase.sequence_cases with ⟨head, tail, rfl⟩
  exact ⟨head.more tail, rfl⟩

theorem ExactItem.done (item : ExactItem limit item? form enters bound items?)
    (stops : Stops (·.any enters) cursor.rest) (count : Nat) (lower : ι × Nat → Nat) :
    (manyUpTo item? count).ExactAt cursor (.list form) lower fun index =>
      manyUpTo (items? index.1) index.2 := by
  unfold ExactAt
  rw [run_manyUpTo_of_none (item.absent cursor stops)]
  refine ⟨.done, rfl, rfl, fun index rest _ same => ?_⟩
  exact run_manyUpTo_of_none (item.absents index.1 _ (stops.of_head? same)) index.2

/-- The twins differ in how many items they read as well as in how they read one. -/
theorem manyUpTo_exact (item : ExactItem limit item? form enters bound items?)
    (nonempty : form.nullable = false) (count : Nat) (enough : count ≤ limit) :
    Exact count (manyUpTo item? count) (.list form)
      (fun index : ι × Nat => min (bound index.1) index.2)
      fun index => manyUpTo (items? index.1) index.2 := by
  induction count with
  | zero =>
      intro cursor within
      exact item.done (by rw [within.rest_eq_nil]; rfl) 0 _
  | succ count induction =>
      intro cursor within
      by_cases stops : Stops (·.any enters) cursor.rest
      · exact item.done stops (count + 1) _
      have found : item?.ExactAt cursor form (fun index : ι × Nat => min (bound index.1) index.2)
          fun index => items? index.1 :=
        (item.present cursor (within.mono enough) stops).congr rfl fun index rest fewer _ =>
          ⟨index.1, by omega, rfl⟩
      have several : (item? >>= itemsFrom (manyUpTo item? count)).ExactAt cursor
          (.sequence form (.list form) List.cons)
          (fun index : ι × Nat => min (bound index.1) index.2)
          fun index => items? index.1 >>= itemsFrom (manyUpTo (items? index.1) (index.2 - 1)) := by
        refine found.bind within.spelled (fun found front after consumed => ?_)
          (Form.viable_many ..)
        -- an item takes a token, so that one item less is enough for the others
        have taken := List.length_pos_iff.mpr (front.tokens_ne_nil nonempty)
        have fewer : after.Within count := (within.after consumed).mono (by omega)
        apply ExactAt.itemsFrom fewer
        exact (induction (Nat.le_of_succ_le enough) after fewer).congr rfl fun index rest le _ =>
          ⟨(index.1, index.2 - 1), by simp only; omega, rfl⟩
      refine several.more.congr rfl fun index rest fewer same => ⟨index, fewer, ?_⟩
      rcases index with ⟨index, _ | others⟩
      · -- a twin that reads nothing is given no token
        have empty : rest = [] := List.eq_nil_of_length_eq_zero (by simpa using fewer)
        rw [empty] at same
        exact absurd (by rw [Stops, ← same]; rfl) stops
      · rfl

theorem Exact.many (item : ExactItem limit item? form enters bound items?)
    (nonempty : form.nullable = false) :
    Exact limit (Parser.many item?) (.list form) bound fun index => Parser.many (items? index) := by
  intro cursor within
  have several := manyUpTo_exact item nonempty cursor.rest.length within.length cursor
    ⟨Nat.le_refl _, within.spelled⟩
  exact several.congr rfl fun index rest enough _ =>
    ⟨(index, rest.length), by simp only; omega, rfl⟩

end

theorem ExactItem.skip {property : Token → Bool} {parser : Parser (Option δ)}
    {twins : ι → Parser (Option δ)} {convert : α → β} {make : Token → γ} {skipped : Parser Bool}
    (skips : skipped = do return (← Parser.take? property).isSome)
    (holds : Exact (limit - 1) parser form (fun index => bound index - 1) twins) :
    ExactItem limit (skipped >>= fun found => if found then parser else Pure.pure none)
      (.sequence (.terminal property make) form fun _ value => convert value) property bound
      fun index => skipped >>= fun found => if found then twins index else Pure.pure none := by
  subst skips
  refine ⟨fun cursor stops => run_skip_of_stops _ stops,
    fun index cursor stops => run_skip_of_stops _ stops, fun cursor within enters => ?_⟩
  rcases next_cases property cursor.rest with stops | ⟨token, rest, next, fits⟩
  · exact absurd stops enters
  · exact .token within next fits holds (run_skip_of_fits _ next fits) fun index rest =>
      run_skip_of_fits _ rfl fits

theorem ExactItem.rule {item? : Parser (Option δ)} {items? : ι → Parser (Option δ)} {name : Rule}
    {enters : Token → Bool} (item : ExactItem limit item? (rules name) enters bound items?) :
    ExactItem limit item? (.rule name id) enters bound items? :=
  ⟨item.absent, item.absents, fun cursor within enters => (item.present cursor within enters).rule⟩

theorem Exact.orEmpty {parser : Parser δ} {form : Form (List α)} {wider : Form (List β)}
    {twins : ι → Parser δ} (holds : Exact limit parser (.orEmpty form) bound twins)
    (includes : ∀ phrase : Phrase form, ∃ other : Phrase wider, other.tokens = phrase.tokens) :
    Exact limit parser (.orEmpty wider) bound twins := by
  refine holds.widen fun phrase => ?_
  rcases phrase.choice_cases with ⟨inner, rfl⟩ | ⟨inner, rfl⟩
  · rcases includes inner with ⟨other, same⟩
    exact ⟨.left other, same⟩
  · exact ⟨.right ⟨[], .nothing⟩, by rw [inner.nothing_cases]; rfl⟩

theorem Exact.separated (close : String) (holds : Exact limit parser form bound twins) :
    Exact limit (Parser.separated close parser) (.orEmpty (.separated form)) bound fun index =>
      Parser.separated close (twins index) := by
  have link : ExactItem limit
      (do if ← skipSymbol "," then return some (← parser) else return none)
      (Form.skip (.symbol ",") form) (·.isSymbol ",") bound fun index =>
        (do if ← skipSymbol "," then return some (← twins index) else return none) :=
    .skip rfl (holds.pred.last some)
  apply Exact.unless close
  exact holds.bind (fun first => (Exact.many link rfl).last (first :: ·)) (Form.viable_many ..)

theorem Exact.after? {literal : String} (holds : Exact limit parser form bound twins) :
    Exact limit (Parser.after? literal parser) (.after literal form) bound fun index =>
      Parser.after? literal (twins index) :=
  .skip rfl (holds.pred.last some) (.pure none none)

end Plc.Parser
