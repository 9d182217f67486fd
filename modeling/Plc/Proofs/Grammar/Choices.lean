import Mathlib.Data.List.Forall2
import Plc.Proofs.Grammar.Reads

/-! Reading one of two phrases, and any number of them. What comes next decides which
phrase is read and whether there is another one. -/

namespace Plc.Parser

open Grammar

variable {parser : Parser δ} {cursor : Cursor} {limit : Nat} {form : Form α}
  {continues : Option Token → Bool} {agree : δ → α → Prop}

/-! ## Choices -/

theorem ReadsAt.congr {other : Parser δ} (reads : other.ReadsAt cursor form continues agree)
    (same : parser.run cursor = other.run cursor) :
    parser.ReadsAt cursor form continues agree := by
  unfold ReadsAt
  rw [same]
  exact reads

theorem ReadsAt.left {right : Form α} (reads : parser.ReadsAt cursor form continues agree)
    (absent : ∀ (other : Phrase right) rest, ¬other.Fronts continues cursor.rest rest) :
    parser.ReadsAt cursor (.choice form right) continues agree := by
  unfold ReadsAt at reads ⊢
  split at reads
  · rcases reads with ⟨phrase, consumed, agrees, only⟩
    refine ⟨phrase.left, consumed, agrees, fun other rest fronts => ?_⟩
    rcases other.choice_cases with ⟨inner, rfl⟩ | ⟨inner, rfl⟩
    · rw [only inner rest ⟨fronts.stops, fronts.eq⟩]
    · exact absurd ⟨fronts.stops, fronts.eq⟩ (absent inner rest)
  · intro other rest fronts
    rcases other.choice_cases with ⟨inner, rfl⟩ | ⟨inner, rfl⟩
    · exact reads inner rest ⟨fronts.stops, fronts.eq⟩
    · exact absent inner rest ⟨fronts.stops, fronts.eq⟩

theorem ReadsAt.right {left : Form α} (reads : parser.ReadsAt cursor form continues agree)
    (absent : ∀ (other : Phrase left) rest, ¬other.Fronts continues cursor.rest rest) :
    parser.ReadsAt cursor (.choice left form) continues agree := by
  unfold ReadsAt at reads ⊢
  split at reads
  · rcases reads with ⟨phrase, consumed, agrees, only⟩
    refine ⟨phrase.right, consumed, agrees, fun other rest fronts => ?_⟩
    rcases other.choice_cases with ⟨inner, rfl⟩ | ⟨inner, rfl⟩
    · exact absurd ⟨fronts.stops, fronts.eq⟩ (absent inner rest)
    · rw [only inner rest ⟨fronts.stops, fronts.eq⟩]
  · intro other rest fronts
    rcases other.choice_cases with ⟨inner, rfl⟩ | ⟨inner, rfl⟩
    · exact absent inner rest ⟨fronts.stops, fronts.eq⟩
    · exact reads inner rest ⟨fronts.stops, fronts.eq⟩

theorem absent_of_next {tokens : List Token}
    (apart : form.Avoids continues tokens.head?) (phrase : Phrase form) (rest : List Token) :
    ¬phrase.Fronts continues tokens rest := by
  intro fronts
  have begins := phrase.derivation.begins
  have eq := fronts.eq
  cases spelled : phrase.tokens with
  | nil =>
      rw [spelled, List.nil_append] at eq
      have stopped := fronts.stops
      rw [Stops, eq, apart.empty (begins.1 spelled)] at stopped
      cases stopped
  | cons start tail =>
      have first := begins.2 start (by rw [spelled]; rfl)
      rw [apart.first start (by rw [← eq, spelled]; rfl)] at first
      cases first

theorem absent_of_stops {tokens : List Token} (nonempty : form.nullable = false)
    (stops : Stops (·.any form.first) tokens) (phrase : Phrase form) (rest : List Token) :
    ¬phrase.Fronts continues tokens rest := by
  refine absent_of_next (.of_nonempty nonempty fun token member => ?_) phrase rest
  rw [Stops, member] at stops
  exact stops

theorem absent_of_first {tokens rest : List Token} {token : Token}
    (next : tokens = token :: rest) (nonempty : form.nullable = false)
    (first : form.first token = false) (phrase : Phrase form) (after : List Token) :
    ¬phrase.Fronts continues tokens after :=
  absent_of_stops nonempty (by rw [next]; exact first) phrase after

theorem ReadsAt.skip {property : Token → Bool} {other : Parser δ} {right : Form β}
    {convert : α → β} {make : Token → γ} {agree : δ → β → Prop} {skipped : Parser Bool}
    (within : cursor.Within limit)
    (skips : skipped = do return (← Parser.take? property).isSome)
    (whenTrue : Reads (limit - 1) parser form continues fun result value =>
      agree result (convert value))
    (whenFalse : Stops (·.any property) cursor.rest → other.ReadsAt cursor right continues agree)
    (apart : ∀ token, property token = true → right.Avoids continues (some token)) :
    (skipped >>= fun found => if found then parser else other).ReadsAt cursor
      (.choice (.sequence (.terminal property make) form fun _ value => convert value) right)
      continues agree := by
  subst skips
  rcases next_cases property cursor.rest with stops | ⟨token, rest, next, fits⟩
  · apply ReadsAt.right ((whenFalse stops).congr (run_skip_of_stops _ stops))
    refine absent_of_stops rfl (stops.mono fun next first => ?_)
    simpa using first
  · refine ReadsAt.left ?_ (absent_of_next (by rw [next]; exact apart token fits))
    have reads : Reads limit (Parser.take "" property >>= fun _ => parser)
        (.sequence (.terminal property make) form fun _ value => convert value) continues agree :=
      .token fun _ _ => whenTrue
    refine (reads cursor within).congr ((run_skip_of_fits _ next fits).trans ?_)
    rw [run_take_bind_of_fits property next fits]
    rfl

theorem Reads.skip {property : Token → Bool} {other : Parser δ} {right : Form β}
    {convert : α → β} {make : Token → γ} {agree : δ → β → Prop} {skipped : Parser Bool}
    (skips : skipped = do return (← Parser.take? property).isSome)
    (whenTrue : Reads (limit - 1) parser form continues fun result value =>
      agree result (convert value))
    (whenFalse : Reads limit other right continues agree)
    (apart : ∀ token, property token = true → right.Avoids continues (some token)) :
    Reads limit (skipped >>= fun found => if found then parser else other)
      (.choice (.sequence (.terminal property make) form fun _ value => convert value) right)
      continues agree :=
  fun cursor within => .skip within skips whenTrue (fun _ => whenFalse cursor within) apart

theorem Reads.optional {property : Token → Bool} {skipped : Parser Bool} {make : Token → α}
    {value : α} (skips : skipped = do return (← Parser.take? property).isSome) :
    Reads limit skipped (.choice (.terminal property make) (.nothing value)) (·.any property)
      fun _ _ => True := by
  intro cursor within
  subst skips
  rcases next_cases property cursor.rest with stops | ⟨token, rest, next, fits⟩
  · have none : Reads limit (Pure.pure false) (.nothing value) (·.any property) fun _ _ => True :=
      .pure trivial
    refine ReadsAt.right ((none cursor within).congr ?_) ?_
    · rw [run_bind, run_take?_of_stops stops]
      rfl
    · exact absent_of_stops rfl stops
  · have some : Reads limit (do let _ ← Parser.take "" property; return true)
        (.terminal property make) (·.any property) fun _ _ => True :=
      (Reads.take "" property make).last fun _ _ _ => trivial
    refine ReadsAt.left ((some cursor within).congr ?_) ?_
    · rw [run_bind, run_take?_of_fits next fits, run_take_bind_of_fits property next fits]
      rfl
    · exact absent_of_next ⟨fun _ _ => rfl, fun _ => by rw [next]; exact fits⟩

theorem ReadsAt.guarded {property : Token → Bool} (nonempty : form.nullable = false)
    (reads : parser.ReadsAt cursor form continues agree)
    (allowed : ∀ token ∈ cursor.rest.head?, property token = true) :
    parser.ReadsAt cursor (.guarded property form) continues agree := by
  unfold ReadsAt at reads ⊢
  split at reads
  · rcases reads with ⟨⟨tokens, derivation⟩, consumed, agrees, only⟩
    cases tokens with
    | nil => exact absurd rfl (Phrase.tokens_ne_nil ⟨[], derivation⟩ nonempty)
    | cons token tokens =>
        have fits := allowed token (by rw [consumed]; rfl)
        refine ⟨⟨token :: tokens, .guarded derivation fits⟩, consumed, agrees,
          fun other rest fronts => ?_⟩
        rcases other.guarded_cases with ⟨start, tail, inner, fits, rfl⟩
        cases only ⟨start :: tail, inner⟩ rest ⟨fronts.stops, fronts.eq⟩
        rfl
  · intro other rest fronts
    rcases other.guarded_cases with ⟨start, tail, inner, fits, rfl⟩
    exact reads ⟨start :: tail, inner⟩ rest ⟨fronts.stops, fronts.eq⟩

/-! ## Repetition -/

/-- The parser reads an item when the next token enters one, and else gives nothing. -/
def ReadsItem (limit : Nat) (item? : Parser (Option δ)) (item : Form α)
    (enters : Token → Bool) (continues : Option Token → Bool) (agree : δ → α → Prop) : Prop :=
  ∀ cursor : Cursor, cursor.Within limit →
    (Stops (·.any enters) cursor.rest ∧ item?.run cursor = .ok (none, cursor)) ∨
    (¬Stops (·.any enters) cursor.rest ∧ item?.ReadsAt cursor item continues fun found value =>
      ∃ result, found = some result ∧ agree result value)

/-- An item begins with a token, which is one that enters it and continues none. -/
structure Repeats (item : Form α) (enters : Token → Bool) (continues : Option Token → Bool) :
    Prop where
  nonempty : item.nullable = false
  enters : ∀ token, item.first token = true → enters token = true
  apart : ∀ token, continues (some token) = true → item.first token = false

theorem ReadsAt.more {agree : δ → List α → Prop}
    (reads : parser.ReadsAt cursor (.sequence form (.list form) List.cons) continues agree)
    (goesOn : ¬Stops continues cursor.rest) :
    parser.ReadsAt cursor (.list form) continues agree := by
  unfold ReadsAt at reads ⊢
  split at reads
  · rcases reads with ⟨phrase, consumed, agrees, only⟩
    rcases phrase.sequence_cases with ⟨head, tail, rfl⟩
    refine ⟨head.more tail, consumed, agrees, fun other rest fronts => ?_⟩
    rcases other.many_cases with rfl | ⟨otherHead, otherTail, rfl⟩
    · exact absurd (fronts.eq ▸ fronts.stops) goesOn
    · have same := only (otherHead.sequence otherTail) rest ⟨fronts.stops, fronts.eq⟩
      exact congrArg Phrase.ofSequence same
  · intro other rest fronts
    rcases other.many_cases with rfl | ⟨otherHead, otherTail, rfl⟩
    · exact absurd (fronts.eq ▸ fronts.stops) goesOn
    · exact reads (otherHead.sequence otherTail) rest ⟨fronts.stops, fronts.eq⟩

theorem ReadsAt.done {parser : Parser (List δ)} {enters : Token → Bool}
    (repeats : Repeats form enters continues) (stops : Stops (·.any enters) cursor.rest)
    (ran : parser.run cursor = .ok ([], cursor)) :
    parser.ReadsAt cursor (.list form) (fun next => next.any enters || continues next)
      (List.Forall₂ agree) := by
  unfold ReadsAt
  rw [ran]
  refine ⟨.done, rfl, .nil, fun other rest fronts => ?_⟩
  rcases other.many_cases with rfl | ⟨head, tail, rfl⟩
  · rfl
  · have eq : head.tokens ++ (tail.tokens ++ rest) = cursor.rest := by
      rw [← List.append_assoc]
      exact fronts.eq
    have starts : Stops (·.any form.first) cursor.rest := by
      apply stops.mono
      intro next first
      cases next with
      | none => cases first
      | some token => exact repeats.enters token first
    have absent : ¬head.Fronts (fun _ => false) cursor.rest (tail.tokens ++ rest) :=
      absent_of_stops repeats.nonempty starts head _
    exact absurd ⟨rfl, eq⟩ absent

theorem manyUpTo_reads {item? : Parser (Option δ)} {enters : Token → Bool}
    (repeats : Repeats form enters continues)
    (reads : ReadsItem limit item? form enters continues agree) (count : Nat)
    (enough : count ≤ limit) :
    Reads count (manyUpTo item? count) (.list form) (fun next => next.any enters || continues next)
      (List.Forall₂ agree) := by
  induction count with
  | zero =>
      intro cursor within
      exact ReadsAt.done repeats (by rw [within.rest_eq_nil]; rfl) rfl
  | succ count induction =>
      intro cursor within
      rcases reads cursor (within.mono enough) with ⟨stops, none⟩ | ⟨enters, found⟩
      · apply ReadsAt.done repeats stops
        rw [manyUpTo, run_bind, none]
        rfl
      · refine ReadsAt.more (found.bind within (fun result value agrees => ?_) ?_) ?_
        · rcases agrees with ⟨result, rfl, agrees⟩
          rw [repeats.nonempty]
          exact (induction (Nat.le_of_succ_le enough)).last fun _ _ => .cons agrees
        · intro next continuing
          refine ⟨fun token member => repeats.apart token ?_, fun _ => ?_⟩
          · rw [← Option.mem_def.mp member]
            exact continuing
          · rw [continuing, Bool.or_true]
        · exact fun stops => enters (stops.mono fun next entering => by rw [entering]; rfl)

theorem Reads.many {item? : Parser (Option δ)} {enters : Token → Bool}
    (repeats : Repeats form enters continues)
    (reads : ReadsItem limit item? form enters continues agree) :
    Reads limit (Parser.many item?) (.list form) (fun next => next.any enters || continues next)
      (List.Forall₂ agree) := by
  intro cursor within
  exact (manyUpTo_reads repeats reads cursor.rest.length within.length cursor
    ⟨Nat.le_refl _, within.spelled⟩).congr rfl

theorem ReadsItem.skip {property : Token → Bool} {parser : Parser (Option δ)} {convert : α → β}
    {make : Token → γ} {agree : δ → β → Prop} {skipped : Parser Bool}
    (skips : skipped = do return (← Parser.take? property).isSome)
    (reads : Reads (limit - 1) parser form continues fun found value =>
      ∃ result, found = some result ∧ agree result (convert value)) :
    ReadsItem limit (skipped >>= fun found => if found then parser else Pure.pure none)
      (.sequence (.terminal property make) form fun _ value => convert value) property continues
      agree := by
  intro cursor within
  subst skips
  rcases next_cases property cursor.rest with stops | ⟨token, rest, next, fits⟩
  · exact .inl ⟨stops, run_skip_of_stops _ stops⟩
  · have found : Reads limit (Parser.take "" property >>= fun _ => parser)
        (.sequence (.terminal property make) form fun _ value => convert value) continues
        fun found value => ∃ result, found = some result ∧ agree result value :=
      .token fun _ _ => reads
    refine .inr ⟨not_stops_of_fits next fits, (found cursor within).congr ?_⟩
    apply (run_skip_of_fits _ next fits).trans
    rw [run_take_bind_of_fits property next fits]
    rfl

theorem ReadsItem.rule {item? : Parser (Option δ)} {name : Rule} {enters : Token → Bool}
    {agree : δ → name.Tree → Prop}
    (reads : ReadsItem limit item? (rules name) enters continues agree) :
    ReadsItem limit item? (.rule name id) enters continues agree := by
  intro cursor within
  rcases reads cursor within with stops | ⟨entering, found⟩
  · exact .inl stops
  · exact .inr ⟨entering, found.rule⟩

theorem Reads.separated {item : Parser δ} (reads : Reads limit item form continues agree)
    (nonempty : form.nullable = false)
    (apart : ∀ token, continues (some token) = true → token.isSymbol "," = false) :
    Reads limit (do
      let first ← item
      let others ← Parser.many do
        if ← skipSymbol "," then return some (← item) else return none
      return first :: others)
      (.separated form) (fun next => next.any (·.isSymbol ",") || continues next)
      (List.Forall₂ agree) := by
  have link : ReadsItem limit (do if ← skipSymbol "," then return some (← item) else return none)
      (Form.skip (.symbol ",") form) (·.isSymbol ",") continues agree :=
    .skip rfl ((reads.shorter (Nat.sub_le _ _)).last fun result _ agrees =>
      ⟨result, rfl, agrees⟩)
  have first : ∀ token, (Form.skip (.symbol ",") form).first token = token.isSymbol "," :=
    fun token => by simp
  have repeats : Repeats (Form.skip (.symbol ",") form) (·.isSymbol ",") continues :=
    ⟨rfl, fun token begins => (first token).symm.trans begins,
      fun token continuing => (first token).trans (apart token continuing)⟩
  refine reads.bind (fun result value agrees => ?_) fun next continuing => ?_
  · rw [nonempty]
    exact ((Reads.many repeats link).shorter (Nat.sub_le _ _)).last fun _ _ => .cons agrees
  · refine ⟨fun token member => ?_, fun _ => by rw [continuing, Bool.or_true]⟩
    rw [Option.mem_def.mp member] at continuing
    exact repeats.apart token continuing

theorem Reads.unless (close : String) {default : δ} {value : α}
    (reads : Reads limit parser form continues agree) (agrees : agree default value)
    (nonempty : form.nullable = false)
    (apart : ∀ token, token.isSymbol close = true →
      form.first token = false ∧ continues (some token) = false)
    (ends : continues none = false) :
    Reads limit (do if ← nextIs (·.isSymbol close) then return default else parser)
      (.choice form (.nothing value)) (fun next => !next.any (·.isSymbol close)) agree := by
  intro cursor within
  cases closing : cursor.rest.head?.any (·.isSymbol close) with
  | true =>
      have none : Reads limit (Pure.pure default) (.nothing value)
          (fun next => !next.any (·.isSymbol close)) agree := .pure agrees
      refine ReadsAt.right ((none cursor within).congr ?_) ?_
      · rw [run_nextIs_bind, closing]
        rfl
      · refine absent_of_next (.of_nonempty nonempty fun token member => ?_)
        rw [Option.mem_def.mp member] at closing
        exact (apart token closing).1
  | false =>
      refine ReadsAt.left (((reads cursor within).mono (fun next continuing => ?_)
        fun _ _ => id).congr ?_) ?_
      · cases next with
        | none =>
            rw [ends] at continuing
            cases continuing
        | some token =>
            refine Bool.not_eq_true' _ |>.mpr (Bool.eq_false_iff.mpr fun closes => ?_)
            rw [(apart token closes).2] at continuing
            cases continuing
      · rw [run_nextIs_bind, closing]
        rfl
      · exact absent_of_next ⟨fun _ _ => rfl, fun _ => by rw [closing]; rfl⟩

theorem Reads.after? {literal : String} {item : Parser δ}
    (reads : Reads limit item form continues agree) :
    Reads limit (Parser.after? literal item) (.after literal form)
      (fun next => next.any (·.isSymbol literal) || continues next) (Option.Rel agree) := by
  have given : Reads (limit - 1) (do return some (← item)) form
      (fun next => next.any (·.isSymbol literal) || continues next)
      fun found value => Option.Rel agree found (some value) := by
    refine Reads.last (reads.mono (Nat.sub_le _ _) (fun next continuing => ?_) fun _ _ => id)
      fun _ _ => .some
    rw [continuing, Bool.or_true]
  refine Reads.skip rfl given (Reads.pure .none) fun token fits => .of_token rfl fun _ => ?_
  rw [Option.any_some, fits, Bool.true_or]

end Plc.Parser
