import Plc.Proofs.Grammar.Located
import Plc.Proofs.Token.Tiling
import Plc.Proofs.Typing.Sound

/-! Where the expressions of a program stand in its text: each at the token it begins with,
and those it is made of behind it, from left to right. -/

namespace Plc

open Spelling

/-! ## Parts of an expression -/

def Expr.children : Expr → List Expr
  | .literal .. | .access .. => []
  | .group _ inner | .element _ _ inner => [inner]
  | .binary _ _ left right => [left, right]
  | .call _ _ parts | .list _ parts => parts

/-- The token is one that the expression begins with. -/
def Expr.Begins : Expr → Token → Prop
  | .literal _ value, token => Literal.ofToken? token = some value
  | .group .., token => token.isSymbol "(" = true
  | .binary _ _ left _, token => left.Begins token
  | .access _ name, token | .element _ name _, token | .call _ name _, token =>
      token.kind = .identifier ∧ token.literal = name
  | .list .., token => token.isSymbol "[" = true

/-! ## First tokens -/

theorem exists_cons_of_mem_one_mul {property : Token → Prop} {others : Language Token}
    {tokens : List Token} (member : tokens ∈ one property * others) :
    ∃ first rest, tokens = first :: rest ∧ property first ∧ rest ∈ others := by
  rcases Language.mem_mul.mp member with ⟨_, ⟨first, holds, rfl⟩, rest, inOthers, rfl⟩
  exact ⟨first, rest, rfl, holds, inOthers⟩

theorem Expr.exists_first : ∀ {expression : Expr} {tokens : List Token},
    tokens ∈ expression.spellings →
      ∃ first rest, tokens = first :: rest ∧ expression.Begins first
  | .literal .., _, ⟨⟨first, spelled, same⟩, _⟩ => ⟨first, [], same, spelled⟩
  | .group .., _, ⟨member, _⟩ => by
      rw [mul_assoc] at member
      rcases exists_cons_of_mem_one_mul member with ⟨first, rest, same, opens, -⟩
      exact ⟨first, rest, same, opens⟩
  | .binary _ _ left _, _, ⟨member, _⟩ => by
      rw [mul_assoc] at member
      rcases Language.mem_mul.mp member with ⟨front, inLeft, back, -, rfl⟩
      rcases Expr.exists_first inLeft with ⟨first, rest, rfl, begins⟩
      exact ⟨first, rest ++ back, rfl, begins⟩
  | .access .., _, ⟨member, _⟩ => by
      rcases exists_cons_of_mem_one_mul member with ⟨first, rest, same, named, -⟩
      exact ⟨first, rest, same, named.1, named.2.1⟩
  | .element .., _, ⟨member, _⟩ | .call .., _, ⟨member, _⟩ => by
      rw [mul_assoc, mul_assoc] at member
      rcases exists_cons_of_mem_one_mul member with ⟨first, rest, same, named, -⟩
      exact ⟨first, rest, same, named.1, named.2.1⟩
  | .list .., _, ⟨member, _⟩ => by
      rw [mul_assoc] at member
      rcases exists_cons_of_mem_one_mul member with ⟨first, rest, same, opens, -⟩
      exact ⟨first, rest, same, opens⟩

/-! ## Expressions that stand in a program -/

/-- Every list of the language has a spelling of the expression in it. -/
def Contains (language : Language Token) (part : Expr) : Prop :=
  ∀ tokens ∈ language, ∃ span ∈ part.spellings, span <:+: tokens

namespace Contains

variable {language other : Language Token} {part : Expr}

theorem self (part : Expr) : Contains part.spellings part :=
  fun tokens member => ⟨tokens, member, List.infix_rfl⟩

theorem left (contains : Contains language part) (other : Language Token) :
    Contains (language * other) part := by
  intro tokens member
  rcases Language.mem_mul.mp member with ⟨front, inFront, back, -, rfl⟩
  rcases contains front inFront with ⟨span, spelled, inside⟩
  exact ⟨span, spelled, inside.trans (List.prefix_append front back).isInfix⟩

theorem right (contains : Contains other part) (language : Language Token) :
    Contains (language * other) part := by
  intro tokens member
  rcases Language.mem_mul.mp member with ⟨front, -, back, inBack, rfl⟩
  rcases contains back inBack with ⟨span, spelled, inside⟩
  exact ⟨span, spelled, inside.trans (List.suffix_append front back).isInfix⟩

theorem startingAt (contains : Contains language part) (offset : Nat) :
    Contains (startingAt offset language) part :=
  fun tokens member => contains tokens member.1

theorem prod {items : List (Language Token)} (member : language ∈ items)
    (contains : Contains language part) : Contains items.prod part := by
  rcases List.append_of_mem member with ⟨before, after, rfl⟩
  rw [List.prod_append, List.prod_cons]
  exact (contains.left _).right _

theorem listed {items : List (Language Token)} (member : language ∈ items)
    (contains : Contains language part) : Contains (listed items) part := by
  cases items with
  | nil => cases member
  | cons head tail =>
      rw [Spelling.listed, followed_eq_prod]
      rcases List.mem_cons.mp member with rfl | member
      · exact contains.left _
      · exact (prod (List.mem_map_of_mem member) (contains.right _)).right _

theorem otherwise (contains : Contains language part) :
    Contains (otherwise false language) part := by
  rw [Spelling.otherwise, if_neg Bool.false_ne_true, add_zero]
  exact contains.right _

end Contains

mutual

theorem Expr.contains {part : Expr} : ∀ {expression : Expr}, part ∈ expression.subterms →
    Contains expression.spellings part
  | .literal .., member | .access .., member => by
      cases List.mem_singleton.mp member
      exact .self _
  | .group _ inner, member => by
      rcases List.mem_cons.mp member with rfl | member
      · exact .self _
      · exact (((Expr.contains member).right _).left _).startingAt _
  | .binary _ _ left right, member => by
      rcases List.mem_cons.mp member with rfl | member
      · exact .self _
      · apply Contains.startingAt
        rcases List.mem_append.mp member with member | member
        · exact ((Expr.contains member).left _).left _
        · exact (Expr.contains member).right _
  | .element _ _ index, member => by
      rcases List.mem_cons.mp member with rfl | member
      · exact .self _
      · exact (((Expr.contains member).right _).left _).startingAt _
  | .call _ _ parts, member | .list _ parts, member => by
      rcases List.mem_cons.mp member with rfl | member
      · exact .self _
      · rcases Expr.exists_contains member with ⟨language, among, contains⟩
        exact (((Contains.listed among contains).right _).left _).startingAt _

theorem Expr.exists_contains {part : Expr} : ∀ {expressions : List Expr},
    part ∈ Expr.subtermsOfAll expressions →
      ∃ language ∈ Expr.spellingsOfEach expressions, Contains language part
  | [], member => by cases member
  | head :: tail, member => by
      rcases List.mem_append.mp member with member | member
      · exact ⟨head.spellings, .head _, Expr.contains member⟩
      · rcases Expr.exists_contains member with ⟨language, among, contains⟩
        exact ⟨language, .tail _ among, contains⟩

end

theorem Expr.contains_value? {part : Expr} {value : Option Expr}
    (member : part ∈ (value.map Expr.subterms).getD []) :
    Contains (Expr.spellingsOf? value) part := by
  cases value with
  | none => cases member
  | some value => exact (Expr.contains member).right _

mutual

theorem Stmt.contains {part : Expr} : ∀ {statement : Stmt}, part ∈ statement.subterms →
    Contains statement.spellings part
  | .expression _, member => (Expr.contains member).left _
  | .declaration .., member => ((Expr.contains_value? member).right _).left _
  | .assignment .., member => by
      rcases List.mem_append.mp member with member | member
      · exact (((Expr.contains member).left _).left _).left _
      · exact ((Expr.contains member).right _).left _
  | .conditional _ _ whenFalse, member => by
      rcases List.mem_append.mp member with member | member
      · rcases List.mem_append.mp member with member | member
        · exact (((((Expr.contains member).right _).left _).left _).left _).left _
        · exact (((Stmt.containsAll member).right _).left _).left _
      · have written : whenFalse.isEmpty = false := by
          cases whenFalse with
          | nil => cases member
          | cons head tail => rfl
        rw [Stmt.spellings, written]
        exact ((Stmt.containsAll member).otherwise.right _).left _
  | .switch .., member => by
      rcases List.mem_append.mp member with member | member
      · exact (((Expr.contains member).right _).left _).left _
      · exact ((Case.containsAll member).right _).left _
  | .loop .., member => by
      rcases List.mem_append.mp member with member | member
      · exact ((((Expr.contains member).right _).left _).left _).left _
      · exact ((Stmt.containsAll member).right _).left _
  | .returns _, member => ((Expr.contains member).right _).left _

theorem Stmt.containsAll {part : Expr} : ∀ {statements : List Stmt},
    part ∈ Stmt.subtermsOfAll statements → Contains (Stmt.spellingsOfAll statements) part
  | [], member => by cases member
  | head :: tail, member => by
      rcases List.mem_append.mp member with member | member
      · exact (Stmt.contains member).left _
      · exact (Stmt.containsAll member).right _

theorem Case.contains {part : Expr} : ∀ {branch : Case}, part ∈ branch.subterms →
    Contains branch.spellings part
  | .mk none body, member => (Stmt.containsAll member).right _
  | .mk (some value) body, member => by
      rcases List.mem_append.mp member with member | member
      · exact (((Expr.contains member).right _).left _).left _
      · exact (Stmt.containsAll member).right _

theorem Case.containsAll {part : Expr} : ∀ {cases : List Case},
    part ∈ Case.subtermsOfAll cases → Contains (Case.spellingsOfAll cases) part
  | [], member => by cases member
  | head :: tail, member => by
      rcases List.mem_append.mp member with member | member
      · exact (Case.contains member).left _
      · exact (Case.containsAll member).right _

end

/-- An expression of a program has tokens of its own among those of the program. -/
theorem Program.contains {program : Program} {part : Expr} (member : part ∈ program.subterms) :
    Contains program.spellings part := by
  rcases List.mem_append.mp member with inGlobals | inProcedures
  · rcases List.mem_flatMap.mp inGlobals with ⟨declaration, declared, inside⟩
    have contains : Contains declaration.spellings part :=
      ((Expr.contains_value? inside).right _).left _
    exact (Contains.prod (List.mem_map_of_mem declared) contains).left _
  · rcases List.mem_flatMap.mp inProcedures with ⟨procedure, declared, inside⟩
    have contains : Contains procedure.spellings part :=
      ((Stmt.containsAll inside).right _).left _
    exact (Contains.prod (List.mem_map_of_mem declared) contains).right _

/-! ## Order -/

/-- The expressions stand in the tokens one after the other. -/
def Succeed : List Expr → List Token → Prop
  | [], _ => True
  | head :: tail, tokens => ∃ before span after, tokens = before ++ span ++ after ∧
      span ∈ head.spellings ∧ Succeed tail after

theorem Succeed.append_left {expressions : List Expr} {tokens : List Token}
    (succeed : Succeed expressions tokens) (front : List Token) :
    Succeed expressions (front ++ tokens) := by
  cases expressions with
  | nil => trivial
  | cons head tail =>
      rcases succeed with ⟨before, span, after, rfl, spelled, others⟩
      exact ⟨front ++ before, span, after, by simp only [List.append_assoc], spelled, others⟩

theorem Succeed.append_right {expressions : List Expr} {tokens : List Token}
    (succeed : Succeed expressions tokens) (back : List Token) :
    Succeed expressions (tokens ++ back) := by
  induction expressions generalizing tokens with
  | nil => trivial
  | cons head tail induction =>
      rcases succeed with ⟨before, span, after, rfl, spelled, others⟩
      exact ⟨before, span, after ++ back, by simp only [List.append_assoc], spelled,
        induction others⟩

theorem Succeed.cons {head : Expr} {tail : List Expr} {span after : List Token}
    (spelled : span ∈ head.spellings) (others : Succeed tail after) :
    Succeed (head :: tail) (span ++ after) :=
  ⟨[], span, after, rfl, spelled, others⟩

theorem Succeed.followed {expressions : List Expr} {tokens : List Token}
    (member : tokens ∈ followed (expressions.map Expr.spellings)) :
    Succeed expressions tokens := by
  induction expressions generalizing tokens with
  | nil => trivial
  | cons head tail induction =>
      rcases Language.mem_mul.mp member with ⟨_, front, after, others, rfl⟩
      rcases Language.mem_mul.mp front with ⟨comma, -, span, spelled, rfl⟩
      rw [List.append_assoc]
      exact (Succeed.cons spelled (induction others)).append_left comma

theorem Succeed.listed {expressions : List Expr} {tokens : List Token}
    (member : tokens ∈ listed (Expr.spellingsOfEach expressions)) :
    Succeed expressions tokens := by
  rw [Expr.spellingsOfEach_eq_map] at member
  cases expressions with
  | nil => trivial
  | cons head tail =>
      rcases Language.mem_mul.mp member with ⟨span, spelled, after, others, rfl⟩
      exact .cons spelled (.followed others)

theorem Succeed.one {expression : Expr} {tokens : List Token}
    (spelled : tokens ∈ expression.spellings) : Succeed [expression] tokens :=
  ⟨[], tokens, [], (List.append_nil tokens).symm, spelled, trivial⟩

/-- What an expression is made of stands behind its first token, unless it is an operation. -/
theorem Expr.succeed_tail {expression : Expr} {tokens : List Token}
    (spelled : tokens ∈ expression.spellings) (simple : expression.isBinary = false) :
    Succeed expression.children tokens.tail := by
  cases expression with
  | literal node value | access node name => trivial
  | binary node operator left right => cases simple
  | group node inner =>
      have member := spelled.1
      rw [mul_assoc] at member
      rcases exists_cons_of_mem_one_mul member with ⟨opening, rest, rfl, -, member⟩
      rcases Language.mem_mul.mp member with ⟨span, inner, closing, -, rfl⟩
      exact (Succeed.one inner).append_right closing
  | list node elements =>
      have member := spelled.1
      rw [mul_assoc] at member
      rcases exists_cons_of_mem_one_mul member with ⟨opening, rest, rfl, -, member⟩
      rcases Language.mem_mul.mp member with ⟨span, inner, closing, -, rfl⟩
      exact (Succeed.listed inner).append_right closing
  | element node name index =>
      have member := spelled.1
      rw [mul_assoc, mul_assoc] at member
      rcases exists_cons_of_mem_one_mul member with ⟨name, rest, rfl, -, member⟩
      rcases exists_cons_of_mem_one_mul member with ⟨opening, rest, rfl, -, member⟩
      rcases Language.mem_mul.mp member with ⟨span, inner, closing, -, rfl⟩
      exact ((Succeed.one inner).append_right closing).append_left [opening]
  | call node name arguments =>
      have member := spelled.1
      rw [mul_assoc, mul_assoc] at member
      rcases exists_cons_of_mem_one_mul member with ⟨name, rest, rfl, -, member⟩
      rcases exists_cons_of_mem_one_mul member with ⟨opening, rest, rfl, -, member⟩
      rcases Language.mem_mul.mp member with ⟨span, inner, closing, -, rfl⟩
      exact ((Succeed.listed inner).append_right closing).append_left [opening]

theorem Expr.succeed {expression : Expr} {tokens : List Token}
    (spelled : tokens ∈ expression.spellings) : Succeed expression.children tokens := by
  cases simple : expression.isBinary with
  | false =>
      rcases Expr.exists_first spelled with ⟨first, rest, rfl, -⟩
      exact (Expr.succeed_tail spelled simple).append_left [first]
  | true =>
      cases expression with
      | binary node operator left right =>
          rcases Language.mem_mul.mp spelled.1 with ⟨_, front, after, inRight, rfl⟩
          rcases Language.mem_mul.mp front with ⟨span, inLeft, sign, -, rfl⟩
          rw [List.append_assoc]
          exact .cons inLeft ((Succeed.one inRight).append_left sign)
      | _ => cases simple

/-- The offset of an expression is that of its first token. -/
theorem Expr.exists_first_at {expression : Expr} {tokens : List Token}
    (spelled : tokens ∈ expression.spellings) :
    ∃ first rest, tokens = first :: rest ∧ expression.Begins first ∧
      first.offset = expression.node.offset := by
  rcases Expr.exists_first spelled with ⟨first, rest, rfl, begins⟩
  exact ⟨first, rest, rfl, begins, Option.some.inj (expression.starts _ spelled)⟩

section

variable {expressions : List Expr} {tokens : List Token}

theorem Succeed.exists_offset (succeed : Succeed expressions tokens) {expression : Expr}
    (member : expression ∈ expressions) :
    ∃ token ∈ tokens, token.offset = expression.node.offset := by
  induction expressions generalizing tokens with
  | nil => cases member
  | cons head tail induction =>
      rcases succeed with ⟨before, span, after, rfl, spelled, others⟩
      rcases List.mem_cons.mp member with rfl | member
      · rcases Expr.exists_first_at spelled with ⟨first, rest, rfl, -, offset⟩
        exact ⟨first, by simp, offset⟩
      · rcases induction others member with ⟨token, among, offset⟩
        exact ⟨token, List.mem_append_right _ among, offset⟩

theorem Succeed.pairwise (succeed : Succeed expressions tokens)
    (sorted : tokens.Pairwise fun token next => token.offset < next.offset) :
    expressions.Pairwise fun expression next => expression.node.offset < next.node.offset := by
  induction expressions generalizing tokens with
  | nil => exact .nil
  | cons head tail induction =>
      rcases succeed with ⟨before, span, after, rfl, spelled, others⟩
      rw [List.pairwise_append] at sorted
      refine .cons (fun next member => ?_) (induction others sorted.2.1)
      rcases Expr.exists_first_at spelled with ⟨first, rest, rfl, -, offset⟩
      rcases others.exists_offset member with ⟨token, among, same⟩
      rw [← offset, ← same]
      exact sorted.2.2 first (by simp) token among

end

theorem Token.offset_lt_of_scan {text : String} {tokens : List Token}
    (scanned : Token.scan text = .ok tokens) :
    tokens.Pairwise fun token next => token.offset < next.offset := by
  apply (Token.cuts_of_scan scanned).pairwise.imp_of_mem
  intro token next member _ stops
  have nonempty : token.literal.utf8ByteSize ≠ 0 := fun empty =>
    (Token.scan_tiles scanned).nonempty token member (String.utf8ByteSize_eq_zero_iff.mp empty)
  unfold Token.stop at stops
  omega

/-! ## Programs -/

/-- The expression was read from tokens of the text, the first of which stands at its offset.
An operation begins with its left operand, anything else before its parts, and parts follow
each other from left to right. -/
structure Expr.Located (expression : Expr) (text : String) (tokens : List Token) : Prop where
  first : ∃ first rest, first :: rest <:+: tokens ∧ first :: rest ∈ expression.spellings ∧
    first.offset = expression.node.offset ∧ expression.Begins first ∧
    ∃ before after, text = before ++ first.literal ++ after ∧
      before.utf8ByteSize = expression.node.offset
  operation : ∀ node operator left right, expression = .binary node operator left right →
    node.offset = left.node.offset
  inside : expression.isBinary = false →
    ∀ child ∈ expression.children, expression.node.offset < child.node.offset
  ordered : expression.children.Pairwise fun child next => child.node.offset < next.node.offset

theorem Expr.located_of_spellings {expression : Expr} {text : String} {tokens span : List Token}
    (scanned : Token.scan text = .ok tokens) (spelled : span ∈ expression.spellings)
    (inside : span <:+: tokens) : expression.Located text tokens := by
  have sorted := (Token.offset_lt_of_scan scanned).sublist inside.sublist
  rcases Expr.exists_first_at spelled with ⟨first, rest, rfl, begins, offset⟩
  refine ⟨⟨first, rest, inside, spelled, offset, begins, ?_⟩, ?_, ?_, ?_⟩
  · rcases Token.exists_append_of_scan scanned (inside.subset (List.mem_cons_self))
      with ⟨before, after, same, starts, -⟩
    exact ⟨before, after, same, starts.trans offset⟩
  · rintro node operator left right rfl
    rcases Language.mem_mul.mp spelled.1 with ⟨_, front, after, -, same⟩
    rcases Language.mem_mul.mp front with ⟨_, inLeft, sign, -, rfl⟩
    rcases Expr.exists_first_at inLeft with ⟨other, others, rfl, -, leftOffset⟩
    cases same
    exact offset.symm.trans leftOffset
  · intro simple child member
    rcases (Expr.succeed_tail spelled simple).exists_offset member with ⟨token, among, same⟩
    rw [← offset, ← same]
    exact (List.pairwise_cons.mp sorted).1 token among
  · exact (Expr.succeed spelled).pairwise sorted

/-- A program that was read has the offsets of the tokens it was read from: all its
expressions are at the byte at which the first of their tokens stands in the text. -/
theorem Program.expressions_located {text : String} {tokens : List Token} {program : Program}
    (scanned : Token.scan text = .ok tokens) (parsed : Program.ofTokens tokens = .ok program) :
    tokens ∈ program.spellings ∧
      ∀ expression ∈ program.subterms, expression.Located text tokens := by
  have spelled := Program.mem_spellings parsed
  refine ⟨spelled, fun expression member => ?_⟩
  rcases Program.contains member tokens spelled with ⟨span, inSpan, inside⟩
  exact Expr.located_of_spellings scanned inSpan inside

/-- An operation begins where its first operand does, and an accent takes two bytes. -/
theorem Program.expressions_located_of_accent :
    ∃ tokens program,
      Token.scan "LIST l=['é',f(a+b*2,(c/1))];VAR x=l[a];" = .ok tokens ∧
      Program.ofTokens tokens = .ok program ∧
      program.subterms.map (·.node.offset) =
        [7, 8, 13, 15, 15, 17, 17, 19, 21, 22, 22, 24, 35, 37] ∧
      tokens ∈ program.spellings ∧
      ∀ expression ∈ program.subterms,
        expression.Located "LIST l=['é',f(a+b*2,(c/1))];VAR x=l[a];" tokens := by
  have computed : ((Token.scan "LIST l=['é',f(a+b*2,(c/1))];VAR x=l[a];").toOption.any
      fun tokens => (Program.ofTokens tokens).toOption.any fun program =>
        program.subterms.map (·.node.offset) ==
          [7, 8, 13, 15, 15, 17, 17, 19, 21, 22, 22, 24, 35, 37]) = true := by decide +kernel
  rcases exists_ok_of_any computed with ⟨tokens, scanned, computed⟩
  rcases exists_ok_of_any computed with ⟨program, parsed, offsets⟩
  have located := Program.expressions_located scanned parsed
  exact ⟨tokens, program, scanned, parsed, beq_iff_eq.mp offsets, located.1, located.2⟩

end Plc
