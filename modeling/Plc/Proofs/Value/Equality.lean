import Plc.Proofs.Machine.Ensures
import Plc.Proofs.Value.Scalar
import Plc.Proofs.Value.Unfolding

/-! Values are equal if they are the same once their lists are written out. Comparing looks first
whether two lists are one and the same; that saves work and never changes the answer. -/

namespace Plc

/-! ## Decimals -/

namespace Decimal

theorem digitsAt_eq {number : Decimal} {scale : Int} (within : number.scale ≤ scale) :
    (number.digitsAt scale : ℚ) = number.toRat * 10 ^ scale := by
  have places : ((scale - number.scale).toNat : ℤ) = scale - number.scale :=
    Int.toNat_of_nonneg (by omega)
  have zeros : ((tenTo (scale - number.scale).toNat : ℤ) : ℚ) = 10 ^ (scale - number.scale) := by
    rw [← places, zpow_natCast, tenTo, Nat.pow_eq]
    push_cast
    rfl
  rw [digitsAt, Int.cast_mul, zeros, toRat, mul_assoc, ← zpow_add₀ (by norm_num),
    sub_eq_neg_add]

theorem equals_iff (left right : Decimal) :
    left.equals right = true ↔ left.toRat = right.toRat := by
  have power : (10 : ℚ) ^ max left.scale right.scale ≠ 0 := zpow_ne_zero _ (by norm_num)
  rw [equals, beq_iff_eq, compare, Int.compare_eq_eq,
    ← @Int.cast_inj ℚ, digitsAt_eq (le_max_left _ _), digitsAt_eq (le_max_right _ _),
    mul_left_inj' power]

end Decimal

/-! ## Comparing values that can be written out -/

namespace Value

variable {lists : Lists}

/-- The comparison with `known` in place of the look at whether two lists are one and the
same. -/
def equalBy (lists : Lists) (known : Nat → Nat → Bool) : Nat → Value → Value → Option Bool
  | _, .decimal left, .decimal right => some (left.equals right)
  | 0, .list left, .list right => if known left right then some true else none
  | depth + 1, .list left, .list right =>
      if known left right then
        some true
      else if (lists.elements left).length ≠ (lists.elements right).length then
        some false
      else
        allEqual? (equalBy lists known depth) (lists.elements left) (lists.elements right)
  | _, left, right => some (left = right)

theorem equalUpTo_eq (lists : Lists) (depth : Nat) :
    equalUpTo lists depth = equalBy lists (fun id other => id = other) depth := by
  induction depth with
  | zero =>
      funext left right
      cases left <;> cases right <;> simp [equalUpTo, equalBy]
  | succ depth induction =>
      funext left right
      cases left <;> cases right <;> simp [equalUpTo, equalBy, induction]

/-- The answer is there, and it says whether it is so. -/
def Tells (answer : Option Bool) (fact : Prop) : Prop :=
  ∃ truth, answer = some truth ∧ (truth = true ↔ fact)

section

variable {known : Nat → Nat → Bool} {depth : Nat} {left right : Value} {leftTree rightTree : Tree}

theorem tells_true {fact : Prop} (holds : fact) : Tells (some true) fact :=
  ⟨true, rfl, by simp [holds]⟩

theorem tells_false {fact : Prop} (fails : ¬fact) : Tells (some false) fact :=
  ⟨false, rfl, by simp [fails]⟩

theorem tells_cons {equal? : Value → Value → Option Bool} {lefts rights : List Value}
    {leftTrees rightTrees : List Tree} (first : Tells (equal? left right) (leftTree = rightTree))
    (rest : Tells (allEqual? equal? lefts rights) (leftTrees = rightTrees)) :
    Tells (allEqual? equal? (left :: lefts) (right :: rights))
      (leftTree :: leftTrees = rightTree :: rightTrees) := by
  rcases first with ⟨truth, answer, fits⟩
  cases truth with
  | true =>
      have alike : leftTree = rightTree := fits.mp rfl
      simpa [allEqual?, answer, alike] using rest
  | false =>
      have differ : leftTree ≠ rightTree := fun alike => by simp [alike] at fits
      simpa [allEqual?, answer] using tells_false fun alike => differ (List.cons.inj alike).1

theorem equalBy_of_kind_ne (differ : left.kind ≠ right.kind) :
    equalBy lists known depth left right = some false := by
  cases left <;> cases right <;> first | exact absurd rfl differ | simp [equalBy]

theorem tree_ne_of_kind_ne (leftUnfolds : Unfolds lists left leftTree)
    (rightUnfolds : Unfolds lists right rightTree) (differ : left.kind ≠ right.kind) :
    leftTree ≠ rightTree := by
  cases leftUnfolds <;> cases rightUnfolds <;> first | exact absurd rfl differ | simp

theorem tells_of_scalar (scalar : left.IsScalar) (leftUnfolds : Unfolds lists left leftTree)
    (rightUnfolds : Unfolds lists right rightTree) :
    Tells (equalBy lists known depth left right) (leftTree = rightTree) := by
  by_cases kinds : left.kind = right.kind
  · cases leftUnfolds with
    | list _ _ => exact absurd rfl scalar
    | decimal value =>
        cases rightUnfolds with
        | decimal other =>
            exact ⟨_, by rw [equalBy], by rw [Decimal.equals_iff, Tree.decimal.injEq]⟩
        | _ => cases kinds
    | _ =>
        cases rightUnfolds <;> cases kinds
        simp [equalBy, Tells]
  · rw [equalBy_of_kind_ne kinds]
    exact tells_false (tree_ne_of_kind_ne leftUnfolds rightUnfolds kinds)

theorem tells_list (same : ∀ id other, known id other = true → id = other) {id other : Nat}
    {trees others : List Tree} (first : UnfoldsAll lists (lists.elements id) trees)
    (second : UnfoldsAll lists (lists.elements other) others)
    (elements : Tells (allEqual? (equalBy lists known depth) (lists.elements id)
      (lists.elements other)) (trees = others)) :
    Tells (equalBy lists known (depth + 1) (.list id) (.list other))
      (Tree.list trees = Tree.list others) := by
  rw [equalBy]
  split
  · rename_i one
    cases same _ _ one
    exact tells_true (congrArg Tree.list (first.unique second))
  · split
    · rename_i lengths
      rw [first.length_eq, second.length_eq] at lengths
      exact tells_false fun alike => lengths (congrArg List.length (Tree.list.inj alike))
    · simpa using elements

mutual

/-- Comparing tells whether two values are the same when they are written out, if it may go as
deep as the first of them. -/
theorem Unfolds.tells (same : ∀ id other, known id other = true → id = other)
    {left right : Value} {leftTree rightTree : Tree} {depth : Nat} :
    Unfolds lists left leftTree → Unfolds lists right rightTree → leftTree.height ≤ depth →
      Tells (equalBy lists known depth left right) (leftTree = rightTree)
  | .list present elements, .list _ others, enough => by
      rw [Tree.height] at enough
      obtain ⟨inner, rfl⟩ : ∃ inner, depth = inner + 1 := ⟨depth - 1, by omega⟩
      exact tells_list same elements others (elements.tells same others (by omega))
  | .list present elements, .nil, _ | .list present elements, .boolean _, _
  | .list present elements, .integer _, _ | .list present elements, .decimal _, _
  | .list present elements, .character _, _ | .list present elements, .string _, _ => by
      rw [equalBy_of_kind_ne (by simp [kind])]
      exact tells_false nofun
  | .nil, unfolds, _ => tells_of_scalar nofun .nil unfolds
  | .boolean _, unfolds, _ => tells_of_scalar nofun (.boolean _) unfolds
  | .integer _, unfolds, _ => tells_of_scalar nofun (.integer _) unfolds
  | .decimal _, unfolds, _ => tells_of_scalar nofun (.decimal _) unfolds
  | .character _, unfolds, _ => tells_of_scalar nofun (.character _) unfolds
  | .string _, unfolds, _ => tells_of_scalar nofun (.string _) unfolds

theorem UnfoldsAll.tells (same : ∀ id other, known id other = true → id = other)
    {lefts rights : List Value} {leftTrees rightTrees : List Tree} {depth : Nat} :
    UnfoldsAll lists lefts leftTrees → UnfoldsAll lists rights rightTrees →
      Tree.heightAll leftTrees ≤ depth →
      Tells (allEqual? (equalBy lists known depth) lefts rights) (leftTrees = rightTrees)
  | .nil, .nil, _ => tells_true rfl
  | .nil, .cons _ _, _ => tells_false nofun
  | .cons _ _, .nil, _ => tells_false nofun
  | .cons first rest, .cons other others, enough => by
      rw [Tree.heightAll] at enough
      exact tells_cons (first.tells same other (by omega)) (rest.tells same others (by omega))

end

end

section

variable {left right : Value} {leftTree rightTree : Tree}

theorem equalBy_tells {known : Nat → Nat → Bool}
    (same : ∀ id other, known id other = true → id = other)
    (leftUnfolds : Unfolds lists left leftTree) (rightUnfolds : Unfolds lists right rightTree) :
    Tells (equalBy lists known (lists.size * lists.size) left right) (leftTree = rightTree) :=
  leftUnfolds.tells same rightUnfolds leftUnfolds.height_le

theorem equal?_eq (lists : Lists) (left right : Value) :
    equal? lists left right =
      equalBy lists (fun id other => id = other) (lists.size * lists.size) left right := by
  rw [equal?, equalUpTo_eq]

theorem equal?_tells (leftUnfolds : Unfolds lists left leftTree)
    (rightUnfolds : Unfolds lists right rightTree) :
    Tells (equal? lists left right) (leftTree = rightTree) := by
  rw [equal?_eq]
  exact equalBy_tells (by simp) leftUnfolds rightUnfolds

theorem equal?_eq_true_iff (leftUnfolds : Unfolds lists left leftTree)
    (rightUnfolds : Unfolds lists right rightTree) :
    equal? lists left right = some true ↔ leftTree = rightTree := by
  rcases equal?_tells leftUnfolds rightUnfolds with ⟨truth, answer, fits⟩
  rw [answer, Option.some_inj, fits]

theorem Tells.unique {answer other : Option Bool} {fact : Prop} (tells : Tells answer fact)
    (also : Tells other fact) : answer = other := by
  rcases tells with ⟨truth, rfl, fits⟩
  rcases also with ⟨second, rfl, others⟩
  rw [Option.some_inj, Bool.eq_iff_iff, fits, others]

end

theorem equal?_equivalence (grounded : lists.Grounded) :
    Equivalence fun left right : { value : Value // value.IsIn lists } =>
      equal? lists left right = some true := by
  constructor
  · intro value
    rcases exists_unfolds grounded value.property with ⟨tree, unfolds⟩
    exact (equal?_eq_true_iff unfolds unfolds).mpr rfl
  · intro left right equal
    rcases exists_unfolds grounded left.property with ⟨leftTree, leftUnfolds⟩
    rcases exists_unfolds grounded right.property with ⟨rightTree, rightUnfolds⟩
    exact (equal?_eq_true_iff rightUnfolds leftUnfolds).mpr
      ((equal?_eq_true_iff leftUnfolds rightUnfolds).mp equal).symm
  · intro left middle right first second
    rcases exists_unfolds grounded left.property with ⟨leftTree, leftUnfolds⟩
    rcases exists_unfolds grounded middle.property with ⟨middleTree, middleUnfolds⟩
    rcases exists_unfolds grounded right.property with ⟨rightTree, rightUnfolds⟩
    exact (equal?_eq_true_iff leftUnfolds rightUnfolds).mpr
      (((equal?_eq_true_iff leftUnfolds middleUnfolds).mp first).trans
        ((equal?_eq_true_iff middleUnfolds rightUnfolds).mp second))

end Value

/-! ## Cases -/

open Value

/-- What the cases of a SWITCH come to: the block of one case, or nothing. -/
def Case.executeOnly (invoke : Invoke) (rounds : Nat) : Option Case → Run Flow
  | some (.mk _ body) => Run.inChild (Stmt.executeAll invoke rounds body)
  | none => return .normal

/-- Trying the cases in turn compares these pairs, written out: what a case is for, and the value
of the SWITCH. The case at `index` is the first one that fits, and its block begins at `last`; if
none fits, `index` is past the cases. -/
inductive Case.Picks (invoke : Invoke) (value : Value) :
    List Case → Machine → List (Tree × Tree) → Nat → Machine → Prop
  | exhausted {machine : Machine} : Picks invoke value [] machine [] 0 machine
  | unconditional {body : List Stmt} {tail : List Case} {machine : Machine} :
      Picks invoke value (.mk none body :: tail) machine [] 0 machine
  | fits {test : Expr} {body : List Stmt} {tail : List Case} {machine after : Machine}
      {tested : Value} {tree : Tree}
      (ran : (test.evaluate invoke).run machine = (.ok tested, after))
      (testUnfolds : Unfolds after.memory.lists tested tree)
      (unfolds : Unfolds after.memory.lists value tree) :
      Picks invoke value (.mk (some test) body :: tail) machine [(tree, tree)] 0 after
  | differs {test : Expr} {body : List Stmt} {tail : List Case} {machine after last : Machine}
      {tested : Value} {testTree tree : Tree} {compared : List (Tree × Tree)} {index : Nat}
      (ran : (test.evaluate invoke).run machine = (.ok tested, after))
      (testUnfolds : Unfolds after.memory.lists tested testTree)
      (unfolds : Unfolds after.memory.lists value tree) (differ : testTree ≠ tree)
      (rest : Picks invoke value tail after compared index last) :
      Picks invoke value (.mk (some test) body :: tail) machine ((testTree, tree) :: compared)
        (index + 1) last

/-- Between machines with the property all values of cases can be found, and compared with the
value of the SWITCH. -/
structure Case.TestedWithin (invoke : Invoke) (value : Value) (cases : List Case)
    (property : Machine → Prop) : Prop where
  grounded : ∀ machine, property machine → machine.memory.lists.Grounded
  present : ∀ machine, property machine → value.IsIn machine.memory.lists
  finishes : ∀ test body, Case.mk (some test) body ∈ cases → ∀ machine, property machine →
    ∃ tested after, (test.evaluate invoke).run machine = (.ok tested, after) ∧ property after ∧
      tested.IsIn after.memory.lists

namespace Case

variable {invoke : Invoke} {value : Value} {cases : List Case} {machine last : Machine}
  {compared : List (Tree × Tree)} {index : Nat}

theorem executeAll_tested {test : Expr} {body : List Stmt} {tail : List Case} {after : Machine}
    {tested : Value} {testTree tree : Tree} [Decidable (testTree = tree)]
    (ran : (test.evaluate invoke).run machine = (.ok tested, after))
    (testUnfolds : Unfolds after.memory.lists tested testTree)
    (unfolds : Unfolds after.memory.lists value tree) (rounds : Nat) :
    (executeAll invoke rounds value (.mk (some test) body :: tail)).run machine =
      if testTree = tree then (Run.inChild (Stmt.executeAll invoke rounds body)).run after
      else (executeAll invoke rounds value tail).run after := by
  rcases equal?_tells testUnfolds unfolds with ⟨truth, answer, fits⟩
  have told : (Run.equal tested value).run after = (.ok truth, after) := by
    simp only [Run.equal, ExceptT.run_mk, answer]
    rfl
  rw [executeAll, Run.run_bind, ran]
  dsimp only
  rw [Run.run_bind, told]
  cases truth with
  | true => rw [if_pos (fits.mp rfl)]; rfl
  | false => rw [if_neg fun alike => by simp [alike] at fits]; rfl

theorem Picks.executeAll (picks : Picks invoke value cases machine compared index last)
    (rounds : Nat) :
    (Case.executeAll invoke rounds value cases).run machine =
      (executeOnly invoke rounds cases[index]?).run last := by
  classical
  induction picks with
  | exhausted | unconditional =>
      rw [Case.executeAll]
      rfl
  | fits ran testUnfolds unfolds =>
      rw [executeAll_tested ran testUnfolds unfolds, if_pos rfl]
      rfl
  | differs ran testUnfolds unfolds differ rest induction =>
      rw [executeAll_tested ran testUnfolds unfolds, if_neg differ, induction]
      rfl

theorem Picks.index_eq {otherInvoke : Invoke} {otherValue : Value} {other otherLast : Machine}
    {otherIndex : Nat} (picks : Picks invoke value cases machine compared index last)
    (otherPicks : Picks otherInvoke otherValue cases other compared otherIndex otherLast) :
    otherIndex = index := by
  induction picks generalizing other otherIndex with
  | exhausted =>
      cases otherPicks
      rfl
  | unconditional =>
      cases otherPicks
      rfl
  | fits ran testUnfolds unfolds =>
      cases otherPicks with
      | fits _ _ _ => rfl
      | differs _ _ _ differ _ => exact absurd rfl differ
  | differs ran testUnfolds unfolds differ rest induction =>
      cases otherPicks with
      | fits _ _ _ => exact absurd rfl differ
      | differs _ _ _ _ otherRest => rw [induction otherRest]

theorem TestedWithin.tail {property : Machine → Prop} {head : Case} {tail : List Case}
    (tested : TestedWithin invoke value (head :: tail) property) :
    TestedWithin invoke value tail property where
  grounded := tested.grounded
  present := tested.present
  finishes test body member := tested.finishes test body (List.mem_cons_of_mem _ member)

/-- Where no list is inside itself, some case is picked, or none of them fits. -/
theorem TestedWithin.exists_picks {property : Machine → Prop}
    (tested : TestedWithin invoke value cases property) (holds : property machine) :
    ∃ compared index last, Picks invoke value cases machine compared index last := by
  induction cases generalizing machine with
  | nil => exact ⟨_, _, _, .exhausted⟩
  | cons head tail induction =>
      match head, tested with
      | .mk none body, _ => exact ⟨_, _, _, .unconditional⟩
      | .mk (some test) body, tested =>
          rcases tested.finishes test body (by simp) machine holds with
            ⟨found, after, ran, holds, present⟩
          rcases exists_unfolds (tested.grounded after holds) present with
            ⟨testTree, testUnfolds⟩
          rcases exists_unfolds (tested.grounded after holds) (tested.present after holds) with
            ⟨tree, unfolds⟩
          by_cases alike : testTree = tree
          · subst alike
            exact ⟨_, _, _, .fits ran testUnfolds unfolds⟩
          · rcases induction tested.tail holds with ⟨compared, index, last, rest⟩
            exact ⟨_, _, _, .differs ran testUnfolds unfolds alike rest⟩

end Case

theorem Stmt.execute_switch {invoke : Invoke} {condition : Expr} {cases : List Case}
    {machine start last : Machine} {value : Value} {compared : List (Tree × Tree)} {index : Nat}
    (ran : (condition.evaluate invoke).run machine = (.ok value, start))
    (picks : Case.Picks invoke value cases start compared index last) (rounds : Nat) :
    ((Stmt.switch condition cases).execute invoke rounds).run machine =
      (Case.executeOnly invoke rounds cases[index]?).run last := by
  rw [Stmt.execute, Run.run_bind, ran]
  exact picks.executeAll rounds

/-! ## Equality of values -/

namespace Value

/-- Where no list is inside itself, every value can be written out in one way, and values are
equal exactly if they are the same when written out. Looking whether two lists are one changes no
answer, values of different kinds are never equal, and being equal is an equivalence. So what is
compared, written out, settles which case of a SWITCH runs, whatever lists are shared. -/
theorem equality_written_out {lists : Lists} (grounded : lists.Grounded) :
    (∀ value, value.IsIn lists → ∃! tree, Unfolds lists value tree) ∧
    (∀ left right leftTree rightTree,
      Unfolds lists left leftTree → Unfolds lists right rightTree →
      ∃ truth : Bool, (truth = true ↔ leftTree = rightTree) ∧
        equal? lists left right = some truth ∧
        left.operate lists .equal right = .ok (.boolean truth) ∧
        left.operate lists .notEqual right = .ok (.boolean !truth) ∧
        ∀ known, (∀ id other, known id other = true → id = other) →
          equalBy lists known (lists.size * lists.size) left right = some truth) ∧
    (∀ left right, left.kind ≠ right.kind → equal? lists left right = some false) ∧
    (Equivalence fun left right : { value : Value // value.IsIn lists } =>
      equal? lists left right = some true) ∧
    ∀ invoke rounds condition cases machine start value,
      ((condition : Expr).evaluate invoke).run machine = (.ok value, start) →
      (∀ property, Case.TestedWithin invoke value cases property → property start →
        ∃ compared index last, Case.Picks invoke value cases start compared index last) ∧
      ∀ compared index last, Case.Picks invoke value cases start compared index last →
        ((Stmt.switch condition cases).execute invoke rounds).run machine =
          (Case.executeOnly invoke rounds cases[index]?).run last ∧
        ∀ otherInvoke otherValue otherStart otherIndex otherLast,
          Case.Picks otherInvoke otherValue cases otherStart compared otherIndex otherLast →
          otherIndex = index := by
  refine ⟨fun value present => ?_, ?_, ?_, equal?_equivalence grounded, ?_⟩
  · rcases exists_unfolds grounded present with ⟨tree, unfolds⟩
    exact ⟨tree, unfolds, fun other another => another.unique unfolds⟩
  · intro left right leftTree rightTree leftUnfolds rightUnfolds
    rcases equal?_tells leftUnfolds rightUnfolds with ⟨truth, answer, fits⟩
    refine ⟨truth, fits, answer, by simp [operate, answer, finished],
      by simp [operate, answer, finished], fun known same => ?_⟩
    exact (equalBy_tells same leftUnfolds rightUnfolds).unique ⟨truth, rfl, fits⟩
  · intro left right differ
    rw [equal?_eq, equalBy_of_kind_ne differ]
  · intro invoke rounds condition cases machine start value ran
    refine ⟨fun property tested holds => tested.exists_picks holds, ?_⟩
    intro compared index last picks
    exact ⟨Stmt.execute_switch ran picks rounds, fun _ _ _ _ _ others => picks.index_eq others⟩

/-- Two lists of the same numbers at different scales, once with two lists inside and once with
one list that is shared, and a SWITCH over one of them with a case for the other. -/
theorem equality_written_out_of_shared :
    let lists : Lists := #[[.decimal ⟨10, 1⟩], [.decimal ⟨100, 2⟩], [.list 0, .list 1],
      [.list 1, .list 1]]
    let machine : Machine := { Machine.empty (.empty none) with memory := ⟨lists, .empty none⟩ }
    let named := (machine.defineVariable 0 "apart" .any false (.list 2)).2
    let start := (named.defineVariable 0 "shared" .any false (.list 3)).2
    lists.Grounded ∧ equal? lists (.list 2) (.list 3) = some true ∧
      equalBy lists (fun _ _ => false) (lists.size * lists.size) (.list 2) (.list 3) =
        some true ∧
      (∃ tree, Unfolds lists (.list 2) tree ∧ Unfolds lists (.list 3) tree) ∧
      ∃ compared index last, Case.Picks (Machine.invoke 1) (.list 2)
        [.mk (some (.access ⟨0, 0⟩ "shared")) []] start compared index last := by
  intro lists machine named start
  have grounded : lists.Grounded := by
    apply Lists.grounded_of_earlier
    intro outer inside inner holds
    match outer, inside with
    | 0, _ | 1, _ | 2, _ | 3, _ => simp_all [Lists.Holds, Lists.elements, lists] <;> omega
  have written := equality_written_out grounded
  rcases written.1 (.list 2) (by simp [IsIn, lists]) with ⟨tree, unfolds, -⟩
  rcases written.1 (.list 3) (by simp [IsIn, lists]) with ⟨other, others, -⟩
  rcases written.2.1 _ _ _ _ unfolds others with ⟨truth, fits, answer, -, -, shortcut⟩
  have equal : equal? lists (.list 2) (.list 3) = some true := by decide +kernel
  rw [equal, Option.some_inj] at answer
  rw [← answer] at fits shortcut
  rw [← fits.mp rfl] at others
  have known := shortcut (fun _ _ => false) (by simp)
  refine ⟨grounded, equal, known, ⟨tree, unfolds, others⟩, ?_⟩
  have reads (name : String) (cell : Nat)
      (found : start.scopes.lookup start.current name = some ⟨name, .any, false, cell⟩) :
      ((Expr.access ⟨0, 0⟩ name).evaluate (Machine.invoke 1)).run start =
        (.ok (start.cell cell), start) := by
    rw [Expr.evaluate, Run.run_bind]
    simp only [Run.findVariable, ExceptT.run_mk, found]
    rfl
  have tested : Case.TestedWithin (Machine.invoke 1) (.list 2)
      [.mk (some (.access ⟨0, 0⟩ "shared")) []] (· = start) := by
    constructor
    · rintro _ rfl
      exact grounded
    · rintro _ rfl
      simp [IsIn, start, named, Machine.defineVariable, machine, lists]
    · rintro test body member _ rfl
      cases List.mem_singleton.mp member
      exact ⟨.list 3, start, reads "shared" 1 (by decide +kernel), rfl,
        by simp [IsIn, start, named, Machine.defineVariable, machine, lists]⟩
  have switch := written.2.2.2.2 (Machine.invoke 1) 1 (.access ⟨0, 0⟩ "apart")
    [.mk (some (.access ⟨0, 0⟩ "shared")) []] start start (.list 2)
    (reads "apart" 0 (by decide +kernel))
  exact switch.1 _ tested rfl

end Value

end Plc
