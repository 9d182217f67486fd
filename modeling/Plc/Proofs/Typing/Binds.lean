import Plc.Proofs.Typing.Sound

/-! What checking notes about variables. A note could be replaced by a later one under the same
number, so here the numbers have to be different: then what an action notes is still there when
all is checked. -/

namespace Plc

open Typing

namespace Typing.Check

def numbersOf (terms : List Expr) (declared : List Nat) : List Nat :=
  terms.map (·.node.id) ++ declared

theorem numbersOf_append (terms others : List Expr) (declared more : List Nat) :
    (numbersOf terms declared ++ numbersOf others more).Perm
      (numbersOf (terms ++ others) (declared ++ more)) := by
  rw [List.perm_iff_count]
  intro number
  simp only [numbersOf, List.map_append, List.count_append]
  omega

/-- When the action succeeds, it has made notes under no other numbers than these; and if they
are all different, `holds` is true of its result and of every table that has its notes. -/
def Binds (terms : List Expr) (declared : List Nat) (action : Check α)
    (holds : (Nat → Option Variable) → α → Prop) : Prop :=
  ∀ before result after, action before = .ok (result, after) →
    (∀ id, id ∉ numbersOf terms declared →
      after.variableTable[id]? = before.variableTable[id]?) ∧
    ((numbersOf terms declared).Nodup → ∀ table : Nat → Option Variable,
      (∀ id ∈ numbersOf terms declared, table id = after.variableTable[id]?) →
        holds table result)

namespace Binds

variable {terms others : List Expr} {declared more : List Nat} {action : Check α}
  {holds : (Nat → Option Variable) → α → Prop}

theorem pure {value : α} (always : ∀ table, holds table value) :
    Binds [] [] (pure value) holds := by
  intro before result after ran
  cases ran
  exact ⟨fun _ _ => rfl, fun _ table _ => always table⟩

theorem throw (error : TypingError) : Binds terms declared (throw error) holds := by
  intro before result after ran
  cases ran

theorem lift (result : Except TypingError α) :
    Binds [] [] (liftM result) fun _ value => result = .ok value := by
  intro before value after ran
  cases result with
  | error error => cases ran
  | ok given =>
      cases ran
      exact ⟨fun _ _ => rfl, fun _ _ _ => rfl⟩

/-- What is noted first is kept, because what follows has other numbers. -/
theorem bind {next : α → Check β} {wanted : (Nat → Option Variable) → β → Prop}
    (first : Binds terms declared action holds)
    (second : ∀ value, Binds others more (next value) fun table result =>
      holds table value → wanted table result) :
    Binds (terms ++ others) (declared ++ more) (action >>= next) wanted := by
  intro before result after ran
  have opened : (action >>= next) before =
      (action before).bind fun pair => next pair.1 pair.2 := rfl
  have same := numbersOf_append terms others declared more
  rw [opened] at ran
  cases middle : action before with
  | error error =>
      rw [middle] at ran
      cases ran
  | ok pair =>
      rw [middle] at ran
      rcases first before pair.1 pair.2 middle with ⟨kept, resolved⟩
      rcases second pair.1 pair.2 result after ran with ⟨keptLater, holdsLater⟩
      constructor
      · intro id outside
        have notHere : id ∉ numbersOf terms declared ++ numbersOf others more :=
          fun member => outside (same.mem_iff.mp member)
        rw [List.mem_append, not_or] at notHere
        rw [keptLater id notHere.2, kept id notHere.1]
      · intro distinct table has
        rcases List.nodup_append.mp (same.nodup_iff.mpr distinct) with
          ⟨distinctFirst, distinctSecond, apart⟩
        have hasLater : ∀ id ∈ numbersOf others more, table id = after.variableTable[id]? :=
          fun id member => has id (same.mem_iff.mp (List.mem_append_right _ member))
        apply holdsLater distinctSecond table hasLater
        apply resolved distinctFirst table
        intro id member
        rw [has id (same.mem_iff.mp (List.mem_append_left _ member)), keptLater id]
        exact fun later => apart id member id later rfl

theorem mono {weaker : (Nat → Option Variable) → α → Prop}
    (binds : Binds terms declared action holds)
    (implies : ∀ table value, holds table value → weaker table value) :
    Binds terms declared action weaker := by
  intro before result after ran
  rcases binds before result after ran with ⟨kept, resolved⟩
  exact ⟨kept, fun distinct table has => implies table result (resolved distinct table has)⟩

theorem reorder (binds : Binds terms declared action holds) (sameTerms : terms.Perm others)
    (sameDeclared : declared.Perm more) : Binds others more action holds := by
  have same : (numbersOf terms declared).Perm (numbersOf others more) :=
    (sameTerms.map _).append sameDeclared
  intro before result after ran
  rcases binds before result after ran with ⟨kept, resolved⟩
  constructor
  · exact fun id outside => kept id fun member => outside (same.mem_iff.mp member)
  · intro distinct table has
    exact resolved (same.nodup_iff.mpr distinct) table fun id member =>
      has id (same.mem_iff.mp member)

theorem bind_none {next : α → Check β} {wanted : (Nat → Option Variable) → β → Prop}
    (first : Binds [] [] action holds)
    (second : ∀ value, Binds others more (next value) fun table result =>
      holds table value → wanted table result) :
    Binds others more (action >>= next) wanted :=
  first.bind second

theorem bind_done {next : α → Check β} {wanted : (Nat → Option Variable) → β → Prop}
    (first : Binds terms declared action holds)
    (second : ∀ value, Binds [] [] (next value) fun table result =>
      holds table value → wanted table result) :
    Binds terms declared (action >>= next) wanted := by
  simpa using first.bind second

theorem widen (binds : Binds terms declared action holds) (included : terms.Sublist others) :
    Binds others declared action holds := by
  have numbers : (numbersOf terms declared).Sublist (numbersOf others declared) :=
    (included.map _).append (List.Sublist.refl declared)
  intro before result after ran
  rcases binds before result after ran with ⟨kept, resolved⟩
  constructor
  · exact fun id outside => kept id fun member => outside (numbers.subset member)
  · intro distinct table has
    exact resolved (distinct.sublist numbers) table fun id member =>
      has id (numbers.subset member)

theorem recordType (id : Nat) (type : Ty) :
    Binds [] [] (recordType id type) fun _ _ => True := by
  intro before result after ran
  unfold Check.recordType at ran
  split at ran
  · cases ran
  · cases ran
    exact ⟨fun _ _ => rfl, fun _ _ _ => trivial⟩

theorem recordFunction (id : Nat) (binding : Signature) :
    Binds [] [] (recordFunction id binding) fun _ _ => True := by
  intro before result after ran
  cases ran
  exact ⟨fun _ _ => rfl, fun _ _ _ => trivial⟩

theorem recordVariable (terms : List Expr) (declared : List Nat) {id : Nat}
    (only : numbersOf terms declared = [id]) (binding : Variable) :
    Binds terms declared (recordVariable id binding) fun table _ =>
      table id = some binding := by
  intro before result after ran
  cases ran
  rw [only]
  constructor
  · intro other outside
    have different : id ≠ other := by simpa [eq_comm] using outside
    simp [Std.TreeMap.getElem?_insert, different]
  · intro _ table has
    rw [has id (List.mem_singleton_self id)]
    simp

end Binds

end Typing.Check

end Plc
