import Plc.Typing.Check

/-! How contexts grow: what a name stands for after a declaration, in a new block
and in the body of a function. -/

namespace Plc.Typing

namespace Context

theorem lookup_eq (context : Context) (name : String) :
    context.lookup name =
      (context.inner.lookup name).or (context.outer.findSome? (·.lookup name)) := by
  rw [lookup, scopes, List.findSome?_cons]
  cases context.inner.lookup name <;> rfl

theorem lookupFunction_eq (context : Context) (name : String) (arity : Nat) :
    context.lookupFunction name arity =
      (context.inner.lookupFunction name arity).or
        (context.outer.findSome? (·.lookupFunction name arity)) := by
  rw [lookupFunction, scopes, List.findSome?_cons]
  cases context.inner.lookupFunction name arity <;> rfl

/-! ## Blocks -/

@[simp] theorem lookup_nest (context : Context) (name : String) :
    context.nest.lookup name = context.lookup name := by
  rw [lookup_eq]
  rfl

/-! ## Variables -/

section

variable {context extended : Context} {declared : Variable}

private theorem declare?_eq_some (declares : context.declare? declared = some extended) :
    ∃ inner, context.inner.defineVariable? declared.name declared = some inner ∧
      extended = { context with inner } := by
  rcases Option.map_eq_some_iff.mp declares with ⟨inner, defined, rfl⟩
  exact ⟨inner, defined, rfl⟩

theorem lookup_inner_of_declare? (declares : context.declare? declared = some extended) :
    context.inner.lookup declared.name = none := by
  rcases declare?_eq_some declares with ⟨inner, defined, rfl⟩
  cases found : context.inner.lookup declared.name with
  | none => rfl
  | some taken =>
      simp [Scope.defineVariable?, found] at defined

theorem inner_of_declare? (declares : context.declare? declared = some extended)
    (name : String) :
    extended.inner.lookup name =
      if name = declared.name then some declared else context.inner.lookup name := by
  rcases declare?_eq_some declares with ⟨inner, defined, rfl⟩
  exact Scope.lookup_of_defineVariable? defined name

theorem lookup_of_declare? (declares : context.declare? declared = some extended)
    (name : String) :
    extended.lookup name =
      if name = declared.name then some declared else context.lookup name := by
  have inner := inner_of_declare? declares name
  rcases declare?_eq_some declares with ⟨_, _, rfl⟩
  rw [lookup_eq, lookup_eq, inner]
  split <;> rfl

theorem lookupFunction_of_declare? (declares : context.declare? declared = some extended)
    (name : String) (arity : Nat) :
    extended.lookupFunction name arity = context.lookupFunction name arity := by
  rcases declare?_eq_some declares with ⟨inner, defined, rfl⟩
  rw [lookupFunction_eq, lookupFunction_eq]
  rw [Scope.lookupFunction_of_defineVariable? defined]

theorem inner_lookupFunction_of_declare? (declares : context.declare? declared = some extended)
    (name : String) (arity : Nat) :
    extended.inner.lookupFunction name arity = context.inner.lookupFunction name arity := by
  rcases declare?_eq_some declares with ⟨inner, defined, rfl⟩
  exact Scope.lookupFunction_of_defineVariable? defined name arity

theorem outer_of_declare? (declares : context.declare? declared = some extended) :
    extended.outer = context.outer := by
  rcases declare?_eq_some declares with ⟨inner, defined, rfl⟩
  rfl

end

/-! ## Functions -/

section

variable {context extended : Context} {signature : Signature}

theorem lookup_of_declareFunction?
    (declares : context.declareFunction? signature = some extended) (name : String) :
    extended.lookup name = context.lookup name := by
  rcases Option.map_eq_some_iff.mp declares with ⟨inner, defined, rfl⟩
  rw [lookup_eq, lookup_eq]
  rw [Scope.lookup_of_defineFunction? defined]

theorem inner_of_declareFunction?
    (declares : context.declareFunction? signature = some extended) (name : String) :
    extended.inner.lookup name = context.inner.lookup name := by
  rcases Option.map_eq_some_iff.mp declares with ⟨inner, defined, rfl⟩
  exact Scope.lookup_of_defineFunction? defined name

theorem inner_lookupFunction_of_declareFunction?
    (declares : context.declareFunction? signature = some extended) :
    context.inner.lookupFunction signature.name signature.arity = none := by
  rcases Option.map_eq_some_iff.mp declares with ⟨inner, defined, rfl⟩
  cases found : context.inner.lookupFunction signature.name signature.arity with
  | none => rfl
  | some taken =>
      simp [Scope.defineFunction?, found] at defined

theorem inner_lookupFunction_declareFunction?
    (declares : context.declareFunction? signature = some extended)
    (name : String) (arity : Nat) :
    extended.inner.lookupFunction name arity =
      if (name, arity) = (signature.name, signature.arity) then some signature
      else context.inner.lookupFunction name arity := by
  rcases Option.map_eq_some_iff.mp declares with ⟨inner, defined, rfl⟩
  exact Scope.lookupFunction_of_defineFunction? defined name arity

theorem inner_lookupFunction_eq (outermost : context.outer = []) (name : String) (arity : Nat) :
    context.inner.lookupFunction name arity = context.lookupFunction name arity := by
  rw [lookupFunction_eq, outermost]
  cases context.inner.lookupFunction name arity <;> rfl

theorem lookupFunction_of_declareFunction?
    (declares : context.declareFunction? signature = some extended)
    (name : String) (arity : Nat) :
    extended.lookupFunction name arity =
      if (name, arity) = (signature.name, signature.arity) then some signature
      else context.lookupFunction name arity := by
  rcases Option.map_eq_some_iff.mp declares with ⟨inner, defined, rfl⟩
  rw [lookupFunction_eq, lookupFunction_eq]
  rw [Scope.lookupFunction_of_defineFunction? defined]
  split <;> rfl

theorem outer_of_declareFunction?
    (declares : context.declareFunction? signature = some extended) :
    extended.outer = context.outer := by
  rcases Option.map_eq_some_iff.mp declares with ⟨inner, defined, rfl⟩
  rfl

end

/-! ## Contexts that differ in their functions -/

/-- The larger context has the same variables and at least the functions. -/
structure Below (smaller larger : Context) : Prop where
  lookup : ∀ name, smaller.lookup name = larger.lookup name
  inner : ∀ name, smaller.inner.lookup name = larger.inner.lookup name
  functions : ∀ name arity found, smaller.lookupFunction name arity = some found →
    larger.lookupFunction name arity = some found

theorem Below.refl (context : Context) : Below context context :=
  ⟨fun _ => rfl, fun _ => rfl, fun _ _ _ found => found⟩

theorem Below.trans {first second third : Context} (lower : Below first second)
    (upper : Below second third) : Below first third :=
  ⟨fun name => (lower.lookup name).trans (upper.lookup name),
    fun name => (lower.inner name).trans (upper.inner name),
    fun name arity found known =>
      upper.functions name arity found (lower.functions name arity found known)⟩

/-- Functions are known only outside all blocks, so a new one hides none. -/
theorem Below.of_declareFunction? {context extended : Context} {signature : Signature}
    (outermost : context.outer = [])
    (declares : context.declareFunction? signature = some extended) :
    Below context extended where
  lookup name := (lookup_of_declareFunction? declares name).symm
  inner name := (inner_of_declareFunction? declares name).symm
  functions name arity found known := by
    rw [lookupFunction_of_declareFunction? declares]
    split
    · rename_i same
      cases same
      rw [lookupFunction_eq, inner_lookupFunction_of_declareFunction? declares, outermost]
        at known
      cases known
    · exact known

end Context

/-! ## The body of a function -/

theorem inner_of_declareParameters {context body : Context} {parameters : List (String × Ty)}
    (declares : declareParameters context parameters = .ok body) {name : String}
    {found : Variable} (known : context.inner.lookup name = some found) :
    body.inner.lookup name = some found := by
  induction parameters generalizing context with
  | nil =>
      cases declares
      exact known
  | cons head tail induction =>
      rcases head with ⟨parameter, type⟩
      rw [declareParameters] at declares
      split at declares
      · rename_i extended declared
        apply induction declares
        rw [Context.inner_of_declare? declared]
        split
        · rename_i same
          rw [same, Context.lookup_inner_of_declare? declared] at known
          cases known
        · exact known
      · cases declares

theorem lookup_return_of_bodyContext {context body : Context} {names : List String}
    {signature : Signature} (opens : bodyContext context names signature = .ok body) :
    body.lookup "RETURN" = some ⟨"RETURN", signature.result, false⟩ := by
  rw [Context.lookup_eq, inner_of_declareParameters opens rfl]
  rfl

end Plc.Typing
