import Plc.Proofs.Lexical.Moments
import Plc.Proofs.Soundness.Hosts
import Plc.Proofs.Typing.Resolution

/-! Names mean the same when a program is checked and when it runs. Both take a name for its
nearest binder; only the variable for the result of a function, which is known under the name
`RETURN` while the function is checked, has no counterpart in a run. -/

namespace Plc

open Typing

/-! ## Where a run starts -/

namespace Scope.Tree.Early

variable {start : Moment} {scope : List Binder} {machine : Machine}

theorem defineNative (early : machine.scopes.Early start scope) (name : String) (arity : Nat)
    (behaviour : Native) : (machine.defineNative name arity behaviour).scopes.Early start scope := by
  have places := machine.outer_defineFunction Machine.global
    ⟨Machine.untyped name arity, .native behaviour⟩
  have root := (places.2 Machine.global).trans early.root
  refine ⟨root, ?_, ?_⟩
  · apply early.shows.of_lookup_eq
    · intro place member
      rw [Scope.Tree.path, Machine.defineNative, root] at member
      rw [List.mem_singleton.mp member, Machine.defineNative, places.1]
      exact early.shows.present
    · intro other
      rw [Machine.defineNative, Scope.Tree.lookup_of_outer_eq_nil root,
        Scope.Tree.lookup_of_outer_eq_nil early.root]
      exact machine.lookup_defineFunction _ _ _ other
  · intro other otherArity function found
    rw [Machine.defineNative, Scope.Tree.lookupFunction_of_outer_eq_nil root] at found
    rcases Machine.lookupFunction_defineFunction found with known | ⟨_, rfl⟩
    · rw [← Scope.Tree.lookupFunction_of_outer_eq_nil early.root] at known
      exact early.natives other otherArity function known
    · exact ⟨behaviour, rfl⟩

theorem withHosts (early : machine.scopes.Early start scope) (natives : List HostFunction) :
    (machine.withHosts natives).scopes.Early start scope := by
  induction natives generalizing machine with
  | nil => exact early
  | cons head tail induction =>
      exact induction (early.defineNative head.name head.arity head.behaviour)

theorem standard (start : Moment) (output : Output) :
    (Machine.standard output).scopes.Early start [] := by
  have bare : (Machine.empty output).scopes.Early start [] := by
    refine ⟨rfl, ⟨?_, fun _ => rfl⟩, ?_⟩
    · intro place member
      cases List.mem_singleton.mp member
      exact Nat.zero_lt_one
    · intro name arity function found
      cases found
  exact bare.defineNative "print" 1 Native.print

end Scope.Tree.Early

theorem Machine.current_withHosts (machine : Machine) (natives : List HostFunction) :
    (machine.withHosts natives).current = machine.current := by
  induction natives generalizing machine with
  | nil => rfl
  | cons head tail induction => exact induction _

/-! ## What a run looks up -/

theorem Moment.Reads.shows {start moment : Moment} {program : Program} {term : Expr}
    {machine : Machine} (reads : moment.Reads term machine)
    (placed : start.Places program moment) :
    ∃ scope, (scope, term) ∈ program.sites ∧
      machine.scopes.Shows start scope machine.current := by
  cases reads with
  | access =>
      rcases placed with ⟨scope, sited, views⟩
      exact ⟨scope, sited (List.mem_map_of_mem (Expr.mem_subterms_self _)), views.shows⟩
  | @element bound node name index offset before after evaluates =>
      rcases placed with ⟨scope, sited, views⟩
      have later := views.of_declares
        (index.evaluate_declares (Machine.invoke_declares bound)) evaluates
      exact ⟨scope, sited (List.mem_map_of_mem (Expr.mem_subterms_self _)), later.shows⟩
  | assignment =>
      rcases placed with ⟨scope, sited, views⟩
      refine ⟨scope, sited (List.mem_map_of_mem ?_), views.shows⟩
      exact List.mem_append_left _ (Expr.mem_subterms_self _)

/-- Whatever a run looks up stands for what the nearest binder of the program declares. -/
theorem Program.run_shows {program : Program} (natives : List HostFunction) (bound : Nat)
    (output : Output) {moment : Moment} {term : Expr} {machine : Machine}
    (included : Moment.Includes
      ⟨bound, .run program, (Machine.standard output).withHosts natives⟩ moment)
    (reads : moment.Reads term machine) :
    ∃ scope, (scope, term) ∈ program.sites ∧ machine.scopes.Shows
      ⟨bound, .run program, (Machine.standard output).withHosts natives⟩ scope
      machine.current := by
  apply reads.shows
  apply Moment.places_of_includes included (.self _)
  exact ⟨rfl, Machine.current_withHosts _ natives,
    (Scope.Tree.Early.standard _ output).withHosts natives⟩

/-! ## Names that are read -/

/-- Every expression of a program that was read and accepted is listed with what is declared
around it. A name that is read has the variable of its nearest binder, which stands in the
program; it is a global, a parameter or a declaration in a block, unless the name is `RETURN` and
nothing in the function around it has that name. When the program runs, a name with such a binder
stands for the variable that is defined for it, and a name that the program does not declare
around there stands for nothing. -/
theorem Program.reads_nearest {tokens : List Token} {program : Program}
    {annotations : Annotations} (signatures : List Signature)
    (parsed : Program.ofTokens tokens = .ok program)
    (accepted : program.check (Context.standard.withHosts signatures) = .ok annotations) :
    program.sites.map Prod.snd = program.subterms ∧
    (∀ scope term node name, (scope, term) ∈ program.sites → term.read? = some (node, name) →
      ∃ binder found, Binder.nearest scope name = some binder ∧ program.Introduces binder ∧
        annotations.variableTable[node.id]? = some found ∧
        binder.Gives (annotations.variableTable[·]?) found ∧
        (binder.isOwn = true ∨ name = "RETURN" ∧ ∃ procedure, binder = .result procedure)) ∧
    ∀ (natives : List HostFunction) (bound : Nat) (output : Output),
      let start : Moment := ⟨bound, .run program, (Machine.standard output).withHosts natives⟩
      ∀ moment term machine node name, start.Includes moment → moment.Reads term machine →
        term.read? = some (node, name) →
        ∃ scope binder, (scope, term) ∈ program.sites ∧
          Binder.nearest scope name = some binder ∧
          (binder.isOwn = true → ∃ made,
            machine.scopes.lookup machine.current name = some made ∧ binder.Makes start made) ∧
          ((∀ other ∈ scope, other.isOwn = true → other.name ≠ name) →
            machine.scopes.lookup machine.current name = none) := by
  have bare := (Context.Hosts.standard.withHosts signatures).noVariables
  rcases Program.numbers_perm_range' parsed with ⟨count, numbered⟩
  have distinct : program.numbers.Nodup := numbered.nodup_iff.mpr List.nodup_range'
  have resolves := Program.resolves_of_check bare distinct accepted
  refine ⟨program.map_snd_sites, ?_, ?_⟩
  · intro scope term node name member read
    rcases resolves (scope, term) member node name read with
      ⟨binder, found, nearest, noted, gives⟩
    refine ⟨binder, found, nearest, ?_, noted, gives, ?_⟩
    · exact Program.introduces_of_sites member binder (List.mem_of_find?_eq_some nearest)
    · cases binder with
      | global | declared | parameter => exact .inl rfl
      | result procedure => exact .inr ⟨(Binder.name_of_nearest nearest).symm, procedure, rfl⟩
  · intro natives bound output start moment term machine node name included reads read
    rcases Program.run_shows natives bound output included reads with ⟨scope, member, shows⟩
    rcases resolves (scope, term) member node name read with ⟨binder, _, nearest, _⟩
    have known := shows.names name
    refine ⟨scope, binder, member, nearest, ?_, ?_⟩
    · intro own
      rw [Binder.nearest_filter_of_isOwn nearest own] at known
      exact known
    · intro none
      rw [Binder.nearest_filter_eq_none none] at known
      exact known

def Expr.isAccessOf (name : String) : Expr → Bool
  | .access _ other => other == name
  | _ => false

theorem Expr.eq_access_of_isAccessOf {name : String} {expression : Expr}
    (isAccess : expression.isAccessOf name = true) : ∃ node, expression = .access node name := by
  cases expression with
  | access node other =>
      cases beq_iff_eq.mp isAccess
      exact ⟨node, rfl⟩
  | _ => cases isAccess

def Binder.infersType : Binder → Bool
  | .declared _ _ none _ => true
  | _ => false

theorem Binder.eq_declared_of_infersType {binder : Binder} (infers : binder.infersType = true) :
    ∃ id name value, binder = .declared id name none value := by
  cases binder with
  | declared id name typeName value =>
      cases typeName with
      | none => exact ⟨id, name, value, rfl⟩
      | some typeName => cases infers
  | _ => cases infers

/-- A name is read where a block declares it again. -/
theorem Program.reads_nearest_of_shadowing :
    ∃ tokens program annotations,
      Token.scan ("VAL x = 1; FUN main(): Integer DO LET y = x; " ++
        "IF TRUE DO LET x = 2; y = x; END RETURN y; END") = .ok tokens ∧
      Program.ofTokens tokens = .ok program ∧
      program.check (Context.standard.withHosts []) = .ok annotations ∧
      ∃ scope node id value found, (scope, .access node "x") ∈ program.sites ∧
        Binder.nearest scope "x" = some (.declared id "x" none value) ∧
        annotations.variableTable[node.id]? = some found ∧
        annotations.variableTable[id]? = some found := by
  have computed : ((Token.scan ("VAL x = 1; FUN main(): Integer DO LET y = x; " ++
      "IF TRUE DO LET x = 2; y = x; END RETURN y; END")).toOption.any
      fun tokens => (Program.ofTokens tokens).toOption.any fun program =>
        (program.check (Context.standard.withHosts [])).toOption.any fun _ =>
          program.sites.any fun site => site.2.isAccessOf "x" &&
            (Binder.nearest site.1 "x").any Binder.infersType) = true := by decide +kernel
  rcases exists_ok_of_any computed with ⟨tokens, scanned, computed⟩
  rcases exists_ok_of_any computed with ⟨program, parsed, computed⟩
  rcases exists_ok_of_any computed with ⟨annotations, accepted, shadowed⟩
  refine ⟨tokens, program, annotations, scanned, parsed, accepted, ?_⟩
  rcases List.any_eq_true.mp shadowed with ⟨⟨scope, term⟩, member, found⟩
  rcases Bool.and_eq_true_iff.mp found with ⟨isAccess, found⟩
  rcases Expr.eq_access_of_isAccessOf isAccess with ⟨node, rfl⟩
  rcases (Option.any_eq_true _ _).mp found with ⟨binder, nearest, infers⟩
  rcases (Program.reads_nearest [] parsed accepted).2.1 scope _ node "x" member rfl with
    ⟨other, found, given, _, noted, gives, _⟩
  rw [nearest] at given
  cases given
  rcases Binder.eq_declared_of_infersType infers with ⟨id, name, value, rfl⟩
  rcases gives with ⟨declared, _, _⟩
  cases Binder.name_of_nearest nearest
  exact ⟨scope, node, id, value, found, member, nearest, noted, declared⟩

/-- A program is accepted that reads a name which it declares nowhere: the result that its
function has to give. The run fails for want of the name. -/
theorem Program.reads_not_own :
    ∃ tokens program annotations scope node,
      Token.scan "FUN main(): Integer DO RETURN RETURN; END" = .ok tokens ∧
      Program.ofTokens tokens = .ok program ∧
      program.check Context.standard = .ok annotations ∧
      (scope, .access node "RETURN") ∈ program.sites ∧
      annotations.variableTable[node.id]? = some ⟨"RETURN", .integer, false⟩ ∧
      (∀ binder ∈ scope, binder.isOwn = false) ∧
      ((program.run 2).run (Machine.standard (.empty none))).1 =
        .error (.fault (.undefinedVariable "RETURN")) := by
  have computed : ((Token.scan "FUN main(): Integer DO RETURN RETURN; END").toOption.any
      fun tokens => (Program.ofTokens tokens).toOption.any fun program =>
        (program.check Context.standard).toOption.any fun annotations =>
          program.sites.any (fun site => site.2.isAccessOf "RETURN" &&
            annotations.variableTable[site.2.node.id]? == some ⟨"RETURN", .integer, false⟩ &&
            site.1.all fun binder => !binder.isOwn) &&
          decide (((program.run 2).run (Machine.standard (.empty none))).1 =
            .error (.fault (.undefinedVariable "RETURN")))) = true := by decide +kernel
  rcases exists_ok_of_any computed with ⟨tokens, scanned, computed⟩
  rcases exists_ok_of_any computed with ⟨program, parsed, computed⟩
  rcases exists_ok_of_any computed with ⟨annotations, accepted, computed⟩
  rw [Bool.and_eq_true] at computed
  rcases computed with ⟨listed, failed⟩
  rcases List.any_eq_true.mp listed with ⟨⟨scope, term⟩, member, unbound⟩
  simp only [Bool.and_eq_true, beq_iff_eq] at unbound
  rcases unbound with ⟨⟨isAccess, entry⟩, foreign⟩
  rcases Expr.eq_access_of_isAccessOf isAccess with ⟨node, rfl⟩
  refine ⟨tokens, program, annotations, scope, node, scanned, parsed, accepted, member, entry, ?_,
    of_decide_eq_true failed⟩
  simpa using foreign

end Plc
