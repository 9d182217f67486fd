import Plc.Proofs.Machine.Moment

/-! The expressions that an activity may come to. They are the ones written in it, so what
holds of all of them holds of what its parts may come to; only a call leads to the expressions
of another body. -/

namespace Plc

def Machine.Function.terms (function : Machine.Function) : List Expr :=
  match function.callable with
  | .declared _ body _ => Stmt.subtermsOfAll body
  | _ => []

def Activity.terms : Activity → List Expr
  | .evaluate value => value.subterms
  | .evaluateAll values => Expr.subtermsOfAll values
  | .execute statement => statement.subterms
  | .executeAll statements => Stmt.subtermsOfAll statements
  | .select _ cases => Case.subtermsOfAll cases
  | .iterate condition body _ => condition.subterms ++ Stmt.subtermsOfAll body
  | .invoke function _ => function.terms
  | .bind _ _ _ _ | .define _ _ _ _ _ => []
  | .defineGlobals declarations => declarations.flatMap Global.subterms
  | .run program => program.subterms

namespace Moment

section

variable {bound : Nat} {machine : Machine} {part : Moment}

private theorem evaluate_terms {value : Expr} (member : part ∈ evaluateParts bound machine value) :
    (∃ function arguments, part.activity = .invoke function arguments) ∨
      part.activity.terms ⊆ value.subterms := by
  cases value with
  | literal | access => cases member
  | group node inner =>
      cases List.mem_singleton.mp member
      exact .inr (List.subset_cons_self _ _)
  | binary node operator left right =>
      rcases List.mem_cons.mp member with rfl | member
      · exact .inr (by simp [Activity.terms, Expr.subterms])
      · rcases Run.mem_followedBy member with ⟨_, _, _, member⟩
        cases List.mem_singleton.mp member
        exact .inr (by simp [Activity.terms, Expr.subterms])
  | element node name index =>
      cases List.mem_singleton.mp member
      exact .inr (List.subset_cons_self _ _)
  | call node name arguments =>
      rcases List.mem_cons.mp member with rfl | member
      · exact .inr (List.subset_cons_self _ _)
      · rcases Run.mem_followedBy member with ⟨_, _, _, member⟩
        rcases Run.mem_followedBy member with ⟨_, _, _, member⟩
        cases List.mem_singleton.mp member
        exact .inl ⟨_, _, rfl⟩
  | list node elements =>
      cases List.mem_singleton.mp member
      exact .inr (List.subset_cons_self _ _)

private theorem initial_terms {value : Option Expr}
    (member : part ∈ initialParts bound machine value) :
    part.activity.terms ⊆ (value.map Expr.subterms).getD [] := by
  cases value with
  | none => cases member
  | some value =>
      cases List.mem_singleton.mp member
      exact List.Subset.refl _

private theorem execute_terms {statement : Stmt}
    (member : part ∈ executeParts bound machine statement) :
    part.activity.terms ⊆ statement.subterms := by
  cases statement with
  | expression value | returns value =>
      cases List.mem_singleton.mp member
      exact List.Subset.refl _
  | declaration id name typeName value =>
      rcases List.mem_append.mp member with initial | member
      · exact initial_terms initial
      · rcases Run.mem_followedBy member with ⟨_, _, _, member⟩
        cases List.mem_singleton.mp member
        exact List.nil_subset _
  | assignment receiver value =>
      cases receiver with
      | access node name =>
          rcases Run.mem_followedBy member with ⟨_, _, _, member⟩
          cases List.mem_singleton.mp member
          exact List.subset_append_right _ _
      | element node name index =>
          rcases Run.mem_followedBy member with ⟨_, _, _, member⟩
          rcases List.mem_cons.mp member with rfl | member
          · exact List.subset_append_of_subset_left _ (List.subset_cons_self _ _)
          · rcases Run.mem_followedBy member with ⟨_, _, _, member⟩
            cases List.mem_singleton.mp member
            exact List.subset_append_right _ _
      | literal | group | binary | call | list => cases member
  | conditional condition whenTrue whenFalse =>
      rcases List.mem_cons.mp member with rfl | member
      · simp [Activity.terms, Stmt.subterms]
      · rcases Run.mem_followedBy member with ⟨_, _, _, member⟩
        rcases Run.mem_followedBy member with ⟨holds, _, _, member⟩
        cases List.mem_singleton.mp member
        cases holds <;> simp [block, Activity.terms, Stmt.subterms]
  | switch condition cases =>
      rcases List.mem_cons.mp member with rfl | member
      · exact List.subset_append_left _ _
      · rcases Run.mem_followedBy member with ⟨_, _, _, member⟩
        cases List.mem_singleton.mp member
        exact List.subset_append_right _ _
  | loop condition body =>
      cases List.mem_singleton.mp member
      exact List.Subset.refl _

private theorem select_terms {value : Value} {cases : List Case}
    (member : part ∈ selectParts bound machine value cases) :
    part.activity.terms ⊆ Case.subtermsOfAll cases := by
  cases cases with
  | nil => cases member
  | cons head tail =>
      rcases head with ⟨test, body⟩
      cases test with
      | none =>
          cases List.mem_singleton.mp member
          simp [block, Activity.terms, Case.subtermsOfAll, Case.subterms]
      | some test =>
          rcases List.mem_cons.mp member with rfl | member
          · simp [Activity.terms, Case.subtermsOfAll, Case.subterms]
          · rcases Run.mem_followedBy member with ⟨_, _, _, member⟩
            rcases Run.mem_followedBy member with ⟨same, _, _, member⟩
            cases List.mem_singleton.mp member
            cases same <;> simp [block, Activity.terms, Case.subtermsOfAll, Case.subterms]

private theorem iterate_terms {condition : Expr} {body : List Stmt} {rounds : Nat}
    (member : part ∈ iterateParts bound machine condition body rounds) :
    part.activity.terms ⊆ condition.subterms ++ Stmt.subtermsOfAll body := by
  cases rounds with
  | zero => cases member
  | succ rounds =>
      rcases List.mem_cons.mp member with rfl | member
      · exact List.subset_append_left _ _
      · rcases Run.mem_followedBy member with ⟨_, _, _, member⟩
        rcases Run.mem_followedBy member with ⟨again, _, _, member⟩
        cases again with
        | false => cases member
        | true =>
            rcases List.mem_cons.mp member with rfl | member
            · exact List.subset_append_right _ _
            · rcases Run.mem_followedBy member with ⟨flow, _, _, member⟩
              cases flow with
              | returned value => cases member
              | normal =>
                  cases List.mem_singleton.mp member
                  exact List.Subset.refl _

private theorem invoke_terms {function : Machine.Function} {arguments : List Value}
    (member : part ∈ invokeParts machine function arguments bound) :
    part.activity.terms ⊆ function.terms := by
  cases bound with
  | zero => cases member
  | succ bound =>
      unfold Machine.Function.terms
      simp only [invokeParts] at member
      split at member
      · cases member
      · cases member
      · rename_i parameters body closure callable
        rw [callable]
        split at member
        · cases member
        · rcases List.mem_cons.mp member with rfl | member
          · exact List.nil_subset _
          · rcases Run.mem_followedBy member with ⟨_, _, _, member⟩
            cases List.mem_singleton.mp member
            exact List.Subset.refl _

end

theorem terms_of_part {whole part : Moment} (member : part ∈ whole.parts) :
    (∃ function arguments, part.activity = .invoke function arguments) ∨
      part.activity.terms ⊆ whole.activity.terms := by
  rcases whole with ⟨bound, activity, machine⟩
  cases activity with
  | evaluate value => exact evaluate_terms member
  | execute statement => exact .inr (execute_terms member)
  | select value cases => exact .inr (select_terms member)
  | iterate condition body rounds => exact .inr (iterate_terms member)
  | invoke function arguments => exact .inr (invoke_terms member)
  | define declaration position name isMutable value => cases member
  | evaluateAll values =>
      cases values with
      | nil => cases member
      | cons head tail =>
          rcases List.mem_cons.mp member with rfl | member
          · exact .inr (List.subset_append_left _ _)
          · rcases Run.mem_followedBy member with ⟨_, _, _, member⟩
            cases List.mem_singleton.mp member
            exact .inr (List.subset_append_right _ _)
  | executeAll statements =>
      cases statements with
      | nil => cases member
      | cons head tail =>
          rcases List.mem_cons.mp member with rfl | member
          · exact .inr (List.subset_append_left _ _)
          · rcases Run.mem_followedBy member with ⟨flow, _, _, member⟩
            cases flow with
            | returned value => cases member
            | normal =>
                cases List.mem_singleton.mp member
                exact .inr (List.subset_append_right _ _)
  | bind signature index position bindings =>
      cases bindings with
      | nil => cases member
      | cons head tail =>
          rcases List.mem_cons.mp member with rfl | member
          · exact .inr (List.nil_subset _)
          · rcases Run.mem_followedBy member with ⟨_, _, _, member⟩
            cases List.mem_singleton.mp member
            exact .inr (List.nil_subset _)
  | defineGlobals declarations =>
      cases declarations with
      | nil => cases member
      | cons head tail =>
          rcases List.mem_append.mp member with initial | member
          · exact .inr (List.subset_append_of_subset_left _ (initial_terms initial))
          · rcases Run.mem_followedBy member with ⟨_, _, _, member⟩
            rcases List.mem_cons.mp member with rfl | member
            · exact .inr (List.nil_subset _)
            · rcases Run.mem_followedBy member with ⟨_, _, _, member⟩
              cases List.mem_singleton.mp member
              exact .inr (List.subset_append_right _ _)
  | run program =>
      rcases List.mem_cons.mp member with rfl | member
      · exact .inr (List.subset_append_left _ _)
      · rcases Run.mem_followedBy member with ⟨_, _, _, member⟩
        rcases Run.mem_followedBy member with ⟨_, _, _, member⟩
        rcases Run.mem_followedBy member with ⟨_, _, _, member⟩
        cases List.mem_singleton.mp member
        exact .inl ⟨_, _, rfl⟩

end Moment

end Plc
