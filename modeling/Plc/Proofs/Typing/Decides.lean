import Plc.Proofs.Typing.Entries
import Plc.Proofs.Typing.Sound
import Plc.Proofs.Typing.Unique

/-! Checks that decide a judgement: they succeed just where there is a derivation, and note
the types that the derivation gives. Judgements are composed as the checks are. -/

namespace Plc

open Typing

/-! ## Notes of a derivation -/

namespace Typing.Annotations

/-- All types of a derivation are noted, and no others. -/
def Records (before : Annotations) (parts : List (Expr × Ty)) (after : Annotations) : Prop :=
  after.typeTable =
    parts.foldl (fun table part => table.insert part.1.node.id part.2) before.typeTable

/-- None of the expressions has a type yet, and no two of them have the same number. -/
def Lacks (before : Annotations) (parts : List (Expr × Ty)) : Prop :=
  before.Unused (parts.map (·.1.node.id))

theorem Records.trans {before middle after : Annotations} {earlier later : List (Expr × Ty)}
    (first : before.Records earlier middle) (second : middle.Records later after) :
    before.Records (earlier ++ later) after := by
  rw [Records, List.foldl_append, ← first]
  exact second

theorem Records.mem_iff {before after : Annotations} {parts : List (Expr × Ty)}
    (records : before.Records parts after) (id : Nat) :
    id ∈ after.typeTable ↔ id ∈ before.typeTable ∨ id ∈ parts.map (·.1.node.id) := by
  rw [records]
  clear records
  generalize before.typeTable = table
  induction parts generalizing table with
  | nil => simp
  | cons head tail induction =>
      rw [List.foldl_cons, induction, Std.TreeMap.mem_insert, List.map_cons, List.mem_cons,
        Std.LawfulEqCmp.compare_eq_iff_eq, @eq_comm _ id]
      tauto

theorem Lacks.left {before : Annotations} {earlier later : List (Expr × Ty)}
    (lacks : before.Lacks (earlier ++ later)) : before.Lacks earlier := by
  rcases lacks with ⟨distinct, fresh⟩
  rw [List.map_append] at distinct fresh
  exact ⟨(List.nodup_append.mp distinct).1,
    fun id member => fresh id (List.mem_append_left _ member)⟩

theorem Lacks.right {before middle : Annotations} {earlier later : List (Expr × Ty)}
    (lacks : before.Lacks (earlier ++ later)) (records : before.Records earlier middle) :
    middle.Lacks later := by
  rcases lacks with ⟨distinct, fresh⟩
  rw [List.map_append] at distinct fresh
  rcases List.nodup_append.mp distinct with ⟨_, laterDistinct, apart⟩
  refine ⟨laterDistinct, fun id member noted => ?_⟩
  rcases (records.mem_iff id).mp noted with old | new
  · exact fresh id (List.mem_append_right _ member) old
  · exact apart id new id member rfl

/-- With distinct numbers, every expression of the derivation has its type. -/
theorem Records.notes {before after : Annotations} {parts : List (Expr × Ty)}
    (records : before.Records parts after) (distinct : (parts.map (·.1.node.id)).Nodup) :
    ∀ part ∈ parts, after.Notes part.1.node.id part.2 := by
  intro part member
  rcases List.append_of_mem member with ⟨earlier, later, rfl⟩
  rw [List.map_append, List.map_cons] at distinct
  have last := (List.nodup_cons.mp (List.nodup_append.mp distinct).2.1).1
  unfold Notes
  rw [records, List.foldl_append, List.foldl_cons]
  generalize List.foldl _ before.typeTable earlier = table
  clear distinct records member
  -- Later expressions have other numbers, so that the entry stays.
  have stays : ∀ {others : List (Expr × Ty)} {table : Std.TreeMap Nat Ty},
      part.1.node.id ∉ others.map (·.1.node.id) → table[part.1.node.id]? = some part.2 →
      (others.foldl (fun table part => table.insert part.1.node.id part.2) table)[
        part.1.node.id]? = some part.2 := by
    intro others
    induction others with
    | nil => exact fun _ noted => noted
    | cons head tail induction =>
        intro table absent noted
        rcases not_or.mp (List.mem_cons.not.mp absent) with ⟨different, absent⟩
        apply induction absent
        rw [Std.TreeMap.getElem?_insert, if_neg, noted]
        exact fun same => different (Std.LawfulEqCmp.eq_of_compare same).symm
  exact stays last (by simp)

end Typing.Annotations

/-! ## Deciding -/

namespace Typing.Check

/-- The check succeeds where something is derivable, with the result of the derivation as
`view` shows it, and notes the types of the derivation. -/
structure Decides (action : Check α) (view : α → β)
    (derives : β → List (Expr × Ty) → Prop) : Prop where
  sound : ∀ before value after, action before = .ok (value, after) →
    ∃ parts, derives (view value) parts ∧ before.Records parts after
  complete : ∀ before result parts, derives result parts → before.Lacks parts →
    ∃ value after, action before = .ok (value, after) ∧ view value = result ∧
      before.Records parts after

/-- A check that types no expression. -/
def Settles (action : Check α) (view : α → β) (holds : β → Prop) : Prop :=
  Decides action view fun result parts => holds result ∧ parts = []

namespace Decides

variable {action : Check α} {view : α → β} {derives others : β → List (Expr × Ty) → Prop}

theorem congr (decides : Decides action view derives)
    (same : ∀ result parts, derives result parts ↔ others result parts) :
    Decides action view others where
  sound before value after ran := by
    rcases decides.sound before value after ran with ⟨parts, derived, records⟩
    exact ⟨parts, (same _ _).mp derived, records⟩
  complete before result parts derived lacks :=
    decides.complete before result parts ((same _ _).mpr derived) lacks

theorem throw (error : TypingError) :
    Decides (throw error : Check α) view fun _ _ => False where
  sound _ _ _ ran := by cases ran
  complete _ _ _ impossible _ := impossible.elim

theorem bindView {next : α → Check γ} {viewNext : γ → δ}
    (following : β → δ → List (Expr × Ty) → Prop) (first : Decides action view derives)
    (second : ∀ value, Decides (next value) viewNext (following (view value))) :
    Decides (action >>= next) viewNext fun result parts => ∃ middle earlier later,
      derives middle earlier ∧ following middle result later ∧ parts = earlier ++ later where
  sound before result after ran := by
    have opened : ((action before).bind fun pair => next pair.1 pair.2) =
        .ok (result, after) := ran
    cases middle : action before with
    | error error =>
        rw [middle] at opened
        cases opened
    | ok pair =>
        rw [middle] at opened
        rcases first.sound before pair.1 pair.2 middle with ⟨earlier, derived, records⟩
        rcases (second pair.1).sound pair.2 result after opened with
          ⟨later, derivedLater, recordsLater⟩
        exact ⟨earlier ++ later, ⟨_, _, _, derived, derivedLater, rfl⟩,
          records.trans recordsLater⟩
  complete before result parts derived lacks := by
    rcases derived with ⟨middle, earlier, later, derived, derivedLater, rfl⟩
    rcases first.complete before middle earlier derived lacks.left with
      ⟨value, between, ran, rfl, records⟩
    rcases (second value).complete between result later derivedLater
      (lacks.right records) with ⟨last, after, ranLater, viewed, recordsLater⟩
    refine ⟨last, after, ?_, viewed, records.trans recordsLater⟩
    show (action before).bind (fun pair => next pair.1 pair.2) = _
    rw [ran]
    exact ranLater

theorem bind {next : α → Check γ} {viewNext : γ → δ} {derives : α → List (Expr × Ty) → Prop}
    {following : α → δ → List (Expr × Ty) → Prop} (first : Decides action id derives)
    (second : ∀ value, Decides (next value) viewNext (following value)) :
    Decides (action >>= next) viewNext fun result parts => ∃ middle earlier later,
      derives middle earlier ∧ following middle result later ∧ parts = earlier ++ later :=
  first.bindView following second

theorem recordType (expression : Expr) (type : Ty) :
    Decides (recordType expression.node.id type) id fun result parts =>
      result = type ∧ parts = [(expression, type)] where
  sound before value after ran := by
    unfold Check.recordType at ran
    split at ran
    · cases ran
    · cases ran
      exact ⟨_, ⟨rfl, rfl⟩, rfl⟩
  complete before result parts derived lacks := by
    rcases derived with ⟨rfl, rfl⟩
    have absent : ¬before.typeTable.contains expression.node.id = true := fun contained =>
      lacks.2 _ (List.mem_singleton_self _) (Std.TreeMap.contains_iff_mem.mp contained)
    refine ⟨_, _, if_neg absent, rfl, rfl⟩

end Decides

namespace Settles

variable {action : Check α} {view : α → β} {holds : β → Prop}

theorem pure (value : α) : Settles (pure value) view (· = view value) where
  sound before result after ran := by
    cases ran
    exact ⟨[], ⟨rfl, rfl⟩, rfl⟩
  complete before result parts derived lacks := by
    rcases derived with ⟨rfl, rfl⟩
    exact ⟨value, before, rfl, rfl, rfl⟩

theorem lift {result : Except TypingError α}
    (agrees : ∀ value, holds value ↔ ∃ given, result = .ok given ∧ view given = value) :
    Settles (liftM result : Check α) view holds where
  sound before value after ran := by
    cases result with
    | error error => cases ran
    | ok given =>
        cases ran
        exact ⟨[], ⟨(agrees _).mpr ⟨_, rfl, rfl⟩, rfl⟩, rfl⟩
  complete before value parts derived lacks := by
    rcases derived with ⟨held, rfl⟩
    rcases (agrees value).mp held with ⟨given, rfl, viewed⟩
    exact ⟨given, before, rfl, viewed, rfl⟩

theorem recordVariable (id : Nat) (binding : Variable) :
    Settles (recordVariable id binding) (fun _ => ()) fun _ => True where
  sound before value after ran := by
    cases ran
    exact ⟨[], ⟨trivial, rfl⟩, rfl⟩
  complete before value parts derived lacks := by
    rcases derived with ⟨_, rfl⟩
    exact ⟨(), _, rfl, rfl, rfl⟩

theorem recordFunction (id : Nat) (binding : Signature) :
    Settles (recordFunction id binding) (fun _ => ()) fun _ => True where
  sound before value after ran := by
    cases ran
    exact ⟨[], ⟨trivial, rfl⟩, rfl⟩
  complete before value parts derived lacks := by
    rcases derived with ⟨_, rfl⟩
    exact ⟨(), _, rfl, rfl, rfl⟩

theorem bindView {next : α → Check γ} {viewNext : γ → δ}
    (following : β → δ → List (Expr × Ty) → Prop) (first : Settles action view holds)
    (second : ∀ value, Decides (next value) viewNext (following (view value))) :
    Decides (action >>= next) viewNext fun result parts => ∃ middle,
      holds middle ∧ following middle result parts := by
  refine (Decides.bindView following first second).congr fun result parts => ?_
  constructor
  · rintro ⟨middle, _, later, ⟨held, rfl⟩, derived, rfl⟩
    exact ⟨middle, held, derived⟩
  · rintro ⟨middle, held, derived⟩
    exact ⟨middle, [], parts, ⟨held, rfl⟩, derived, rfl⟩

theorem bind {next : α → Check γ} {viewNext : γ → δ} {holds : α → Prop}
    {following : α → δ → List (Expr × Ty) → Prop} (first : Settles action id holds)
    (second : ∀ value, Decides (next value) viewNext (following value)) :
    Decides (action >>= next) viewNext fun result parts => ∃ middle,
      holds middle ∧ following middle result parts :=
  first.bindView following second

theorem andThen {next : α → Check γ} {viewNext : γ → δ} {holds : α → Prop}
    {following : α → δ → Prop} (first : Settles action id holds)
    (second : ∀ value, Settles (next value) viewNext (following value)) :
    Settles (action >>= next) viewNext fun result => ∃ middle,
      holds middle ∧ following middle result := by
  refine (first.bindView (fun value result parts => following value result ∧ parts = [])
    second).congr fun result parts => ?_
  constructor
  · rintro ⟨middle, held, derived, rfl⟩
    exact ⟨⟨middle, held, derived⟩, rfl⟩
  · rintro ⟨⟨middle, held, derived⟩, rfl⟩
    exact ⟨middle, held, derived, rfl⟩

end Settles

theorem Decides.bindSettles {action : Check α} {next : α → Check γ} {viewNext : γ → δ}
    {derives : α → List (Expr × Ty) → Prop} {holds : α → δ → Prop}
    (first : Decides action id derives)
    (second : ∀ value, Settles (next value) viewNext (holds value)) :
    Decides (action >>= next) viewNext fun result parts => ∃ middle,
      derives middle parts ∧ holds middle result := by
  refine (first.bindView (fun value result parts => holds value result ∧ parts = [])
    second).congr fun result parts => ?_
  constructor
  · rintro ⟨middle, earlier, _, derived, ⟨held, rfl⟩, rfl⟩
    rw [List.append_nil]
    exact ⟨middle, derived, held⟩
  · rintro ⟨middle, derived, held⟩
    exact ⟨middle, parts, [], derived, ⟨held, rfl⟩, (List.append_nil _).symm⟩

end Typing.Check

end Plc
