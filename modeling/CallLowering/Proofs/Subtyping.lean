import CallLowering.Proofs.Dispatching
import Mathlib.Data.List.Nodup
import Mathlib.Data.List.Perm.Subperm
import Mathlib.Data.Nat.Find
import Mathlib.Logic.Relation

/-!
# Subtyping

A type stands for its alternatives: a union for those of its members, however deeply they nest, and
any other type for itself (`Ty.alternatives`). One type is a subtype of another if each of its
alternatives is `noReturn`, an alternative of the other, or a class below one
(`TypeTable.isSubtype_iff`). So subtyping is a preorder, and a merge of types, which has the
alternatives of all of them, is their least upper bound.
-/

namespace CallLowering

open Ty

variable {call : Call}

namespace Ty

mutual

/-- The types other than unions that a type consists of. -/
def alternatives : Ty → List Ty
  | union members => allAlternatives members
  | ty => [ty]

/-- The types other than unions that several types consist of. -/
def allAlternatives : List Ty → List Ty
  | [] => []
  | ty :: tys => alternatives ty ++ allAlternatives tys

end

variable {tys : List Ty} {x : Ty}

theorem mem_allAlternatives : x ∈ allAlternatives tys ↔ ∃ ty ∈ tys, x ∈ ty.alternatives := by
  induction tys with
  | nil => simp [allAlternatives]
  | cons ty tys ih => simp [allAlternatives, ih]

/-! ## Merging -/

theorem mem_foldl_insertNew {done : List Ty} :
    x ∈ tys.foldl insertNew done ↔ x ∈ done ∨ x ∈ tys := by
  induction tys generalizing done with
  | nil => simp
  | cons ty tys ih =>
    have added : x ∈ insertNew done ty ↔ x ∈ done ∨ x = ty := by
      unfold insertNew
      split
      · rename_i present
        refine ⟨.inl, ?_⟩
        rintro (old | rfl)
        · exact old
        · exact present
      · simp
    rw [List.foldl_cons, ih, added, List.mem_cons, or_assoc]

end Ty

namespace TypeTable

variable {table : TypeTable} {a b c : Ty}

/-! ## Classes -/

/-- A class names another as its parent. -/
def IsParent (table : TypeTable) (name parent : String) : Prop := table.parent? name = some parent

/-- The class that is reached over the given number of parents. -/
def ancestor? (table : TypeTable) (name : String) : Nat → Option String
  | 0 => some name
  | steps + 1 => (table.parent? name).bind (table.ancestor? · steps)

variable {members : List Ty} {name target : String} {x : Ty}

theorem ancestor?_add {m n : Nat} :
    table.ancestor? name (m + n) = (table.ancestor? name m).bind (table.ancestor? · n) := by
  induction m generalizing name with
  | zero => simp [ancestor?]
  | succ m ih =>
    rw [Nat.succ_add, ancestor?, ancestor?, Option.bind_assoc]
    exact congrArg _ (funext fun _ => ih)

theorem transGen_isParent_iff :
    Relation.TransGen table.IsParent name target ↔
      ∃ steps, table.ancestor? name (steps + 1) = some target := by
  constructor
  · intro chain
    induction chain using Relation.TransGen.head_induction_on with
    | single parent => exact ⟨0, by rw [ancestor?, parent]; rfl⟩
    | head parent _ ih =>
      obtain ⟨steps, reached⟩ := ih
      exact ⟨steps + 1, by rw [ancestor?, parent, Option.bind_some, reached]⟩
  · rintro ⟨steps, reached⟩
    induction steps generalizing name with
    | zero =>
      obtain ⟨parent, isParent, last⟩ := Option.bind_eq_some_iff.mp reached
      cases last
      exact .single isParent
    | succ steps ih =>
      obtain ⟨_, isParent, rest⟩ := Option.bind_eq_some_iff.mp reached
      exact .head isParent (ih rest)

theorem mem_ancestorsWithin {bound : Nat} :
    target ∈ table.ancestorsWithin bound name ↔
      ∃ steps < bound, table.ancestor? name (steps + 1) = some target := by
  induction bound generalizing name with
  | zero => simp [ancestorsWithin]
  | succ bound ih =>
    rw [ancestorsWithin]
    cases parent : table.parent? name with
    | none => simp [ancestor?, parent]
    | some next =>
      simp only [List.mem_cons, ih, ancestor?, parent, Option.bind_some]
      constructor
      · rintro (rfl | ⟨steps, inside, reached⟩)
        · exact ⟨0, Nat.succ_pos _, rfl⟩
        · exact ⟨steps + 1, Nat.succ_lt_succ inside, reached⟩
      · rintro ⟨steps, inside, reached⟩
        cases steps with
        | zero => exact .inl (Option.some.inj reached).symm
        | succ steps => exact .inr ⟨steps, Nat.lt_of_succ_lt_succ inside, reached⟩

/-- A shortest way to an ancestor meets every class at most once, so it is no longer than the list
of classes. -/
theorem lt_of_shortest {steps : Nat} (reached : table.ancestor? name (steps + 1) = some target)
    (shortest : ∀ fewer < steps, table.ancestor? name (fewer + 1) ≠ some target) :
    steps < table.classes.length := by
  -- the classes on the way that have a parent
  have onWay : ∀ i ≤ steps, ∃ at_, table.ancestor? name i = some at_ ∧
      at_ ∈ table.classes.map (·.name) := by
    intro i within
    have split := reached
    rw [show steps + 1 = i + (steps - i + 1) by omega, ancestor?_add] at split
    obtain ⟨at_, here, rest⟩ := Option.bind_eq_some_iff.mp split
    obtain ⟨_, isParent, _⟩ := Option.bind_eq_some_iff.mp rest
    obtain ⟨decl, found, _⟩ := Option.bind_eq_some_iff.mp isParent
    refine ⟨at_, here, List.mem_map.mpr ⟨decl, List.mem_of_find?_eq_some found, ?_⟩⟩
    exact beq_iff_eq.mp (List.find?_some found :)
  -- meeting a class twice would be a detour
  have distinct : ∀ i j, i < j → j ≤ steps → table.ancestor? name i ≠ table.ancestor? name j := by
    intro i j before within same
    apply shortest (i + (steps - j)) (by omega)
    rw [Nat.add_assoc, ancestor?_add, same, ← ancestor?_add, ← reached]
    congr 1
    omega
  let way := (List.range (steps + 1)).map (table.ancestor? name)
  have nodup : way.Nodup := by
    refine List.Nodup.map_on ?_ List.nodup_range
    intro i first j second same
    rw [List.mem_range] at first second
    rcases Nat.lt_trichotomy i j with before | rfl | after
    · exact absurd same (distinct i j before (by omega))
    · rfl
    · exact absurd same.symm (distinct j i after (by omega))
  have inside : way ⊆ (table.classes.map (·.name)).map some := by
    intro found member
    obtain ⟨i, within, rfl⟩ := List.mem_map.mp member
    obtain ⟨at_, here, declared⟩ := onWay i (Nat.le_of_lt_succ (List.mem_range.mp within))
    exact List.mem_map.mpr ⟨at_, declared, here.symm⟩
  have short := (List.subperm_of_subset nodup inside).length_le
  rw [List.length_map, List.length_range, List.length_map, List.length_map] at short
  exact short

/-- The ancestors of a class are the classes that parents lead to. -/
theorem mem_ancestors :
    target ∈ table.ancestors name ↔ Relation.TransGen table.IsParent name target := by
  rw [ancestors, mem_ancestorsWithin, transGen_isParent_iff]
  refine ⟨fun ⟨steps, _, reached⟩ => ⟨steps, reached⟩, fun reachable => ?_⟩
  have found := Nat.find_spec reachable
  exact ⟨_, lt_of_shortest found fun _ before => Nat.find_min reachable before, found⟩

theorem isSubclass_trans (first : table.isSubclass a b = true)
    (second : table.isSubclass b c = true) : table.isSubclass a c = true := by
  cases a with
  | object name =>
    cases b with
    | object middle =>
      cases c with
      | object target =>
        simp only [isSubclass, List.contains_iff_mem, mem_ancestors] at first second ⊢
        exact first.trans second
      | _ => cases second
    | _ => cases first
  | _ => cases first

/-! ## Alternatives -/

/-- A type other than a union fits one of several others: it has no values, is one of them or is a
class below one. -/
def Fits (table : TypeTable) (x : Ty) (ys : List Ty) : Prop :=
  x = .noReturn ∨ ∃ y ∈ ys, x = y ∨ table.isSubclass x y = true

mutual

/-- Flowing into a type is a matter of its alternatives. -/
theorem flowsInto_iff (single : x.isUnion = false) (declared : Ty) :
    table.flowsInto x declared = true ↔ table.Fits x declared.alternatives := by
  cases declared with
  | union members =>
    have other : (x == .union members) = false := by
      cases x with
      | union => cases single
      | _ => rfl
    rw [flowsInto, other, Bool.false_or, flowsIntoAny_iff_fits single members]
    rfl
  | _ => cases x <;> simp [flowsInto, alternatives, Fits, isNoReturn]

theorem flowsIntoAny_iff_fits (single : x.isUnion = false) (members : List Ty) :
    (x.isNoReturn || table.flowsIntoAny x members) = true ↔
      table.Fits x (allAlternatives members) := by
  cases members with
  | nil => cases x <;> simp [flowsIntoAny, allAlternatives, Fits, isNoReturn]
  | cons member members =>
    have first := flowsInto_iff single member
    have others := flowsIntoAny_iff_fits single members
    rw [flowsIntoAny, Bool.or_left_comm, Bool.or_eq_true, first, others, allAlternatives]
    unfold Fits
    constructor
    · rintro ((never | ⟨y, member, below⟩) | (never | ⟨y, member, below⟩))
      · exact .inl never
      · exact .inr ⟨y, List.mem_append_left _ member, below⟩
      · exact .inl never
      · exact .inr ⟨y, List.mem_append_right _ member, below⟩
    · rintro (never | ⟨y, member, below⟩)
      · exact .inl (.inl never)
      · obtain member | member := List.mem_append.mp member
        · exact .inl (.inr ⟨y, member, below⟩)
        · exact .inr (.inr ⟨y, member, below⟩)

end

mutual

/-- A type is a subtype of another if its alternatives fit those of the other. -/
theorem isSubtype_iff (concrete declared : Ty) : table.isSubtype concrete declared = true ↔
    ∀ x ∈ concrete.alternatives, table.Fits x declared.alternatives := by
  cases concrete with
  | union members =>
    rw [isSubtype, Bool.or_eq_true, beq_iff_eq, allSubtypes_iff members declared, alternatives,
      or_iff_right_iff_imp]
    rintro rfl x member
    exact .inr ⟨x, member, .inl rfl⟩
  | _ =>
    rw [isSubtype, flowsInto_iff rfl declared]
    · simp [alternatives]
    · exact fun _ => Ty.noConfusion

theorem allSubtypes_iff (members : List Ty) (declared : Ty) :
    table.allSubtypes members declared = true ↔
      ∀ x ∈ allAlternatives members, table.Fits x declared.alternatives := by
  cases members with
  | nil => simp [allSubtypes, allAlternatives]
  | cons member members =>
    rw [allSubtypes, Bool.and_eq_true, isSubtype_iff member declared,
      allSubtypes_iff members declared, allAlternatives]
    simp [or_imp, forall_and]

end

/-! ## The order of types -/

theorem isSubtype_refl (ty : Ty) : table.isSubtype ty ty = true :=
  (isSubtype_iff ty ty).mpr fun x member => .inr ⟨x, member, .inl rfl⟩

theorem isSubtype_trans (first : table.isSubtype a b = true) (second : table.isSubtype b c = true) :
    table.isSubtype a c = true := by
  rw [isSubtype_iff] at first second ⊢
  intro x member
  obtain never | ⟨y, middle, below⟩ := first x member
  · exact .inl never
  obtain rfl | ⟨z, target, above⟩ := second y middle
  · obtain never | below := below
    · exact .inl never
    · cases x <;> cases below
  refine .inr ⟨z, target, ?_⟩
  obtain rfl | below := below
  · exact above
  · obtain rfl | above := above
    · exact .inr below
    · exact .inr (isSubclass_trans below above)

theorem isSubtype_union : table.isSubtype (.union members) d = true ↔
    ∀ member ∈ members, table.isSubtype member d = true := by
  simp only [isSubtype_iff, alternatives, mem_allAlternatives]
  exact ⟨fun all member inside x alternative => all x ⟨member, inside, alternative⟩,
    fun all x ⟨member, inside, alternative⟩ => all member inside x alternative⟩

theorem isSubtype_noReturn (d : Ty) : table.isSubtype .noReturn d = true := by
  rw [isSubtype_iff]
  intro x member
  exact .inl (List.mem_singleton.mp member)

theorem isSubtype_ofMembers : table.isSubtype (ofMembers members) d = true ↔
    ∀ member ∈ members, table.isSubtype member d = true := by
  match members with
  | [] =>
    refine iff_of_true (isSubtype_noReturn d) ?_
    exact List.forall_mem_nil _
  | [ty] => rw [ofMembers, List.forall_mem_singleton]
  | _ :: _ :: _ => exact isSubtype_union

theorem isSubtype_contribution : (∀ member ∈ ty.contribution, table.isSubtype member d = true) ↔
    table.isSubtype ty d = true := by
  cases ty with
  | noReturn =>
    refine iff_of_true ?_ (isSubtype_noReturn d)
    exact List.forall_mem_nil _
  | union members => exact isSubtype_union.symm
  | _ =>
    rw [contribution, List.forall_mem_singleton]
    all_goals
      intros
      contradiction

/-- A merge is below a type if all the merged types are. -/
theorem isSubtype_merge {tys : List Ty} : table.isSubtype (merge tys) d = true ↔
    ∀ ty ∈ tys, table.isSubtype ty d = true := by
  rw [merge, isSubtype_ofMembers]
  simp only [mem_foldl_insertNew, List.not_mem_nil, false_or, List.mem_flatMap]
  constructor
  · intro all ty member
    exact isSubtype_contribution.mp fun x contributed => all x ⟨ty, member, contributed⟩
  · rintro all x ⟨ty, member, contributed⟩
    exact isSubtype_contribution.mpr (all ty member) x contributed

end TypeTable

/-! ## The type of a dispatch -/

/-- The type of a dispatch is the merge of what its candidates return and what `break` hands out. -/
theorem Lower.lowerDispatch_ty {inner : Expr → Lower ValueId} {env : Env} {s s' : LowerState}
    {outcome : CallOutcome} (ran : lowerDispatch inner call env s = .ok outcome s') :
    ∃ defns, call.targets.map env.program.target? = defns.map some ∧
      outcome.ty = dispatchTy call defns := by
  unfold lowerDispatch at ran
  obtain ⟨defns, _, found, ran1⟩ := bind_ok ran
  refine ⟨defns, (definitions_ok found).2, ?_⟩
  obtain ⟨_, _, _, ran2⟩ := bind_ok ran1
  obtain ⟨_, _, _, ran3⟩ := bind_ok ran2
  obtain ⟨_, _, _, ran4⟩ := bind_ok ran3
  obtain ⟨_, _, _, ran5⟩ := bind_ok ran4
  obtain ⟨_, _, _, ran6⟩ := bind_ok ran5
  obtain ⟨_, _, _, ran7⟩ := bind_ok ran6
  obtain ⟨_, _, _, ran8⟩ := bind_ok ran7
  obtain ⟨_, _, _, ran9⟩ := bind_ok ran8
  cases ran9
  rfl

/-- The types that come out of a dispatch: the result of a candidate, or the type of the values that
`break` hands out of the block. -/
def Call.Yields (call : Call) (program : Program) (ty : Ty) : Prop :=
  (∃ name ∈ call.targets, ∃ defn, program.target? name = some defn ∧ defn.ret = ty) ∨
    ∃ block, call.block = some block ∧ block.breakTy = some ty

theorem Call.yields_iff {program : Program} {defns : List Definition} {ty : Ty}
    (targets : call.targets.map program.target? = defns.map some) : call.Yields program ty ↔
      ty ∈ defns.map (·.ret) ++ (call.block.bind (·.breakTy)).toList := by
  have candidates : (∃ name ∈ call.targets, ∃ defn, program.target? name = some defn ∧ defn.ret = ty) ↔
      ∃ defn ∈ defns, defn.ret = ty := by
    constructor
    · rintro ⟨name, target, defn, found, rfl⟩
      have member : some defn ∈ defns.map some :=
        targets ▸ List.mem_map.mpr ⟨name, target, found⟩
      obtain ⟨_, member, same⟩ := List.mem_map.mp member
      cases same
      exact ⟨defn, member, rfl⟩
    · rintro ⟨defn, member, rfl⟩
      have member : some defn ∈ call.targets.map program.target? :=
        targets ▸ List.mem_map_of_mem member
      obtain ⟨name, target, found⟩ := List.mem_map.mp member
      exact ⟨name, target, defn, found, rfl⟩
  rw [Yields, candidates, List.mem_append, List.mem_map, Option.mem_toList, Option.bind_eq_some_iff]

/-- Subtyping is reflexive and transitive, and a union is a subtype of what all its members are
subtypes of. A merge of types is their least upper bound, and so is the type of a dispatch for the
types that come out of it. -/
theorem TypeTable.isSubtype_leastUpperBound (table : TypeTable) :
    (∀ ty, table.isSubtype ty ty = true) ∧
    (∀ a b c, table.isSubtype a b = true → table.isSubtype b c = true →
      table.isSubtype a c = true) ∧
    (∀ members d, table.isSubtype (.union members) d = true ↔
      ∀ member ∈ members, table.isSubtype member d = true) ∧
    (∀ tys, (∀ ty ∈ tys, table.isSubtype ty (merge tys) = true) ∧
      ∀ d, (∀ ty ∈ tys, table.isSubtype ty d = true) → table.isSubtype (merge tys) d = true) ∧
    ∀ inner call env s outcome s', Lower.lowerDispatch inner call env s = .ok outcome s' →
      (∀ ty, call.Yields env.program ty → table.isSubtype ty outcome.ty = true) ∧
        ∀ d, (∀ ty, call.Yields env.program ty → table.isSubtype ty d = true) →
          table.isSubtype outcome.ty d = true := by
  have bound : ∀ tys, (∀ ty ∈ tys, table.isSubtype ty (merge tys) = true) ∧
      ∀ d, (∀ ty ∈ tys, table.isSubtype ty d = true) → table.isSubtype (merge tys) d = true :=
    fun tys => ⟨isSubtype_merge.mp (isSubtype_refl _), fun d => isSubtype_merge.mpr⟩
  refine ⟨isSubtype_refl, fun a b c => isSubtype_trans, fun members d => isSubtype_union, bound, ?_⟩
  intro inner call env s outcome s' ran
  obtain ⟨defns, targets, merged⟩ := Lower.lowerDispatch_ty ran
  rw [merged]
  simp only [Call.yields_iff targets]
  exact bound _

/-- Dogs are animals, and puppies are dogs; one of two definitions fetches a dog. -/
def Program.kennel : Program where
  file := "kennel.cr"
  types := ⟨[], [⟨"Animal", none, []⟩, ⟨"Dog", some "Animal", []⟩, ⟨"Puppy", some "Dog", []⟩]⟩
  defs := [.ofSignature "fetch" .program [] (.object "Dog"), .ofSignature "shout" .program [] .string]

/-- A state in the body of a function. -/
def LowerState.inFunction (env : Env) : LowerState :=
  let initial := LowerState.initial env
  let (func, code) := initial.code.declare ⟨"main", [], .void, none, false⟩
  match Emit.beginRoutine func code with
  | .ok _ code => { initial with code := code }
  | .error .. => initial

theorem TypeTable.isSubtype_leastUpperBound_kennel :
    Program.kennel.types.isSubtype (.object "Puppy") (.union [.string, .object "Animal"]) = true ∧
    Program.kennel.types.isSubtype (.merge [.noReturn, .union [.object "Dog", .union [.noReturn]]])
      (.object "Animal") = true ∧
    ∃ outcome s', Lower.lowerDispatch (Lower.lowerExprWithin 1) (.ofTargets "go" ["fetch", "shout"])
        ⟨.kennel, .default⟩ (.inFunction ⟨.kennel, .default⟩) = .ok outcome s' ∧
      Program.kennel.types.isSubtype .string outcome.ty = true ∧
      Program.kennel.types.isSubtype outcome.ty (.union [.string, .object "Animal"]) = true := by
  obtain ⟨_, trans, _, least, dispatch⟩ := isSubtype_leastUpperBound Program.kennel.types
  refine ⟨trans _ (.object "Dog") _ (by decide +kernel) (by decide +kernel),
    (least _).2 _ (by decide +kernel), ?_⟩
  have succeeds : (match Lower.lowerDispatch (Lower.lowerExprWithin 1)
      (.ofTargets "go" ["fetch", "shout"]) ⟨.kennel, .default⟩ (.inFunction ⟨.kennel, .default⟩) with
      | .ok .. => true
      | .error .. => false) = true := by decide +kernel
  split at succeeds
  · rename_i outcome s' ran
    obtain ⟨upper, least⟩ := dispatch _ _ _ _ outcome s' ran
    refine ⟨outcome, s', ran, upper _ (.inl ⟨"shout", by decide, _, rfl, rfl⟩), least _ ?_⟩
    rintro ty (⟨name, target, defn, found, rfl⟩ | ⟨block, given, _⟩)
    · revert found
      revert defn
      revert name
      decide +kernel
    · cases given
  · cases succeeds

end CallLowering
