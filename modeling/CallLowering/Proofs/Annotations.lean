import CallLowering.Language.Program
import Mathlib.Data.List.Basic

/-!
# What a program promises

The resolver annotates expressions and definitions with types, and lowering trusts it where a
type says that control does not come back. `Program.Honest` says that it may: whatever is
annotated so does leave, in a form that lowering can see. The other promises are about calls
(`Program.SingleCandidate`), types (`Program.ProperReturns`) and names (`Program.Hygienic`).

All of them are about the expressions that a program consists of, `Program.parts`.
-/

namespace CallLowering

open Expr

variable {expr : Expr}

mutual

/-- All expressions inside an expression, itself included. The target of an `out` argument
names a place and is no expression of its own. -/
def Expr.parts : Expr → List Expr
  | ⟨kind, ty, loc⟩ => ⟨kind, ty, loc⟩ :: kind.parts

/-- All expressions inside an expression of this kind. -/
def ExprKind.parts : ExprKind → List Expr
  | .assign _ value => value.parts
  | .call call => call.parts
  | .yield args scope => Expr.listParts args ++ Expr.optionParts scope
  | .breakWith value => Expr.optionParts value
  | .nextWith value => Expr.optionParts value
  | .procLiteral ⟨_, body, _, _⟩ => body.parts
  | .seq exprs => Expr.listParts exprs
  | .rescue body handler => body.parts ++ handler.parts
  | _ => []

/-- All expressions inside a call. -/
def Call.parts : Call → List Expr
  | ⟨obj, _, args, block, _, _, _, _, _⟩ =>
    Expr.optionParts obj ++ Expr.listParts args ++ Block.optionParts block

/-- All expressions inside a block, if there is one. -/
def Block.optionParts : Option Block → List Expr
  | none => []
  | some ⟨_, body, _, _⟩ => body.parts

/-- All expressions inside an expression, if there is one. -/
def Expr.optionParts : Option Expr → List Expr
  | none => []
  | some expr => expr.parts

/-- All expressions inside several ones. -/
def Expr.listParts : List Expr → List Expr
  | [] => []
  | expr :: exprs => expr.parts ++ Expr.listParts exprs

end

/-- All expressions inside the body and the default values of a definition. -/
def Definition.parts (defn : Definition) : List Expr :=
  optionParts defn.body ++ defn.params.flatMap fun param =>
    match param.default? with
    | some (.expr value) => value.parts
    | _ => []

/-- All expressions of a program. -/
def Program.parts (program : Program) : List Expr := program.defs.flatMap Definition.parts

namespace Expr

theorem mem_parts_self (expr : Expr) : expr ∈ expr.parts := by
  cases expr
  simp [parts]

theorem kind_parts_subset (expr : Expr) : expr.kind.parts ⊆ expr.parts := by
  cases expr
  simp [parts]

theorem parts_subset_listParts {exprs : List Expr} (member : expr ∈ exprs) :
    expr.parts ⊆ listParts exprs := by
  induction exprs with
  | nil => exact absurd member List.not_mem_nil
  | cons head tail ih =>
    rw [listParts]
    obtain rfl | member := List.mem_cons.mp member
    · exact List.subset_append_left _ _
    · exact List.subset_append_of_subset_right _ (ih member)

end Expr

/-- The expressions directly inside an expression. -/
def ExprKind.children : ExprKind → List Expr
  | .assign _ value => [value]
  | .call site => site.obj.toList ++ site.args ++ (site.block.map (·.body)).toList
  | .yield args scope => args ++ scope.toList
  | .breakWith value => value.toList
  | .nextWith value => value.toList
  | .procLiteral block => [block.body]
  | .seq exprs => exprs
  | .rescue body handler => [body, handler]
  | _ => []

variable {call : Call} {kind : ExprKind} {program : Program}

/-- What lies inside a child of an expression lies inside the expression. -/
theorem ExprKind.child_parts_subset {child : Expr} (member : child ∈ kind.children) :
    child.parts ⊆ kind.parts := by
  have ofOption : ∀ {value : Option Expr}, child ∈ value.toList →
      child.parts ⊆ optionParts value := by
    intro value inside
    rw [Option.mem_toList.mp inside, optionParts]
    exact List.Subset.refl _
  cases kind with
  | assign _ value =>
    rw [List.mem_singleton.mp member, parts]
    exact List.Subset.refl _
  | call call =>
    obtain ⟨_, _, args, block, _, _, _, _, _⟩ := call
    simp only [children, List.mem_append] at member
    rw [parts, Call.parts]
    obtain (inside | inside) | inside := member
    · exact List.subset_append_of_subset_left _
        (List.subset_append_of_subset_left _ (ofOption inside))
    · exact List.subset_append_of_subset_left _
        (List.subset_append_of_subset_right _ (parts_subset_listParts inside))
    · refine List.subset_append_of_subset_right _ ?_
      obtain ⟨⟨params, body, breakTy, captures⟩, rfl, rfl⟩ :=
        Option.map_eq_some_iff.mp (Option.mem_toList.mp inside)
      rw [Block.optionParts]
      exact List.Subset.refl _
  | yield args scope =>
    rw [parts]
    obtain inside | inside := List.mem_append.mp member
    · exact List.subset_append_of_subset_left _ (parts_subset_listParts inside)
    · exact List.subset_append_of_subset_right _ (ofOption inside)
  | breakWith value | nextWith value =>
    rw [parts]
    exact ofOption member
  | procLiteral block =>
    obtain ⟨_, body, _, _⟩ := block
    rw [List.mem_singleton.mp member, parts]
    exact List.Subset.refl _
  | seq exprs =>
    rw [parts]
    exact parts_subset_listParts member
  | rescue body handler =>
    rw [parts]
    obtain rfl | inside := List.mem_cons.mp member
    · exact List.subset_append_left _ _
    · rw [List.mem_singleton.mp inside]
      exact List.subset_append_right _ _
  | _ => exact absurd member List.not_mem_nil

theorem Program.target?_mem {name : String} {defn : Definition}
    (found : program.target? name = some defn) : defn ∈ program.defs :=
  List.mem_reverse.mp (List.mem_of_find?_eq_some found)

namespace Definition

variable {program : Program} {defn : Definition}

theorem body_parts_subset {body : Expr} (member : defn ∈ program.defs)
    (bodied : defn.body = some body) : body.parts ⊆ program.parts := by
  intro expr inside
  refine List.mem_flatMap.mpr ⟨defn, member, List.mem_append_left _ ?_⟩
  rw [bodied, optionParts]
  exact inside

theorem default_parts_subset {param : Param} {value : Expr} (member : defn ∈ program.defs)
    (declared : param ∈ defn.params) (defaulted : param.default? = some (.expr value)) :
    value.parts ⊆ program.parts := by
  intro expr inside
  refine List.mem_flatMap.mpr ⟨defn, member, List.mem_append_right _ ?_⟩
  refine List.mem_flatMap.mpr ⟨param, declared, ?_⟩
  rw [defaulted]
  exact inside

end Definition

/-! ## Promises -/

mutual

/-- Whether an expression is seen not to hand control on: a jump, a call without block of one
definition that does not return, or a sequence that ends in such an expression. -/
def Expr.leaves (program : Program) : Expr → Bool
  | ⟨kind, _, _⟩ => kind.leaves program

/-- Whether an expression of this kind is seen not to hand control on. -/
def ExprKind.leaves (program : Program) : ExprKind → Bool
  | .breakWith _ | .nextWith _ => true
  | .call ⟨_, _, _, none, [name], _, _, _, _⟩ =>
    match program.target? name with
    | some defn => defn.ret.isNoReturn
    | none => false
  | .seq exprs => Expr.lastLeaves program exprs
  | _ => false

/-- Whether the last of several expressions is seen not to hand control on. -/
def Expr.lastLeaves (program : Program) : List Expr → Bool
  | [] => false
  | [expr] => expr.leaves program
  | _ :: exprs => Expr.lastLeaves program exprs

end

/-- A call is seen not to hand control on if its one definition does not return. -/
theorem Expr.leaves_call (kind : expr.kind = .call call) (leaves : expr.leaves program = true) :
    ∃ name defn, call.targets = [name] ∧ program.target? name = some defn ∧
      defn.ret.isNoReturn = true := by
  obtain ⟨_, _, loc⟩ := expr
  cases kind
  obtain ⟨_, _, _, _, _, _, _, _, _⟩ := call
  rw [Expr.leaves] at leaves
  unfold ExprKind.leaves at leaves
  split at leaves
  · rename_i same
    cases same
  · rename_i same
    cases same
  · rename_i target same
    cases same
    split at leaves
    · rename_i defn found
      exact ⟨_, defn, rfl, found, leaves⟩
    · cases leaves
  · rename_i same
    cases same
  · cases leaves

namespace Ty

/-- The type is no union without members, or with a member that has no values. -/
def Proper (ty : Ty) : Prop :=
  ∀ members, ty = .union members → members ≠ [] ∧ noReturn ∉ members

instance (ty : Ty) : Decidable ty.Proper :=
  match ty with
  | .union members => decidable_of_iff (members ≠ [] ∧ noReturn ∉ members)
    ⟨fun proper _ same => union.inj same ▸ proper, fun proper => proper members rfl⟩
  | .nil | .bool | .char | .symbol | .string | .int .. | .float _ | .pointer _ | .proc .. => isTrue nofun
  | .struct _ | .object _ | .metaclass _ | .program | .noReturn => isTrue nofun

theorem foldl_insertNew (first : Ty) (tys done : List Ty) :
    ∃ rest, tys.foldl insertNew (first :: done) = first :: rest := by
  induction tys generalizing done with
  | nil => exact ⟨done, rfl⟩
  | cons ty tys ih =>
    rw [List.foldl_cons, insertNew]
    split
    · exact ih done
    · exact ih (done ++ [ty])

/-- A proper type that has values keeps them in a merge. -/
theorem merge_isNoReturn {ty : Ty} (proper : ty.Proper) (returns : ¬ty.isNoReturn = true)
    (tys : List Ty) : (merge (ty :: tys)).isNoReturn = false := by
  obtain ⟨first, rest, contributes, returns'⟩ : ∃ first rest,
      ty.contribution = first :: rest ∧ first ≠ noReturn := by
    cases ty with
    | noReturn => exact absurd rfl returns
    | union members =>
      obtain ⟨some_, returns⟩ := proper members rfl
      obtain ⟨first, rest, rfl⟩ := List.exists_cons_of_ne_nil some_
      exact ⟨first, rest, rfl, fun same => returns (same ▸ List.mem_cons_self)⟩
    | _ => exact ⟨_, [], rfl, Ty.noConfusion⟩
  obtain ⟨others, merged⟩ := foldl_insertNew first (rest ++ tys.flatMap contribution) []
  have start : insertNew [] first = [first] := by
    rw [insertNew, if_neg List.not_mem_nil, List.nil_append]
  rw [merge, List.flatMap_cons, contributes, List.cons_append, List.foldl_cons, start, merged]
  cases others with
  | nil =>
    cases first with
    | noReturn => exact absurd rfl returns'
    | _ => rfl
  | cons _ _ => rfl

end Ty

namespace Program

/-- The annotations that control does not come back are right: an expression of that type is
seen to leave, and a definition of that result is foreign or has a body of that type, and is
never called with a block. -/
structure Honest (program : Program) : Prop where
  expressions : ∀ expr ∈ program.parts, expr.ty.isNoReturn → expr.leaves program
  definitions : ∀ defn ∈ program.defs, defn.ret.isNoReturn →
    defn.isForeign ∨ ∃ body ∈ defn.body, body.ty.isNoReturn
  blocks : ∀ expr ∈ program.parts, ∀ call, expr.kind = .call call → call.block.isSome →
    ∀ name ∈ call.targets, ∀ defn ∈ program.target? name, ¬defn.ret.isNoReturn

/-- Every call has exactly one candidate. -/
def SingleCandidate (program : Program) : Prop :=
  ∀ expr ∈ program.parts, ∀ call, expr.kind = .call call → call.targets.length = 1

/-- Every definition has a proper result type. -/
def ProperReturns (program : Program) : Prop := ∀ defn ∈ program.defs, defn.ret.Proper

end Program

/-- The call that an expression of this kind makes itself. -/
def ExprKind.call? : ExprKind → Option Call
  | .call site => some site
  | _ => none

theorem ExprKind.call?_eq_some : kind.call? = some call ↔ kind = .call call := by
  cases kind <;> simp only [call?, Option.some.injEq, reduceCtorEq, ExprKind.call.injEq]

namespace Program

instance (program : Program) : Decidable program.SingleCandidate :=
  decidable_of_iff (∀ expr ∈ program.parts, ∀ call ∈ expr.kind.call?, call.targets.length = 1)
    (by simp [ExprKind.call?_eq_some, SingleCandidate])

instance (program : Program) : Decidable program.Honest :=
  decidable_of_iff
    ((∀ expr ∈ program.parts, expr.ty.isNoReturn → expr.leaves program) ∧
      (∀ defn ∈ program.defs, defn.ret.isNoReturn →
        defn.isForeign ∨ ∃ body ∈ defn.body, body.ty.isNoReturn) ∧
      ∀ expr ∈ program.parts, ∀ call ∈ expr.kind.call?, call.block.isSome →
        ∀ name ∈ call.targets, ∀ defn ∈ program.target? name, ¬defn.ret.isNoReturn)
    (by
      simp only [Option.mem_def, ExprKind.call?_eq_some]
      exact ⟨fun ⟨expressions, definitions, blocks⟩ => ⟨expressions, definitions, blocks⟩,
        fun ⟨expressions, definitions, blocks⟩ => ⟨expressions, definitions, blocks⟩⟩)

instance (program : Program) : Decidable program.ProperReturns :=
  inferInstanceAs (Decidable (∀ defn ∈ program.defs, defn.ret.Proper))

end Program

/-- The hidden variable of the receiver of a dispatch. -/
def hiddenReceiver (id : Nat) : String := "%self." ++ toString id

/-- The hidden variable of an argument of a dispatch. -/
def hiddenArgument (id index : Nat) : String :=
  "%arg" ++ toString id ++ "." ++ toString index

/-- A hidden variable of a dispatch that comes after the first `seen`. -/
def Fresh (seen : Nat) (name : String) : Prop :=
  ∃ id, seen < id ∧ (name = hiddenReceiver id ∨ ∃ index, name = hiddenArgument id index)

/-- A hidden variable of some dispatch. -/
def IsHidden (name : String) : Prop := Fresh 0 name

/-- The variables that an expression reads itself, or captures in a block of its own. -/
def ExprKind.reads : ExprKind → List String
  | .var name => [name]
  | .call site => (site.block.map (·.captures)).getD []
  | .procLiteral block => block.captures
  | _ => []

/-- No expression reads or captures a hidden variable. -/
def Program.Hygienic (program : Program) : Prop :=
  ∀ expr ∈ program.parts, ∀ name ∈ expr.kind.reads, ¬IsHidden name

end CallLowering
