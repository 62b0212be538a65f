import CallLowering.Language.Program
import Mathlib.Algebra.Group.Defs

/-!
# Direct evaluation

Evaluating an expression from left to right, without any code, calls some functions in some
order and then goes on, leaves an enclosing construct or never returns. `Program.evaluate`
lists these calls.

A construct that can be left early opens a *frame*: a call with an inlined block is left by
`break`, a block that was yielded to by `next`, and a body with a handler at its end. Frames are
numbered from the outermost one, so that `break` inside a block reaches the frame of the call
the block was handed to over all frames opened since.
-/

namespace CallLowering

variable {frame : Nat} {run : Run}

/-- Where control is after an evaluation. -/
inductive Exit where
  /-- At what comes next. -/
  | continues
  /-- At the end of a frame. -/
  | leaves (frame : Nat)
  /-- Nowhere: a function was called that does not return. -/
  | halts
  deriving DecidableEq

/-- What an evaluation did: the functions it called, in order, and where control is then. -/
structure Run where
  calls : List String
  exit : Exit
  deriving DecidableEq

/-- The run of an evaluation; nothing if a call has no single candidate or the evaluation does
not come to an end. -/
def Effect := Option Run

namespace Effect

instance : DecidableEq Effect := inferInstanceAs (DecidableEq (Option Run))

/-- Nothing happens. -/
def silent : Effect := some ⟨[], .continues⟩

/-- A function is called and returns. -/
def call (name : String) : Effect := some ⟨[name], .continues⟩

/-- Control goes to the end of a frame. -/
def leave (frame : Nat) : Effect := some ⟨[], .leaves frame⟩

/-- Control does not come back. -/
def halt : Effect := some ⟨[], .halts⟩

/-- One evaluation after another; the second takes place only if control goes on after the
first. -/
def andThen (first second : Effect) : Effect :=
  Option.bind first fun run =>
    if run.exit = .continues then
      Option.map (fun next => ⟨run.calls ++ next.calls, next.exit⟩) second
    else some run

/-- Control goes on at the end of a frame. -/
def close (frame : Nat) (effect : Effect) : Effect :=
  Option.map (fun run => if run.exit = .leaves frame then ⟨run.calls, .continues⟩ else run) effect

/-- An evaluation with a frame of its own, whose end it reaches when it goes on. -/
def framed (frame : Nat) (effect : Effect) : Effect := (effect.andThen (leave frame)).close frame

theorem close_leaves {calls : List String} :
    close frame (some ⟨calls, .leaves frame⟩) = some ⟨calls, .continues⟩ :=
  congrArg some (if_pos rfl)

theorem close_of_exits (exits : run.exit ≠ .leaves frame) : close frame (some run) = some run :=
  congrArg some (if_neg exits)

theorem silent_andThen (effect : Effect) : silent.andThen effect = effect := by
  cases effect <;> rfl

theorem andThen_silent (effect : Effect) : effect.andThen silent = effect := by
  rcases effect with _ | ⟨calls, _ | _ | _⟩
  · rfl
  · exact congrArg (fun calls => some (Run.mk calls .continues)) (List.append_nil calls)
  · rfl
  · rfl

theorem andThen_assoc (first second third : Effect) :
    (first.andThen second).andThen third = first.andThen (second.andThen third) := by
  rcases first with _ | ⟨calls, _ | _ | _⟩
  · rfl
  · rcases second with _ | ⟨calls', _ | _ | _⟩
    · rfl
    · rcases third with _ | ⟨calls'', exit⟩
      · rfl
      · exact congrArg (fun calls => some (Run.mk calls exit)) (List.append_assoc ..)
    · rfl
    · rfl
  · rfl
  · rfl

instance : Monoid Effect where
  mul := andThen
  one := silent
  mul_assoc := andThen_assoc
  one_mul := silent_andThen
  mul_one := andThen_silent

/-- An evaluation after which control does not come back makes its own calls only. -/
theorem of_mul_halt {effect : Effect} (halts : effect * halt = some run) :
    run.exit ≠ .continues ∧ ∃ run', effect = some run' ∧ run'.calls = run.calls := by
  rcases effect with _ | ⟨calls, _ | _ | _⟩
  · cases halts
  · cases halts
    exact ⟨nofun, _, rfl, (List.append_nil calls).symm⟩
  · cases halts
    exact ⟨nofun, _, rfl, rfl⟩
  · cases halts
    exact ⟨nofun, _, rfl, rfl⟩

/-- What happens after a function of the given result type was called. -/
def after (ret : Ty) : Effect := if ret.isNoReturn then halt else 1

end Effect

/-- What the jumps of a body refer to. -/
structure Activation where
  /-- The block that `yield` runs, with the activation it was written in and the frame of the
  call it was handed to. -/
  handed : Option (Block × Activation × Nat)
  breakTo : Option Nat
  nextTo : Option Nat

/-- The activation of a function body. -/
def Activation.outermost : Activation := ⟨none, none, none⟩

/-- Whether an expression of this kind reads `self` or a field of it. -/
def ExprKind.readsSelf : ExprKind → Bool
  | .selfRef | .field _ => true
  | _ => false

/-- Whether calls of the definition come to nothing, because its body is a literal or reads
`self` or a field of it. -/
def Definition.isSubstituted (defn : Definition) : Bool :=
  !defn.isForeign &&
    match defn.body with
    | none => false
    | some body => body.kind.isLiteral || body.kind.readsSelf && defn.takesReceiver

/-- The expression that an omitted argument becomes, if it becomes one. -/
def Param.defaultExpr? (param : Param) : Option Expr :=
  match param.default? with
  | some (.expr value) => some value
  | _ => none

/-- The default expressions of the parameters that a call with the given number of arguments
omits. -/
def Definition.omitted (defn : Definition) (passed : Nat) : List Expr :=
  (defn.params.drop passed).filterMap Param.defaultExpr?

/-- Whether an argument only names a place that the callee writes to. -/
def Expr.isOut (expr : Expr) : Bool :=
  match expr.kind with
  | .out _ => true
  | _ => false

namespace Evaluation

variable (program : Program) (inner : Activation → Nat → Expr → Effect)

/-- Evaluates expressions one after the other. -/
def all (activation : Activation) (frames : Nat) : List Expr → Effect
  | [] => 1
  | expr :: exprs => inner activation frames expr * all activation frames exprs

/-- Evaluates the receiver of a call, unless the callee takes none and dropping the receiver
loses no effect. -/
def receiver (activation : Activation) (frames : Nat) (call : Call) (defn : Definition) : Effect :=
  match call.obj with
  | none => 1
  | some obj =>
    if !defn.takesReceiver && obj.kind.isSideEffectFree then 1 else inner activation frames obj

/-- Evaluates the receiver of a call, the arguments in order, then the defaults of the omitted
ones. -/
def operands (activation : Activation) (frames : Nat) (call : Call) (defn : Definition) : Effect :=
  receiver inner activation frames call defn *
    all inner activation frames (call.args ++ defn.omitted call.args.length)

/-- Evaluates a call of one definition: its operands, then the callee with its block inlined,
the foreign function, or the function of the definition unless its body is substituted. -/
def single (activation : Activation) (frames : Nat) (call : Call) (defn : Definition) : Effect :=
  if call.block.isSome && !defn.blockArg then
    match call.block, defn.body with
    | some block, some body =>
      operands inner activation frames call defn *
        (inner ⟨some (block, activation, frames), none, none⟩ (frames + 1) body).framed frames
    | _, _ => none
  else
    match defn.foreign with
    | some spec =>
      receiver inner activation frames call defn *
        all inner activation frames (call.args.filter fun arg => !arg.isOut) *
        Effect.call spec.symbol * Effect.after defn.ret
    | none =>
      operands inner activation frames call defn *
        if defn.isSubstituted then 1 else Effect.call defn.name * Effect.after defn.ret

/-- Evaluates a call, which has to name one definition. -/
def ofCall (activation : Activation) (frames : Nat) (call : Call) : Effect :=
  match call.targets with
  | [name] =>
    match program.target? name with
    | some defn => single inner activation frames call defn
    | none => none
  | _ => none

/-- Evaluates the arguments and the scope of a `yield`, then the block in the activation it was
written in. -/
def ofYield (activation : Activation) (frames : Nat) (args : List Expr) (scope : Option Expr) :
    Effect :=
  match activation.handed with
  | none => none
  | some (block, caller, frame) =>
    all inner activation frames (args ++ scope.toList) *
      (inner ⟨caller.handed, some frame, some frames⟩ (frames + 1) block.body).framed frames

/-- Evaluates the value of a jump and leaves a frame. -/
def ofJump (activation : Activation) (frames : Nat) (frame : Option Nat) (value : Option Expr) :
    Effect :=
  match frame with
  | none => none
  | some frame => all inner activation frames value.toList * Effect.leave frame

/-- Evaluates what an expression does, given its type. -/
def ofKind (activation : Activation) (frames : Nat) (kind : ExprKind) (ty : Ty) : Effect :=
  match kind with
  | .nop | .nil | .bool _ | .char _ | .string _ | .int _ | .float _ | .symbol _ => 1
  | .var _ | .selfRef | .field _ => 1
  | .assign _ value => inner activation frames value
  | .const name initializer =>
    match ty with
    | .metaclass _ => 1
    | _ => if initializer then Effect.call ("~" ++ name ++ ":init") else 1
  | .call call => ofCall program inner activation frames call
  | .yield args scope => ofYield inner activation frames args scope
  | .breakWith value => ofJump inner activation frames activation.breakTo value
  | .nextWith value => ofJump inner activation frames activation.nextTo value
  | .out _ | .discard => none
  | .procLiteral _ => 1
  | .seq exprs => all inner activation frames exprs
  | .rescue body _ => (inner activation (frames + 1) body).framed frames

/-- Evaluates an expression that nests at most `depth` levels, inlined bodies included. -/
def within : (depth : Nat) → Activation → Nat → Expr → Effect
  | 0, _, _, _ => none
  | depth + 1, activation, frames, expr =>
    ofKind program (within depth) activation frames expr.kind expr.ty

end Evaluation

/-- Evaluates the body of a function. -/
def Program.evaluate (program : Program) (body : Expr) : Effect :=
  Evaluation.within program (program.nestingBound body) .outermost 0 body

end CallLowering
