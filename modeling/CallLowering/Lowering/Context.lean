import CallLowering.Lowering.Error
import CallLowering.Lowering.Event
import CallLowering.Lowering.JoinPoint
import CallLowering.Lowering.Scope
import CallLowering.Options

/-!
# The context and state of lowering

A `Context` says where lowering stands: in which function and scope, with which `self`, under
which exception handlers, and where `yield`, `break` and `next` lead. A construct that works
under another context runs inside `withContext`, which puts the old one back whether the
construct succeeds or fails.

`Lower` is the monad of lowering. It reads the program and the options, changes the state and
may fail; a failure keeps the state that was reached.
-/

namespace CallLowering

/-- Where lowering stands. -/
structure Context where
  fnName : String
  file : String
  scope : ScopeId
  /-- The outermost scope of the function being emitted; inlined callees share it. -/
  functionScope : ScopeId
  selfBinding : Option Binding
  selfTy : Ty
  /-- The receiver of implicit calls inside a block that was yielded to with a scope. -/
  withScope : Option Binding
  /-- Whether the value of the expression being lowered is used. -/
  needsValue : Bool
  /-- The active exception handlers, innermost first. -/
  handlers : List BlockId
  /-- Where `yield` leads: the block, the context it was written in, and the join point that
  `break` inside it leaves through. -/
  yieldTarget : Option (Block × Context × Nat)
  breakJoin : Option Nat
  nextJoin : Option Nat

/-- The context at the start of a function whose variables live in the given scope. -/
def Context.initial (fnName file : String) (scope : ScopeId) : Context where
  fnName := fnName
  file := file
  scope := scope
  functionScope := scope
  selfBinding := none
  selfTy := .program
  withScope := none
  needsValue := true
  handlers := []
  yieldTarget := none
  breakJoin := none
  nextJoin := none

/-- What lowering reads and never changes. -/
structure Env where
  program : Program
  options : Options

/-- What lowering changes. -/
structure LowerState where
  code : Recording
  scopes : Scopes
  context : Context
  /-- The open join points, outermost first. -/
  joins : Array JoinPoint
  /-- How many closures the current function has made. -/
  closures : Nat
  /-- How many dispatches have been lowered. -/
  dispatches : Nat
  /-- The classifications made so far. -/
  classified : List (Signature × Classification)
  /-- Answers that stand in for the next classifications. -/
  scripted : List (Except String Classification)
  events : Array Event

/-- The state before anything is lowered. -/
def LowerState.initial (env : Env) : LowerState :=
  let (scope, scopes) := Scopes.empty.add none
  { code := Recording.empty env.options.target env.program.types
    scopes := scopes
    context := Context.initial "" env.program.file scope
    joins := #[]
    closures := 0
    dispatches := 0
    classified := []
    scripted := []
    events := #[] }

/-- A computation of lowering. -/
abbrev Lower := ReaderT Env (EStateM LowerError LowerState)

namespace Lower

/-- Fails with an internal fault. -/
def fault (cause : Fault) (loc : Location) : Lower α := throw (.internal cause loc)

/-- The value of an option; a fault if there is none. -/
def orFault (value : Option α) (cause : Fault) (loc : Location) : Lower α :=
  match value with
  | some value => pure value
  | none => fault cause loc

/-- Records code. -/
def record (act : Emit α) : Lower α := fun _ state =>
  match act state.code with
  | .ok result code => .ok result { state with code := code }
  | .error error code => .error (.backend (.record error)) { state with code := code }

/-- Records an operation that produces a value. -/
def emit (op : Operation) : Lower ValueId := record (Emit.value op)

/-- Records an operation for its effect. -/
def emitEffect (op : Operation) : Lower Unit := record (Emit.effect op)

/-- A new value for a constant. -/
def constant (value : Constant) : Lower ValueId := record (Emit.constant value)

/-- The `nil` placeholder. -/
def nilValue : Lower ValueId := constant .nil

/-- A new block of the current function. -/
def newBlock (label : String) : Lower BlockId := record (Emit.newBlock label)

/-- Moves the cursor to the end of a block. -/
def position (block : BlockId) : Lower Unit := record (Emit.position block)

/-- The block at the cursor. -/
def cursor : Lower (Option BlockId) := record Emit.cursor

/-- Whether the block at the cursor has ended. -/
def isTerminated : Lower Bool := record Emit.isTerminated

/-- Declares a function. -/
def declareFn (decl : FnDecl) : Lower FuncId := record (Emit.declare decl)

/-- Gives a function its body and answers its parameters. -/
def beginRoutine (func : FuncId) : Lower (List ValueId) := record (Emit.beginRoutine func)

/-- The program being lowered. -/
def program : Lower Program := return (← read).program

/-- The declared types of the program. -/
def types : Lower TypeTable := return (← read).program.types

/-- The current context. -/
def context : Lower Context := return (← get).context

/-- Changes the current context for good. -/
def setContext (change : Context → Context) : Lower Unit :=
  modify fun state => { state with context := change state.context }

/-- Reports an event. -/
def report (event : Event) : Lower Unit :=
  modify fun state => { state with events := state.events.push event }

/-- The definition that a call site means by a name. -/
def definition (name : String) (loc : Location) : Lower Definition := do
  orFault ((← program).target? name) (.unknownDefinition name) loc

/-- Runs a computation between two changes of the context. The second one is made whether the
computation succeeds or fails, to the context that the computation has reached. -/
def around (enter leave : Context → Context) (act : Lower α) : Lower α := fun env state =>
  match act env { state with context := enter state.context } with
  | .ok result state => .ok result { state with context := leave state.context }
  | .error error state => .error error { state with context := leave state.context }

/-- Runs a computation under another context and puts the present one back after it. -/
def withContext (inner : Context) (act : Lower α) : Lower α := do
  let outer ← context
  around (fun _ => inner) (fun _ => outer) act

/-- Runs a computation whose value is used, or is not. -/
def withNeedsValue (needsValue : Bool) (act : Lower α) : Lower α := do
  let outer := (← context).needsValue
  around ({ · with needsValue := needsValue }) ({ · with needsValue := outer }) act

/-- Runs a computation in which calls that raise go to a handler: the handler is pushed before it
and popped after it. -/
def withHandler (handler : BlockId) (act : Lower α) : Lower α :=
  around (fun context => { context with handlers := handler :: context.handlers })
    (fun context => { context with handlers := context.handlers.tail }) act

/-- A new scope inside another, or inside none. -/
def newScope (parent : Option ScopeId) : Lower ScopeId :=
  modifyGet fun state =>
    let (scope, scopes) := state.scopes.add parent
    (scope, { state with scopes := scopes })

/-- The context at the start of a function with a new scope. -/
def freshContext (fnName : String) : Lower Context := do
  return Context.initial fnName (← program).file (← newScope none)

/-- Binds a name in a scope. -/
def declareIn (scope : ScopeId) (name : String) (binding : Binding) : Lower Unit :=
  modify fun state => { state with scopes := state.scopes.declare scope name binding }

/-- Binds a name in the current scope. -/
def declare (name : String) (binding : Binding) : Lower Unit := do
  declareIn (← context).scope name binding

/-- The nearest binding of a name. -/
def lookup? (name : String) : Lower (Option Binding) := do
  return (← get).scopes.lookup? (← context).scope name

/-- Opens a join point for values of a type. -/
def openJoin (ty : Ty) : Lower Nat := do
  let machineType := (← types).flowType ty
  let needsValue := (← context).needsValue
  modifyGet fun state =>
    (state.joins.size,
      { state with joins := state.joins.push (JoinPoint.fresh ty machineType needsValue) })

/-- Ends the path at the cursor in a join point. -/
def addToJoin (index : Nat) (value : ValueId) (ty : Ty) : Lower Unit := do
  match (← get).joins[index]? with
  | none => throw (.backend (.noJoinPoint index))
  | some join =>
    let join ← record (join.add value ty)
    modify fun state => { state with joins := state.joins.setIfInBounds index join }

/-- Closes the innermost join point, which has to be the given one. -/
def closeJoin (index : Nat) : Lower (Option ValueId) := do
  if index + 1 ≠ (← get).joins.size then throw (.backend (.closedOutOfOrder index))
  else
    match (← get).joins.back? with
    | none => throw (.backend .noJoinPoints)
    | some join =>
      modify fun state => { state with joins := state.joins.pop }
      record join.close

/-- Closes the innermost join point; `nil` stands for a value that no path produced. -/
def closeJoinOrNil (index : Nat) : Lower ValueId := do
  match ← closeJoin index with
  | some value => return value
  | none => nilValue

end Lower

end CallLowering
