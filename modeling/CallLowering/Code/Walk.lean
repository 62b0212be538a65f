import CallLowering.Code.Recording

/-!
# Walking one path

A walk follows one path through a recorded function. The run-time types that successive tag
reads find are given in advance; where they run out, a tag read finds its static type. The
trace lists the blocks entered, the functions called and the outcome of every tag test.
-/

namespace CallLowering

/-- How a walk ended. -/
inductive TraceEnd where
  | returned
  | unreachable
  | stepLimit
  deriving DecidableEq

/-- One path through a function. -/
structure Trace where
  blocks : Array BlockId
  calls : Array String
  /-- The candidate of every tag test with its outcome. -/
  guards : Array (Ty × Bool)
  stop : TraceEnd

/-- Why a walk could not go on. -/
inductive WalkError where
  | noBody
  | notATag
  | unevaluable (value : ValueId)
  | fallsOff (label : String)

/-- What a walk knows about a value. -/
inductive RuntimeValue where
  | bool (value : Bool)
  | tag (ty : Ty)

/-- The state of a walk. -/
structure Walk where
  known : List (ValueId × RuntimeValue)
  assumed : List Ty
  calls : Array String
  guards : Array (Ty × Bool)

namespace Walk

/-- What is known about a value. -/
def get? (walk : Walk) (value : ValueId) : Option RuntimeValue := walk.known.lookup value

/-- Learns what the result of an instruction is. -/
def learn (walk : Walk) (result : Option ValueId) (value : RuntimeValue) : Walk :=
  match result with
  | some id => { walk with known := (id, value) :: walk.known }
  | none => walk

/-- Whether a condition holds. -/
def truth (code : Recording) (walk : Walk) (value : ValueId) : Except WalkError Bool :=
  match code.constant? value with
  | some (.int _ number) => .ok (number != 0)
  | _ =>
    match walk.get? value with
    | some (.bool holds) => .ok holds
    | _ => .error (.unevaluable value)

/-- Where control is after an instruction. -/
inductive Next where
  | fallThrough
  | goto (block : BlockId)
  | halt (stop : TraceEnd)

/-- Carries out one instruction. -/
def step (code : Recording) (instruction : Instruction) (walk : Walk) :
    Except WalkError (Next × Walk) :=
  match instruction.op with
  | .typeId _ ty =>
    let (concrete, rest) := match walk.assumed with
      | [] => (ty, [])
      | concrete :: rest => (concrete, rest)
    .ok (.fallThrough, { walk with assumed := rest }.learn instruction.result (.tag concrete))
  | .matchTypeTag _ candidate tag =>
    match walk.get? tag with
    | some (.tag concrete) =>
      let matched := code.types.isSubtype concrete candidate
      .ok (.fallThrough, { walk with guards := walk.guards.push (candidate, matched) }.learn
        instruction.result (.bool matched))
    | _ => .error .notATag
  | .and lhs rhs =>
    match walk.truth code lhs with
    | .error error => .error error
    | .ok false => .ok (.fallThrough, walk.learn instruction.result (.bool false))
    | .ok true =>
      match walk.truth code rhs with
      | .error error => .error error
      | .ok holds => .ok (.fallThrough, walk.learn instruction.result (.bool holds))
  | .call func _ _ =>
    .ok (.fallThrough, { walk with calls := walk.calls.push (code.funcName func) })
  | .invoke func _ normal _ _ =>
    .ok (.goto normal, { walk with calls := walk.calls.push (code.funcName func) })
  | .br target => .ok (.goto target, walk)
  | .condBr cond yes no =>
    match walk.truth code cond with
    | .error error => .error error
    | .ok holds => .ok (.goto (if holds then yes else no), walk)
  | .unreachable => .ok (.halt .unreachable, walk)
  | .ret _ => .ok (.halt .returned, walk)
  | _ => .ok (.fallThrough, walk)

/-- Carries out the instructions of a block up to the one that leaves it. -/
def runBlock (code : Recording) : List Instruction → Walk → Except WalkError (Next × Walk)
  | [], walk => .ok (.fallThrough, walk)
  | instruction :: instructions, walk =>
    match walk.step code instruction with
    | .ok (.fallThrough, walk) => walk.runBlock code instructions
    | left => left

/-- The trace of a walk that has ended. -/
def finish (walk : Walk) (blocks : Array BlockId) (stop : TraceEnd) : Trace where
  blocks := blocks
  calls := walk.calls
  guards := walk.guards
  stop := stop

/-- Walks on from a block, through at most `steps` blocks. -/
def runFrom (code : Recording) : (steps : Nat) → BlockId → Array BlockId → Walk →
    Except WalkError Trace
  | 0, _, blocks, walk => .ok (walk.finish blocks .stepLimit)
  | steps + 1, block, blocks, walk =>
    let blocks := blocks.push block
    match walk.runBlock code (code.instructionsOf block) with
    | .error error => .error error
    | .ok (.fallThrough, _) => .error (.fallsOff (code.label block))
    | .ok (.goto next, walk) => walk.runFrom code steps next blocks
    | .ok (.halt stop, walk) => .ok (walk.finish blocks stop)

end Walk

/-- How many blocks a walk enters at most. -/
def Walk.stepLimit : Nat := 10000

/-- Walks through a function, assuming run-time types for successive tag reads. -/
def Recording.walk (code : Recording) (func : FuncId) (assumed : List Ty) :
    Except WalkError Trace :=
  match code.blocksOf func with
  | [] => .error .noBody
  | entry :: _ =>
    Walk.runFrom code Walk.stepLimit entry #[] ⟨[], assumed, #[], #[]⟩

end CallLowering
