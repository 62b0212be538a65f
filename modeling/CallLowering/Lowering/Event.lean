import CallLowering.Machine.CallConv

/-!
# Events of lowering

What lowering reports while it runs, with the level of each report.
-/

namespace CallLowering

/-- How much a report matters. -/
inductive Level where
  | info
  | debug
  | trace
  deriving DecidableEq

/-- The name of a level. -/
def Level.display : Level → String
  | info => "INFO"
  | debug => "DEBUG"
  | trace => "TRACE"

/-- The shape of a body that is substituted at its call site. -/
inductive BodyShape where
  | literal
  | selfRead
  | fieldRead
  deriving DecidableEq

/-- The name of a shape. -/
def BodyShape.display : BodyShape → String
  | literal => "literal"
  | selfRead => "self"
  | fieldRead => "field read"

/-- Something that lowering reports. -/
inductive Event where
  | loweringFunction (name : String)
  | loweredProgram (count : Nat) (file : String)
  | dispatch (name : String) (targets : List String)
  | memoHit (name : String)
  | inliningBlock (name : String)
  | substituted (name : String) (shape : BodyShape)
  | closureMade (name : String)
  | call (name : String) (args : Nat)
  | foreignCall (symbol : String) (args : Nat) (conv : CallConv)

namespace Event

/-- The level of an event. -/
def level : Event → Level
  | loweringFunction _ | loweredProgram .. => .info
  | dispatch .. | memoHit _ | inliningBlock _ | substituted .. | closureMade _ => .debug
  | call .. | foreignCall .. => .trace

/-- The wording of an event. -/
def message : Event → String
  | loweringFunction name => "Lowering function " ++ name
  | loweredProgram count file =>
    "Successfully lowered " ++ toString count ++ " functions from " ++ file
  | dispatch name targets => "dispatch " ++ name ++ " over [" ++ ", ".intercalate targets ++ "]"
  | memoHit name => "abi: memo hit for " ++ name
  | inliningBlock name => "inlining " ++ name ++ " with its block"
  | substituted name shape => "inlined " ++ name ++ " (" ++ shape.display ++ ")"
  | closureMade name => "materialized block as closure @" ++ name
  | call name args => "call " ++ name ++ " (" ++ toString args ++ " args)"
  | foreignCall symbol args conv =>
    "call " ++ symbol ++ " (" ++ toString args ++ " args, " ++ conv.display ++ ")"

end Event

end CallLowering
