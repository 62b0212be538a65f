import CallLowering.Code.Display

/-!
# Control flow

The block graph of a recorded function. An edge leads from a block to every block that its
terminator names, as long as that block belongs to the function; both edges of an invoke
count. Sets of blocks are answered as ascending lists of block numbers.
-/

namespace CallLowering

/-- The block graph of a function; the first block is the entry. -/
structure ControlFlow where
  blocks : List BlockId
  edges : List (BlockId × BlockId)

namespace ControlFlow

/-- The edges that leave a block. -/
def edgesFrom (code : Recording) (blocks : List BlockId) (block : BlockId) :
    List (BlockId × BlockId) :=
  match code.terminator? block with
  | none => []
  | some terminator =>
    (terminator.successors.filter fun next => blocks.contains next).map fun next => (block, next)

/-- The block graph of a function. -/
def ofFunc (code : Recording) (func : FuncId) : ControlFlow :=
  let blocks := code.blocksOf func
  { blocks := blocks, edges := blocks.flatMap (edgesFrom code blocks) }

/-- The blocks that an edge leads to from a block. -/
def successors (flow : ControlFlow) (block : BlockId) : List BlockId :=
  (flow.edges.filter (·.1 == block)).map (·.2)

/-- Visits the blocks on the work list and what they lead to. Each edge puts one block on the
list, so `fuel` above the number of edges empties it. -/
def visit (flow : ControlFlow) : (fuel : Nat) → (work seen : List BlockId) → List BlockId
  | 0, _, seen => seen
  | _ + 1, [], seen => seen
  | fuel + 1, block :: work, seen =>
    if seen.contains block then flow.visit fuel work seen
    else flow.visit fuel (flow.successors block ++ work) (block :: seen)

/-- The blocks that can be reached from the entry, in no particular order. -/
def visited (flow : ControlFlow) : List BlockId :=
  flow.visit (flow.edges.length + 2) (flow.blocks.take 1) []

/-- The numbers of the blocks that can be reached from the entry. -/
def reachable (flow : ControlFlow) : List Nat :=
  Ascending.ofList (flow.visited.map (·.index))

/-- The numbers of the other blocks of the function. -/
def unreachable (flow : ControlFlow) : List Nat :=
  let visited := flow.visited
  Ascending.ofList ((flow.blocks.filter fun block => !visited.contains block).map (·.index))

/-- The numbers of the blocks with an edge to a block. -/
def predecessors (flow : ControlFlow) (block : BlockId) : List Nat :=
  Ascending.ofList ((flow.edges.filter (·.2 == block)).map (·.1.index))

end ControlFlow

namespace Recording

/-- The line of a block in the control-flow summary. -/
def flowLine (code : Recording) (flow : ControlFlow) (reachable : List Nat) (block : BlockId) :
    String :=
  "  " ++ code.blockName block ++
    (if reachable.contains block.index then "" else " (unreachable)") ++ " <- [" ++
    ", ".intercalate ((flow.predecessors block).map fun pred => code.blockName ⟨pred⟩) ++ "]\n"

/-- The control-flow summary of a function; empty for one without a body. -/
def flowOfFunc (code : Recording) (func : FuncId) : String :=
  match code.blocksOf func with
  | [] => ""
  | blocks =>
    let flow := ControlFlow.ofFunc code func
    let reachable := flow.reachable
    code.funcName func ++ ":\n" ++ String.join (blocks.map (code.flowLine flow reachable))

/-- The control-flow summary of everything recorded: every block with its predecessors. -/
def displayFlow (code : Recording) : String :=
  String.join (code.funcIds.map code.flowOfFunc)

end Recording

end CallLowering
