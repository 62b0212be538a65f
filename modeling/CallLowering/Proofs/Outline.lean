import CallLowering.Proofs.Attempting

/-!
# The outline of recorded code

The outline of a recording is what is left of it without values: which functions are declared, which
blocks there are, and for each block what it calls with how many arguments, how it ends and where
control goes from there. Every way to record code changes the outline by itself, whatever values are
involved.
-/

namespace CallLowering

/-! ## Outlines -/

/-- The ways to end a block. -/
inductive TerminatorKind where
  | invoke
  | br
  | condBr
  | unreachable
  | ret
  deriving DecidableEq

namespace Operation

/-- The way the operation ends its block, if it does. -/
def terminatorKind? : Operation → Option TerminatorKind
  | invoke .. => some .invoke
  | br _ => some .br
  | condBr .. => some .condBr
  | unreachable => some .unreachable
  | ret _ => some .ret
  | _ => none

/-- How the operation ends its block, with the blocks that may follow. -/
def exit? (op : Operation) : Option (TerminatorKind × List BlockId) :=
  op.terminatorKind?.map fun kind => (kind, op.successors)

/-- The function that the operation calls or invokes, with the number of arguments. -/
def calling? : Operation → Option (FuncId × Nat)
  | call func args _ => some (func, args.length)
  | invoke func args _ _ _ => some (func, args.length)
  | _ => none

theorem exit?_isSome (op : Operation) : op.exit?.isSome = op.isTerminator := by cases op <;> rfl

theorem exit?_of_not_isTerminator {op : Operation} (goesOn : op.isTerminator = false) :
    op.exit? = none := by
  rw [← exit?_isSome] at goesOn
  exact Option.not_isSome_iff_eq_none.mp (Bool.eq_false_iff.mp goesOn)

/-- Operations that differ in values only. -/
structure Alike (op1 op2 : Operation) : Prop where
  hasResult : op1.hasResult = op2.hasResult
  calling : op1.calling? = op2.calling?
  exit : op1.exit? = op2.exit?

end Operation

/-- The outline of a block. -/
structure BlockOutline where
  label : String
  func : FuncId
  /-- The functions that the block calls or invokes, with the numbers of arguments. -/
  calls : List (FuncId × Nat)
  /-- How the block ends, with the blocks that may follow it. -/
  exit : Option (TerminatorKind × List BlockId)
  deriving DecidableEq

/-- The outline of recorded code: the declared functions with their blocks, the names that they are
found by, and the blocks. -/
structure Outline where
  routines : Array (FnDecl × Array BlockId)
  byName : List (String × FuncId)
  blocks : Array BlockOutline
  deriving DecidableEq

/-- The outline of a block. -/
def BasicBlock.outline (block : BasicBlock) : BlockOutline where
  label := block.label
  func := block.func
  calls := block.instructions.toList.filterMap (·.op.calling?)
  exit := block.terminator?.bind Operation.exit?

/-- The outline of recorded code. -/
def Recording.outline (code : Recording) : Outline where
  routines := code.routines.map fun routine => (routine.decl, routine.blocks)
  byName := code.byName
  blocks := code.blocks.map BasicBlock.outline

/-! ## Reading outlines -/

namespace Recording

variable {code : Recording} {b : BlockId} {f : FuncId}

theorem outline_block? : code.outline.blocks[b.index]? = (code.block? b).map BasicBlock.outline :=
  Array.getElem?_map

theorem outline_routine? : code.outline.routines[f.index]? =
    (code.routine? f).map fun routine => (routine.decl, routine.blocks) :=
  Array.getElem?_map

theorem outline_blocks_size : code.outline.blocks.size = code.blocks.size := Array.size_map

theorem outline_routines_size : code.outline.routines.size = code.routines.size := Array.size_map

theorem outline_terminator? : (code.terminator? b).bind Operation.exit? =
    code.outline.blocks[b.index]?.bind BlockOutline.exit := by
  rw [outline_block?, terminator?]
  cases code.block? b <;> rfl

/-- Whether a block has ended is read off its outline. -/
theorem outline_isSome_terminator? : (code.terminator? b).isSome =
    (code.outline.blocks[b.index]?.bind BlockOutline.exit).isSome := by
  rw [← outline_terminator?]
  cases ended : code.terminator? b with
  | none => rfl
  | some op =>
    obtain ⟨_, _, found⟩ := Option.bind_eq_some_iff.mp ended
    unfold BasicBlock.terminator? at found
    split at found
    · split at found
      · rename_i ends
        obtain rfl := Option.some.inj found
        rw [Option.bind_some, Operation.exit?_isSome, ends]
        rfl
      · cases found
    · cases found

theorem outline_funcNamed? (name : String) :
    code.funcNamed? name = code.outline.byName.lookup name := rfl

end Recording

/-! ## Changing outlines -/

theorem Outline.map_modify {α β : Type} {view : α → β} {change : α → α} {change' : β → β}
    (same : ∀ x, view (change x) = change' (view x)) (xs : Array α) (index : Nat) :
    (xs.modify index change).map view = (xs.map view).modify index change' := by
  apply Array.ext_getElem?
  intro i
  rw [Array.getElem?_map, Array.getElem?_modify, Array.getElem?_modify, Array.getElem?_map]
  split
  · cases xs[i]? with
    | none => rfl
    | some x => exact congrArg some (same x)
  · rfl

namespace Outline

/-- An operation is put at the end of a block. -/
def write (outline : Outline) (block : BlockId) (op : Operation) : Outline :=
  { outline with
    blocks := outline.blocks.modify block.index fun data =>
      { data with calls := data.calls ++ op.calling?.toList, exit := op.exit? } }

/-- A block is put at the end of a function. -/
def append (outline : Outline) (func : FuncId) (label : String) : Outline where
  routines := outline.routines.modify func.index fun routine =>
    (routine.1, routine.2.push ⟨outline.blocks.size⟩)
  byName := outline.byName
  blocks := outline.blocks.push ⟨label, func, [], none⟩

variable {block : BlockId} {outline : Outline}

theorem write_congr {op1 op2 : Operation} (alike : op1.Alike op2) :
    outline.write block op1 = outline.write block op2 := by
  unfold write
  rw [alike.calling, alike.exit]

/-- An operation that neither calls nor ends its block leaves the outline of a running block. -/
theorem write_quiet {op : Operation} (quiet : op.calling? = none) (goesOn : op.exit? = none)
    (running : ∀ data ∈ outline.blocks[block.index]?, data.exit = none) :
    outline.write block op = outline := by
  obtain ⟨_, _, blocks⟩ := outline
  rw [write, quiet, goesOn]
  congr 1
  apply Array.ext_getElem?
  intro i
  rw [Array.getElem?_modify]
  split
  · rename_i equal
    subst equal
    cases found : blocks[block.index]? with
    | none => rfl
    | some data => rw [Option.map_some, Option.toList_none, List.append_nil, ← running data found]
  · rfl

end Outline

namespace Recording

variable {code : Recording} {block : BlockId} {op : Operation} {func : FuncId} {label : String}

theorem outline_written : (code.written block op).outline = code.outline.write block op := by
  unfold outline written Outline.write
  dsimp only
  congr 1
  refine Outline.map_modify (fun _ => ?_) code.blocks block.index
  simp only [BasicBlock.outline, BasicBlock.terminator?, Array.back?_push, Array.toList_push,
    List.filterMap_append, List.filterMap_cons, List.filterMap_nil]
  congr 1
  split
  · rfl
  · rename_i goesOn
    exact (Operation.exit?_of_not_isTerminator (Bool.eq_false_iff.mpr goesOn)).symm

theorem outline_appendBlock :
    (code.appendBlock func label).2.outline = code.outline.append func label := by
  unfold outline appendBlock Outline.append
  dsimp only
  congr 1
  · refine Outline.map_modify (fun _ => ?_) code.routines func.index
    rw [Array.size_map]
  · exact Array.map_push

theorem outline_written_quiet (quiet : op.calling? = none) (goesOn : op.exit? = none)
    (running : code.terminator? block = none) : (code.written block op).outline = code.outline := by
  rw [outline_written]
  refine Outline.write_quiet quiet goesOn fun _ found => ?_
  have ended : (code.terminator? block).bind Operation.exit? = _ := outline_terminator?
  rw [running, Option.mem_def.mp found] at ended
  exact ended.symm

theorem outline_withParams (func : FuncId) (params : List ValueId) :
    (code.withParams func params).outline = code.outline := by
  unfold outline withParams
  dsimp only
  congr 1
  apply Array.ext_getElem?
  intro i
  rw [Array.getElem?_map, Array.getElem?_modify, Array.getElem?_map]
  split
  · cases code.routines[i]? <;> rfl
  · rfl

/-- Code of one outline has one outline after a declaration. -/
theorem outline_declare {code' : Recording} (same : code.outline = code'.outline) (decl : FnDecl) :
    (code.declare decl).1 = (code'.declare decl).1 ∧
      (code.declare decl).2.outline = (code'.declare decl).2.outline := by
  have sizes : code.routines.size = code'.routines.size := by
    rw [← outline_routines_size, same, outline_routines_size]
  unfold declare
  rw [outline_funcNamed?, outline_funcNamed?, same]
  cases code'.outline.byName.lookup decl.name with
  | some index => exact ⟨rfl, same⟩
  | none =>
    refine ⟨congrArg FuncId.mk sizes, ?_⟩
    obtain ⟨routines, names, blocks⟩ := Outline.mk.inj same
    simp only [outline, Array.map_push, Outline.mk.injEq]
    exact ⟨by rw [routines], by rw [names, sizes], blocks⟩

/-- The later code differs in values, and in operations that neither call nor end a block. -/
structure Quiet (code code' : Recording) : Prop where
  outline : code'.outline = code.outline
  cursor : code'.cursor = code.cursor
  target : code'.target = code.target
  types : code'.types = code.types

namespace Quiet

theorem refl (code : Recording) : code.Quiet code := ⟨rfl, rfl, rfl, rfl⟩

variable {join : JoinPoint} {code' : Recording}

theorem trans {code'' : Recording} (first : code.Quiet code') (second : code'.Quiet code'') :
    code.Quiet code'' where
  outline := second.outline.trans first.outline
  cursor := second.cursor.trans first.cursor
  target := second.target.trans first.target
  types := second.types.trans first.types

theorem written (quiet : op.calling? = none) (goesOn : op.exit? = none)
    (running : code.terminator? block = none) : code.Quiet (code.written block op) :=
  ⟨outline_written_quiet quiet goesOn running, rfl, rfl, rfl⟩

theorem addConstant (constant : Constant) : code.Quiet (code.addConstant constant).2 :=
  ⟨rfl, rfl, rfl, rfl⟩

theorem addGlobal (name : String) : code.Quiet (code.addGlobal name).2 := by
  unfold Recording.addGlobal
  split
  · exact refl code
  · exact ⟨rfl, rfl, rfl, rfl⟩

theorem handed {v : ValueId} {ty : Ty} (running : code.terminator? block = none) :
    code.Quiet (join.handed code block v ty).2 := by
  obtain same | converted := join.handed_cases code block v ty
  · rw [same]
    exact refl code
  · rw [converted]
    exact written rfl rfl running

/-- The exit of a join point begins with a phi at most. -/
theorem entered {exit : BlockId} (running : code.terminator? exit = none) :
    (code.position exit).Quiet (join.entered code exit) := by
  unfold JoinPoint.entered
  split
  · exact written rfl rfl running
  · exact refl _

theorem blocks_size (quiet : code.Quiet code') : code'.blocks.size = code.blocks.size := by
  rw [← outline_blocks_size, quiet.outline, outline_blocks_size]

theorem isSome_terminator? (quiet : code.Quiet code') (b : BlockId) :
    (code'.terminator? b).isSome = (code.terminator? b).isSome := by
  rw [outline_isSome_terminator?, outline_isSome_terminator?, quiet.outline]

end Quiet

end Recording

end CallLowering
