import CallLowering.Proofs.Predecessors

/-!
# How blocks are wired

A terminator leads to blocks in which nothing has been recorded yet, and that carry the label of the
way it leads there: to the new block behind a call that may raise and to the handler that is waiting,
to the exit of an open join point, or to the two new blocks behind a guard. A landing pad is the
first thing that is put into a handler. `Recording.Wires` is the relation between what was recorded
before and after some lowering, as far as the graph of the blocks goes.
-/

namespace CallLowering

open Recording

variable {func : FuncId}

namespace Operation

/-- The blocks that an operation leads to carry the label of the way it leads there. -/
def Labelled (code : Recording) : Operation → Prop
  | invoke _ _ normal handler _ => code.label normal = "invoke_out" ∧ code.label handler = "rescue"
  | br target => code.label target = "merge"
  | condBr _ yes no => code.label yes = "current_def" ∧ code.label no = "next_def"
  | _ => True

theorem labelled_of_isStraight {op : Operation} {code : Recording} (straight : op.isStraight = true) :
    op.Labelled code := by
  cases op <;> first | exact trivial | cases straight

end Operation

namespace Recording

variable {code code' code1 : Recording} {b block x : BlockId} {op : Operation} {name : String}

theorem label_of_block? {data : BasicBlock} (present : code.block? b = some data) :
    code.label b = data.label := by
  rw [label, present]

theorem Extends.label_eq (later : code.Extends code') (named : code.label b = name)
    (some : name ≠ "") : code'.label b = name := by
  unfold label at named
  split at named
  · rename_i data present
    obtain ⟨_, present', same, _⟩ := later.block b data present
    rw [label_of_block? present', same, named]
  · exact absurd named.symm some

/-- An instruction of one block leads to another. -/
def Leads (code : Recording) (b x : BlockId) : Prop :=
  ∃ instruction ∈ code.instructionsOf b, x ∈ instruction.op.successors

theorem leads_written (leads : (code.written block op).Leads b x) :
    code.Leads b x ∨ b = block ∧ x ∈ op.successors := by
  obtain ⟨instruction, member, successor⟩ := leads
  obtain old | ⟨rfl, rfl⟩ := mem_written_instructionsOf member
  · exact .inl ⟨instruction, old, successor⟩
  · exact .inr ⟨rfl, successor⟩

/-- Blocks were added and instructions written in the way of lowering. A handler gets its landing
pad when its body has been lowered. -/
inductive Wires : Recording → Recording → Prop where
  | quiet {code code' : Recording} (later : code.Extends code')
      (same : ∀ b, code'.instructionsOf b = code.instructionsOf b)
      (handlers : ∀ b, code'.label b = "rescue" → code.label b = "rescue") : Wires code code'
  | trans {code code1 code' : Recording} (first : Wires code code1) (second : Wires code1 code') :
      Wires code code'
  | write {code : Recording} {block op} (labelled : op.Labelled code)
      (other : op ≠ .landingPad)
      (fresh : ∀ x ∈ op.successors, x ≠ block ∧ code.instructionsOf x = [])
      (alone : ∀ func args normal handler conv, op = .invoke func args normal handler conv →
        ∀ b, ¬code.Leads b normal) : Wires code (code.written block op)
  | handle {code code1 : Recording} {func}
      (body : Wires (code.appendBlock func "rescue").2 code1)
      (there : code1.block? ⟨code.blocks.size⟩ = some ⟨"rescue", func, #[]⟩) :
      Wires code (code1.written ⟨code.blocks.size⟩ .landingPad)

namespace Wires

theorem of_blocks (later : code.Extends code') (same : code'.blocks = code.blocks) : Wires code code' :=
  .quiet later (fun b => by rw [instructionsOf, instructionsOf, block?, block?, same])
    fun _ => by rw [label, label, block?, block?, same]; exact id

theorem refl (code : Recording) : Wires code code :=
  .of_blocks (.refl code) rfl

section

variable (wires : Wires code code')

include wires

theorem position (b : BlockId) : Wires code (code'.position b) :=
  wires.trans (.of_blocks (extends_position b) rfl)

theorem declare (decl : FnDecl) : Wires code (code'.declare decl).2 :=
  wires.trans (.of_blocks (extends_declare decl) declare_blocks)

/-- A block may be added that is no handler. -/
theorem appendBlock (func : FuncId) (other : name ≠ "rescue") :
    Wires code (code'.appendBlock func name).2 := by
  refine wires.trans (.quiet (extends_appendBlock func name) (fun _ => appendBlock_instructionsOf)
    fun b named => ?_)
  by_cases new : b.index = code'.blocks.size
  · obtain ⟨_⟩ := b
    subst new
    exact absurd ((label_of_block? appendBlock_block?_new).symm.trans named) other
  · rwa [label, appendBlock_block?_old new] at named

/-- An operation that leads nowhere may be written. -/
theorem leaf (labelled : op.Labelled code') (other : op ≠ .landingPad) (leaf : op.successors = []) :
    Wires code (code'.written block op) := by
  refine wires.trans (.write labelled other (leaf ▸ List.forall_mem_nil _) ?_)
  rintro _ _ _ _ _ rfl
  cases leaf

end

theorem beginRoutine {params : List ValueId} (wires : Wires code code1)
    (begun : Emit.beginRoutine func code1 = .ok params code') : Wires code code' := by
  obtain ⟨_, _, _, _, later, blocks, _, _, _, rfl⟩ := beginRoutine_ok begun
  exact ((wires.trans (.of_blocks later blocks)).appendBlock func (by decide)).position _

end Wires

/-- Nothing is recorded in a block that is yet to be added. -/
theorem instructionsOf_new (code : Recording) {index : Nat} (new : code.blocks.size ≤ index) :
    code.instructionsOf ⟨index⟩ = [] := by
  have absent : code.block? ⟨index⟩ = none := Array.getElem?_eq_none new
  rw [instructionsOf, absent]

end Recording

namespace Site.Valid

variable {r : Region} {code : Recording} {joins : Array JoinPoint} {block : BlockId}

section

variable (valid : Valid r ⟨code, joins⟩) (atBlock : code.cursor = some block)

include valid atBlock

theorem wires_invoked {handler : BlockId} {args : List ValueId} {conv : Option CallConv}
    (waiting : Waiting r ⟨code, joins⟩) (handled : handler ∈ r.handlers) :
    code.Wires (code.invoked r.func block handler func args conv) := by
  obtain ⟨_, present, _, named⟩ := valid.handlers handler handled
  obtain ⟨apart, empty, _⟩ := waiting handler handled
  have opened := (Wires.refl code).appendBlock r.func (by decide : "invoke_out" ≠ "rescue")
  refine (opened.trans (.write ?_ ?_ (fun _ leads => ?_) ?_)).position _
  · exact ⟨label_of_block? appendBlock_block?_new,
      (label_of_block? (appendBlock_block?_of_some present)).trans named⟩
  · nofun
  · rw [appendBlock_instructionsOf]
    obtain rfl | leads := List.mem_cons.mp leads
    · exact ⟨valid.cursor_ne_new atBlock, code.instructionsOf_new (Nat.le_refl _)⟩
    · obtain rfl := List.mem_singleton.mp leads
      exact ⟨fun same => apart (same ▸ atBlock), empty⟩
  · rintro _ _ _ _ _ same b ⟨instruction, member, leads⟩
    cases same
    rw [appendBlock_instructionsOf] at member
    exact absurd (valid.proper.target_lt member leads) (Nat.lt_irrefl _)

theorem wires_branched {cond : ValueId} : code.Wires (code.branched r.func block cond) := by
  have size : (code.appendBlock r.func "current_def").2.blocks.size = code.blocks.size + 1 :=
    appendBlock_blocks_size
  have opened := ((Wires.refl code).appendBlock r.func
    (by decide : "current_def" ≠ "rescue")).appendBlock r.func (by decide : "next_def" ≠ "rescue")
  refine (opened.trans (.write ?_ ?_ (fun _ leads => ?_) ?_)).position _
  · rw [← size]
    exact ⟨label_of_block? (appendBlock_block?_of_some appendBlock_block?_new),
      label_of_block? appendBlock_block?_new⟩
  · nofun
  · rw [appendBlock_instructionsOf, appendBlock_instructionsOf]
    obtain rfl | leads := List.mem_cons.mp leads
    · exact ⟨valid.cursor_ne_new atBlock, code.instructionsOf_new (Nat.le_refl _)⟩
    · obtain rfl := List.mem_singleton.mp leads
      refine ⟨?_, code.instructionsOf_new (Nat.le_succ _)⟩
      rw [← size]
      exact (valid.appendBlock "current_def").cursor_ne_new atBlock
  · nofun

end

end Site.Valid

/-- A piece of lowering wires blocks. -/
theorem Builds.wires {rules : Rules} {r : Region} {effect : Effect} {known known' : Known}
    {site site' : Site} (built : Builds rules r effect known site known' site')
    (valid : site.Valid r) (waiting : site.Waiting r) : site.code.Wires site'.code := by
  induction built with
  | refl | dead => exact .refl _
  | untraced _ _ ih => exact ih valid waiting
  | trans first _ ihFirst ihSecond =>
    exact (ihFirst valid waiting).trans (ihSecond (first.valid valid)
      (waiting.advance valid (first.advance valid.based)))
  | constant constant => exact .of_blocks (extends_addConstant constant) rfl
  | global name => exact .of_blocks (extends_addGlobal name) addGlobal_blocks
  | declare decl => exact (Wires.refl _).declare decl
  | write straight =>
    exact (Wires.refl _).leaf (Operation.labelled_of_isStraight straight) (by rintro rfl; cases straight)
      (Operation.successors_of_isStraight straight)
  | invoke _ handled _ atBlock =>
    exact valid.wires_invoked atBlock waiting (List.mem_of_head? handled)
  | land _ inside opened exits atBlock =>
    have present := valid.exit_block? inside opened exits
    refine .write (label_of_block? present) nofun (fun x leads => ?_) nofun
    obtain rfl := List.mem_singleton.mp leads
    exact ⟨fun same => (valid.exits _ _ _ opened exits).1 (same ▸ atBlock),
      instructionsOf_of_block? present⟩
  | @arrive r _ code _ _ _ _ _ _ _ _ _ atBlock =>
    refine ((Wires.refl _).appendBlock r.func (by decide)).trans
      (.write (label_of_block? appendBlock_block?_new) nofun (fun _ leads => ?_) nofun)
    obtain rfl := List.mem_singleton.mp leads
    rw [appendBlock_instructionsOf]
    exact ⟨valid.cursor_ne_new atBlock, code.instructionsOf_new (Nat.le_refl _)⟩
  | unreached _ _ _ _ ih => exact ih valid.push waiting.push
  | reached _ _ _ _ ih =>
    have inner := (ih valid.push waiting.push).position
    unfold JoinPoint.entered
    split
    · exact (inner _).leaf trivial nofun rfl
    · exact inner _
  | handle _ body _ ih =>
    have there := valid.handler_block? (body.advance valid.based)
    exact .handle ((ih valid.handling (waiting.handling valid)).position _) there
  | branch _ _ atBlock running _ _ ih =>
    have inner := ih (valid.branched atBlock running)
      (waiting.advance valid (.of_code (frame_branched atBlock running)))
    exact ((valid.wires_branched atBlock).trans inner).position _
  | closure _ _ _ begun _ _ _ ih =>
    have inner := ih ((valid.declare _).enter begun) (List.forall_mem_nil _)
    exact ((((Wires.refl _).declare _).beginRoutine begun).trans inner).position _

/-- In a compiled program all blocks were wired by lowering. -/
theorem Program.compile_wires {program : Program} {options : Options} {code : Recording}
    (compiled : (program.compile options).result = .ok code) :
    code.Proper ∧ Wires (.empty options.target program.types) code := by
  refine compile_induction .unpromised (motive := Wires (.empty options.target program.types))
    (.refl _) ?_ compiled
  intro defn func code code' proper gains wires
  obtain @⟨_, decl, _, _, _, _, _, _, _, begun, builds, _⟩ := gains
  exact ((wires.declare decl).beginRoutine begun).trans
    (builds.wires (.entry proper begun) (List.forall_mem_nil _))

end CallLowering
