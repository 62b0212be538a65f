import CallLowering.Lowering.JoinPoint
import CallLowering.Proofs.Evaluation
import CallLowering.Proofs.Recorded
import Mathlib.Data.Set.Insert

/-!
# How code is built

Lowering records code in a few patterns only: straight code in the block at the cursor, calls
that may raise, jumps to join points, and constructs that open a join point, a handler, the
branch of a candidate or the function of a closure and close it again. `Builds` is the relation
between what was recorded before and after such a piece of lowering. It keeps track of the
values whose computation has been passed at the cursor, and of what direct evaluation of the
lowered piece does.

What recorded code is like is then a matter of induction over `Builds`. The first such fact is
that a piece of lowering leaves the blocks of others alone (`Builds.advance`).
-/

namespace CallLowering

open Recording

variable {conv : Option CallConv} {args : List ValueId} {rules : Rules} {data : BasicBlock}

namespace Operation

/-- The values that the operation reads, those that a phi takes over from other blocks
excepted. -/
def operands : Operation → List ValueId
  | load _ ptr => [ptr]
  | store value ptr => [value, ptr]
  | copy dst src _ _ => [dst, src]
  | fieldPtr _ ptr _ => [ptr]
  | extractValue _ value _ => [value]
  | cast _ value _ => [value]
  | convert value _ _ => [value]
  | typeId value _ => [value]
  | matchTypeTag _ _ tag => [tag]
  | and lhs rhs => [lhs, rhs]
  | call _ args _ => args
  | invoke _ args _ _ _ => args
  | makeClosure _ data => [data]
  | condBr cond _ _ => [cond]
  | ret value => value.toList
  | alloca .. | phi .. | landingPad | br _ | unreachable => []

/-- The convention that the operation calls with. -/
def conv? : Operation → Option CallConv
  | call _ _ conv => conv
  | invoke _ _ _ _ conv => conv
  | _ => none

/-- The values that a phi takes over, with the blocks they come from. -/
def arms : Operation → List (ValueId × BlockId)
  | phi _ incoming => incoming
  | _ => []

/-- Whether the operation reserves storage. -/
def isAlloca : Operation → Bool
  | alloca .. => true
  | _ => false

/-- Whether the operation neither leads to another block nor depends on where control comes
from. -/
def isStraight : Operation → Bool
  | phi .. | landingPad | invoke .. | br _ | condBr .. => false
  | _ => true

/-- Whether the operation belongs to the choice of a candidate. -/
def isTest : Operation → Bool
  | typeId .. | matchTypeTag .. | and .. | condBr .. => true
  | _ => false

/-- What a straight operation does in terms of direct evaluation. -/
def effect (code : Recording) : Operation → Effect
  | call func _ _ => Effect.call (code.funcName func)
  | unreachable | ret _ => Effect.halt
  | _ => 1

variable {op : Operation}

theorem arms_of_isStraight (straight : op.isStraight = true) : op.arms = [] := by
  cases op <;> first | rfl | cases straight

theorem successors_of_isStraight (straight : op.isStraight = true) : op.successors = [] := by
  cases op <;> first | rfl | cases straight

end Operation

/-- Whether a value from this source may be used everywhere in a function. -/
def ValueSource.isAmbient (func : FuncId) : ValueSource → Bool
  | .const _ | .global _ => true
  | .param owner _ => owner == func
  | .result _ => false

namespace Recording

/-- The value is the result of the operation in the function. -/
def Produces (code : Recording) (func : FuncId) (v : ValueId) (op : Operation) : Prop :=
  ∃ b data, code.block? b = some data ∧ data.func = func ∧ ⟨some v, op⟩ ∈ data.instructions.toList

/-- A value that a function may use everywhere: a constant, the address of a variable of the
module, a parameter of the function or its stack storage. -/
inductive Ambient (code : Recording) (func : FuncId) (v : ValueId) : Prop where
  | constant {constant : Constant} (source : code.value? v = some (.const constant))
  | global {name : String} (source : code.value? v = some (.global name))
  | param {index : Nat} (source : code.value? v = some (.param func index))
  | storage {ty : MachineType} {name : String} (reserved : code.Produces func v (.alloca ty name))

variable {func : FuncId} {code code' : Recording} {v : ValueId} {op : Operation}

theorem Produces.mono (produced : code.Produces func v op) (later : code.Extends code') :
    code'.Produces func v op := by
  obtain ⟨b, data, present, owned, member⟩ := produced
  obtain ⟨data', present', _, func', longer⟩ := later.block b data present
  exact ⟨b, data', present', func'.trans owned, longer.subset member⟩

theorem Produces.written {block : BlockId} (present : code.block? block = some data)
    (owned : data.func = func) (result : code.resultOf op = some v) :
    (code.written block op).Produces func v op := by
  refine ⟨block, _, written_block?_self present, owned, ?_⟩
  rw [← result, Array.toList_push]
  exact List.mem_append_right _ (List.mem_singleton_self _)

theorem Ambient.mono (ambient : code.Ambient func v) (later : code.Extends code') :
    code'.Ambient func v := by
  cases ambient with
  | constant source => exact .constant (later.value v _ source)
  | global source => exact .global (later.value v _ source)
  | param source => exact .param (later.value v _ source)
  | storage reserved => exact .storage (reserved.mono later)

theorem ambient_iff :
    code.Ambient func v ↔ (∃ source ∈ code.value? v, source.isAmbient func) ∨
      ∃ data ∈ code.blocks.toList, data.func = func ∧ ∃ instruction ∈ data.instructions.toList,
        instruction.result = some v ∧ instruction.op.isAlloca := by
  constructor
  · rintro (source | source | source | ⟨_, _, present, owned, reserved⟩)
    · exact .inl ⟨_, source, rfl⟩
    · exact .inl ⟨_, source, rfl⟩
    · exact .inl ⟨_, source, beq_self_eq_true func⟩
    · exact .inr ⟨_, List.mem_of_getElem? (Array.getElem?_toList.trans present), owned, _, reserved,
        rfl, rfl⟩
  · rintro (⟨source, found, ambient⟩ | ⟨data, member, owned, ⟨result, op⟩, reserved, named, alloca⟩)
    · cases source with
      | const => exact .constant found
      | global => exact .global found
      | param owner =>
        rw [← beq_iff_eq.mp ambient]
        exact .param found
      | result => cases ambient
    · obtain ⟨_, present⟩ := List.getElem?_of_mem member
      cases op with
      | alloca ty name =>
        cases named
        exact .storage ⟨_, data, Array.getElem?_toList.symm.trans present, owned, reserved⟩
      | _ => cases alloca

instance (code : Recording) (func : FuncId) (v : ValueId) : Decidable (code.Ambient func v) :=
  decidable_of_iff _ ambient_iff.symm

/-- The code after a call that may raise has ended a block; it goes on in a new one. -/
def invoked (code : Recording) (owner : FuncId) (block handler : BlockId) (func : FuncId)
    (args : List ValueId) (conv : Option CallConv) : Recording :=
  ((code.appendBlock owner "invoke_out").2.written block
    (.invoke func args ⟨code.blocks.size⟩ handler conv)).position ⟨code.blocks.size⟩

/-- The code after the guard of a candidate has ended a block; it goes on where the guard
holds. -/
def branched (code : Recording) (owner : FuncId) (block : BlockId) (cond : ValueId) : Recording :=
  (((code.appendBlock owner "current_def").2.appendBlock owner "next_def").2.written block
    (.condBr cond ⟨code.blocks.size⟩ ⟨code.blocks.size + 1⟩)).position ⟨code.blocks.size⟩

end Recording

/-- A set of values whose computation has been passed. -/
abbrev Known := Set ValueId

namespace Recording

/-- A value that a branch of the function may depend on: a number, the outcome of a test, or both of
two such values. -/
inductive Condition (code : Recording) (func : FuncId) (known : Known) : ValueId → Prop where
  | constant {v : ValueId} {bits : UInt32} {number : Int64}
      (source : code.value? v = some (.const (.int bits number))) : Condition code func known v
  | test {v tag : ValueId} {ty candidate : Ty} (passed : v ∈ known)
      (produced : code.Produces func v (.matchTypeTag ty candidate tag)) : Condition code func known v
  | and {v lhs rhs : ValueId} (passed : v ∈ known) (produced : code.Produces func v (.and lhs rhs))
      (left : Condition code func known lhs) (right : Condition code func known rhs) :
      Condition code func known v

/-- A tag that was read in the function. -/
def Tag (code : Recording) (func : FuncId) (known : Known) (tag : ValueId) : Prop :=
  tag ∈ known ∧ ∃ value ty, code.Produces func tag (.typeId value ty)

/-- What a test reads is known: a tag is compared, and conditions decide. -/
def Guarded (code : Recording) (func : FuncId) (known : Known) : Operation → Prop
  | .matchTypeTag _ _ tag => code.Tag func known tag
  | .and lhs rhs => code.Condition func known lhs ∧ code.Condition func known rhs
  | .condBr cond _ _ => code.Condition func known cond
  | _ => True

variable {code code' : Recording} {func : FuncId} {known known' : Known} {v : ValueId}
  {op : Operation}

theorem Condition.mono (condition : code.Condition func known v) (more : known ⊆ known')
    (later : code.Extends code') : code'.Condition func known' v := by
  induction condition with
  | constant source => exact .constant (later.value _ _ source)
  | test passed produced => exact .test (more passed) (produced.mono later)
  | and passed produced _ _ ihLeft ihRight =>
    exact .and (more passed) (produced.mono later) ihLeft ihRight

theorem Tag.mono (tag : code.Tag func known v) (more : known ⊆ known')
    (later : code.Extends code') : code'.Tag func known' v := by
  obtain ⟨passed, value, ty, produced⟩ := tag
  exact ⟨more passed, value, ty, produced.mono later⟩

theorem Guarded.mono (guarded : code.Guarded func known op) (more : known ⊆ known')
    (later : code.Extends code') : code'.Guarded func known' op := by
  cases op with
  | matchTypeTag => exact Tag.mono guarded more later
  | and => exact ⟨guarded.1.mono more later, guarded.2.mono more later⟩
  | condBr => exact Condition.mono guarded more later
  | _ => trivial

end Recording

/-- What is promised about the lowered program, and so demanded of the code. -/
structure Rules where
  /-- What is annotated not to return does not, so that every block ends. -/
  sealed : Prop
  /-- Every call has one candidate, so that direct evaluation is defined and nothing is tested. -/
  traced : Prop
  /-- Hidden variables are read by lowering only, so that every value read is available. -/
  strict : Prop
  /-- The code consists of one block. -/
  flat : Prop
  /-- Functions are declared with one of these prototypes. -/
  declares : FnDecl → Prop

/-- A value may be used where the given ones are known. -/
def Rules.Usable (rules : Rules) (func : FuncId) (known : Known) (code : Recording)
    (v : ValueId) : Prop :=
  rules.strict → v ∈ known ∨ code.Ambient func v

theorem Recording.Condition.usable {code : Recording} {func : FuncId} {known : Known} {v : ValueId}
    (condition : code.Condition func known v) (rules : Rules) : rules.Usable func known code v := by
  cases condition with
  | constant source => exact fun _ => .inr (.constant source)
  | test passed | and passed => exact fun _ => .inl passed

/-- An operation may be put where the given values are known. -/
structure Rules.Allows (rules : Rules) (func : FuncId) (known : Known) (code : Recording)
    (op : Operation) : Prop where
  untested : rules.traced → op.isTest = false
  usable : ∀ v ∈ op.operands, rules.Usable func known code v
  guarded : code.Guarded func known op

theorem Rules.Allows.plain {code : Recording} {func : FuncId} {known : Known} {op : Operation}
    (untested : op.isTest = false) (usable : ∀ v ∈ op.operands, rules.Usable func known code v) :
    rules.Allows func known code op where
  untested _ := untested
  usable := usable
  guarded := by cases op <;> trivial

/-- A call is in accordance with a prototype: it has the convention of the prototype and one argument
for every parameter. A variadic foreign function takes more. -/
structure FnDecl.Accepts (decl : FnDecl) (conv : Option CallConv) (args : List ValueId) : Prop where
  conv : conv = decl.conv
  enough : decl.params.length ≤ args.length
  exact : decl.conv = none ∨ decl.variadic = false → args.length = decl.params.length

theorem FnDecl.Accepts.of_length {decl : FnDecl} (same : conv = decl.conv)
    (sized : args.length = decl.params.length) : decl.Accepts conv args :=
  ⟨same, sized.ge, fun _ => sized⟩

/-- A function may be called with the given convention and arguments: it goes by the name of a
prototype that accepts them. -/
def Rules.Calls (rules : Rules) (code : Recording) (func : FuncId) (conv : Option CallConv)
    (args : List ValueId) : Prop :=
  ∃ routine decl, code.routine? func = some routine ∧ rules.declares decl ∧
    routine.decl.name = decl.name ∧ decl.Accepts conv args

variable {code : Recording} {label : String}

theorem Rules.Calls.declared {func : FuncId} (called : rules.Calls code func conv args) :
    ∃ routine, code.routine? func = some routine := by
  obtain ⟨routine, _, present, _⟩ := called
  exact ⟨routine, present⟩

/-- The name of a closure. -/
def IsClosureName (name : String) : Prop :=
  ∃ (outer : String) (number : Nat), name = outer ++ "$block" ++ toString number

/-- What lowering records: the code and the open join points. -/
structure Site where
  code : Recording
  joins : Array JoinPoint

/-- The surroundings of a piece of lowering: the function, the active handlers, the number of open join
points that belong to enclosing functions, and what the function is meant to return. -/
structure Region where
  func : FuncId
  handlers : List BlockId
  base : Nat
  ret : MachineType

namespace JoinPoint

/-- The join point after a path has reached its exit with a value. -/
def reached (join : JoinPoint) (exit : BlockId) (arm : ValueId × BlockId) : JoinPoint :=
  { join with
    exit := some exit
    incoming := if join.materializes then join.incoming ++ [arm] else join.incoming }

/-- The code after the exit of a join point was entered. -/
def entered (join : JoinPoint) (code : Recording) (exit : BlockId) : Recording :=
  if join.materializes then
    (code.position exit).written exit (.phi join.machineType join.incoming)
  else code.position exit

/-- The values known at the exit of a join point besides those known before it. -/
def merged (join : JoinPoint) (code : Recording) : Known :=
  if join.materializes then {⟨code.values.size⟩} else ∅

end JoinPoint

/-- A piece of lowering in a region, with the values known and the site before and after it, and
what direct evaluation of the lowered piece does. -/
inductive Builds (rules : Rules) :
    Region → Effect → Known → Site → Known → Site → Prop where
  | refl {r known site} : Builds rules r 1 known site known site
  | trans {r effect effect' known known1 known' site site1 site'} :
      Builds rules r effect known site known1 site1 →
      Builds rules r effect' known1 site1 known' site' →
      Builds rules r (effect * effect') known site known' site'
  /-- Direct evaluation is of no interest. -/
  | untraced {r effect effect' known known' site site'} :
      (rules.traced → ¬rules.flat ∧ ¬rules.sealed) → Builds rules r effect known site known' site' →
      Builds rules r effect' known site known' site'
  /-- Control does not get here. -/
  | dead {r effect known site} :
      site.code.isTerminated = true → Builds rules r effect known site known site
  | constant {r known code joins}
      (constant : Constant) :
      Builds rules r 1 known ⟨code, joins⟩ known ⟨(code.addConstant constant).2, joins⟩
  | global {r known code joins}
      (name : String) :
      Builds rules r 1 known ⟨code, joins⟩ known ⟨(code.addGlobal name).2, joins⟩
  | declare {r known code joins}
      (decl : FnDecl) (listed : rules.declares decl) :
      Builds rules r 1 known ⟨code, joins⟩ known ⟨(code.declare decl).2, joins⟩
  | write {r known code joins block op} (straight : op.isStraight = true)
      (allowed : rules.Allows r.func known code op)
      (called : ∀ func ∈ op.callee?, rules.Calls code func op.conv? op.operands)
      (atBlock : code.cursor = some block) (running : code.terminator? block = none)
      (returned : ∀ value, op = .ret value → (value = none ↔ r.ret = .void)) :
      Builds rules r (op.effect code) known ⟨code, joins⟩
        (known ∪ {v | code.resultOf op = some v}) ⟨code.written block op, joins⟩
  | invoke {r known code joins block handler func args conv}
      (layered : ¬rules.flat) (handled : r.handlers.head? = some handler)
      (called : rules.Calls code func conv args)
      (atBlock : code.cursor = some block) (running : code.terminator? block = none)
      (usable : ∀ v ∈ args, rules.Usable r.func known code v) :
      Builds rules r (.call (code.funcName func)) known ⟨code, joins⟩
        (insert ⟨code.values.size⟩ known)
        ⟨code.invoked r.func block handler func args conv, joins⟩
  /-- A path ends in a join point that others have reached. -/
  | land {r known code joins block exit i join v}
      (layered : ¬rules.flat) (inside : r.base ≤ i) (opened : joins[i]? = some join)
      (exits : join.exit = some exit)
      (atBlock : code.cursor = some block) (running : code.terminator? block = none)
      (usable : rules.Usable r.func known code v) :
      Builds rules r (.leave i) known ⟨code, joins⟩ known
        ⟨code.written block (.br exit), joins.setIfInBounds i (join.reached exit (v, block))⟩
  /-- A path is the first to end in a join point. -/
  | arrive {r known code joins block i join v}
      (layered : ¬rules.flat) (inside : r.base ≤ i) (opened : joins[i]? = some join)
      (exits : join.exit = none)
      (atBlock : code.cursor = some block) (running : code.terminator? block = none)
      (usable : rules.Usable r.func known code v) :
      Builds rules r (.leave i) known ⟨code, joins⟩ known
        ⟨(code.appendBlock r.func "merge").2.written block (.br ⟨code.blocks.size⟩),
          joins.setIfInBounds i (join.reached ⟨code.blocks.size⟩ (v, block))⟩
  /-- A join point is closed that no path has reached. -/
  | unreached {r effect known known1 code code1 joins joins1 ty machineType needsValue join} (layered : ¬rules.flat)
      (body : Builds rules r effect known
        ⟨code, joins.push (.fresh ty machineType needsValue)⟩ known1 ⟨code1, joins1.push join⟩)
      (exits : join.exit = none) (ended : code1.isTerminated = true) :
      Builds rules r (effect.close joins.size) known ⟨code, joins⟩ known ⟨code1, joins1⟩
  /-- A join point is closed that a path has reached. -/
  | reached {r effect known known1 code code1 joins joins1 ty machineType needsValue join exit} (layered : ¬rules.flat)
      (body : Builds rules r effect known
        ⟨code, joins.push (.fresh ty machineType needsValue)⟩ known1 ⟨code1, joins1.push join⟩)
      (exits : join.exit = some exit) (ended : rules.sealed → code1.isTerminated = true) :
      Builds rules r (effect.close joins.size) known ⟨code, joins⟩
        (known ∪ join.merged code1) ⟨join.entered code1 exit, joins1⟩
  /-- A body with a handler, up to where the handler starts. -/
  | handle {r effect known known1 code code1 joins joins1} (layered : ¬rules.flat)
      (body : Builds rules { r with handlers := ⟨code.blocks.size⟩ :: r.handlers } effect known
        ⟨(code.appendBlock r.func "rescue").2, joins⟩ known1 ⟨code1, joins1⟩)
      (ended : rules.sealed → code1.isTerminated = true) :
      Builds rules r effect known ⟨code, joins⟩ known
        ⟨(code1.position ⟨code.blocks.size⟩).written ⟨code.blocks.size⟩ .landingPad, joins1⟩
  /-- The branch of a candidate, up to where the next one is tried. -/
  | branch {r effect effect' known known1 code code1 joins joins1 block cond} (layered : ¬rules.flat)
      (allowed : rules.Allows r.func known code
        (.condBr cond ⟨code.blocks.size⟩ ⟨code.blocks.size + 1⟩))
      (atBlock : code.cursor = some block) (running : code.terminator? block = none)
      (body : Builds rules r effect known ⟨code.branched r.func block cond, joins⟩ known1
        ⟨code1, joins1⟩)
      (ended : rules.sealed → code1.isTerminated = true) :
      Builds rules r effect' known ⟨code, joins⟩ known
        ⟨code1.position ⟨code.blocks.size + 1⟩, joins1⟩
  /-- The function of a closure. -/
  | closure {r effect known known1 code entry code1 joins joins1 decl func params block} (layered : ¬rules.flat)
      (named : IsClosureName decl.name)
      (declared : func = (code.declare decl).1)
      (begun : Emit.beginRoutine func (code.declare decl).2 = .ok params entry)
      (atBlock : code.cursor = some block)
      (body : Builds rules ⟨func, [], joins.size, decl.ret⟩ effect ∅ ⟨entry, joins⟩ known1
        ⟨code1, joins1⟩)
      (ended : rules.sealed → code1.isTerminated = true) :
      Builds rules r 1 known ⟨code, joins⟩ known ⟨code1.position block, joins1⟩

/-! ## What a piece of lowering leaves alone -/

namespace Recording

variable {b : BlockId} {code : Recording} {func : FuncId}

theorem terminator?_of_block? {code' : Recording} (same : code'.block? b = code.block? b) :
    code'.terminator? b = code.terminator? b := by
  unfold terminator?
  rw [same]

@[simp] theorem appendBlock_terminator? :
    (code.appendBlock func label).2.terminator? b = code.terminator? b := by
  by_cases new : b.index = code.blocks.size
  · obtain ⟨index⟩ := b
    subst new
    have absent : code.block? ⟨code.blocks.size⟩ = none :=
      Array.getElem?_eq_none (Nat.le_refl _)
    rw [terminator?, terminator?, appendBlock_block?_new, absent]
    rfl
  · exact terminator?_of_block? (appendBlock_block?_old new)

/-- The code at a cursor that has not ended goes on after an operation that is no terminator. -/
theorem terminator?_written {block : BlockId} {op : Operation}
    (present : code.block? block = some data) (goesOn : op.isTerminator = false) :
    (code.written block op).terminator? block = none := by
  simp [terminator?, written_block?_self present, BasicBlock.terminator?, goesOn]

theorem block?_of_terminator? (ended : code.terminator? b ≠ none) :
    ∃ data, code.block? b = some data := by
  cases found : code.block? b with
  | none => exact absurd (by rw [terminator?, found]; rfl) ended
  | some data => exact ⟨data, rfl⟩

/-- Of the blocks that were there before, only the one at the cursor has changed, and it only if
it had not ended. The cursor is where it was or in a new block. -/
structure Frame (code code' : Recording) : Prop where
  later : code.Extends code'
  others : ∀ b, b.index < code.blocks.size → code.cursor ≠ some b →
    code'.block? b = code.block? b
  ended : ∀ b, code.terminator? b ≠ none → code'.block? b = code.block? b
  cursor : code'.cursor = code.cursor ∨
    ∃ b, code'.cursor = some b ∧ code.blocks.size ≤ b.index

namespace Frame

variable {code code1 code' : Recording} {block b : BlockId} {op : Operation}

theorem refl (code : Recording) : code.Frame code :=
  ⟨.refl code, fun _ _ _ => rfl, fun _ _ => rfl, .inl rfl⟩

theorem trans (first : code.Frame code1) (second : code1.Frame code') : code.Frame code' where
  later := first.later.trans second.later
  others b old apart := by
    have same := first.others b old apart
    rw [← same]
    refine second.others b (Nat.lt_of_lt_of_le old first.later.blocks) ?_
    intro here
    obtain stays | ⟨_, moves, new⟩ := first.cursor
    · exact apart (stays.symm.trans here)
    · rw [moves, Option.some.injEq] at here
      subst here
      exact absurd old (Nat.not_lt.mpr new)
  ended b shut := by
    have same := first.ended b shut
    rw [← same]
    refine second.ended b ?_
    rw [terminator?_of_block? same]
    exact shut
  cursor := by
    obtain stays | ⟨b, moves, new⟩ := second.cursor
    · rw [stays]
      exact first.cursor
    · exact .inr ⟨b, moves, Nat.le_trans first.later.blocks new⟩

/-- Recording no instruction changes no block. -/
theorem of_blocks (later : code.Extends code') (same : code'.blocks = code.blocks)
    (stays : code'.cursor = code.cursor) : code.Frame code' where
  later := later
  others _ _ _ := by rw [block?, block?, same]
  ended _ _ := by rw [block?, block?, same]
  cursor := .inl stays

theorem written (atBlock : code.cursor = some block) (running : code.terminator? block = none) :
    code.Frame (code.written block op) where
  later := extends_written block op
  others _ _ apart := written_block?_other fun same => apart (same ▸ atBlock)
  ended _ shut := written_block?_other fun same => shut (same ▸ running)
  cursor := .inl rfl

theorem appendBlock (func : FuncId) (label : String) :
    code.Frame (code.appendBlock func label).2 where
  later := extends_appendBlock func label
  others b old _ := appendBlock_block?_old (Nat.ne_of_lt old)
  ended b shut := by
    obtain ⟨_, present⟩ := block?_of_terminator? shut
    rw [appendBlock_block?_of_some present, present]
  cursor := .inl rfl

theorem appendBlock_written (atBlock : code.cursor = some block)
    (running : code.terminator? block = none) :
    code.Frame ((code.appendBlock func label).2.written block op) :=
  (appendBlock func label).trans (written atBlock (appendBlock_terminator?.trans running))

/-- The cursor may move back. -/
theorem resume (frame : code.Frame code') (atBlock : code.cursor = some block) :
    code.Frame (code'.position block) where
  later := frame.later.trans (extends_position block)
  others := frame.others
  ended := frame.ended
  cursor := .inl atBlock.symm

variable (frame : code.Frame code') (new : code.blocks.size ≤ b.index)

include frame new

/-- The cursor may move to a new block. -/
theorem position : code.Frame (code'.position b) where
  later := frame.later.trans (extends_position b)
  others := frame.others
  ended := frame.ended
  cursor := .inr ⟨b, rfl, new⟩

/-- A new block may change. -/
theorem writtenNew : code.Frame (code'.written b op) where
  later := frame.later.trans (extends_written b op)
  others b' old apart := by
    rw [← frame.others b' old apart]
    exact written_block?_other fun same => absurd old (Nat.not_lt.mpr (same ▸ new))
  ended b' shut := by
    obtain ⟨_, present⟩ := block?_of_terminator? shut
    rw [← frame.ended b' shut]
    exact written_block?_other fun same =>
      absurd (block?_eq_some_lt present) (Nat.not_lt.mpr (same ▸ new))
  cursor := frame.cursor

end Frame

end Recording

theorem JoinPoint.frame_entered {join : JoinPoint} {code1 : Recording} {exit : BlockId}
    (frame : code.Frame code1) (new : code.blocks.size ≤ exit.index) :
    code.Frame (join.entered code1 exit) := by
  unfold JoinPoint.entered
  split
  · exact (frame.position new).writtenNew new
  · exact frame.position new

/-- The open join points are the same ones, those of enclosing functions have not changed, and
exits are kept; a new exit is a new block. -/
structure JoinsAdvance (base blocks : Nat) (joins joins' : Array JoinPoint) : Prop where
  size : joins'.size = joins.size
  below : ∀ i < base, joins'[i]? = joins[i]?
  exits : ∀ (i : Nat) (join : JoinPoint), joins[i]? = some join →
    ∃ join' : JoinPoint, joins'[i]? = some join' ∧
      (∀ x, join.exit = some x → join'.exit = some x) ∧
      ∀ x, join'.exit = some x → join.exit = some x ∨ blocks ≤ x.index

namespace JoinsAdvance

variable {base blocks blocks1 : Nat} {joins joins1 joins' : Array JoinPoint}

theorem refl (base blocks : Nat) (joins : Array JoinPoint) : JoinsAdvance base blocks joins joins :=
  ⟨rfl, fun _ _ => rfl, fun _ join opened => ⟨join, opened, fun _ => id, fun _ => .inl⟩⟩

theorem trans (grows : blocks ≤ blocks1) (first : JoinsAdvance base blocks joins joins1)
    (second : JoinsAdvance base blocks1 joins1 joins') : JoinsAdvance base blocks joins joins' where
  size := second.size.trans first.size
  below i inside := (second.below i inside).trans (first.below i inside)
  exits i join opened := by
    obtain ⟨join1, opened1, kept₁, new1⟩ := first.exits i join opened
    obtain ⟨join', opened', kept', new'⟩ := second.exits i join1 opened1
    refine ⟨join', opened', fun x exits => kept' x (kept₁ x exits), fun x exits => ?_⟩
    obtain old | new := new' x exits
    · exact new1 x old
    · exact .inr (Nat.le_trans grows new)

theorem mono {base' : Nat} (lower : base ≤ base') (grows : blocks ≤ blocks1)
    (advance : JoinsAdvance base' blocks1 joins joins') :
    JoinsAdvance base blocks joins joins' where
  size := advance.size
  below i inside := advance.below i (Nat.lt_of_lt_of_le inside lower)
  exits i join opened := by
    obtain ⟨join', opened', kept, new⟩ := advance.exits i join opened
    exact ⟨join', opened', kept, fun x exits => (new x exits).imp id (Nat.le_trans grows)⟩

variable {join : JoinPoint} {exit : BlockId} {i : Nat}

/-- A path that ends in a join point of the function gives it an exit, if it has none. -/
theorem reached {arm : ValueId × BlockId} (inside : base ≤ i) (opened : joins[i]? = some join)
    (exits : join.exit = some exit ∨ join.exit = none ∧ blocks ≤ exit.index) :
    JoinsAdvance base blocks joins (joins.setIfInBounds i (join.reached exit arm)) where
  size := Array.size_setIfInBounds
  below k below := Array.getElem?_setIfInBounds_ne (Nat.ne_of_gt (Nat.lt_of_lt_of_le below inside))
  exits k join' opened' := by
    by_cases same : k = i
    · subst same
      rw [opened, Option.some.injEq] at opened'
      subst opened'
      refine ⟨_, Array.getElem?_setIfInBounds_self_of_lt
        (Array.getElem?_eq_some_iff.mp opened).1, ?_, ?_⟩
      · intro x exit'
        obtain exit'' | ⟨unreached, _⟩ := exits
        · exact exit''.symm.trans exit'
        · exact nomatch unreached.symm.trans exit'
      · intro x exit'
        rw [JoinPoint.reached, Option.some.injEq] at exit'
        subst exit'
        exact exits.imp id And.right
    · exact ⟨join', (Array.getElem?_setIfInBounds_ne (Ne.symm same)).trans opened',
        fun _ => id, fun _ => .inl⟩

/-- An exit was one before, or is a new block. -/
theorem exit_cases {join' : JoinPoint} {x : BlockId}
    (advance : JoinsAdvance base blocks joins joins') (opened' : joins'[i]? = some join')
    (exits : join'.exit = some x) :
    (∃ join, joins[i]? = some join ∧ join.exit = some x) ∨ blocks ≤ x.index := by
  have small : i < joins.size := advance.size ▸ (Array.getElem?_eq_some_iff.mp opened').1
  have opened := Array.getElem?_eq_getElem small
  obtain ⟨_, opened'', _, new⟩ := advance.exits i _ opened
  rw [opened', Option.some.injEq] at opened''
  subst opened''
  exact (new x exits).imp (fun old => ⟨_, opened, old⟩) id

/-- Join points that all belong to enclosing functions have not changed. -/
theorem eq_of_base (advance : JoinsAdvance joins.size blocks joins joins') : joins' = joins := by
  refine Array.ext_getElem? fun i => ?_
  by_cases inside : i < joins.size
  · exact advance.below i inside
  · have outside := Nat.not_lt.mp inside
    rw [Array.getElem?_eq_none outside, Array.getElem?_eq_none (advance.size ▸ outside)]

/-- Closing the innermost join point leaves the others as they are. -/
theorem pop {fresh : JoinPoint}
    (advance : JoinsAdvance base blocks (joins.push fresh) (joins'.push join))
    (inside : base ≤ joins.size) : JoinsAdvance base blocks joins joins' := by
  have sizes : joins'.size = joins.size := by
    simpa using advance.size
  have lower : ∀ (all : Array JoinPoint) (last : JoinPoint) {i : Nat}, i < all.size →
      (all.push last)[i]? = all[i]? := fun _ _ _ below => by
    rw [Array.getElem?_push_lt below, Array.getElem?_eq_getElem below]
  refine ⟨sizes, fun i below => ?_, fun i found opened => ?_⟩
  · have small : i < joins.size := Nat.lt_of_lt_of_le below inside
    rw [← lower joins' join (sizes ▸ small), ← lower joins fresh small]
    exact advance.below i below
  · have small : i < joins.size := (Array.getElem?_eq_some_iff.mp opened).1
    obtain ⟨found', opened', kept, new⟩ :=
      advance.exits i found ((lower joins fresh small).trans opened)
    exact ⟨found', (lower joins' join (sizes ▸ small)).symm.trans opened', kept, new⟩

/-- The exit of a join point that was opened on the way is a new block. -/
theorem exit_new {ty : Ty} {machineType : MachineType} {needsValue : Bool}
    (advance : JoinsAdvance base blocks (joins.push (.fresh ty machineType needsValue)) (joins'.push join))
    (exits : join.exit = some exit) : blocks ≤ exit.index := by
  have sizes : joins'.size = joins.size := by
    simpa using advance.size
  obtain ⟨_, opened, _, new⟩ := advance.exits joins.size _ Array.getElem?_push_size
  rw [← sizes, Array.getElem?_push_size, Option.some.injEq] at opened
  subst opened
  exact (new exit exits).resolve_left nofun

end JoinsAdvance

/-- A piece of lowering in a region has left everything else alone. -/
structure Advance (r : Region) (site site' : Site) : Prop where
  code : site.code.Frame site'.code
  joins : JoinsAdvance r.base site.code.blocks.size site.joins site'.joins

namespace Advance

variable {r : Region} {site site1 site' : Site}

theorem refl (r : Region) (site : Site) : Advance r site site :=
  ⟨.refl _, .refl _ _ _⟩

theorem trans (first : Advance r site site1) (second : Advance r site1 site') :
    Advance r site site' :=
  ⟨first.code.trans second.code, first.joins.trans first.code.later.blocks second.joins⟩

theorem of_code {code' : Recording} {joins : Array JoinPoint} (frame : code.Frame code') :
    Advance r ⟨code, joins⟩ ⟨code', joins⟩ :=
  ⟨frame, .refl _ _ _⟩

end Advance

namespace Recording

variable {code code' : Recording} {func : FuncId} {params : List ValueId} {b : BlockId}
  {decl : FnDecl} {name : String}

@[simp] theorem addGlobal_blocks : (code.addGlobal name).2.blocks = code.blocks := by
  obtain same | ⟨_, added⟩ := code.addGlobal_snd name
  · rw [same]
  · rw [added]

@[simp] theorem addGlobal_routine? :
    (code.addGlobal name).2.routine? func = code.routine? func := by
  obtain same | ⟨_, added⟩ := code.addGlobal_snd name
  · rw [same]
  · rw [added]
    rfl

@[simp] theorem addGlobal_cursor : (code.addGlobal name).2.cursor = code.cursor := by
  unfold addGlobal
  split <;> rfl

theorem addGlobal_routines : (code.addGlobal name).2.routines = code.routines := by
  unfold addGlobal
  split <;> rfl

@[simp] theorem declare_blocks : (code.declare decl).2.blocks = code.blocks := by
  unfold declare
  split <;> rfl

theorem declare_values : (code.declare decl).2.values = code.values := by
  unfold declare
  split <;> rfl

@[simp] theorem declare_block? : (code.declare decl).2.block? b = code.block? b := by
  rw [block?, block?, declare_blocks]

@[simp] theorem declare_cursor : (code.declare decl).2.cursor = code.cursor := by
  unfold declare
  split <;> rfl

@[simp] theorem addGlobal_instructionsOf :
    (code.addGlobal name).2.instructionsOf b = code.instructionsOf b := by
  rw [instructionsOf, instructionsOf, block?, block?, addGlobal_blocks]

@[simp] theorem declare_instructionsOf :
    (code.declare decl).2.instructionsOf b = code.instructionsOf b := by
  rw [instructionsOf, instructionsOf, block?, block?, declare_blocks]

theorem frame_addGlobal (name : String) : code.Frame (code.addGlobal name).2 :=
  .of_blocks (extends_addGlobal name) addGlobal_blocks addGlobal_cursor

theorem frame_declare (decl : FnDecl) : code.Frame (code.declare decl).2 :=
  .of_blocks (extends_declare decl) declare_blocks declare_cursor

variable {block : BlockId} {owner : FuncId}

theorem frame_invoked {handler : BlockId} (atBlock : code.cursor = some block)
    (running : code.terminator? block = none) :
    code.Frame (code.invoked owner block handler func args conv) :=
  (Frame.appendBlock_written atBlock running).position (Nat.le_refl _)

theorem frame_branched {cond : ValueId} (atBlock : code.cursor = some block)
    (running : code.terminator? block = none) : code.Frame (code.branched owner block cond) := by
  have opened : code.Frame (((code.appendBlock owner "current_def").2.appendBlock owner
      "next_def").2.written block (.condBr cond ⟨code.blocks.size⟩ ⟨code.blocks.size + 1⟩)) :=
    (Frame.appendBlock owner "current_def").trans
      (.appendBlock_written atBlock (appendBlock_terminator?.trans running))
  exact opened.position (Nat.le_refl _)

variable (begun : Emit.beginRoutine func code = .ok params code')

include begun

/-- A new function body leaves the blocks that were there as they are. -/
theorem beginRoutine_block?_old (old : b.index < code.blocks.size) :
    code'.block? b = code.block? b := by
  obtain ⟨_, opened, _, _, _, blocks, _, _, _, rfl⟩ := beginRoutine_ok begun
  have apart : b.index ≠ opened.blocks.size := blocks ▸ Nat.ne_of_lt old
  rw [position_block?, appendBlock_block?_old apart, block?, block?, blocks]

/-- A new function body changes no block and moves the cursor to a new one. -/
theorem frame_beginRoutine : code.Frame code' := by
  have old := @beginRoutine_block?_old code code' func params
  obtain ⟨_, _, _, _, later, _, _, _, _, rfl⟩ := beginRoutine_ok begun
  refine ⟨later.trans ((extends_appendBlock func "entry").trans (extends_position _)),
    fun b inside _ => old begun inside, fun _ shut => ?_, .inr ⟨_, rfl, Nat.le_refl _⟩⟩
  obtain ⟨_, present⟩ := block?_of_terminator? shut
  exact old begun (block?_eq_some_lt present)

end Recording

/-- A piece of lowering changes the block at the cursor, unless it has ended, and new blocks
only. -/
theorem Builds.advance {r : Region} {effect : Effect} {known known' : Known} {site site' : Site}
    (built : Builds rules r effect known site known' site') (based : r.base ≤ site.joins.size) :
    Advance r site site' := by
  induction built with
  | refl => exact .refl _ _
  | trans first second ihFirst ihSecond =>
    have first' := ihFirst based
    exact first'.trans (ihSecond (first'.joins.size ▸ based))
  | untraced _ _ ih => exact ih based
  | dead => exact .refl _ _
  | constant constant =>
    exact .of_code (.of_blocks (extends_addConstant constant) rfl rfl)
  | global name => exact .of_code (frame_addGlobal name)
  | declare decl => exact .of_code (frame_declare decl)
  | write _ _ _ atBlock running => exact .of_code (.written atBlock running)
  | invoke _ _ _ atBlock running _ =>
    exact .of_code (frame_invoked atBlock running)
  | land _ inside opened exits atBlock running _ =>
    exact ⟨.written atBlock running, .reached inside opened (.inl exits)⟩
  | arrive _ inside opened exits atBlock running _ =>
    exact ⟨.appendBlock_written atBlock running,
      .reached inside opened (.inr ⟨exits, Nat.le_refl _⟩)⟩
  | unreached _ _ _ _ ih =>
    have inner := ih (Nat.le_trans based (by simp))
    exact ⟨inner.code, inner.joins.pop based⟩
  | reached _ _ exits _ ih =>
    have inner := ih (Nat.le_trans based (by simp))
    exact ⟨JoinPoint.frame_entered inner.code (inner.joins.exit_new exits),
      inner.joins.pop based⟩
  | handle _ _ _ ih =>
    have inner := ih based
    have frame := (Frame.appendBlock _ "rescue").trans inner.code
    exact ⟨(frame.position (Nat.le_refl _)).writtenNew (Nat.le_refl _),
      inner.joins.mono (Nat.le_refl _) (extends_appendBlock _ "rescue").blocks⟩
  | branch _ _ atBlock running _ _ ih =>
    have inner := ih based
    have frame := (frame_branched atBlock running).trans inner.code
    exact ⟨frame.position (Nat.le_succ _),
      inner.joins.mono (Nat.le_refl _) (frame_branched atBlock running).later.blocks⟩
  | @closure _ _ _ _ _ _ _ _ _ decl _ _ _ _ _ _ begun atBlock _ _ ih =>
    have inner := ih (Nat.le_refl _)
    have begins := (frame_declare decl).trans (frame_beginRoutine begun)
    exact ⟨(begins.trans inner.code).resume atBlock, inner.joins.mono based begins.later.blocks⟩

end CallLowering
