import CallLowering.Code.Recording
import Mathlib.Data.List.Forall2

/-!
# Code up to numbers

Values, blocks and functions are numbered in the order in which they are recorded. A `Renaming` says
which numbers of one recording stand for which numbers of another, and is a renaming between the two
if what stands for each other is alike (`Renaming.Between`): related blocks hold related
instructions, and related values come from related places. Recordings are equivalent
(`Recording.Equivalent`) if they have functions of the same names, and functions of one name differ in
numbers only.
-/

namespace CallLowering

/-- Which numbers of one recording stand for which numbers of another. -/
structure Renaming where
  value : ValueId → ValueId → Prop
  block : BlockId → BlockId → Prop
  func : FuncId → FuncId → Prop

/-- Numbers that stand for each other in one renaming do so in another. -/
structure Renaming.Within (ρ ρ' : Renaming) : Prop where
  value : ∀ {v1 v2}, ρ.value v1 v2 → ρ'.value v1 v2
  block : ∀ {b1 b2}, ρ.block b1 b2 → ρ'.block b1 b2
  func : ∀ {f1 f2}, ρ.func f1 f2 → ρ'.func f1 f2

/-! ## Operations -/

/-- Operations that differ in numbers only, and those stand for each other. -/
inductive Operation.Renamed (ρ : Renaming) : Operation → Operation → Prop where
  | alloca {ty name} : Renamed ρ (.alloca ty name) (.alloca ty name)
  | load {ty p1 p2} (ptr : ρ.value p1 p2) :
      Renamed ρ (.load ty p1) (.load ty p2)
  | store {v1 v2 p1 p2} (value : ρ.value v1 v2) (ptr : ρ.value p1 p2) :
      Renamed ρ (.store v1 p1) (.store v2 p2)
  | copy {d1 d2 s1 s2 size align} (dst : ρ.value d1 d2)
      (src : ρ.value s1 s2) : Renamed ρ (.copy d1 s1 size align) (.copy d2 s2 size align)
  | fieldPtr {ty p1 p2 index} (ptr : ρ.value p1 p2) :
      Renamed ρ (.fieldPtr ty p1 index) (.fieldPtr ty p2 index)
  | extractValue {ty v1 v2 index} (value : ρ.value v1 v2) :
      Renamed ρ (.extractValue ty v1 index) (.extractValue ty v2 index)
  | cast {kind v1 v2 ty} (value : ρ.value v1 v2) :
      Renamed ρ (.cast kind v1 ty) (.cast kind v2 ty)
  | convert {v1 v2 source dest} (value : ρ.value v1 v2) :
      Renamed ρ (.convert v1 source dest) (.convert v2 source dest)
  | typeId {v1 v2 ty} (value : ρ.value v1 v2) :
      Renamed ρ (.typeId v1 ty) (.typeId v2 ty)
  | matchTypeTag {declared candidate t1 t2} (tag : ρ.value t1 t2) :
      Renamed ρ (.matchTypeTag declared candidate t1) (.matchTypeTag declared candidate t2)
  | and {l1 l2 r1 r2} (lhs : ρ.value l1 l2) (rhs : ρ.value r1 r2) :
      Renamed ρ (.and l1 r1) (.and l2 r2)
  | phi {ty arms1 arms2}
      (arms : List.Forall₂ (fun arm1 arm2 => ρ.value arm1.1 arm2.1 ∧ ρ.block arm1.2 arm2.2)
        arms1 arms2) : Renamed ρ (.phi ty arms1) (.phi ty arms2)
  | call {f1 f2 args1 args2 conv}
      (func : ρ.func f1 f2) (args : List.Forall₂ ρ.value args1 args2) :
      Renamed ρ (.call f1 args1 conv) (.call f2 args2 conv)
  | invoke {f1 f2 args1 args2 n1 n2 h1 h2 conv} (func : ρ.func f1 f2) (args : List.Forall₂ ρ.value args1 args2)
      (normal : ρ.block n1 n2) (handler : ρ.block h1 h2) :
      Renamed ρ (.invoke f1 args1 n1 h1 conv) (.invoke f2 args2 n2 h2 conv)
  | landingPad : Renamed ρ .landingPad .landingPad
  | makeClosure {f1 f2 d1 d2} (func : ρ.func f1 f2) (data : ρ.value d1 d2) :
      Renamed ρ (.makeClosure f1 d1) (.makeClosure f2 d2)
  | br {b1 b2} (target : ρ.block b1 b2) : Renamed ρ (.br b1) (.br b2)
  | condBr {c1 c2 y1 y2 n1 n2} (cond : ρ.value c1 c2)
      (yes : ρ.block y1 y2) (no : ρ.block n1 n2) :
      Renamed ρ (.condBr c1 y1 n1) (.condBr c2 y2 n2)
  | unreachable : Renamed ρ .unreachable .unreachable
  | ret {v1 v2} (value : Option.Rel ρ.value v1 v2) :
      Renamed ρ (.ret v1) (.ret v2)

namespace Operation.Renamed

variable {ρ ρ' : Renaming} {op1 op2 : Operation} (renamed : op1.Renamed ρ op2)

include renamed

theorem mono (within : ρ.Within ρ') : op1.Renamed ρ' op2 := by
  have values : ∀ {vs1 vs2}, List.Forall₂ ρ.value vs1 vs2 → List.Forall₂ ρ'.value vs1 vs2 :=
    fun same => same.imp fun _ _ => within.value
  cases renamed with
  | alloca => exact .alloca
  | load ptr => exact .load (within.value ptr)
  | store value ptr => exact .store (within.value value) (within.value ptr)
  | copy dst src => exact .copy (within.value dst) (within.value src)
  | fieldPtr ptr => exact .fieldPtr (within.value ptr)
  | extractValue value => exact .extractValue (within.value value)
  | cast value => exact .cast (within.value value)
  | convert value => exact .convert (within.value value)
  | typeId value => exact .typeId (within.value value)
  | matchTypeTag tag => exact .matchTypeTag (within.value tag)
  | and lhs rhs => exact .and (within.value lhs) (within.value rhs)
  | phi arms => exact .phi (arms.imp fun _ _ arm => ⟨within.value arm.1, within.block arm.2⟩)
  | call func args => exact .call (within.func func) (values args)
  | invoke func args normal handler =>
    exact .invoke (within.func func) (values args) (within.block normal) (within.block handler)
  | landingPad => exact .landingPad
  | makeClosure func data => exact .makeClosure (within.func func) (within.value data)
  | br target => exact .br (within.block target)
  | condBr cond yes no => exact .condBr (within.value cond) (within.block yes) (within.block no)
  | unreachable => exact .unreachable
  | ret value =>
    cases value with
    | none => exact .ret .none
    | some value => exact .ret (.some (within.value value))

theorem hasResult : op1.hasResult = op2.hasResult := by
  cases renamed <;> rfl

theorem isTerminator : op1.isTerminator = op2.isTerminator := by
  cases renamed <;> rfl

end Operation.Renamed

/-! ## Recorded code -/

/-- Instructions that differ in numbers only. -/
structure Instruction.Renamed (ρ : Renaming) (instruction1 instruction2 : Instruction) : Prop where
  result : Option.Rel ρ.value instruction1.result instruction2.result
  op : instruction1.op.Renamed ρ instruction2.op

/-- Blocks that differ in numbers only. -/
structure BasicBlock.Renamed (ρ : Renaming) (data1 data2 : BasicBlock) : Prop where
  label : data1.label = data2.label
  func : ρ.func data1.func data2.func
  instructions : List.Forall₂ (Instruction.Renamed ρ) data1.instructions.toList
    data2.instructions.toList

/-- Values that come from the same constant or global, from the same parameter of related functions,
or from related blocks. -/
inductive ValueSource.Renamed (ρ : Renaming) : ValueSource → ValueSource → Prop where
  | const {constant : Constant} : Renamed ρ (.const constant) (.const constant)
  | param {f1 f2 : FuncId} {index : Nat} (func : ρ.func f1 f2) :
      Renamed ρ (.param f1 index) (.param f2 index)
  | global {name : String} : Renamed ρ (.global name) (.global name)
  | result {b1 b2 : BlockId} (block : ρ.block b1 b2) : Renamed ρ (.result b1) (.result b2)

/-- Functions that differ in numbers only. -/
structure Routine.Renamed (ρ : Renaming) (routine1 routine2 : Routine) : Prop where
  decl : routine1.decl = routine2.decl
  params : List.Forall₂ ρ.value routine1.params routine2.params
  blocks : List.Forall₂ ρ.block routine1.blocks.toList routine2.blocks.toList

section Mono

variable {ρ ρ' : Renaming}

theorem Instruction.Renamed.mono {instruction1 instruction2 : Instruction}
    (renamed : instruction1.Renamed ρ instruction2) (within : ρ.Within ρ') :
    instruction1.Renamed ρ' instruction2 := by
  refine ⟨?_, renamed.op.mono within⟩
  obtain ⟨_, _⟩ := instruction1
  obtain ⟨_, _⟩ := instruction2
  obtain value | _ := renamed.result
  · exact .some (within.value value)
  · exact .none

theorem BasicBlock.Renamed.mono {data1 data2 : BasicBlock} (renamed : data1.Renamed ρ data2)
    (within : ρ.Within ρ') : data1.Renamed ρ' data2 where
  label := renamed.label
  func := within.func renamed.func
  instructions := renamed.instructions.imp fun _ _ same => same.mono within

theorem ValueSource.Renamed.mono {source1 source2 : ValueSource} (renamed : source1.Renamed ρ source2)
    (within : ρ.Within ρ') : source1.Renamed ρ' source2 := by
  cases renamed with
  | const => exact .const
  | param func => exact .param (within.func func)
  | global => exact .global
  | result block => exact .result (within.block block)

theorem Routine.Renamed.mono {routine1 routine2 : Routine} (renamed : routine1.Renamed ρ routine2)
    (within : ρ.Within ρ') : routine1.Renamed ρ' routine2 where
  decl := renamed.decl
  params := renamed.params.imp fun _ _ => within.value
  blocks := renamed.blocks.imp fun _ _ => within.block

end Mono

/-- Blocks that differ in numbers only have both ended, or neither has. -/
theorem BasicBlock.Renamed.isSome_terminator? {ρ : Renaming} {data1 data2 : BasicBlock}
    (renamed : data1.Renamed ρ data2) : data1.terminator?.isSome = data2.terminator?.isSome := by
  have last : ∀ data : BasicBlock, data.terminator?.isSome =
      (data.instructions.toList.reverse.head?.any fun instruction => instruction.op.isTerminator) := by
    intro data
    unfold terminator?
    rw [← List.getLast?_eq_head?_reverse, Array.getLast?_toList]
    cases data.instructions.back? with
    | none => rfl
    | some instruction =>
      dsimp only
      cases ends : instruction.op.isTerminator <;> simp [ends]
  have backwards := List.forall₂_reverse_iff.mpr renamed.instructions
  rw [last, last]
  revert backwards
  generalize data1.instructions.toList.reverse = before₁
  generalize data2.instructions.toList.reverse = before₂
  rintro (_ | ⟨same, _⟩)
  · rfl
  · exact same.op.isTerminator

/-- One recording is the other up to numbers, as far as those stand for each other: a number stands
for one other number, functions are matched by their names, and values and blocks that stand for each
other are alike. -/
structure Renaming.Between (ρ : Renaming) (code1 code2 : Recording) : Prop where
  values : Relator.BiUnique ρ.value
  blocks : Relator.BiUnique ρ.block
  funcs : Relator.BiUnique ρ.func
  named : ∀ f1 f2, ρ.func f1 f2 → ∃ routine1 routine2, code1.routine? f1 = some routine1 ∧
    code2.routine? f2 = some routine2 ∧ routine1.decl.name = routine2.decl.name
  sources : ∀ v1 v2, ρ.value v1 v2 → ∃ source1 source2, code1.value? v1 = some source1 ∧
    code2.value? v2 = some source2 ∧ source1.Renamed ρ source2
  contents : ∀ b1 b2, ρ.block b1 b2 → ∃ data1 data2, code1.block? b1 = some data1 ∧
    code2.block? b2 = some data2 ∧ data1.Renamed ρ data2

/-- Two recordings have functions of the same names, and functions of one name have the same
prototype and differ in numbers only. -/
structure Recording.Equivalent (code1 code2 : Recording) : Prop where
  names : ∀ name, (code1.funcNamed? name).isSome = (code2.funcNamed? name).isSome
  functions : ∀ f1 f2 routine1 routine2, code1.routine? f1 = some routine1 →
    code2.routine? f2 = some routine2 → routine1.decl.name = routine2.decl.name →
    ∃ ρ : Renaming, ρ.Between code1 code2 ∧ routine1.Renamed ρ routine2

end CallLowering
