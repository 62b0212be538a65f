import CallLowering.Code.Emit
import Mathlib.Data.List.Basic

/-!
# What recording does to recorded code

A recording is changed by a handful of operations only: an instruction is put at the end of the
block at the cursor (`written`), a block is put at the end of a function (`appendBlock`), a
value, a function or the body of a function is added, and the cursor moves. This module says
what each of them leaves where, and that all of them only extend what was recorded
(`Recording.Extends`).
-/

namespace CallLowering

/-! ## Tables -/

section

variable {α : Type} {xs : Array α} {x y : α} {i k : Nat}

theorem getElem?_push_of_some (found : xs[i]? = some y) : (xs.push x)[i]? = some y := by
  have small := (Array.getElem?_eq_some_iff.mp found).1
  rw [Array.getElem?_push_lt small, ← Array.getElem?_eq_getElem small, found]

/-- The entry of a table that has got one more is the new one or an old one. -/
theorem getElem?_push_iff : (xs.push x)[i]? = some y ↔ i = xs.size ∧ y = x ∨ xs[i]? = some y := by
  refine ⟨fun found => ?_, ?_⟩
  · rw [Array.getElem?_push] at found
    split at found
    · exact .inl ⟨‹_›, (Option.some.inj found).symm⟩
    · exact .inr found
  · rintro (⟨rfl, rfl⟩ | found)
    · exact Array.getElem?_push_size
    · exact getElem?_push_of_some found

theorem getElem?_push_cases (found : (xs.push x)[i]? = some y) :
    i = xs.size ∧ y = x ∨ xs[i]? = some y := getElem?_push_iff.mp found

/-- A key that is not in a table may be put in front of it. -/
theorem lookup_cons_iff {table : List (String × α)} {key key' : String}
    (absent : table.lookup key = none) : List.lookup key' ((key, x) :: table) = some y ↔
      key' = key ∧ y = x ∨ table.lookup key' = some y := by
  by_cases same : key' = key
  · subst same
    simp [absent, eq_comm]
  · simp [List.lookup_cons, beq_false_of_ne same, same]

/-- The entry of a table in which one was replaced is that one or an old one. -/
theorem getElem?_set_cases (found : (xs.setIfInBounds i x)[k]? = some y) :
    k = i ∧ y = x ∨ k ≠ i ∧ xs[k]? = some y := by
  rw [Array.getElem?_setIfInBounds] at found
  split at found
  · split at found
    · exact .inl ⟨Eq.symm ‹_›, (Option.some.inj found).symm⟩
    · cases found
  · exact .inr ⟨Ne.symm ‹_›, found⟩

end

/-! ## Bodies that begin -/

namespace Recording

/-- The next values, `count` of them. -/
def nextValues (code : Recording) (count : Nat) : List ValueId :=
  (List.range count).map fun k => ⟨code.values.size + k⟩

/-- The recording with values for the parameters of a function from `index` on, `count` of them. -/
def withParamValues (code : Recording) (func : FuncId) (count index : Nat) : Recording :=
  { code with
    values := code.values ++ ((List.range count).map fun k => .param func (index + k)).toArray }

/-- The recording in which a function with `count` parameters got its body. -/
def begun (code : Recording) (func : FuncId) (count : Nat) : Recording :=
  (((code.withParamValues func count 0).withParams func (code.nextValues count)).appendBlock func
    "entry").2.position ⟨code.blocks.size⟩

end Recording

namespace Emit

variable {α β : Type} {code mid : Recording} {act : Emit α} {next : α → Emit β} {a : α}
  {error : RecordError} {func : FuncId} {routine : Routine}

theorem bind_of_ok (ran : act code = .ok a mid) : (act >>= next) code = next a mid := by
  change EStateM.bind act next code = _
  unfold EStateM.bind
  rw [ran]

theorem bind_of_error (ran : act code = .error error mid) :
    (act >>= next) code = .error error mid := by
  change EStateM.bind act next code = _
  unfold EStateM.bind
  rw [ran]

theorem get_bind {next : Recording → Emit β} : (get >>= next) code = next code code := rfl

theorem mint_run (source : ValueSource) (code : Recording) :
    mint source code = .ok ⟨code.values.size⟩ (code.addValue source).2 := rfl

theorem mintParams_run (func : FuncId) (count index : Nat) (code : Recording) :
    mintParams func count index code =
      .ok (code.nextValues count) (code.withParamValues func count index) := by
  induction count generalizing code index with
  | zero =>
    have none : code.withParamValues func 0 index = code := by simp [Recording.withParamValues]
    rw [none]
    rfl
  | succ count ih =>
    have values : code.nextValues (count + 1) =
        ⟨code.values.size⟩ :: (code.addValue (.param func index)).2.nextValues count := by
      simp [Recording.nextValues, Recording.addValue, List.range_succ_eq_map, Function.comp_def,
        Nat.add_assoc, Nat.add_comm 1]
    have params : code.withParamValues func (count + 1) index =
        (code.addValue (.param func index)).2.withParamValues func count (index + 1) := by
      simp [Recording.withParamValues, Recording.addValue, List.range_succ_eq_map, Function.comp_def,
        Nat.add_assoc, Nat.add_comm 1]
    rw [mintParams, bind_of_ok (mint_run ..), bind_of_ok (ih ..), values, params]
    rfl

theorem beginRoutine_of_bodiless (declared : code.routine? func = some routine)
    (bodiless : routine.isDefined = false) :
    beginRoutine func code = .ok (code.nextValues routine.decl.params.length)
      (code.begun func routine.decl.params.length) := by
  unfold beginRoutine
  rw [get_bind, declared]
  dsimp only
  rw [bodiless, if_neg Bool.false_ne_true, bind_of_ok (mintParams_run ..)]
  rfl

theorem beginRoutine_of_defined (declared : code.routine? func = some routine)
    (defined : routine.isDefined = true) :
    beginRoutine func code = .error (.alreadyDefined routine.decl.name) code := by
  unfold beginRoutine
  rw [get_bind, declared]
  dsimp only
  rw [if_pos defined]
  rfl

theorem beginRoutine_of_undeclared (undeclared : code.routine? func = none) :
    beginRoutine func code = .error .noInsertionPoint code := by
  unfold beginRoutine
  rw [get_bind, undeclared]
  rfl

end Emit

namespace Recording

variable {code code' : Recording} {block b : BlockId} {op : Operation} {func f : FuncId}
  {params : List ValueId} {label name : String} {data : BasicBlock} {instruction : Instruction}
  {routine : Routine} {decl : FnDecl}

/-! ## Instructions -/

/-- The value that an operation recorded next would produce. -/
def resultOf (code : Recording) (op : Operation) : Option ValueId :=
  if op.hasResult then some ⟨code.values.size⟩ else none

/-- The recording after an operation was put at the end of a block. -/
def written (code : Recording) (block : BlockId) (op : Operation) : Recording :=
  { code with
    values := if op.hasResult then code.values.push (.result block) else code.values
    blocks := code.blocks.modify block.index fun data =>
      { data with instructions := data.instructions.push ⟨code.resultOf op, op⟩ } }

@[simp] theorem written_cursor : (code.written block op).cursor = code.cursor := rfl

@[simp] theorem written_blocks_size : (code.written block op).blocks.size = code.blocks.size := by
  simp [written]

theorem written_block?_self (present : code.block? block = some data) :
    (code.written block op).block? block = some { data with
      instructions := data.instructions.push ⟨code.resultOf op, op⟩ } := by
  unfold block? at present ⊢
  simp [written, Array.getElem?_modify, present]

theorem written_block?_other (other : b ≠ block) :
    (code.written block op).block? b = code.block? b := by
  have apart : block.index ≠ b.index := by
    intro same
    exact other (by cases b; cases block; cases same; rfl)
  simp [block?, written, Array.getElem?_modify, apart]

theorem block?_eq_some_lt (present : code.block? b = some data) : b.index < code.blocks.size := by
  unfold block? at present
  exact (Array.getElem?_eq_some_iff.mp present).1

theorem block?_isSome_of_lt (inside : b.index < code.blocks.size) :
    ∃ data, code.block? b = some data := by
  unfold block?
  exact ⟨_, Array.getElem?_eq_getElem inside⟩

/-- A block of the recording after a write is one of those before, with the instruction at its
end if it is the block written to. -/
theorem written_block?_some {data' : BasicBlock}
    (found : (code.written block op).block? b = some data') :
    ∃ data, code.block? b = some data ∧ data'.label = data.label ∧ data'.func = data.func ∧
      (b ≠ block → data' = data) ∧
      (b = block → data'.instructions = data.instructions.push ⟨code.resultOf op, op⟩) := by
  by_cases same : b = block
  · subst same
    have inside : b.index < code.blocks.size := by
      simpa using block?_eq_some_lt found
    obtain ⟨data, present⟩ := block?_isSome_of_lt inside
    rw [written_block?_self present, Option.some.injEq] at found
    subst found
    exact ⟨data, present, rfl, rfl, fun absurd => (absurd rfl).elim, fun _ => rfl⟩
  · rw [written_block?_other same] at found
    exact ⟨data', found, rfl, rfl, fun _ => rfl, fun equal => (same equal).elim⟩

/-! ## Blocks -/

@[simp] theorem appendBlock_blocks_size :
    (code.appendBlock func label).2.blocks.size = code.blocks.size + 1 := by
  simp [appendBlock]

theorem appendBlock_block?_new :
    (code.appendBlock func label).2.block? ⟨code.blocks.size⟩ = some ⟨label, func, #[]⟩ := by
  simp [block?, appendBlock]

theorem appendBlock_block?_old (old : b.index ≠ code.blocks.size) :
    (code.appendBlock func label).2.block? b = code.block? b := by
  simp [block?, appendBlock, Array.getElem?_push, old]

theorem appendBlock_block?_of_some (present : code.block? b = some data) :
    (code.appendBlock func label).2.block? b = some data := by
  rw [appendBlock_block?_old (Nat.ne_of_lt (block?_eq_some_lt present)), present]

theorem appendBlock_routine? :
    (code.appendBlock func label).2.routine? f =
      if func = f then (code.routine? f).map fun routine =>
        { routine with blocks := routine.blocks.push ⟨code.blocks.size⟩ }
      else code.routine? f := by
  cases func
  cases f
  simp [routine?, appendBlock, Array.getElem?_modify]

/-! ## Values and functions -/

theorem addGlobal_snd (code : Recording) (name : String) :
    (code.addGlobal name).2 = code ∨
      (code.addGlobal name).1 = ⟨code.values.size⟩ ∧
        (code.addGlobal name).2 = { code with
          values := code.values.push (.global name)
          globals := (name, ⟨code.values.size⟩) :: code.globals } := by
  unfold addGlobal
  split
  · exact .inl rfl
  · exact .inr ⟨rfl, rfl⟩

theorem declare_snd (code : Recording) (decl : FnDecl) :
    (code.declare decl).2 = code ∨
      (code.declare decl).1 = ⟨code.routines.size⟩ ∧
        (code.declare decl).2 = { code with
          routines := code.routines.push ⟨decl, #[], []⟩
          byName := (decl.name, ⟨code.routines.size⟩) :: code.byName } := by
  unfold declare
  split
  · exact .inl rfl
  · exact .inr ⟨rfl, rfl⟩

@[simp] theorem position_block? : (code.position block).block? b = code.block? b := rfl

/-! ## Tables of names -/

/-- A function is declared under a name. -/
def Names (code : Recording) (func : FuncId) (name : String) : Prop :=
  ∃ routine, code.routine? func = some routine ∧ routine.decl.name = name

/-- The tables of names agree with the functions and the values. -/
structure Indexed (code : Recording) : Prop where
  names : ∀ {name func}, code.funcNamed? name = some func ↔ code.Names func name
  globals : ∀ {name v}, code.globalNamed? name = some v ↔ code.value? v = some (.global name)

theorem indexed_empty (target : Target) (types : TypeTable) : (empty target types).Indexed where
  names := by
    refine ⟨nofun, ?_⟩
    rintro ⟨_, none, _⟩
    cases none
  globals := ⟨nofun, nofun⟩

/-- Prototypes alone decide what a function is called. -/
theorem names_congr (same : (code'.routine? f).map (·.decl) = (code.routine? f).map (·.decl)) :
    code'.Names f name ↔ code.Names f name := by
  have (code : Recording) : code.Names f name ↔
      ∃ decl, (code.routine? f).map (·.decl) = some decl ∧ decl.name = name := by
    simp [Names]
  rw [this, this, same]

section

variable (indexed : code.Indexed)

include indexed

theorem Indexed.of_same (byName : code'.byName = code.byName)
    (globals : code'.globals = code.globals)
    (names : ∀ {f name}, code'.Names f name ↔ code.Names f name)
    (values : ∀ {v name}, code'.value? v = some (.global name) ↔
      code.value? v = some (.global name)) : code'.Indexed where
  names {name f} := by
    rw [names, funcNamed?, byName]
    exact indexed.names
  globals {name v} := by
    rw [values, globalNamed?, globals]
    exact indexed.globals

theorem Indexed.addValue {source : ValueSource} (other : ∀ name, source ≠ .global name) :
    (code.addValue source).2.Indexed := by
  refine indexed.of_same rfl rfl .rfl ⟨fun found => ?_, getElem?_push_of_some⟩
  obtain ⟨_, same⟩ | found := getElem?_push_cases found
  · exact absurd same.symm (other _)
  · exact found

/-- A variable is noted in its table when it gets an address. -/
theorem Indexed.addGlobal : (code.addGlobal name).2.Indexed := by
  unfold Recording.addGlobal
  split
  · exact indexed
  · rename_i absent
    refine ⟨indexed.names, ?_⟩
    rintro name' ⟨v⟩
    refine (lookup_cons_iff absent).trans (.trans ?_ getElem?_push_iff.symm)
    rw [ValueId.mk.injEq, ValueSource.global.injEq, and_comm]
    exact or_congr_right indexed.globals

/-- A function is noted in its table when it is declared. -/
theorem Indexed.declare : (code.declare decl).2.Indexed := by
  unfold Recording.declare
  split
  · exact indexed
  · rename_i absent
    refine ⟨@fun name' f => (lookup_cons_iff absent).trans ?_, indexed.globals⟩
    have known : code.byName.lookup name' = some f ↔ code.Names f name' := indexed.names
    obtain ⟨f⟩ := f
    rw [known, FuncId.mk.injEq]
    unfold Names routine?
    simp only [getElem?_push_iff]
    constructor
    · rintro (⟨rfl, rfl⟩ | ⟨routine, there, named⟩)
      · exact ⟨_, .inl ⟨rfl, rfl⟩, rfl⟩
      · exact ⟨routine, .inr there, named⟩
    · rintro ⟨routine, ⟨rfl, rfl⟩ | there, named⟩
      · exact .inl ⟨named.symm, rfl⟩
      · exact .inr ⟨routine, there, named⟩

end

theorem names_appendBlock :
    (code.appendBlock func label).2.Names f name ↔ code.Names f name := by
  refine names_congr ?_
  rw [appendBlock_routine?]
  split
  · exact Option.map_map ..
  · rfl

/-! ## Recordings only grow -/

/-- One recording is a later stage of another: blocks, functions and values keep their numbers,
blocks and functions only get longer, values keep their sources, and tables that agree go on
agreeing. -/
structure Extends (code code' : Recording) : Prop where
  target : code'.target = code.target
  types : code'.types = code.types
  blocks : code.blocks.size ≤ code'.blocks.size
  values : code.values.size ≤ code'.values.size
  block : ∀ b data, code.block? b = some data → ∃ data', code'.block? b = some data' ∧
    data'.label = data.label ∧ data'.func = data.func ∧
    data.instructions.toList <+: data'.instructions.toList
  routine : ∀ f routine, code.routine? f = some routine → ∃ routine',
    code'.routine? f = some routine' ∧ routine'.decl = routine.decl ∧
    routine.blocks.toList <+: routine'.blocks.toList
  value : ∀ v source, code.value? v = some source → code'.value? v = some source
  indexed : code.Indexed → code'.Indexed

namespace Extends

theorem refl (code : Recording) : code.Extends code where
  target := rfl
  types := rfl
  blocks := Nat.le_refl _
  values := Nat.le_refl _
  block _ data present := ⟨data, present, rfl, rfl, List.prefix_rfl⟩
  routine _ routine present := ⟨routine, present, rfl, List.prefix_rfl⟩
  value _ _ present := present
  indexed := id

theorem trans {code1 code2 code3 : Recording} (first : code1.Extends code2)
    (second : code2.Extends code3) : code1.Extends code3 where
  target := second.target.trans first.target
  types := second.types.trans first.types
  blocks := Nat.le_trans first.blocks second.blocks
  values := Nat.le_trans first.values second.values
  block b data present := by
    obtain ⟨data2, present2, label2, func2, longer2⟩ := first.block b data present
    obtain ⟨data3, present3, label3, func3, longer3⟩ := second.block b data2 present2
    exact ⟨data3, present3, label3.trans label2, func3.trans func2, longer2.trans longer3⟩
  routine f routine present := by
    obtain ⟨routine2, present2, decl2, longer2⟩ := first.routine f routine present
    obtain ⟨routine3, present3, decl3, longer3⟩ := second.routine f routine2 present2
    exact ⟨routine3, present3, decl3.trans decl2, longer2.trans longer3⟩
  value v source present := second.value v source (first.value v source present)
  indexed here := second.indexed (first.indexed here)

end Extends

/-- More values leave everything else as it is. -/
theorem extends_addValue (code : Recording) {source : ValueSource}
    (other : ∀ name, source ≠ .global name) : code.Extends (code.addValue source).2 where
  target := rfl
  types := rfl
  blocks := Nat.le_refl _
  values := by simp [addValue]
  block _ data present := ⟨data, present, rfl, rfl, List.prefix_rfl⟩
  routine _ routine present := ⟨routine, present, rfl, List.prefix_rfl⟩
  value _ _ := getElem?_push_of_some
  indexed here := here.addValue other

theorem extends_addConstant (constant : Constant) : code.Extends (code.addConstant constant).2 :=
  extends_addValue code nofun

theorem extends_addGlobal (name : String) : code.Extends (code.addGlobal name).2 := by
  have indexed : code.Indexed → (code.addGlobal name).2.Indexed := fun here => here.addGlobal
  obtain same | ⟨_, added⟩ := code.addGlobal_snd name
  · rw [same]
    exact .refl code
  · rw [added] at indexed ⊢
    exact ⟨rfl, rfl, Nat.le_refl _, by simp, (Extends.refl code).block, (Extends.refl code).routine,
      fun _ _ => getElem?_push_of_some, indexed⟩

theorem extends_written (block : BlockId) (op : Operation) :
    code.Extends (code.written block op) where
  target := rfl
  types := rfl
  blocks := Nat.le_of_eq written_blocks_size.symm
  values := by
    unfold written
    split
    · simp
    · exact Nat.le_refl _
  block b data present := by
    by_cases same : b = block
    · subst same
      refine ⟨_, written_block?_self present, rfl, rfl, ?_⟩
      simp
    · exact ⟨data, (written_block?_other same).trans present, rfl, rfl, List.prefix_rfl⟩
  routine _ routine present := ⟨routine, present, rfl, List.prefix_rfl⟩
  value v source present := by
    unfold written
    split
    · exact getElem?_push_of_some present
    · exact present
  indexed here := by
    have other : ∀ name, ValueSource.result block ≠ .global name := nofun
    unfold written
    split
    · exact (here.addValue other).of_same rfl rfl .rfl .rfl
    · exact here.of_same rfl rfl .rfl .rfl

theorem extends_declare (decl : FnDecl) : code.Extends (code.declare decl).2 := by
  have indexed : code.Indexed → (code.declare decl).2.Indexed := fun here => here.declare
  obtain same | ⟨_, added⟩ := code.declare_snd decl
  · rw [same]
    exact .refl code
  · rw [added] at indexed ⊢
    refine ⟨rfl, rfl, Nat.le_refl _, Nat.le_refl _, (Extends.refl code).block,
      fun f routine present => ?_, fun _ _ => id, indexed⟩
    exact ⟨routine, getElem?_push_of_some present, rfl, List.prefix_rfl⟩

theorem extends_appendBlock (func : FuncId) (label : String) :
    code.Extends (code.appendBlock func label).2 where
  target := rfl
  types := rfl
  blocks := by rw [appendBlock_blocks_size]; exact Nat.le_add_right _ 1
  values := Nat.le_refl _
  block _ data present :=
    ⟨data, appendBlock_block?_of_some present, rfl, rfl, List.prefix_rfl⟩
  routine f routine present := by
    rw [appendBlock_routine?]
    split
    · rw [present, Option.map_some]
      refine ⟨_, rfl, rfl, ?_⟩
      simp
    · exact ⟨routine, present, rfl, List.prefix_rfl⟩
  value _ _ present := present
  indexed here := here.of_same rfl rfl names_appendBlock .rfl

theorem extends_position (block : BlockId) : code.Extends (code.position block) :=
  ⟨rfl, rfl, Nat.le_refl _, Nat.le_refl _, (Extends.refl code).block, (Extends.refl code).routine,
    fun _ _ => id, fun here => here.of_same rfl rfl .rfl .rfl⟩

/-! ## Function bodies -/

section

variable {count index : Nat} {v : ValueId} {source : ValueSource}

/-- New parameter values are the only new ones. -/
theorem withParamValues_value?_cases
    (found : (code.withParamValues func count index).value? v = some source) :
    code.value? v = some source ∨ ∃ i, source = .param func i := by
  unfold value? withParamValues at found
  rw [Array.getElem?_append] at found
  split at found
  · exact .inl found
  · simp only [List.getElem?_toArray, List.getElem?_map, Option.map_eq_some_iff] at found
    obtain ⟨_, _, rfl⟩ := found
    exact .inr ⟨_, rfl⟩

/-- There is a new value for each parameter, in order. -/
theorem nextValues_value? {i : Nat} (found : (code.nextValues count)[i]? = some v) :
    (code.withParamValues func count index).value? v = some (.param func (index + i)) := by
  rw [nextValues, List.getElem?_map, Option.map_eq_some_iff] at found
  obtain ⟨k, there, rfl⟩ := found
  obtain ⟨small, rfl⟩ := List.getElem?_eq_some_iff.mp there
  rw [List.length_range] at small
  simp [value?, withParamValues, small]

theorem extends_withParamValues : code.Extends (code.withParamValues func count index) := by
  have values : ∀ v source, code.value? v = some source →
      (code.withParamValues func count index).value? v = some source := fun v source present =>
    (Array.getElem?_append_left (Array.getElem?_eq_some_iff.mp present).1).trans present
  refine ⟨rfl, rfl, Nat.le_refl _, by simp [withParamValues], (Extends.refl code).block,
    (Extends.refl code).routine, values, fun here => here.of_same rfl rfl .rfl
      ⟨fun found => ?_, values _ _⟩⟩
  obtain found | ⟨_, param⟩ := withParamValues_value?_cases found
  · exact found
  · cases param

end

theorem withParams_routine? :
    (code.withParams func params).routine? f =
      if func = f then (code.routine? f).map fun routine => { routine with params := params }
      else code.routine? f := by
  cases func
  cases f
  simp [routine?, withParams, Array.getElem?_modify]

theorem withParams_blocksOf : (code.withParams func params).blocksOf f = code.blocksOf f := by
  rw [blocksOf, blocksOf, withParams_routine?]
  by_cases here : func = f
  · rw [if_pos here]
    cases code.routine? f <;> rfl
  · rw [if_neg here]

theorem extends_withParams (func : FuncId) (params : List ValueId) :
    code.Extends (code.withParams func params) := by
  refine ⟨rfl, rfl, Nat.le_refl _, Nat.le_refl _, (Extends.refl code).block, ?_, fun _ _ => id,
    fun here => here.of_same rfl rfl (names_congr ?_) .rfl⟩
  · intro f routine present
    rw [withParams_routine?]
    split
    · rw [present, Option.map_some]
      exact ⟨_, rfl, rfl, List.prefix_rfl⟩
    · exact ⟨routine, present, rfl, List.prefix_rfl⟩
  · rw [withParams_routine?]
    split
    · exact Option.map_map ..
    · rfl

/-- A function gets its body once. The body starts with an empty block at the cursor, and the
parameters become values. -/
theorem beginRoutine_ok (begun : Emit.beginRoutine func code = .ok params code') :
    ∃ routine opened, code.routine? func = some routine ∧ routine.blocks = #[] ∧
      code.Extends opened ∧ opened.blocks = code.blocks ∧
      (∀ f, opened.blocksOf f = code.blocksOf f) ∧ (∀ f, opened.routine? f =
        if func = f then some { routine with params := params } else code.routine? f) ∧
      (params.length = routine.decl.params.length ∧
        (∀ (i : Nat) v, params[i]? = some v → opened.value? v = some (.param func i)) ∧
        ∀ v source, opened.value? v = some source →
          code.value? v = some source ∨ ∃ i, source = .param func i) ∧
      code' = (opened.appendBlock func "entry").2.position ⟨code.blocks.size⟩ := by
  cases declared : code.routine? func with
  | none => cases (Emit.beginRoutine_of_undeclared declared).symm.trans begun
  | some routine =>
    cases bodiless : routine.isDefined with
    | true => cases (Emit.beginRoutine_of_defined declared bodiless).symm.trans begun
    | false =>
      cases (Emit.beginRoutine_of_bodiless declared bodiless).symm.trans begun
      have empty : routine.blocks = #[] := by
        simpa [Routine.isDefined] using bodiless
      refine ⟨routine, _, rfl, empty, extends_withParamValues.trans (extends_withParams func _),
        rfl, fun _ => withParams_blocksOf, fun f => ?_, ⟨by simp [nextValues],
          fun i v found => ?_, fun _ _ => withParamValues_value?_cases⟩, rfl⟩
      · rw [withParams_routine?]
        split
        · rename_i here
          exact congrArg (Option.map _) (here ▸ declared)
        · rfl
      · exact (nextValues_value? found).trans (by rw [Nat.zero_add])

/-- The entry of the new body. -/
theorem beginRoutine_entry (begun : Emit.beginRoutine func code = .ok params code') :
    code'.cursor = some ⟨code.blocks.size⟩ ∧
      code'.block? ⟨code.blocks.size⟩ = some ⟨"entry", func, #[]⟩ ∧
      code'.blocks.size = code.blocks.size + 1 := by
  obtain ⟨_, _, _, _, _, blocks, _, _, _, rfl⟩ := beginRoutine_ok begun
  rw [← blocks]
  exact ⟨rfl, appendBlock_block?_new, appendBlock_blocks_size⟩

theorem Names.later (named : code.Names func name) (later : code.Extends code') :
    code'.Names func name := by
  obtain ⟨routine, present, same⟩ := named
  obtain ⟨routine', present', decl, _⟩ := later.routine func routine present
  exact ⟨routine', present', decl ▸ same⟩

theorem Names.funcName (named : code.Names func name) : code.funcName func = name := by
  obtain ⟨_, present, same⟩ := named
  rw [Recording.funcName, present]
  exact same

/-- The function declared under a name is found under it. -/
theorem funcNamed?_declare (decl : FnDecl) :
    (code.declare decl).2.funcNamed? decl.name = some (code.declare decl).1 := by
  unfold declare
  split
  · exact ‹_›
  · exact List.lookup_cons_self

theorem globalNamed?_addGlobal (name : String) :
    (code.addGlobal name).2.globalNamed? name = some (code.addGlobal name).1 := by
  unfold addGlobal
  split
  · exact ‹_›
  · exact List.lookup_cons_self

/-- A function keeps its name. -/
theorem Extends.funcNamed? (later : code.Extends code') (indexed : code.Indexed)
    (found : code.funcNamed? name = some func) : code'.funcNamed? name = some func :=
  (later.indexed indexed).names.mpr ((indexed.names.mp found).later later)

theorem Indexed.names_declare (indexed : code.Indexed) (decl : FnDecl) :
    (code.declare decl).2.Names (code.declare decl).1 decl.name :=
  indexed.declare.names.mp (funcNamed?_declare decl)

/-- A variable of the module has one address, from when it was asked for. -/
theorem Indexed.value?_addGlobal (indexed : code.Indexed) {v : ValueId} :
    (code.addGlobal name).2.value? v = some (.global name) ↔ v = (code.addGlobal name).1 := by
  rw [← indexed.addGlobal.globals, globalNamed?_addGlobal, Option.some.injEq, eq_comm]

/-- A name is that of one function. -/
theorem Indexed.unique (indexed : code.Indexed) (named : code.Names func name)
    (named' : code.Names f name) : func = f :=
  Option.mem_unique (indexed.names.mpr named) (indexed.names.mpr named')

theorem Indexed.routine_eq (indexed : code.Indexed) {routine' : Routine}
    (found : code.routine? func = some routine) (found' : code.routine? f = some routine')
    (same : routine.decl.name = routine'.decl.name) : func = f ∧ routine = routine' := by
  obtain rfl := indexed.unique ⟨routine, found, same⟩ ⟨routine', found', rfl⟩
  exact ⟨rfl, Option.mem_unique found found'⟩

/-- A function after a declaration was there before or is the new one. -/
theorem declare_routine?_cases (present : (code.declare decl).2.routine? f = some routine) :
    code.routine? f = some routine ∨ f = (code.declare decl).1 ∧ routine = ⟨decl, #[], []⟩ ∧
      code.funcNamed? decl.name = none := by
  unfold declare at present ⊢
  split at present
  · exact .inl present
  · rename_i absent
    obtain ⟨new, rfl⟩ | present := getElem?_push_cases present
    · exact .inr ⟨by cases f; cases new; rfl, rfl, absent⟩
    · exact .inl present

theorem Extends.funcName (later : code.Extends code') (present : code.routine? func = some routine) :
    code'.funcName func = code.funcName func := by
  obtain ⟨_, present', decl, _⟩ := later.routine func routine present
  simp [Recording.funcName, present, present', decl]

/-! ## The instructions of a block -/

theorem instructionsOf_of_block? (present : code.block? b = some data) :
    code.instructionsOf b = data.instructions.toList := by
  rw [instructionsOf, present]

theorem instructionsOf_congr (same : code'.block? b = code.block? b) :
    code'.instructionsOf b = code.instructionsOf b := by
  rw [instructionsOf, instructionsOf, same]

/-- A block with instructions is there. -/
theorem block?_of_mem_instructionsOf (member : instruction ∈ code.instructionsOf b) :
    ∃ data, code.block? b = some data ∧ instruction ∈ data.instructions.toList := by
  unfold instructionsOf at member
  split at member
  · exact ⟨_, ‹_›, member⟩
  · cases member

/-- The operation that ends a block belongs to one of its instructions. -/
theorem exists_of_terminator? (ends : code.terminator? b = some op) :
    ∃ instruction ∈ code.instructionsOf b, instruction.op = op := by
  obtain ⟨_, present, terminator⟩ := Option.bind_eq_some_iff.mp ends
  rw [instructionsOf_of_block? present]
  unfold BasicBlock.terminator? at terminator
  split at terminator
  · rename_i instruction back
    split at terminator
    · exact ⟨instruction, Array.mem_toList_iff.mpr (Array.mem_of_back? back),
        Option.some.inj terminator⟩
    · cases terminator
  · cases terminator

theorem written_instructionsOf_self (present : code.block? block = some data) :
    (code.written block op).instructionsOf block =
      code.instructionsOf block ++ [⟨code.resultOf op, op⟩] := by
  rw [instructionsOf_of_block? (written_block?_self present), instructionsOf_of_block? present,
    Array.toList_push]

theorem written_instructionsOf_other (other : b ≠ block) :
    (code.written block op).instructionsOf b = code.instructionsOf b :=
  instructionsOf_congr (written_block?_other other)

/-- An instruction after a write is where it was before or is the one that was written. -/
theorem written_instructionsOf_getElem? {i : Nat}
    (found : ((code.written block op).instructionsOf b)[i]? = some instruction) :
    (code.instructionsOf b)[i]? = some instruction ∨
      b = block ∧ i = (code.instructionsOf b).length ∧ instruction = ⟨code.resultOf op, op⟩ := by
  by_cases same : b = block
  · subst same
    obtain ⟨_, present, _⟩ := block?_of_mem_instructionsOf (List.mem_of_getElem? found)
    obtain ⟨_, old, _⟩ := written_block?_some present
    rw [written_instructionsOf_self old, List.getElem?_append] at found
    split at found
    · exact .inl found
    · rename_i outside
      obtain ⟨last, rfl⟩ := List.getElem?_eq_some_iff.mp found
      rw [List.length_singleton] at last
      exact .inr ⟨rfl, by omega, List.getElem_singleton _⟩
  · exact .inl (written_instructionsOf_other same ▸ found)

theorem mem_written_instructionsOf (member : instruction ∈ (code.written block op).instructionsOf b) :
    instruction ∈ code.instructionsOf b ∨ b = block ∧ instruction = ⟨code.resultOf op, op⟩ := by
  obtain ⟨_, found⟩ := List.getElem?_of_mem member
  exact (written_instructionsOf_getElem? found).imp List.mem_of_getElem?
    fun ⟨here, _, new⟩ => ⟨here, new⟩

@[simp] theorem position_instructionsOf :
    (code.position block).instructionsOf b = code.instructionsOf b := rfl

@[simp] theorem appendBlock_instructionsOf :
    (code.appendBlock func label).2.instructionsOf b = code.instructionsOf b := by
  obtain ⟨index⟩ := b
  by_cases new : index = code.blocks.size
  · subst new
    have absent : code.block? ⟨code.blocks.size⟩ = none := Array.getElem?_eq_none (Nat.le_refl _)
    rw [instructionsOf_of_block? appendBlock_block?_new, instructionsOf, absent]
  · exact instructionsOf_congr (appendBlock_block?_old new)

theorem Extends.instructionsOf (later : code.Extends code') (b : BlockId) :
    code.instructionsOf b <+: code'.instructionsOf b := by
  cases present : code.block? b with
  | none =>
    rw [Recording.instructionsOf, present]
    exact List.nil_prefix
  | some data =>
    obtain ⟨_, present', _, _, longer⟩ := later.block b data present
    rw [instructionsOf_of_block? present, instructionsOf_of_block? present']
    exact longer

theorem blocksOf_of_routine? (present : code.routine? func = some routine) :
    code.blocksOf func = routine.blocks.toList := by
  rw [blocksOf, present]

theorem appendBlock_blocksOf :
    (code.appendBlock func label).2.blocksOf f =
      if func = f ∧ (code.routine? f).isSome then code.blocksOf f ++ [⟨code.blocks.size⟩]
      else code.blocksOf f := by
  rw [blocksOf, blocksOf, appendBlock_routine?]
  by_cases same : func = f
  · cases declared : code.routine? f with
    | none => simp
    | some routine => simp [same]
  · simp [same]

@[simp] theorem addGlobal_blocksOf :
    (code.addGlobal name).2.blocksOf func = code.blocksOf func := by
  unfold addGlobal
  split <;> rfl

@[simp] theorem declare_blocksOf : (code.declare decl).2.blocksOf func = code.blocksOf func := by
  obtain same | ⟨_, added⟩ := code.declare_snd decl
  · rw [same]
  · rw [added, blocksOf, blocksOf, routine?, routine?, Array.getElem?_push]
    by_cases new : func.index = code.routines.size
    · rw [if_pos new, Array.getElem?_eq_none (Nat.le_of_eq new.symm)]
    · rw [if_neg new]

/-- Blocks stay in their function. -/
theorem Extends.blocksOf (later : code.Extends code') (func : FuncId) :
    code.blocksOf func <+: code'.blocksOf func := by
  cases declared : code.routine? func with
  | none =>
    rw [Recording.blocksOf, declared]
    exact List.nil_prefix
  | some routine =>
    obtain ⟨_, declared', _, longer⟩ := later.routine func routine declared
    rw [blocksOf_of_routine? declared, blocksOf_of_routine? declared']
    exact longer

variable (begun : Emit.beginRoutine func code = .ok params code')

include begun

/-- A new function body has no instructions. -/
theorem beginRoutine_instructionsOf : code'.instructionsOf b = code.instructionsOf b := by
  obtain ⟨_, _, _, _, _, blocks, _, _, _, rfl⟩ := beginRoutine_ok begun
  rw [position_instructionsOf, appendBlock_instructionsOf]
  exact instructionsOf_congr (by rw [block?, block?, blocks])

/-! ## The blocks of a function -/

/-- The body of a function starts with one block. -/
theorem beginRoutine_blocksOf : code'.blocksOf func = [⟨code.blocks.size⟩] := by
  obtain ⟨_, opened, declared, empty, _, blocks, listed, routines, _, rfl⟩ := beginRoutine_ok begun
  have there : (opened.routine? func).isSome = true := by
    rw [routines, if_pos rfl]
    rfl
  change (opened.appendBlock func "entry").2.blocksOf func = _
  rw [appendBlock_blocksOf, if_pos ⟨rfl, there⟩, listed, blocksOf_of_routine? declared, empty, blocks]
  rfl

end Recording

end CallLowering
