import CallLowering.Proofs.Functions
import Mathlib.Data.List.Nodup

/-!
# Linking

A function is declared under a name before it is called, and whoever declares it again gets the
function that is there. Where names are kept apart (`Program.NamesApart`), the prototype recorded
with a function of the program is therefore always its own, calls pass one argument for every
parameter of it, and returns carry a value exactly if it has one to return (`Recording.Linked`).
Together with the roles of the positions in an argument list, this is the calling convention of a
program (`Program.calling_convention`).
-/

namespace CallLowering

open Recording Definition

/-! ## Names -/

/-- A name that is neither that of a closure nor that of an initializer. -/
def IsPlainName (name : String) : Prop :=
  ¬"$block".toList <:+: name.toList ∧ name.toList.head? ≠ some '~'

instance (name : String) : Decidable (IsPlainName name) :=
  inferInstanceAs (Decidable (_ ∧ _))

/-- The names under which a program declares functions are apart. -/
structure Program.NamesApart (program : Program) : Prop where
  distinct : (program.defs.map name).Nodup
  domestic : ∀ defn ∈ program.defs, defn.foreign = none →
    ∀ other ∈ program.defs, ∀ spec ∈ other.foreign, spec.symbol ≠ defn.name
  names : ∀ defn ∈ program.defs, IsPlainName defn.name
  symbols : ∀ defn ∈ program.defs, ∀ spec ∈ defn.foreign, IsPlainName spec.symbol

variable {func : FuncId} {code code' : Recording} {name : String} {params : List ValueId}

theorem IsClosureName.infix (named : IsClosureName name) : "$block".toList <:+: name.toList := by
  obtain ⟨_, _, rfl⟩ := named
  rw [String.toList_append, String.toList_append]
  exact List.infix_append _ _ _

/-- The name of a closure ends in a digit. -/
theorem IsClosureName.last (named : IsClosureName name) :
    ∃ c ∈ name.toList.getLast?, c.isDigit = true := by
  obtain ⟨_, number, rfl⟩ := named
  have digits : (toString number).toList = Nat.toDigits 10 number := by simp
  have some : Nat.toDigits 10 number ≠ [] := Nat.toDigits_ne_nil
  refine ⟨_, ?_, Nat.isDigit_of_mem_toDigits (by decide) (by decide) (List.getLast_mem some)⟩
  rw [String.toList_append, digits, List.getLast?_append_of_ne_nil _ some]
  exact List.getLast?_eq_some_getLast some

/-- A prototype of the program whose convention is that of the program is known by its name. -/
structure Rules.Separate (rules : Rules) : Prop where
  closures : ∀ decl, rules.declares decl → ¬IsClosureName decl.name
  unique : ∀ decl decl', rules.declares decl → rules.declares decl' → decl.name = decl'.name →
    decl'.conv = none → decl = decl'

namespace Program.NamesApart

variable {program : Program} {decl decl' : FnDecl}

theorem initializer_not_plain (name : String) : ¬IsPlainName ("~" ++ name ++ ":init") := by
  rintro ⟨_, plain⟩
  simp at plain

variable (apart : program.NamesApart)

include apart

theorem not_isClosureName (declares : program.Declares decl) : ¬IsClosureName decl.name := by
  intro named
  cases declares with
  | definition member => exact (apart.names _ member).1 named.infix
  | foreign member foreign => exact (apart.symbols _ member _ foreign).1 named.infix
  | initializer name =>
    obtain ⟨_, last, digit⟩ := named.last
    have ending : ("~" ++ name ++ ":init").toList = ("~" ++ name ++ ":ini").toList ++ ['t'] := by
      simp
    rw [ending, List.getLast?_concat] at last
    cases last
    cases digit

theorem unique (declares : program.Declares decl) (declares' : program.Declares decl')
    (same : decl.name = decl'.name) (domestic : decl'.conv = none) : decl = decl' := by
  cases declares' with
  | foreign => cases domestic
  | @definition defn' member' domestic' =>
    cases declares with
    | @definition defn member =>
      have same : defn.name = defn'.name := same
      obtain rfl := List.inj_on_of_nodup_map apart.distinct member member' same
      rfl
    | foreign member foreign => exact absurd same (apart.domestic _ member' domestic' _ member _ foreign)
    | initializer name =>
      have named : "~" ++ name ++ ":init" = defn'.name := same
      exact absurd (named ▸ apart.names _ member') (initializer_not_plain name)
  | initializer name =>
    cases declares with
    | @definition defn member =>
      have named : defn.name = "~" ++ name ++ ":init" := same
      exact absurd (named ▸ apart.names _ member) (initializer_not_plain name)
    | @foreign defn spec member foreign =>
      have named : spec.symbol = "~" ++ name ++ ":init" := same
      exact absurd (named ▸ apart.symbols _ member _ foreign) (initializer_not_plain name)
    | initializer => exact congrArg (FnDecl.mk · [] .void none false) same

/-- Names that are apart tell prototypes apart. -/
theorem separate {rules : Rules} (declares : rules.declares = program.Declares) :
    rules.Separate := by
  refine ⟨fun decl listed => ?_, fun _ _ listed listed' => ?_⟩
  · exact apart.not_isClosureName (declares ▸ listed)
  · exact apart.unique (declares ▸ listed) (declares ▸ listed')

end Program.NamesApart

/-! ## Declared functions -/

namespace Recording

variable {code code' : Recording} {func : FuncId}

/-- A function that gets its body keeps its prototype. -/
theorem beginRoutine_routine? (begun : Emit.beginRoutine func code = .ok params code') :
    ∃ routine routine', code.routine? func = some routine ∧ routine.isDefined = false ∧
      code'.routine? func = some routine' ∧ routine'.decl = routine.decl ∧
      routine'.isDefined = true ∧ ∀ f, f ≠ func → code'.routine? f = code.routine? f := by
  obtain ⟨routine, opened, present, empty, _, _, _, routines, _, rfl⟩ := beginRoutine_ok begun
  have entry := fun f => @appendBlock_routine? opened func f "entry"
  let routine' : Routine :=
    { routine with blocks := routine.blocks.push ⟨opened.blocks.size⟩, params := params }
  have bodiless : routine.isDefined = false := by simp [Routine.isDefined, empty]
  have bodied : routine'.isDefined = true := by simp [Routine.isDefined, routine']
  refine ⟨routine, routine', present, bodiless, ?_, rfl, bodied, fun f other => ?_⟩
  · apply (entry func).trans
    rw [if_pos rfl, routines, if_pos rfl]
    rfl
  · apply (entry f).trans
    rw [if_neg other.symm, routines, if_neg other.symm]

end Recording

/-- An operation fits the functions of the code: it calls a function with one argument for every
parameter, and returns a value if the function it belongs to has one to return. -/
structure Operation.Fits (op : Operation) (rules : Rules) (code : Recording) (owner : FuncId) :
    Prop where
  called : ∀ func ∈ op.callee?, rules.Calls code func op.conv? op.operands
  returned : ∀ value, op = .ret value →
    ∃ routine, code.routine? owner = some routine ∧ (value = none ↔ routine.decl.ret = .void)

/-- The functions of the code have prototypes of the program, but for closures, which have a body as
soon as they are declared; and all operations fit them. -/
structure Recording.Linked (code : Recording) (rules : Rules) : Prop where
  declared : ∀ func routine, code.routine? func = some routine → rules.declares routine.decl ∨
    IsClosureName routine.decl.name ∧ routine.isDefined = true
  fits : ∀ b data, code.block? b = some data → ∀ instruction ∈ data.instructions.toList,
    instruction.op.Fits rules code data.func

section Linked

variable {rules : Rules} {code code' : Recording} {op : Operation} {owner : FuncId}

theorem Rules.Calls.mono {conv : Option CallConv} {args : List ValueId}
    (called : rules.Calls code func conv args) (later : code.Extends code') :
    rules.Calls code' func conv args := by
  obtain ⟨routine, decl, present, listed, named, sized⟩ := called
  obtain ⟨routine', present', same, _⟩ := later.routine func routine present
  exact ⟨routine', decl, present', listed, same ▸ named, sized⟩

theorem Operation.Fits.mono (fits : op.Fits rules code owner) (later : code.Extends code') :
    op.Fits rules code' owner := by
  refine ⟨fun func callee => (fits.called func callee).mono later, fun value returns => ?_⟩
  obtain ⟨routine, present, exact⟩ := fits.returned value returns
  obtain ⟨routine', present', same, _⟩ := later.routine owner routine present
  exact ⟨routine', present', same ▸ exact⟩

/-- What neither calls nor returns fits everywhere. -/
theorem Operation.Fits.of_quiet (uncalled : op.callee? = none) (unreturned : ∀ value, op ≠ .ret value) :
    op.Fits rules code owner where
  called func callee := by
    rw [uncalled] at callee
    cases callee
  returned value returns := absurd returns (unreturned value)

namespace Recording.Linked

variable (linked : code.Linked rules)

include linked

/-- Operations go on to fit while no others are added. -/
theorem of_instructions (later : code.Extends code')
    (same : ∀ b, code'.instructionsOf b = code.instructionsOf b)
    (declared : ∀ func routine, code'.routine? func = some routine → rules.declares routine.decl ∨ IsClosureName routine.decl.name ∧ routine.isDefined = true) : code'.Linked rules where
  declared := declared
  fits b data' present' instruction member := by
    rw [← instructionsOf_of_block? present', same] at member
    obtain ⟨data, present, inside⟩ := block?_of_mem_instructionsOf member
    obtain ⟨_, there, _, owned, _⟩ := later.block b data present
    obtain rfl := Option.mem_unique there present'
    rw [owned]
    exact (linked.fits b data present instruction inside).mono later

theorem position (block : BlockId) : (code.position block).Linked rules :=
  linked.of_instructions (extends_position block) (fun _ => rfl) linked.declared

variable {block : BlockId} {decl : FnDecl}

theorem written (fits : ∀ data, code.block? block = some data → op.Fits rules code data.func) :
    (code.written block op).Linked rules where
  declared := linked.declared
  fits b data' present instruction member := by
    obtain ⟨data, before, _, owned, other, here⟩ := written_block?_some present
    rw [owned]
    by_cases same : b = block
    · rw [here same, Array.toList_push, List.mem_append, List.mem_singleton] at member
      rcases member with old | rfl
      · exact (linked.fits b data before instruction old).mono (extends_written block op)
      · exact (fits data (same ▸ before)).mono (extends_written block op)
    · rw [other same] at member
      exact (linked.fits b data before instruction member).mono (extends_written block op)

theorem appendBlock (func : FuncId) (label : String) :
    (code.appendBlock func label).2.Linked rules := by
  apply linked.of_instructions (extends_appendBlock func label) fun _ => appendBlock_instructionsOf
  intro f routine present
  rw [appendBlock_routine?] at present
  by_cases same : func = f
  · rw [if_pos same] at present
    obtain ⟨old, before, rfl⟩ := Option.map_eq_some_iff.mp present
    refine (linked.declared f old before).imp_right fun closure => ⟨closure.1, ?_⟩
    simp [Routine.isDefined]
  · rw [if_neg same] at present
    exact linked.declared f routine present

/-- A block that ends without a call or a return. -/
theorem jump (uncalled : op.callee? = none) (unreturned : ∀ value, op ≠ .ret value) :
    (code.written block op).Linked rules :=
  linked.written fun _ _ => .of_quiet uncalled unreturned

theorem declare (listed : rules.declares decl) : (code.declare decl).2.Linked rules := by
  apply linked.of_instructions (extends_declare decl) fun _ => declare_instructionsOf
  intro f routine present
  obtain present | ⟨_, rfl, _⟩ := declare_routine?_cases present
  · exact linked.declared f routine present
  · exact .inl listed

/-- A function gets its body right after it was declared. Its prototype is then the one it was
declared with, although it may have been there before. -/
theorem begin (indexed : code.Indexed) (separate : rules.Separate)
    (known : rules.declares decl ∧ decl.conv = none ∨ IsClosureName decl.name)
    (declared : func = (code.declare decl).1)
    (begun : Emit.beginRoutine func (code.declare decl).2 = .ok params code') :
    code'.Linked rules ∧ ∃ routine, code'.routine? func = some routine ∧ routine.decl = decl := by
  obtain ⟨routine, routine', present, bodiless, present', same, bodied, others⟩ :=
    beginRoutine_routine? begun
  -- an older function of this name has no body, so it is no closure
  have prototype : routine.decl = decl := by
    obtain before | ⟨_, rfl, _⟩ := declare_routine?_cases present
    · obtain ⟨_, there, named⟩ := indexed.names_declare decl
      cases there.symm.trans (declared ▸ present)
      rcases linked.declared _ routine before with listed | ⟨_, defined⟩
      · rcases known with ⟨listed', domestic⟩ | closure
        · exact separate.unique _ _ listed listed' named domestic
        · exact absurd (named ▸ closure) (separate.closures _ listed)
      · rw [bodiless] at defined
        cases defined
    · rfl
  refine ⟨?_, routine', present', same.trans prototype⟩
  apply linked.of_instructions ((extends_declare decl).trans (frame_beginRoutine begun).later)
  · exact fun _ => (beginRoutine_instructionsOf begun).trans declare_instructionsOf
  · intro f found there
    by_cases here : f = func
    · rw [here, present'] at there
      cases there
      rw [same, prototype]
      exact known.imp And.left fun closure => ⟨closure, bodied⟩
    · rw [others f here] at there
      obtain before | ⟨new, _⟩ := declare_routine?_cases there
      · exact linked.declared f found before
      · exact absurd (new.trans declared.symm) here

end Recording.Linked

end Linked

/-! ## Linked programs -/

/-- A function is declared with the given return type. -/
def Recording.Promises (code : Recording) (func : FuncId) (ret : MachineType) : Prop :=
  ∃ routine, code.routine? func = some routine ∧ routine.decl.ret = ret

theorem Recording.Promises.mono {ret : MachineType} (promised : code.Promises func ret)
    (later : code.Extends code') : code'.Promises func ret := by
  obtain ⟨routine, present, returns⟩ := promised
  obtain ⟨routine', present', same, _⟩ := later.routine func routine present
  exact ⟨routine', present', same ▸ returns⟩

/-- A piece of lowering keeps the code linked. -/
theorem Builds.linked {rules : Rules} {r : Region} {effect : Effect} {known known' : Known}
    {site site' : Site} (built : Builds rules r effect known site known' site')
    (separate : rules.Separate) (valid : site.Valid r) (promised : site.code.Promises r.func r.ret)
    (linked : site.code.Linked rules) : site'.code.Linked rules := by
  induction built with
  | refl | dead => exact linked
  | untraced _ _ ih => exact ih valid promised linked
  | trans first _ ihFirst ihSecond =>
    exact ihSecond (first.valid valid) (promised.mono (first.advance valid.based).code.later)
      (ihFirst valid promised linked)
  | constant constant =>
    exact linked.of_instructions (extends_addConstant constant) (fun _ => rfl) linked.declared
  | global name =>
    apply linked.of_instructions (extends_addGlobal name)
    · exact fun _ => addGlobal_instructionsOf
    · intro func routine present
      exact linked.declared func routine (addGlobal_routine? ▸ present)
  | declare decl listed => exact linked.declare listed
  | write _ _ called atBlock _ returned =>
    obtain ⟨_, data, here, present, owned⟩ := valid.placed
    obtain rfl := Option.mem_unique here atBlock
    refine linked.written fun _ present' => ?_
    obtain rfl := Option.mem_unique present present'
    refine ⟨called, fun value returns => ?_⟩
    obtain ⟨routine, declared, promise⟩ := promised
    exact ⟨routine, owned ▸ declared, promise ▸ returned value returns⟩
  | @invoke r _ code _ _ _ _ _ _ _ _ called _ _ _ =>
    refine ((linked.appendBlock r.func "invoke_out").written fun _ _ => ?_).position _
    refine ⟨fun _ callee => ?_, fun _ => Operation.noConfusion⟩
    cases callee
    exact called.mono (extends_appendBlock r.func "invoke_out")
  | land => exact linked.jump rfl fun _ => Operation.noConfusion
  | arrive => exact (linked.appendBlock _ _).jump rfl fun _ => Operation.noConfusion
  | unreached _ _ _ _ ih => exact ih valid.push promised linked
  | reached _ _ _ _ ih =>
    have inner := ih valid.push promised linked
    unfold JoinPoint.entered
    split
    · exact (inner.position _).jump rfl fun _ => Operation.noConfusion
    · exact inner.position _
  | handle _ _ _ ih =>
    have inner := ih valid.handling (promised.mono (extends_appendBlock _ _))
      (linked.appendBlock _ _)
    exact (inner.position _).jump rfl fun _ => Operation.noConfusion
  | @branch r _ _ _ _ code _ _ _ block cond _ _ atBlock running _ _ ih =>
    have started : (code.branched r.func block cond).Linked rules :=
      (((linked.appendBlock r.func "current_def").appendBlock r.func "next_def").jump rfl
        fun _ => Operation.noConfusion).position _
    exact (ih (valid.branched atBlock running)
      (promised.mono (frame_branched atBlock running).later) started).position _
  | @closure _ _ _ _ _ _ _ _ _ decl _ _ _ _ named declared begun _ _ _ ih =>
    obtain ⟨started, routine, present, prototype⟩ :=
      linked.begin valid.proper.indexed separate (.inr named) declared begun
    have entered := ih ((valid.declare decl).enter begun)
      ⟨routine, present, congrArg FnDecl.ret prototype⟩ started
    exact entered.position _

/-- A function is linked with the rest of the code. -/
theorem Gains.linked {Γ : Scenario} {defn : Definition} (gains : Gains Γ defn func code code')
    (separate : Γ.Separate) (proper : code.Proper) (linked : code.Linked Γ.toRules) :
    code'.Linked Γ.toRules := by
  obtain @⟨_, decl, _, _, _, _, prototype, listed, declared, begun, builds, _⟩ := gains
  have known : Γ.declares decl ∧ decl.conv = none := ⟨listed, prototype ▸ rfl⟩
  obtain ⟨started, routine, present, same⟩ :=
    linked.begin proper.indexed separate (.inl known) declared begun
  exact builds.linked separate (.entry proper begun) ⟨routine, present, congrArg FnDecl.ret same⟩ started

namespace Program

variable {program : Program} {options : Options} {code : Recording}

/-- The prototypes of a program, of which nothing else is promised. -/
def linking (program : Program) : Rules := ⟨False, False, False, False, program.Declares⟩

/-- A compiled program is linked. -/
theorem compile_linked (compiled : (program.compile options).result = .ok code)
    (apart : program.NamesApart) : code.Proper ∧ code.Linked program.linking := by
  refine compile_induction .unpromised (motive := fun code => code.Linked program.linking) ?_ ?_ compiled
  · exact ⟨fun _ _ none => absurd none (Option.not_mem_none _),
      fun _ _ none => absurd none (Option.not_mem_none _)⟩
  · exact fun _ _ _ _ proper gains => gains.linked (apart.separate rfl) proper

/-- The calling convention. For a definition inside the program, the prototype, the argument list, the
function and the inlined body agree on what every position stands for; the prototype recorded with
its function is its own, and whoever calls the function passes one argument for every parameter of
it. In every function, closures included, a return carries a value exactly if the prototype returns
one. -/
theorem calling_convention (compiled : (program.compile options).result = .ok code)
    (apart : program.NamesApart) :
    (∀ defn ∈ program.defs, defn.foreign = none → defn.Agrees ∧
      ∀ func routine, code.routine? func = some routine → routine.decl.name = defn.name →
        routine.decl = Lower.prototype program.types defn ∧
        ∀ b, ∀ instruction ∈ code.instructionsOf b, instruction.op.callee? = some func →
          instruction.op.operands.length = routine.decl.params.length) ∧
    ∀ func routine, code.routine? func = some routine → ∀ b ∈ routine.blocks,
      ∀ instruction ∈ code.instructionsOf b, ∀ value, instruction.op = .ret value →
        (value.isSome = true ↔ routine.decl.ret ≠ .void) := by
  obtain ⟨proper, linked⟩ := compile_linked compiled apart
  constructor
  · intro defn member domestic
    refine ⟨agrees domestic, fun func routine present named => ?_⟩
    have listed : program.Declares (Lower.prototype program.types defn) := .definition member domestic
    -- whatever prototype goes by the name of the definition is its own
    have own : ∀ decl, program.Declares decl → decl.name = defn.name →
        decl = Lower.prototype program.types defn :=
      fun decl declares named => apart.unique declares listed named rfl
    have prototype : routine.decl = Lower.prototype program.types defn := by
      rcases linked.declared func routine present with declares | ⟨closure, _⟩
      · exact own _ declares named
      · have closure : IsClosureName defn.name := named ▸ closure
        exact absurd closure (apart.not_isClosureName listed)
    refine ⟨prototype, fun b instruction inside callee => ?_⟩
    obtain ⟨data, there, inside⟩ := block?_of_mem_instructionsOf inside
    obtain ⟨routine', decl, present', declares, named', accepts⟩ :=
      (linked.fits b data there instruction inside).called func callee
    obtain rfl := Option.mem_unique present present'
    have same := own decl declares (named'.symm.trans named)
    rw [accepts.exact (.inl (same ▸ rfl)), same, prototype]
  · intro func routine present b listed instruction inside value returns
    have owned : b ∈ code.blocksOf func := by
      rw [blocksOf_of_routine? present]
      exact Array.mem_toList_iff.mpr listed
    obtain ⟨data, there, rfl⟩ := proper.listed func b owned
    obtain ⟨_, there', inside⟩ := block?_of_mem_instructionsOf inside
    obtain rfl := Option.mem_unique there there'
    obtain ⟨routine', present', promised⟩ :=
      (linked.fits b data there instruction inside).returned value returns
    obtain rfl := Option.mem_unique present present'
    rw [← Option.ne_none_iff_isSome, ne_eq, promised]

end Program

/-- A method of a log that takes a text, state of the caller, the line of the call and a block. -/
def Definition.write : Definition :=
  { ofSignature "Log#write" (.object "Log")
      [.required "text" .string, ⟨"line", .int 32 true, some (.magic "__LINE__")⟩] .nil with
    specialVars := [.required "$~" .string]
    blockArg := true
    body := some (.ofKind (.assign "count" (.ofVar "line" (.int 32 true))) .nil) }

/-- A program whose `main` writes to a log and passes a block. -/
def Program.logging : Program where
  file := "logging"
  types := TypeTable.empty.addClass "Log" none []
  defs := [
    .write,
    (ofSignature "main" .program [.required "log" (.object "Log")] .nil).withBody
      (.ofCall ((((Call.ofTargets "write" ["Log#write"]).withReceiver
        (.ofVar "log" (.object "Log"))).withArgs [.ofKind (.string "hello") .string]).withBlock
          ⟨[], .ofKind (.int 7) (.int 32 true), none, []⟩) .nil)]

theorem Program.logging_namesApart : logging.NamesApart where
  distinct := by decide +kernel
  domestic := by decide +kernel
  names := by decide +kernel
  symbols := by decide +kernel

theorem Program.calling_convention_logging :
    ∃ code routine closure call ret value, (logging.compile .default).result = .ok code ∧
      code.routine? ⟨0⟩ = some routine ∧ call ∈ code.instructionsOf ⟨1⟩ ∧
      call.op.callee? = some ⟨0⟩ ∧ code.routine? ⟨2⟩ = some closure ∧
      closure.decl.name = "main$block0" ∧ ⟨3⟩ ∈ closure.blocks ∧ ret ∈ code.instructionsOf ⟨3⟩ ∧
      ret.op = .ret value ∧ write.Agrees ∧
      routine.decl = Lower.prototype logging.types .write ∧
      call.op.operands.length = routine.decl.params.length ∧
      (value.isSome = true ↔ closure.decl.ret ≠ .void) := by
  obtain ⟨code, compiled, written, closed, called, returned⟩ :
      ∃ code, (logging.compile .default).result = .ok code ∧
      (code.routine? ⟨0⟩).map (·.decl.name) = some "Log#write" ∧
      (code.routine? ⟨2⟩).map (fun closure => (closure.decl.name, closure.blocks.contains ⟨3⟩)) =
        some ("main$block0", true) ∧
      (code.instructionsOf ⟨1⟩)[5]?.map (·.op.callee?) = some (some ⟨0⟩) ∧
      (code.instructionsOf ⟨3⟩)[1]?.map (fun ret => (ret.op.isTerminator, ret.op.successors,
        ret.op.operands)) = some (true, [], [⟨18⟩]) :=
    exists_code
  obtain ⟨routine, present, named⟩ := Option.map_eq_some_iff.mp written
  obtain ⟨closure, present', named'⟩ := Option.map_eq_some_iff.mp closed
  rw [Prod.mk.injEq, Array.contains_iff_mem] at named'
  obtain ⟨call, found, callee⟩ := Option.map_eq_some_iff.mp called
  obtain ⟨ret, found', shape⟩ := Option.map_eq_some_iff.mp returned
  have returning : ∃ value, ret.op = .ret value := by
    obtain ⟨_, op⟩ := ret
    cases op with
    | ret value => exact ⟨value, rfl⟩
    | _ => cases shape
  obtain ⟨value, op⟩ := returning
  have inside := List.mem_of_getElem? found
  have inside' := List.mem_of_getElem? found'
  obtain ⟨definitions, returns⟩ := calling_convention compiled logging_namesApart
  obtain ⟨agrees, calls⟩ := definitions .write List.mem_cons_self rfl
  obtain ⟨prototype, arguments⟩ := calls ⟨0⟩ routine present named
  exact ⟨code, routine, closure, call, ret, value, compiled, present, inside, callee, present',
    named'.1, named'.2, inside', op, agrees, prototype, arguments ⟨1⟩ call inside callee,
    returns ⟨2⟩ closure present' ⟨3⟩ named'.2 ret inside' value op⟩

end CallLowering
