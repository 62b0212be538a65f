import CallLowering.Proofs.Availability
import CallLowering.Proofs.CallTrace
import CallLowering.Proofs.Filling
import CallLowering.Proofs.Guarding

/-!
# Tests and what they decide

Candidates are tested where a call has several of them and nowhere else.

A walk learns tags and outcomes of tests as it passes them. What a test reads has been passed
whenever the walk gets there, so every test is decided (`Walk.Recalls.step`), and a walk can only end
where the code does.
-/

namespace CallLowering

open Recording

/-! ## Calls that lowering gets to -/

/-- Lowering gets to the expression, unless control does not: it is in the body of a function, or in
what is inlined there, with blocks and the defaults of omitted arguments. -/
inductive Program.Reaches (program : Program) : Expr → Prop where
  | body {defn body} (member : defn ∈ program.defs)
      (needed : defn.needsFunction = true) (bodied : body ∈ defn.body) : Reaches program body
  | child {expr inner} (outer : Reaches program expr)
      (member : inner ∈ expr.kind.children) : Reaches program inner
  | default {expr value call name defn}
      (outer : Reaches program expr) (kind : expr.kind = .call call) (target : name ∈ call.targets)
      (found : program.target? name = some defn) (evaluates : defn.evaluatesDefaults call)
      (omitted : value ∈ defn.omitted call.args.length) : Reaches program value
  | inlined {expr body call name defn}
      (outer : Reaches program expr) (kind : expr.kind = .call call) (target : name ∈ call.targets)
      (found : program.target? name = some defn) (passes : call.block.isSome = true)
      (bodied : body ∈ defn.body) : Reaches program body

/-- Every call that lowering gets to has one candidate. -/
def Program.ReachesSingle (program : Program) : Prop :=
  ∀ expr, program.Reaches expr → ∀ call, expr.kind = .call call → call.targets.length = 1

/-- Lowering gets to parts of the program only. -/
theorem Program.Reaches.parts_subset {program : Program} {expr : Expr}
    (reached : program.Reaches expr) : expr.parts ⊆ program.parts := by
  let Γ := Scenario.unpromised ⟨program, .default⟩
  induction reached with
  | body member _ bodied => exact Definition.body_parts_subset member bodied
  | child _ member ih => exact Γ.child _ ih _ member
  | default _ kind target found evaluates omitted ih =>
    exact Γ.default _ _ ⟨⟨_, ih, kind⟩, _, target, found⟩ evaluates _ omitted
  | inlined _ kind target found passes bodied ih =>
    exact Γ.body _ _ ⟨⟨_, ih, kind⟩, _, target, found⟩ passes _ bodied

/-- The lowering of a program that dispatches nowhere. -/
def Scenario.reaching (Γ : Scenario) (single : Γ.env.program.ReachesSingle) : Scenario where
  toRules := ⟨False, True, False, False, Γ.declares⟩
  env := Γ.env
  listed := Γ.listed
  sources := {expr | Γ.env.program.Reaches expr}
  child _ source _ member := .child source member
  default := by
    rintro call defn ⟨⟨_, source, kind⟩, _, target, found⟩ evaluates value omitted
    exact .default source kind target found evaluates omitted
  body := by
    rintro call defn ⟨⟨_, source, kind⟩, _, target, found⟩ passes body bodied
    exact .inlined source kind target found passes bodied
  leaves := False.elim
  noReturn := False.elim
  proper := False.elim
  single _ := single
  hygienic := False.elim
  simple := False.elim

namespace Recording

variable {code : Recording} {rules : Rules} {before : BlockId → Known} {b : BlockId}
  {instruction : Instruction} {func : FuncId} {v : ValueId} {op : Operation}

theorem Justified.empty {target : Target} {types : TypeTable} :
    ∃ before, (empty target types).Justified rules before :=
  ⟨fun _ => ∅, nofun, nofun⟩

/-- An instruction is allowed where it stands. -/
theorem Justified.allows (justified : code.Justified rules before)
    (member : instruction ∈ code.instructionsOf b) :
    ∃ data known, code.block? b = some data ∧ rules.Allows data.func known code instruction.op := by
  obtain ⟨data, present, _⟩ := block?_of_mem_instructionsOf member
  obtain ⟨i, found⟩ := List.getElem?_of_mem member
  exact ⟨data, _, present, (justified.supplied b data i instruction present found).allowed⟩

theorem Enumerated.definingOp? (enumerated : code.Enumerated) (produced : code.Produces func v op) :
    code.definingOp? v = some op := by
  obtain ⟨b, data, present, _, member⟩ := produced
  rw [← instructionsOf_of_block? present] at member
  exact (enumerated.found b _ member v rfl).2

end Recording

/-! ## What a walk knows -/

/-- What is known about the result of the operation decides tests: a tag has a type, and a test an
outcome. -/
def Operation.Yields : Operation → Option RuntimeValue → Prop
  | .typeId .., found => ∃ concrete, found = some (.tag concrete)
  | .matchTypeTag .., found | .and .., found => ∃ holds, found = some (.bool holds)
  | _, _ => True

/-- The walk knows the tags and outcomes among the given values. -/
def Walk.Recalls (walk : Walk) (code : Recording) (known : Known) : Prop :=
  ∀ v ∈ known, ∀ op, code.definingOp? v = some op → op.Yields (walk.get? v)

namespace Walk

variable {walk : Walk} {code : Recording} {known : Known} {result : Option ValueId} {op : Operation}
  {func : FuncId} {before : BlockId → Known} {rules : Rules} {b : BlockId}

namespace Recalls

variable (recalls : walk.Recalls code known)

include recalls

section

variable (defined : ∀ v ∈ result, code.definingOp? v = some op)

include defined

theorem pass (any : ∀ found, op.Yields found) :
    walk.Recalls code (known ∪ {v | result = some v}) := by
  rintro v (passed | produced) op' defined'
  · exact recalls v passed op' defined'
  · cases (defined v produced).symm.trans defined'
    exact any _

theorem learn {value : RuntimeValue} (yields : op.Yields (some value)) :
    (walk.learn result value).Recalls code (known ∪ {v | result = some v}) := by
  cases result with
  | none => exact fun v passed => recalls v (passed.resolve_right (Option.some_ne_none v ·.symm))
  | some w =>
    intro v passed op' defined'
    by_cases same : v = w
    · subst same
      cases (defined v rfl).symm.trans defined'
      rw [get?_learn_self]
      exact yields
    · rw [get?_learn_other same]
      exact recalls v (passed.resolve_right fun other => same (Option.some.inj other).symm) op' defined'

end

/-- A condition is decided. -/
theorem truth {v : ValueId} (enumerated : code.Enumerated) (condition : code.Condition func known v) :
    ∃ holds, walk.truth code v = .ok holds := by
  have outcome : (∃ holds, walk.get? v = some (.bool holds)) → ∃ holds, walk.truth code v = .ok holds := by
    rintro ⟨holds, found⟩
    unfold Walk.truth
    split
    · exact ⟨_, rfl⟩
    · rw [found]
      exact ⟨_, rfl⟩
  cases condition with
  | constant source =>
    unfold Walk.truth constant?
    rw [source]
    exact ⟨_, rfl⟩
  | test passed produced | and passed produced =>
    exact outcome (recalls v passed _ (enumerated.definingOp? produced))

/-- A walk gets past an instruction and learns its result. -/
theorem step (enumerated : code.Enumerated)
    (defined : ∀ v ∈ result, code.definingOp? v = some op) (guarded : code.Guarded func known op) :
    ∃ next walk', walk.step code ⟨result, op⟩ = .ok (next, walk') ∧
      walk'.Recalls code (known ∪ {v | result = some v}) ∧ ∀ x, next = .goto x → x ∈ op.successors := by
  -- what else a walk notes is of no account
  have noting : ∀ assumed calls guards, Recalls ⟨walk.known, assumed, calls, guards⟩ code known :=
    fun _ _ _ => recalls
  cases op with
  | typeId => exact ⟨_, _, step_typeId, (noting _ _ _).learn defined ⟨_, rfl⟩, nofun⟩
  | matchTypeTag _ _ tag =>
    obtain ⟨passed, _, _, produced⟩ := guarded
    obtain ⟨_, found⟩ := recalls tag passed _ (enumerated.definingOp? produced)
    exact ⟨_, _, step_matchTypeTag found, (noting _ _ _).learn defined ⟨_, rfl⟩, nofun⟩
  | and =>
    obtain ⟨_, left⟩ := recalls.truth enumerated guarded.1
    obtain ⟨_, right⟩ := recalls.truth enumerated guarded.2
    exact ⟨_, _, step_and left right, recalls.learn defined ⟨_, rfl⟩, nofun⟩
  | condBr _ yes no =>
    obtain ⟨holds, decided⟩ := recalls.truth enumerated guarded
    refine ⟨_, _, step_condBr decided, recalls.pass defined fun _ => trivial, ?_⟩
    rintro _ ⟨⟩
    cases holds
    · exact List.mem_cons_of_mem _ List.mem_cons_self
    · exact List.mem_cons_self
  | invoke | br =>
    refine ⟨_, _, rfl, (noting _ _ _).pass defined fun _ => trivial, ?_⟩
    rintro _ ⟨⟩
    exact List.mem_cons_self
  | _ => exact ⟨_, _, rfl, (noting _ _ _).pass defined fun _ => trivial, nofun⟩

end Recalls

/-- A walk gets to the end of a block or out of it. -/
theorem runBlock_ok {i : Nat} {rest : List Instruction} (justified : code.Justified rules before)
    (enumerated : code.Enumerated) (left : (code.instructionsOf b).drop i = rest)
    (recalls : walk.Recalls code (before b ∪ code.computedBefore ⟨b, i⟩)) :
    ∃ next walk', walk.runBlock code rest = .ok (next, walk') ∧
      ∀ x, next = .goto x → walk'.Recalls code (before x) := by
  induction rest generalizing i walk with
  | nil => exact ⟨_, _, rfl, by rintro _ ⟨⟩⟩
  | cons instruction rest ih =>
    have found : (code.instructionsOf b)[i]? = some instruction := by
      rw [← Nat.add_zero i, ← List.getElem?_drop, left, List.getElem?_cons_zero]
    have member := List.mem_of_getElem? found
    obtain ⟨data, present, _⟩ := block?_of_mem_instructionsOf member
    have supplied := justified.supplied b data i instruction present found
    obtain ⟨next, walk1, stepped, recalls1, leads⟩ := recalls.step enumerated
      (fun v produced => (enumerated.found b instruction member v produced).2) supplied.allowed.guarded
    -- the result is among what has been computed before the next instruction
    have recalls1 : walk1.Recalls code (before b ∪ code.computedBefore ⟨b, i + 1⟩) := by
      rintro v (known | ⟨computing, inside, produced⟩)
      · exact recalls1 v (.inl (.inl known))
      · rw [List.take_add_one, found] at inside
        obtain earlier | last := List.mem_append.mp inside
        · exact recalls1 v (.inl (.inr ⟨computing, earlier, produced⟩))
        · cases List.mem_singleton.mp last
          exact recalls1 v (.inr produced)
    rw [runBlock, stepped]
    cases next with
    | fallThrough => exact ih (by rw [← List.drop_drop, left]; rfl) recalls1
    | goto x =>
      refine ⟨_, _, rfl, ?_⟩
      rintro _ ⟨⟩ v needed
      exact recalls1 v (supplied.edges x (leads x rfl) needed)
    | halt => exact ⟨_, _, rfl, by rintro _ ⟨⟩⟩

/-- A walk fails only where a block has not ended. -/
theorem runFrom_error {steps : Nat} {blocks : Array BlockId} {error : WalkError}
    (justified : code.Justified rules before) (enumerated : code.Enumerated)
    (recalls : walk.Recalls code (before b))
    (failed : walk.runFrom code steps b blocks = .error error) :
    ∃ label, error = .fallsOff label := by
  induction steps generalizing b blocks walk with
  | zero => cases failed
  | succ steps ih =>
    have start : walk.Recalls code (before b ∪ code.computedBefore ⟨b, 0⟩) := by
      rintro v (known | ⟨_, none, _⟩)
      · exact recalls v known
      · cases none
    obtain ⟨next, walk', ran, goes⟩ := runBlock_ok justified enumerated rfl start
    rw [List.drop_zero] at ran
    rw [runFrom, ran] at failed
    cases next with
    | fallThrough => exact ⟨_, (Except.error.inj failed).symm⟩
    | goto x => exact ih (goes x rfl) failed
    | halt => cases failed

end Walk

/-- Where every call that lowering gets to has one candidate, nothing is tested: no tags are read or
compared, and no branch depends on a condition. In any compiled program, tests compare tags that
were read in the same function, and branches depend on numbers, tests and conjunctions of such. A walk
finds all of them decided. -/
theorem Program.tests_decided {program : Program} {options : Options} {code : Recording}
    (compiled : (program.compile options).result = .ok code) :
    (program.ReachesSingle → ∀ b, ∀ instruction ∈ code.instructionsOf b,
        instruction.op.isTest = false) ∧
      (∀ b, ∀ instruction ∈ code.instructionsOf b, ∃ data, code.block? b = some data ∧
        code.Guarded data.func Set.univ instruction.op) ∧
      ∀ func assumed error, code.walk func assumed = .error error →
        error = .noBody ∨ ∃ label, error = .fallsOff label := by
  obtain ⟨_, _, justified⟩ := compile_induction .unpromised
    (motive := fun code => ∃ before, code.Justified _ before) Justified.empty
    (fun _ _ _ _ proper gains => gains.justified proper) compiled
  refine ⟨fun single b instruction member => ?_, fun b instruction member => ?_,
    fun func assumed error failed => ?_⟩
  · obtain ⟨_, ran, rfl⟩ := compile_ok compiled
    let Γ := (Scenario.unpromised ⟨program, options⟩).reaching single
    obtain ⟨_, _, justified⟩ := lowerAll_induction Γ
      (motive := fun code => ∃ before, code.Justified Γ.toRules before)
      (fun _ member _ => .body (List.mem_of_mem_filter member) (List.of_mem_filter member))
      (fun _ member => declares_function (List.mem_of_mem_filter member) (List.of_mem_filter member))
      (fun _ _ _ _ proper gains => gains.justified proper) (.initial _) Justified.empty ran
    obtain ⟨_, _, _, allowed⟩ := justified.allows member
    exact allowed.untested trivial
  · obtain ⟨data, known, present, allowed⟩ := justified.allows member
    exact ⟨data, present, allowed.guarded.mono (Set.subset_univ known) (.refl code)⟩
  · unfold walk at failed
    split at failed
    · exact .inl (Except.error.inj failed).symm
    · rename_i entry rest starts
      refine .inr (Walk.runFrom_error justified (compile_filled compiled).orderly.enumerated ?_ failed)
      rw [justified.entries func entry rest starts]
      exact nofun

theorem Program.tests_decided_interrupted :
    (∃ code, (interrupted.compile .default).result = .ok code ∧
      ∀ b, ∀ instruction ∈ code.instructionsOf b, instruction.op.isTest = false) ∧
    ∃ code func instruction, ((readingAfter "x").compile .default).result = .ok code ∧
      instruction ∈ code.instructionsOf ⟨2⟩ ∧ instruction.op.isTest = true ∧
      code.Guarded func Set.univ instruction.op := by
  have single : interrupted.SingleCandidate := by decide +kernel
  obtain ⟨code, compiled, _⟩ : ∃ code, (interrupted.compile .default).result = .ok code ∧ True :=
    exists_code
  obtain ⟨code', compiled', tests⟩ : ∃ code, ((readingAfter "x").compile .default).result = .ok code ∧
      (code.instructionsOf ⟨2⟩).any (·.op.isTest) = true :=
    exists_code
  obtain ⟨instruction, member, isTest⟩ := List.any_eq_true.mp tests
  obtain ⟨_, _, guarded⟩ := (tests_decided compiled').2.1 _ instruction member
  exact ⟨⟨code, compiled, (tests_decided compiled).1 fun expr reached =>
    single expr (reached.parts_subset expr.mem_parts_self)⟩,
    code', _, instruction, compiled', member, isTest, guarded⟩

end CallLowering
