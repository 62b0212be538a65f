import CallLowering.Proofs.Naming

/-!
# Foreign calls and their declarations

Every site of a foreign call computes the prototype of its own definition, and a symbol keeps the
prototype it was declared with first. Where the definitions that are bound to one symbol agree on it
(`Definition.SymbolsAgree`), every call is in accordance with the declaration of the function it calls:
`Program.calls_declared`.
-/

namespace CallLowering

open Definition

section

variable {program : Program} {options : Options} {code : Recording}

/-- The lowering of a program with the prototypes for its target. -/
def Scenario.declaring (env : Env) : Scenario :=
  { Scenario.unpromised env with
    toRules := ⟨False, False, False, False, env.program.Announces env.options.target⟩
    listed := fun _ => id }

/-- A compiled program is linked with the prototypes for its target. -/
theorem Program.compile_declaring (compiled : (program.compile options).result = .ok code)
    (apart : program.NamesApart) : code.Linked (Scenario.declaring ⟨program, options⟩).toRules := by
  obtain ⟨_, ran, rfl⟩ := compile_ok compiled
  have separate : (Scenario.declaring ⟨program, options⟩).Separate :=
    ⟨fun _ listed => apart.not_isClosureName listed.declares,
      fun _ _ listed listed' => apart.unique listed.declares listed'.declares⟩
  refine (lowerAll_induction (.declaring ⟨program, options⟩)
    (fun defn member _ bodied =>
      body_parts_subset (List.mem_of_mem_filter member) bodied)
    (fun _ member => .definition (List.mem_of_mem_filter member)
      (domestic_of_needsFunction (List.of_mem_filter member)))
    (fun _ _ _ _ proper gains => gains.linked separate proper) (.initial _) ?_ ran).2
  exact ⟨fun _ _ none => absurd none (Option.not_mem_none _),
    fun _ _ none => absurd none (Option.not_mem_none _)⟩

/-- Calls match the declarations they are emitted against, where the definitions that are bound to one
symbol agree. Every call has the convention of the declaration and one argument for every parameter,
at least if it is variadic; and the declaration of a foreign symbol is the prototype that every call
of a definition bound to it computes, whatever it passes beyond the parameters. -/
theorem Program.calls_declared (compiled : (program.compile options).result = .ok code)
    (apart : program.NamesApart)
    (agree : ∀ defn ∈ program.defs, ∀ other ∈ program.defs, defn.SymbolsAgree other) :
    ∀ b, ∀ instruction ∈ code.instructionsOf b, ∀ func, instruction.op.callee? = some func →
      ∃ routine, code.routine? func = some routine ∧
        routine.decl.Accepts instruction.op.conv? instruction.op.operands ∧
        ∀ defn ∈ program.defs, ∀ spec ∈ defn.foreign, routine.decl.name = spec.symbol →
          ∀ tail, routine.decl = Lower.foreignPrototype defn spec (Signature.classify options.target
            program.types ⟨defn.params.map (·.ty) ++ tail, defn.ret⟩) := by
  intro b instruction inside func callee
  have linked := compile_declaring compiled apart
  obtain ⟨data, there, inside⟩ := Recording.block?_of_mem_instructionsOf inside
  obtain ⟨routine, decl, present, declares, named, accepts⟩ :=
    (linked.fits b data there instruction inside).called func callee
  have declares : program.Announces options.target decl := declares
  obtain recorded | ⟨closure, _⟩ := linked.declared func routine present
  · have recorded : program.Announces options.target routine.decl := recorded
    refine ⟨routine, present, recorded.unique declares apart agree named ▸ accepts, ?_⟩
    intro defn member spec foreign symbol tail
    rw [Lower.foreignPrototype_classify]
    exact recorded.unique (.foreign member foreign) apart agree symbol
  · exact absurd (named ▸ closure) (apart.not_isClosureName declares.declares)

end

/-- A program that prints one number and then two, with two definitions bound to one symbol. -/
def Program.printing : Program where
  file := "printing"
  types := .empty
  defs := [
    { (ofSignature "print" .program [.required "x" (.int 32 true)] .nil).withSymbol "printf"
        .c with variadic := true },
    { (ofSignature "log" .program [.required "y" (.int 32 true)] .nil).withSymbol "printf"
        .c with variadic := true },
    (ofSignature "main" .program [] .nil).withBody (.ofKind (.seq [
      .ofCall ((Call.ofTargets "print" ["print"]).withArgs [.ofKind (.int 1) (.int 32 true)]) .nil,
      .ofCall ((Call.ofTargets "log" ["log"]).withArgs
        [.ofKind (.int 1) (.int 32 true), .ofKind (.int 2) (.int 32 true)]) .nil]) .nil)]

theorem Program.printing_namesApart : printing.NamesApart where
  distinct := by decide +kernel
  domestic := by decide +kernel
  names := by decide +kernel
  symbols := by decide +kernel

theorem Program.calls_declared_printing :
    (∀ defn ∈ printing.defs, ∀ other ∈ printing.defs, defn.SymbolsAgree other) ∧
      ∃ code, (printing.compile .default).result = .ok code ∧
        (code.instructionsOf ⟨0⟩).map (·.op.operands.length) = [1, 2, 0] ∧
        ∀ instruction ∈ code.instructionsOf ⟨0⟩, ∀ func, instruction.op.callee? = some func →
          ∃ routine, code.routine? func = some routine ∧
            routine.decl.Accepts instruction.op.conv? instruction.op.operands := by
  have agree : ∀ defn ∈ printing.defs, ∀ other ∈ printing.defs, defn.SymbolsAgree other := by
    decide +kernel
  obtain ⟨code, compiled, passed⟩ : ∃ code, (printing.compile .default).result = .ok code ∧
      (code.instructionsOf ⟨0⟩).map (·.op.operands.length) = [1, 2, 0] :=
    exists_code
  refine ⟨agree, code, compiled, passed, fun instruction inside func callee => ?_⟩
  obtain ⟨routine, present, accepts, _⟩ :=
    calls_declared compiled printing_namesApart agree ⟨0⟩ instruction inside func callee
  exact ⟨routine, present, accepts⟩

/-- A program with two definitions bound to one symbol with different conventions. -/
def Program.writing : Program where
  file := "writing"
  types := .empty
  defs := [
    (ofSignature "log" .program [] .nil).withSymbol "write" .c,
    (ofSignature "log_fast" .program [] .nil).withSymbol "write" .fast,
    (ofSignature "main" .program [] .nil).withBody (.ofKind (.seq [
      .ofCall (.ofTargets "log" ["log"]) .nil, .ofCall (.ofTargets "log_fast" ["log_fast"]) .nil])
      .nil)]

/-- The second call does not have the convention of the declaration. -/
theorem Program.convention_undeclared_writing :
    ∃ code, (writing.compile .default).result = .ok code ∧ ∃ instruction ∈ code.instructionsOf ⟨0⟩,
      ∃ func ∈ instruction.op.callee?, ∃ routine ∈ code.routine? func,
        instruction.op.conv? ≠ routine.decl.conv :=
  exists_code

end CallLowering
