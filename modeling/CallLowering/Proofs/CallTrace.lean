import CallLowering.Proofs.Functions
import CallLowering.Proofs.Simulation

/-!
# The calls of a function

In a program where every call has one candidate, and where what is annotated not to return does not,
the function of a definition calls what direct evaluation of its body calls, in the same order.
-/

namespace CallLowering

open Definition

/-- A walk through a function starts at its entry and makes the calls of direct evaluation, up to an
instruction that ends the function. -/
theorem Gains.stretch {Γ : Scenario} {defn : Definition} {func : FuncId} {code code' fin : Recording}
    (gains : Gains Γ defn func code code') (proper : code.Proper) (isTraced : Γ.traced)
    (isSealed : Γ.sealed) (later : code'.Extends fin) :
    ∃ body run entry rest entered spot instruction, defn.body = some body ∧
      Γ.env.program.evaluate body = some run ∧ fin.blocksOf func = entry :: rest ∧
      fin.instructionAt? spot = some instruction ∧ instruction.op.isTerminator = true ∧
      instruction.op.successors = [] ∧
      ∀ walk : Walk, Stretch fin ⟨entry, 0⟩ walk entered spot (walk.calling run.calls) := by
  obtain @⟨body, decl, _, _, _, bodied, _, _, _, begun, builds, _⟩ := gains
  obtain ⟨_, here, present⟩ := (proper.declare decl).beginRoutine begun
  obtain ⟨run, spot, entered, effect, exits, _, stretch⟩ :=
    builds.simulates isTraced (fun _ => isSealed) (.entry proper begun) later (.of_empty here present)
  obtain ⟨stops, run', evaluated, calls⟩ := Effect.of_mul_halt effect
  obtain ⟨rest, blocks⟩ :=
    ((builds.advance (Nat.le_refl _)).code.later.trans later).blocksOf func
  rw [Recording.beginRoutine_blocksOf begun] at blocks
  cases exit : run.exit with
  | continues => exact absurd exit stops
  | leaves frame =>
    rw [exit] at exits
    obtain ⟨_, _, found, _⟩ := exits
    exact absurd found nofun
  | halts =>
    rw [exit] at exits
    obtain ⟨instruction, found, terminator, leaf⟩ := exits
    refine ⟨body, run', _, rest, entered, spot, instruction, bodied, evaluated, blocks.symm, found,
      terminator, leaf, ?_⟩
    rw [calls]
    exact stretch

/-- An instruction that ends a function ends a walk. -/
theorem Walk.step_halts (code : Recording) {instruction : Instruction} (walk : Walk)
    (terminator : instruction.op.isTerminator = true) (leaf : instruction.op.successors = []) :
    ∃ stop, walk.step code instruction = .ok (.halt stop, walk) := by
  obtain ⟨_, op⟩ := instruction
  cases op with
  | unreachable | ret => exact ⟨_, rfl⟩
  | invoke | br | condBr => cases leaf
  | _ => cases terminator

/-- The function of a definition makes the calls of direct evaluation. -/
theorem Program.walk_calls {program : Program} {options : Options} {code : Recording}
    (compiled : (program.compile options).result = .ok code) (single : program.SingleCandidate)
    (honest : program.Honest) {defn : Definition} (member : defn ∈ program.defs)
    (needed : defn.needsFunction = true) (assumed : List Ty) :
    ∃ body run func trace, defn.body = some body ∧ program.evaluate body = some run ∧
      code.funcNamed? defn.name = some func ∧ code.walk func assumed = .ok trace ∧
      (trace.stop ≠ .stepLimit → trace.calls.toList = run.calls) := by
  obtain ⟨s, func, s', idle, lowered, later⟩ := compile_function compiled member needed
  have granted : Rules.Granted ⟨True, True, False, False, program.Declares⟩ program :=
    ⟨fun _ => honest, fun _ => .inl single, fun _ => ⟨trivial, single⟩, nofun, id, fun _ => id⟩
  let Γ := Scenario.ofProgram _ ⟨program, options⟩ granted
  have source : ∀ body ∈ defn.body, body ∈ Γ.sources := fun body bodied =>
    body_parts_subset member bodied
  have gains :=
    (Lower.lowerFunction_gains source (declares_function member needed) idle lowered).2
  obtain ⟨body, run, entry, rest, entered, spot, instruction, bodied, evaluated, blocks, found,
    terminator, leaf, stretch⟩ := gains.stretch idle.proper trivial trivial later
  obtain ⟨stop, halts⟩ := Walk.step_halts code
    ((⟨[], assumed, #[], #[]⟩ : Walk).calling run.calls) terminator leaf
  obtain ⟨trace, walked, ends⟩ := (stretch _).walk_ok blocks found halts
  refine ⟨body, run, func, trace, bodied, evaluated, later.funcNamed? (gains.later.indexed idle.proper.indexed) (gains.funcNamed? idle.proper.indexed), walked,
    fun finished => ?_⟩
  rw [ends finished]
  exact Array.toList_appendList

/-- A call of one definition, of the given type. -/
def Expr.calling (name : String) (ty : Ty) : Expr := .ofCall (.ofTargets name [name]) ty

/-- A program whose `main` opens a file, is sent out of the block that should read it, and exits.
The calls after the `yield` and after the `break` are not made. -/
def Program.interrupted : Program where
  file := "interrupted"
  types := .empty
  defs := [
    (ofSignature "open" .program [] .nil).raising.withSymbol "fopen" .c,
    (ofSignature "read" .program [] .nil).withSymbol "fread" .c,
    (ofSignature "close" .program [] .nil).withSymbol "fclose" .c,
    (ofSignature "exit" .program [] .noReturn).withSymbol "exit" .c,
    (ofSignature "each" .program [] .nil).withBody (.ofKind (.seq [
      .calling "open" .nil,
      .ofKind (.yield [] none) .nil,
      .calling "close" .nil]) .nil),
    (ofSignature "main" .program [] .noReturn).withBody (.ofKind (.seq [
      .ofKind (.rescue
        (.ofCall ((Call.ofTargets "each" ["each"]).withBlock ⟨[], .ofKind (.seq [
          .ofKind (.breakWith none) .noReturn,
          .calling "read" .nil]) .nil, none, []⟩) .nil)
        (.ofKind .nil .nil)) .nil,
      .calling "exit" .noReturn]) .noReturn)]

theorem Program.walk_calls_interrupted :
    interrupted.SingleCandidate ∧ interrupted.Honest ∧
      ∃ code func trace, (interrupted.compile .default).result = .ok code ∧
        code.funcNamed? "main" = some func ∧ code.walk func [] = .ok trace ∧
        trace.stop = .unreachable ∧ trace.calls.toList = ["fopen", "exit"] := by
  have promised : interrupted.SingleCandidate ∧ interrupted.Honest := by decide +kernel
  have evaluated : ∀ main ∈ interrupted.target? "main", main.name = "main" ∧
      main.needsFunction = true ∧ ∀ body ∈ main.body,
        Option.map Run.calls (interrupted.evaluate body) = some ["fopen", "exit"] := by
    decide +kernel
  obtain ⟨code, compiled, stops⟩ : ∃ code, (interrupted.compile .default).result = .ok code ∧
      ∀ func ∈ code.funcNamed? "main", ∀ trace ∈ (code.walk func []).toOption,
        trace.stop = .unreachable :=
    exists_code
  obtain ⟨main, found⟩ := Option.isSome_iff_exists.mp
    (show (interrupted.target? "main").isSome = true by decide +kernel)
  obtain ⟨named, needed, runs⟩ := evaluated main found
  obtain ⟨body, run, func, trace, bodied, evaluates, func_found, walked, calls⟩ :=
    walk_calls compiled promised.1 promised.2 (target?_mem found) needed []
  rw [named] at func_found
  have stopped : trace.stop = .unreachable :=
    stops func func_found trace (by rw [walked]; rfl)
  have listed : run.calls = ["fopen", "exit"] := by
    have given := runs body bodied
    rw [evaluates] at given
    exact Option.some.inj given
  refine ⟨promised.1, promised.2, code, func, trace, compiled, func_found, walked, stopped, ?_⟩
  rw [← listed]
  exact calls (by rw [stopped]; nofun)

end CallLowering
