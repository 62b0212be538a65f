import CallLowering.Proofs.Wiring

/-!
# Landing pads

A call that may raise ends its block and goes on in a new one, or at the innermost active handler.
Handlers are known by their label: nothing else leads there, and a landing pad is the first thing
that is put into a handler (`Recording.Landed`). Lowering leaves no handler without one
(`Recording.Wires.waits`).
-/

namespace CallLowering

open Recording

namespace Operation

/-- The blocks where control goes on if nothing is raised. -/
def continuations : Operation → List BlockId
  | invoke _ _ normal _ _ => [normal]
  | br target => [target]
  | condBr _ yes no => [yes, no]
  | _ => []

/-- The block where control goes on if the callee raises. -/
def handler? : Operation → Option BlockId
  | invoke _ _ _ handler _ => some handler
  | _ => none

variable {op : Operation} {code code' : Recording} {x : BlockId} (labelled : op.Labelled code)

include labelled

/-- Labels stay. -/
theorem Labelled.later (later : code.Extends code') : op.Labelled code' := by
  cases op with
  | invoke => exact ⟨later.label_eq labelled.1 (by decide), later.label_eq labelled.2 (by decide)⟩
  | condBr => exact ⟨later.label_eq labelled.1 (by decide), later.label_eq labelled.2 (by decide)⟩
  | br => exact later.label_eq labelled (by decide)
  | _ => exact trivial

/-- Control goes on in no handler. -/
theorem Labelled.continues (leads : x ∈ op.continuations) : code.label x ≠ "rescue" := by
  cases op with
  | invoke =>
    obtain rfl := List.mem_singleton.mp leads
    exact labelled.1 ▸ by decide
  | br =>
    obtain rfl := List.mem_singleton.mp leads
    exact ne_of_eq_of_ne labelled (by decide)
  | condBr =>
    obtain rfl | leads := List.mem_cons.mp leads
    · exact labelled.1 ▸ by decide
    · obtain rfl := List.mem_singleton.mp leads
      exact labelled.2 ▸ by decide
  | _ => cases leads

/-- Only a call that may raise leads to a block that is labelled after one. -/
theorem Labelled.raises (leads : x ∈ op.successors) (named : code.label x = "invoke_out") :
    ∃ func args handler conv, op = .invoke func args x handler conv := by
  cases op with
  | invoke func args normal handler conv =>
    obtain rfl | leads := List.mem_cons.mp leads
    · exact ⟨func, args, handler, conv, rfl⟩
    · obtain rfl := List.mem_singleton.mp leads
      exact absurd (named.symm.trans labelled.2) (by decide)
  | br =>
    obtain rfl := List.mem_singleton.mp leads
    exact absurd (named.symm.trans labelled) (by decide)
  | condBr =>
    obtain rfl | leads := List.mem_cons.mp leads
    · exact absurd (named.symm.trans labelled.1) (by decide)
    · obtain rfl := List.mem_singleton.mp leads
      exact absurd (named.symm.trans labelled.2) (by decide)
  | _ => cases leads

end Operation

namespace Recording

variable {code code' : Recording} {b block : BlockId} {op : Operation}

/-- The first instruction of the block receives what was raised. -/
def Lands (code : Recording) (b : BlockId) : Prop :=
  ∃ result, (code.instructionsOf b).head? = some ⟨result, .landingPad⟩

theorem Lands.later (lands : code.Lands b) (later : code.Extends code') : code'.Lands b := by
  obtain ⟨result, first⟩ := lands
  obtain ⟨_, longer⟩ := later.instructionsOf b
  exact ⟨result, by rw [← longer, List.head?_append, first, Option.some_or]⟩

/-- A landing pad is the first instruction of a handler, operations lead where labels say, and a
call that may raise is the only way to the block where control goes on if it does not. -/
structure Landed (code : Recording) : Prop where
  first : ∀ b (i : Nat) result, (code.instructionsOf b)[i]? = some ⟨result, .landingPad⟩ →
    i = 0 ∧ code.label b = "rescue"
  labelled : ∀ p, ∀ instruction ∈ code.instructionsOf p, instruction.op.Labelled code
  alone : ∀ p result func args normal handler conv,
    ⟨result, .invoke func args normal handler conv⟩ ∈ code.instructionsOf p →
    ∀ p', code.Leads p' normal → p' = p

namespace Landed

variable (landed : code.Landed)

include landed

/-- Recording no instruction changes nothing. -/
theorem of_instructions (later : code.Extends code')
    (same : ∀ b, code'.instructionsOf b = code.instructionsOf b) : code'.Landed := by
  refine ⟨fun b i result found => ?_, fun p instruction member => ?_, ?_⟩
  · obtain ⟨start, named⟩ := landed.first b i result (same b ▸ found)
    exact ⟨start, later.label_eq named (by decide)⟩
  · exact (landed.labelled p instruction (same p ▸ member)).later later
  · simp only [Leads, same]
    exact landed.alone

/-- An operation may be written that leads where labels say. -/
theorem written (labelled : op.Labelled code)
    (pad : op = .landingPad → code.label block = "rescue" ∧ code.instructionsOf block = [])
    (alone : ∀ func args normal handler conv, op = .invoke func args normal handler conv →
      ∀ b, ¬code.Leads b normal) : (code.written block op).Landed where
  first b i result found := by
    obtain old | ⟨rfl, last, new⟩ := written_instructionsOf_getElem? found
    · obtain ⟨start, named⟩ := landed.first b i result old
      exact ⟨start, (extends_written block op).label_eq named (by decide)⟩
    · obtain ⟨named, empty⟩ := pad (congrArg Instruction.op new).symm
      exact ⟨last.trans (congrArg List.length empty), (extends_written b op).label_eq named (by decide)⟩
  labelled p instruction member := by
    obtain old | ⟨_, rfl⟩ := mem_written_instructionsOf member
    · exact (landed.labelled p instruction old).later (extends_written block op)
    · exact labelled.later (extends_written block op)
  alone p result func args normal handler conv member p' leads := by
    obtain old | ⟨rfl, new⟩ := mem_written_instructionsOf member
    · obtain before | ⟨rfl, goesOn⟩ := leads_written leads
      · exact landed.alone p result func args normal handler conv old p' before
      · -- no other call goes on where an earlier one does
        obtain ⟨_, _, _, _, rfl⟩ := labelled.raises goesOn (landed.labelled p _ old).1
        exact absurd ⟨_, old, List.mem_cons_self⟩ (alone _ _ _ _ _ rfl p)
    · obtain before | ⟨rfl, _⟩ := leads_written leads
      · exact absurd before (alone _ _ _ _ _ (congrArg Instruction.op new).symm p')
      · rfl

end Landed

/-- A handler that is without its landing pad. -/
def Waits (code : Recording) (b : BlockId) : Prop :=
  code.label b = "rescue" ∧ ¬code.Lands b

theorem label_of_written (named : (code.written block op).label b = "rescue") :
    code.label b = "rescue" := by
  unfold label at named
  split at named
  · rename_i found
    obtain ⟨_, before, same, _⟩ := written_block?_some found
    rw [label_of_block? before, ← same, named]
  · exact absurd named (by decide)

/-- Lowering keeps landing pads in place. -/
theorem Wires.landed (wires : Wires code code') (landed : code.Landed) : code'.Landed := by
  induction wires with
  | quiet later same => exact landed.of_instructions later same
  | trans _ _ ihFirst ihSecond => exact ihSecond (ihFirst landed)
  | write labelled other _ alone => exact landed.written labelled (absurd · other) alone
  | handle _ there ih =>
    have inner := ih (landed.of_instructions (extends_appendBlock _ _)
      fun _ => appendBlock_instructionsOf)
    exact inner.written trivial
      (fun _ => ⟨label_of_block? there, instructionsOf_of_block? there⟩) nofun

/-- Lowering leaves no handler behind without a landing pad. -/
theorem Wires.waits (wires : Wires code code') (waits : code'.Waits b) : code.Waits b := by
  induction wires with
  | quiet later _ handlers =>
    exact ⟨handlers b waits.1, fun lands => waits.2 (lands.later later)⟩
  | trans _ _ ihFirst ihSecond => exact ihFirst (ihSecond waits)
  | write => exact ⟨label_of_written waits.1, fun lands => waits.2 (lands.later (extends_written _ _))⟩
  | @handle code _ _ _ there ih =>
    obtain ⟨named, waits⟩ := waits
    have apart : b ≠ ⟨code.blocks.size⟩ := by
      rintro rfl
      exact waits ⟨_, by rw [written_instructionsOf_self there, instructionsOf_of_block? there]; rfl⟩
    obtain ⟨named, waits⟩ :=
      ih ⟨label_of_written named, fun lands => waits (lands.later (extends_written _ _))⟩
    rw [label, appendBlock_block?_old fun same => apart (congrArg BlockId.mk same)] at named
    exact ⟨named, fun lands => waits (lands.later (extends_appendBlock _ _))⟩

end Recording

theorem Program.compile_landed {program : Program} {options : Options} {code : Recording}
    (compiled : (program.compile options).result = .ok code) :
    code.Proper ∧ code.Landed ∧ ∀ b, code.label b = "rescue" → code.Lands b := by
  obtain ⟨proper, wires⟩ := compile_wires compiled
  refine ⟨proper, wires.landed ⟨fun _ _ _ found => absurd found (Option.not_mem_none _),
    fun _ _ none => absurd none List.not_mem_nil,
    fun _ _ _ _ _ _ _ none => absurd none List.not_mem_nil⟩, fun _ named => ?_⟩
  by_contra waits
  exact absurd (wires.waits ⟨named, waits⟩).1 (by decide : "" ≠ "rescue")

/-- In a compiled program a landing pad is the first instruction of its block, and nothing goes on
at such a block. The handler of a call that may raise starts with one, and is not the block where
control goes on if nothing is raised; there, control comes from the call only. -/
theorem Program.landing_pads {program : Program} {options : Options} {code : Recording}
    (compiled : (program.compile options).result = .ok code) {func : FuncId} {b : BlockId}
    (inside : b ∈ code.blocksOf func) {i : Nat} {instruction : Instruction}
    (found : (code.instructionsOf b)[i]? = some instruction) :
    (instruction.op = .landingPad → i = 0) ∧
      (∀ x ∈ instruction.op.continuations,
        ∀ first ∈ (code.instructionsOf x).head?, first.op ≠ .landingPad) ∧
      ∀ callee args normal handler conv,
        instruction.op = .invoke callee args normal handler conv →
        (∃ first ∈ (code.instructionsOf handler).head?, first.op = .landingPad) ∧
          normal ≠ handler ∧
          ∀ n, n ∈ (ControlFlow.ofFunc code func).predecessors normal ↔ n = b.index := by
  obtain ⟨proper, landed, handled⟩ := compile_landed compiled
  obtain ⟨result, op⟩ := instruction
  have member := List.mem_of_getElem? found
  refine ⟨?_, fun x leads first starts pad => ?_, ?_⟩
  · rintro rfl
    exact (landed.first b i result found).1
  · obtain ⟨result', op'⟩ := first
    obtain rfl : op' = .landingPad := pad
    rw [Option.mem_def, List.head?_eq_getElem?] at starts
    exact (landed.labelled b _ member).continues leads (landed.first x 0 result' starts).2
  · rintro callee args normal handler conv rfl
    have labels := landed.labelled b _ member
    have leads : normal ∈ (Operation.invoke callee args normal handler conv).successors :=
      List.mem_cons_self
    refine ⟨?_, ?_, fun n => ?_⟩
    · obtain ⟨result', first⟩ := handled handler labels.2
      exact ⟨_, first, rfl⟩
    · rintro rfl
      exact absurd (labels.1.symm.trans labels.2) (by decide)
    · rw [ControlFlow.mem_predecessors]
      constructor
      · rintro ⟨_, p, _, rfl, op, ends, leads'⟩
        obtain ⟨other, member', rfl⟩ := exists_of_terminator? ends
        rw [landed.alone b _ _ _ _ _ _ member p ⟨other, member', leads'⟩]
      · rintro rfl
        obtain ⟨data, present, owned⟩ := proper.listed func b inside
        obtain ⟨data', there, same⟩ := proper.target present member leads
        refine ⟨?_, b, inside, rfl, _, proper.terminator?_of_mem member rfl, leads⟩
        exact (same.trans owned) ▸ proper.complete normal data' there

theorem Program.landing_pads_merging :
    ∃ code result callee args conv, (merging.compile .default).result = .ok code ∧
      ⟨5⟩ ∈ code.blocksOf ⟨0⟩ ∧
      (code.instructionsOf ⟨5⟩)[1]? = some ⟨result, .invoke callee args ⟨7⟩ ⟨1⟩ conv⟩ ∧
      (∃ first ∈ (code.instructionsOf ⟨1⟩).head?, first.op = .landingPad) ∧
      ∀ n, n ∈ (ControlFlow.ofFunc code ⟨0⟩).predecessors ⟨7⟩ ↔ n = 5 := by
  obtain ⟨code, compiled, raising⟩ : ∃ code, (merging.compile .default).result = .ok code ∧
      ⟨5⟩ ∈ code.blocksOf ⟨0⟩ ∧ ((code.instructionsOf ⟨5⟩)[1]?).map (fun instruction =>
        (instruction.op.handler?, instruction.op.continuations)) = some (some ⟨1⟩, [⟨7⟩]) :=
    exists_code
  obtain ⟨inside, edges⟩ := raising
  obtain ⟨⟨result, op⟩, found, leads⟩ := Option.map_eq_some_iff.mp edges
  cases op with
  | invoke callee args normal handler conv =>
    cases leads
    obtain ⟨_, _, raises⟩ := landing_pads compiled inside found
    obtain ⟨lands, _, predecessors⟩ := raises callee args ⟨7⟩ ⟨1⟩ conv rfl
    exact ⟨code, result, callee, args, conv, compiled, inside, found, lands, predecessors⟩
  | _ => cases leads

end CallLowering
