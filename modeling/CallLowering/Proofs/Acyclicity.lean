import CallLowering.Proofs.Sealing
import CallLowering.Proofs.Wiring
import Mathlib.Data.List.Chain
import Mathlib.Data.List.Perm.Subperm

/-!
# No block leads back to itself

Lowering ends a block by leading to other blocks in which nothing has been recorded yet. So an edge
never closes a cycle (`Recording.Acyclic.written`), and the block graph of a compiled program has none. A walk follows
edges from the entry. It therefore enters no block twice, and is cut short only in a function with
at least as many blocks as a walk may enter.
-/

namespace CallLowering

open Recording ControlFlow ControlFlow

variable {trace : Trace}

open Relation

/-- Only a terminator leads to other blocks. -/
theorem Operation.isTerminator_of_successors {op : Operation} {x : BlockId}
    (leads : x ∈ op.successors) : op.isTerminator = true := by
  cases op <;> first | rfl | cases leads

namespace Recording

variable {code code' : Recording} {block : BlockId} {op : Operation}

/-- No block leads back to itself. -/
def Acyclic (code : Recording) : Prop :=
  ∀ b, ¬TransGen code.Leads b b

namespace Acyclic

theorem empty (target : Target) (types : TypeTable) : (empty target types).Acyclic := by
  intro b cycle
  obtain ⟨_, ⟨_, member, _⟩, _⟩ := TransGen.head'_iff.mp cycle
  cases member

variable (acyclic : code.Acyclic)

include acyclic

/-- Recording no instruction changes nothing. -/
theorem of_instructions (same : ∀ b, code'.instructionsOf b = code.instructionsOf b) : code'.Acyclic := by
  have leads : code'.Leads = code.Leads := by
    funext b x
    rw [Leads, Leads, same]
  unfold Acyclic
  rwa [leads]

/-- A block may be led to other blocks in which nothing is recorded. -/
theorem written (targets : ∀ x ∈ op.successors, x ≠ block ∧ code.instructionsOf x = []) :
    (code.written block op).Acyclic := by
  -- nothing leads on from where the new instruction leads
  have stops : ∀ x ∈ op.successors, ∀ c, ¬(code.written block op).Leads x c := by
    intro x target c leads
    obtain ⟨apart, empty⟩ := targets x target
    obtain ⟨_, member, _⟩ | ⟨same, _⟩ := leads_written leads
    · rw [empty] at member
      cases member
    · exact apart same
  have path : ∀ {b x}, TransGen (code.written block op).Leads b x →
      TransGen code.Leads b x ∨ x ∈ op.successors := by
    intro b x path
    induction path with
    | single leads =>
      obtain old | ⟨_, new⟩ := leads_written leads
      · exact .inl (.single old)
      · exact .inr new
    | tail _ leads ih =>
      obtain before | target := ih
      · obtain old | ⟨_, new⟩ := leads_written leads
        · exact .inl (before.tail old)
        · exact .inr new
      · exact absurd leads (stops _ target _)
  intro b cycle
  obtain before | target := path cycle
  · exact acyclic b before
  · obtain ⟨c, leads, _⟩ := TransGen.head'_iff.mp cycle
    exact stops b target c leads

end Acyclic

/-- Lowering closes no cycle. -/
theorem Wires.acyclic (wires : Wires code code') (acyclic : code.Acyclic) : code'.Acyclic := by
  induction wires with
  | quiet _ same => exact acyclic.of_instructions same
  | trans _ _ ihFirst ihSecond => exact ihSecond (ihFirst acyclic)
  | write _ _ fresh => exact acyclic.written fresh
  | handle _ _ ih =>
    exact (ih (acyclic.of_instructions fun _ => appendBlock_instructionsOf)).written
      (List.forall_mem_nil _)

end Recording

/-! ## Paths of a walk -/

/-- A walk leads from block to block, and is cut short only when its steps are used up. -/
theorem Walk.runFrom_path {code : Recording} {walk : Walk} {steps : Nat} {b : BlockId}
    {blocks : Array BlockId} (ran : walk.runFrom code steps b blocks = .ok trace) :
    ∃ path, trace.blocks.toList = blocks.toList ++ path ∧ path.IsChain code.Leads ∧
      (∀ x ∈ path.head?, x = b) ∧ (0 < steps → path ≠ []) ∧
      (trace.stop = .stepLimit → path.length = steps) := by
  induction steps generalizing b blocks walk with
  | zero =>
    cases ran
    exact ⟨[], (List.append_nil _).symm, .nil, nofun, nofun, fun _ => rfl⟩
  | succ steps ih =>
    have comes := @runBlock_comes code walk (code.instructionsOf b)
    unfold runFrom at ran
    dsimp only at ran
    split at ran <;> rename_i left <;> rw [left] at comes
    · cases ran
    · cases ran
    · obtain ⟨path, whole, chain, head, _, length⟩ := ih ran
      obtain ⟨instruction, member, leads⟩ := comes
      refine ⟨b :: path, ?_, ?_, ?_, nofun, fun cut => congrArg (· + 1) (length cut)⟩
      · rw [whole, Array.toList_push, List.append_assoc, List.singleton_append]
      · refine List.isChain_cons.mpr ⟨fun x first => ?_, chain⟩
        rw [head x first]
        exact ⟨instruction, member, leads⟩
      · exact fun _ first => (Option.some.inj first).symm
    · cases ran
      refine ⟨[b], Array.toList_push, .singleton b, ?_, nofun, fun cut => ?_⟩
      · exact fun _ first => (Option.some.inj first).symm
      · exact absurd cut comes

theorem ControlFlow.Edge.leads {code : Recording} {func : FuncId} {b x : BlockId}
    (edge : (ofFunc code func).Edge b x) : code.Leads b x := by
  obtain ⟨_, _, _, ends, leads⟩ := edge_ofFunc.mp edge
  obtain ⟨instruction, member, rfl⟩ := exists_of_terminator? ends
  exact ⟨instruction, member, leads⟩

namespace Recording

variable {code : Recording} {func : FuncId} {b x : BlockId}

/-- What a block of a function leads to is a block of that function. -/
theorem Leads.listed (leads : code.Leads b x) (proper : code.Proper)
    (member : b ∈ code.blocksOf func) : x ∈ code.blocksOf func := by
  obtain ⟨_, inside, successor⟩ := leads
  obtain ⟨_, present, rfl⟩ := proper.listed func b member
  obtain ⟨data', present', owned⟩ := proper.target present inside successor
  exact owned ▸ proper.complete x data' present'

theorem Leads.edge (leads : code.Leads b x) (proper : code.Proper)
    (member : b ∈ code.blocksOf func) : (ofFunc code func).Edge b x := by
  refine edge_ofFunc.mpr ⟨member, leads.listed proper member, ?_⟩
  obtain ⟨_, inside, successor⟩ := leads
  exact ⟨_, proper.terminator?_of_mem inside (Operation.isTerminator_of_successors successor),
    successor⟩

variable {path : List BlockId}

/-- A path from a block of a function runs along the edges of the function. -/
theorem path_edges (proper : code.Proper) (member : b ∈ code.blocksOf func)
    (chain : (b :: path).IsChain code.Leads) :
    (b :: path).IsChain (ofFunc code func).Edge ∧ ∀ x ∈ b :: path,
      x ∈ code.blocksOf func ∧ ReflTransGen (ofFunc code func).Edge b x := by
  induction path generalizing b with
  | nil =>
    refine ⟨.singleton b, fun x here => ?_⟩
    obtain rfl := List.mem_singleton.mp here
    exact ⟨member, .refl⟩
  | cons next path ih =>
    obtain ⟨leads, rest⟩ := List.isChain_cons_cons.mp chain
    obtain ⟨edges, inside⟩ := ih (leads.listed proper member) rest
    have edge := leads.edge proper member
    refine ⟨List.isChain_cons_cons.mpr ⟨edge, edges⟩, fun x here => ?_⟩
    obtain rfl | here := List.mem_cons.mp here
    · exact ⟨member, .refl⟩
    · obtain ⟨known, path⟩ := inside x here
      exact ⟨known, .head edge path⟩

/-- A path enters no block twice. -/
theorem Acyclic.path_nodup (acyclic : code.Acyclic) (chain : path.IsChain code.Leads) :
    path.Nodup := by
  have ahead : path.Pairwise (TransGen code.Leads) :=
    (chain.imp fun _ _ => TransGen.single).pairwise
  refine ahead.imp ?_
  rintro b _ cycle rfl
  exact acyclic b cycle

/-- A walk starts at the entry and goes along edges, through blocks that can be reached, none of
them twice. It is cut short only if the function has many blocks. -/
theorem walk_path {assumed : List Ty} (proper : code.Proper) (acyclic : code.Acyclic)
    (walked : code.walk func assumed = .ok trace) :
    (∃ entry, (code.blocksOf func).head? = some entry ∧ trace.blocks[0]? = some entry) ∧
      trace.blocks.toList.Nodup ∧ trace.blocks.toList.IsChain (ofFunc code func).Edge ∧
      (∀ b ∈ trace.blocks, b.index ∈ (ofFunc code func).reachable) ∧
      (trace.stop = .stepLimit → Walk.stepLimit ≤ (code.blocksOf func).length) := by
  unfold walk at walked
  split at walked
  · cases walked
  · rename_i entry rest blocks
    obtain ⟨path, whole, chain, head, nonempty, length⟩ := Walk.runFrom_path walked
    rw [List.nil_append] at whole
    have member : entry ∈ code.blocksOf func := blocks ▸ List.mem_cons_self
    cases path with
    | nil => exact absurd rfl (nonempty (by decide))
    | cons first path =>
      obtain rfl := head first rfl
      obtain ⟨edges, inside⟩ := path_edges proper member chain
      have distinct := acyclic.path_nodup chain
      refine ⟨⟨first, ?_, ?_⟩, whole ▸ distinct, whole ▸ edges, fun b here => ?_, fun cut => ?_⟩
      · rw [blocks, List.head?_cons]
      · rw [← Array.getElem?_toList, whole]
        rfl
      · have found := inside b (whole ▸ Array.mem_toList_iff.mpr here)
        refine mem_reachable.mpr ⟨first, ?_, found.2⟩
        rw [ofFunc, blocks]
        rfl
      · rw [← length cut]
        exact (List.Nodup.subperm distinct fun x here => (inside x here).1).length_le

end Recording

/-- In a compiled program the terminators of a function lead to its own blocks and close no cycle.
Every walk starts at the entry and goes along edges, through blocks that can be reached, none of
them twice; so it is cut short only in a function with at least as many blocks as a walk may
enter. -/
theorem Program.controlFlow_acyclic {program : Program} {options : Options} {code : Recording}
    (compiled : (program.compile options).result = .ok code) (func : FuncId) :
    (∀ b ∈ code.blocksOf func, ∀ op ∈ code.terminator? b, ∀ x ∈ op.successors,
        x ∈ code.blocksOf func) ∧
      (∀ b, ¬TransGen (ofFunc code func).Edge b b) ∧
      ∀ assumed trace, code.walk func assumed = .ok trace →
        (∃ entry, (code.blocksOf func).head? = some entry ∧ trace.blocks[0]? = some entry) ∧
        trace.blocks.toList.Nodup ∧
        trace.blocks.toList.IsChain (ofFunc code func).Edge ∧
        (∀ b ∈ trace.blocks, b.index ∈ (ofFunc code func).reachable) ∧
        (trace.stop = .stepLimit → 10000 ≤ (code.blocksOf func).length) := by
  obtain ⟨proper, wires⟩ := compile_wires compiled
  have acyclic := wires.acyclic (.empty _ _)
  refine ⟨fun b member op ends x leads => ?_, fun b cycle => ?_, fun assumed trace walked => ?_⟩
  · obtain ⟨instruction, inside, rfl⟩ := exists_of_terminator? ends
    exact Leads.listed ⟨instruction, inside, leads⟩ proper member
  · exact acyclic b (cycle.lift id fun _ _ edge => edge.leads)
  · exact walk_path proper acyclic walked

/-- The walk of a cat leads from the seventh block back to the fourth, which is no cycle. -/
theorem Program.controlFlow_acyclic_merging :
    ∃ code trace, (merging.compile .default).result = .ok code ∧
      code.walk ⟨0⟩ [.object "Cat"] = .ok trace ∧
      trace.blocks.toList = [⟨0⟩, ⟨3⟩, ⟨5⟩, ⟨7⟩, ⟨4⟩, ⟨8⟩] ∧
      trace.blocks.toList.IsChain (ofFunc code ⟨0⟩).Edge ∧
      (∀ b, ¬TransGen (ofFunc code ⟨0⟩).Edge b b) ∧
      ∀ b ∈ trace.blocks, b.index ∈ (ofFunc code ⟨0⟩).reachable := by
  obtain ⟨code, compiled, walks⟩ : ∃ code, (merging.compile .default).result = .ok code ∧
      (code.walk ⟨0⟩ [.object "Cat"]).toOption.map (fun trace => trace.blocks.toList) =
        some [⟨0⟩, ⟨3⟩, ⟨5⟩, ⟨7⟩, ⟨4⟩, ⟨8⟩] :=
    exists_code
  have walked := walks
  cases found : code.walk ⟨0⟩ [.object "Cat"] with
  | error => rw [found] at walked; cases walked
  | ok trace =>
    rw [found] at walked
    obtain ⟨_, acyclic, paths⟩ := controlFlow_acyclic compiled ⟨0⟩
    obtain ⟨_, _, edges, reached, _⟩ := paths _ trace found
    exact ⟨code, trace, compiled, found, Option.some.inj walked, edges, acyclic, reached⟩

end CallLowering
