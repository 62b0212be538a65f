import CallLowering.Code.ControlFlow
import Mathlib.Logic.Relation

/-!
# Reachable blocks

The reachable blocks of a function are found with a work list. A visit has fuel for every block
on the work list and for every edge out of a block that was not seen yet (`pending`), so the list
is empty at the end, and the blocks seen are closed under edges. The reachable blocks are thus
those at the end of a path of edges from the entry (`mem_reachable`). An edge of a function is a
terminator that names one of its blocks, so the graph says exactly how blocks are entered
(`Recording.controlFlow_exact`).
-/

namespace CallLowering

open ControlFlow

/-- A block of a function leads to another block of it: its terminator names that block. -/
def Recording.LeadsWithin (code : Recording) (func : FuncId) (b x : BlockId) : Prop :=
  b ∈ code.blocksOf func ∧ x ∈ code.blocksOf func ∧ ∃ op ∈ code.terminator? b, x ∈ op.successors

namespace ControlFlow

open Relation

variable {flow : ControlFlow} {b block x : BlockId} {work seen blocks : List BlockId} {fuel : Nat}

/-- An edge leads from one block to another. -/
def Edge (flow : ControlFlow) (b x : BlockId) : Prop :=
  (b, x) ∈ flow.edges

theorem mem_successors : x ∈ flow.successors b ↔ flow.Edge b x := by
  simp [successors, Edge]

/-- The blocks of a visit come from the work list. -/
theorem mem_visit_sound (member : b ∈ flow.visit fuel work seen) :
    b ∈ seen ∨ ∃ start ∈ work, ReflTransGen flow.Edge start b := by
  induction fuel generalizing work seen with
  | zero => exact .inl member
  | succ fuel ih =>
    cases work with
    | nil => exact .inl member
    | cons block work =>
      rw [visit] at member
      split at member
      · obtain old | ⟨start, waits, path⟩ := ih member
        · exact .inl old
        · exact .inr ⟨start, List.mem_cons_of_mem _ waits, path⟩
      · obtain old | ⟨start, waits, path⟩ := ih member
        · obtain rfl | old := List.mem_cons.mp old
          · exact .inr ⟨b, List.mem_cons_self, .refl⟩
          · exact .inl old
        · obtain next | waits := List.mem_append.mp waits
          · exact .inr ⟨block, List.mem_cons_self, .head (mem_successors.mp next) path⟩
          · exact .inr ⟨start, List.mem_cons_of_mem _ waits, path⟩

/-- The number of edges out of blocks that were not seen yet. -/
def pending (flow : ControlFlow) (seen : List BlockId) : Nat :=
  flow.edges.countP fun edge => !seen.contains edge.1

theorem pending_cons (new : block ∉ seen) :
    flow.pending seen = flow.pending (block :: seen) + (flow.successors block).length := by
  unfold pending successors
  rw [List.length_map]
  induction flow.edges with
  | nil => rfl
  | cons edge edges ih =>
    by_cases here : edge.1 = block
    · simp_all
      omega
    · simp_all [List.countP_cons]
      omega

/-- With enough fuel a visit sees the work list and all that the blocks seen lead to. -/
theorem visit_closed (enough : work.length + flow.pending seen < fuel)
    (closed : ∀ s ∈ seen, ∀ x, flow.Edge s x → x ∈ seen ∨ x ∈ work) :
    (∀ s, s ∈ seen ∨ s ∈ work → s ∈ flow.visit fuel work seen) ∧
      ∀ s ∈ flow.visit fuel work seen, ∀ x, flow.Edge s x → x ∈ flow.visit fuel work seen := by
  induction fuel generalizing work seen with
  | zero => exact absurd enough (Nat.not_lt_zero _)
  | succ fuel ih =>
    cases work with
    | nil =>
      refine ⟨fun s known => known.resolve_right List.not_mem_nil, fun s member x edge => ?_⟩
      exact (closed s member x edge).resolve_right List.not_mem_nil
    | cons block work =>
      rw [visit]
      rw [List.length_cons] at enough
      split
      · rename_i old
        rw [List.contains_iff_mem] at old
        have shift : ∀ s, s ∈ seen ∨ s ∈ block :: work → s ∈ seen ∨ s ∈ work := by
          rintro s (known | waits)
          · exact .inl known
          · obtain rfl | waits := List.mem_cons.mp waits
            · exact .inl old
            · exact .inr waits
        obtain ⟨kept, all⟩ := ih (by omega) fun s member x edge =>
          shift x (closed s member x edge)
        exact ⟨fun s known => kept s (shift s known), all⟩
      · rename_i new
        rw [List.contains_iff_mem] at new
        have counted := flow.pending_cons new
        have shift : ∀ s, s ∈ seen ∨ s ∈ block :: work →
            s ∈ block :: seen ∨ s ∈ flow.successors block ++ work := by
          rintro s (known | waits)
          · exact .inl (List.mem_cons_of_mem _ known)
          · obtain rfl | waits := List.mem_cons.mp waits
            · exact .inl List.mem_cons_self
            · exact .inr (List.mem_append_right _ waits)
        have closed' : ∀ s ∈ block :: seen, ∀ x, flow.Edge s x →
            x ∈ block :: seen ∨ x ∈ flow.successors block ++ work := by
          intro s member x edge
          obtain rfl | member := List.mem_cons.mp member
          · exact .inr (List.mem_append_left _ (mem_successors.mpr edge))
          · exact shift x (closed s member x edge)
        obtain ⟨kept, all⟩ := ih (by rw [List.length_append]; omega) closed'
        exact ⟨fun s known => kept s (shift s known), all⟩

/-- The blocks visited are those on a path from the entry. -/
theorem mem_visited :
    b ∈ flow.visited ↔ ∃ entry ∈ flow.blocks.head?, ReflTransGen flow.Edge entry b := by
  have first : ∀ entry, entry ∈ flow.blocks.take 1 ↔ entry ∈ flow.blocks.head? := by
    intro entry
    cases flow.blocks with
    | nil => simp
    | cons block blocks =>
      simp [eq_comm]
  constructor
  · intro member
    obtain none | ⟨entry, waits, path⟩ := mem_visit_sound member
    · cases none
    · exact ⟨entry, (first entry).mp waits, path⟩
  · rintro ⟨entry, starts, path⟩
    have enough : (flow.blocks.take 1).length + flow.pending [] < flow.edges.length + 2 := by
      have one := List.length_take_le 1 flow.blocks
      have all : flow.pending [] ≤ flow.edges.length := List.countP_le_length
      omega
    obtain ⟨kept, closed⟩ := visit_closed enough fun _ none => absurd none List.not_mem_nil
    induction path with
    | refl => exact kept entry (.inr ((first entry).mpr starts))
    | tail _ edge ih => exact closed _ ih _ edge

/-- A set of blocks is answered as the list of their numbers. -/
theorem index_mem_ofList : b.index ∈ Ascending.ofList (blocks.map (·.index)) ↔ b ∈ blocks := by
  rw [Ascending.mem_ofList, List.mem_map]
  constructor
  · rintro ⟨⟨index⟩, member, same⟩
    obtain rfl : index = b.index := same
    exact member
  · exact fun member => ⟨b, member, rfl⟩

theorem mem_reachable :
    b.index ∈ flow.reachable ↔ ∃ entry ∈ flow.blocks.head?, ReflTransGen flow.Edge entry b :=
  index_mem_ofList.trans mem_visited

theorem mem_unreachable :
    b.index ∈ flow.unreachable ↔ b ∈ flow.blocks ∧ b.index ∉ flow.reachable := by
  rw [unreachable, reachable, index_mem_ofList, index_mem_ofList, List.mem_filter,
    List.contains_eq_mem, Bool.not_eq_true', decide_eq_false_iff_not]

/-- The predecessors of a block are the blocks with an edge to it. -/
theorem mem_predecessors_iff_edge : b.index ∈ flow.predecessors x ↔ flow.Edge b x := by
  rw [predecessors, ← Function.comp_def, ← List.map_map, index_mem_ofList]
  simp only [Edge, List.mem_map, List.mem_filter, beq_iff_eq]
  constructor
  · rintro ⟨_, ⟨member, rfl⟩, rfl⟩
    exact member
  · exact fun member => ⟨(b, x), ⟨member, rfl⟩, rfl⟩

/-! ## The graph of a function -/

variable {code : Recording} {func : FuncId}

theorem mem_edgesFrom :
    (b, x) ∈ edgesFrom code blocks block ↔
      block = b ∧ x ∈ blocks ∧ ∃ op ∈ code.terminator? block, x ∈ op.successors := by
  unfold edgesFrom
  cases code.terminator? block with
  | none => simp
  | some op =>
    simp only [List.mem_map, List.mem_filter, List.contains_iff_mem, Prod.mk.injEq, Option.mem_def,
      Option.some.injEq, exists_eq_left']
    constructor
    · rintro ⟨_, ⟨leads, listed⟩, rfl, rfl⟩
      exact ⟨rfl, listed, leads⟩
    · rintro ⟨rfl, listed, leads⟩
      exact ⟨x, ⟨leads, listed⟩, rfl, rfl⟩

/-- An edge leads between blocks of the function, along the terminator of the first. -/
theorem edge_ofFunc : (ofFunc code func).Edge b x ↔ code.LeadsWithin func b x := by
  simp only [Recording.LeadsWithin, Edge, ofFunc, List.mem_flatMap, mem_edgesFrom]
  constructor
  · rintro ⟨_, member, rfl, ends⟩
    exact ⟨member, ends⟩
  · rintro ⟨member, ends⟩
    exact ⟨b, member, rfl, ends⟩

/-- The predecessors of a block are the blocks of the function whose terminator leads to it. -/
theorem mem_predecessors {n : Nat} :
    n ∈ (ofFunc code func).predecessors b ↔ b ∈ code.blocksOf func ∧
      ∃ p ∈ code.blocksOf func, p.index = n ∧ ∃ op ∈ code.terminator? p, b ∈ op.successors := by
  refine (mem_predecessors_iff_edge (b := ⟨n⟩)).trans (edge_ofFunc.trans ⟨?_, ?_⟩)
  · rintro ⟨member, listed, ends⟩
    exact ⟨listed, ⟨n⟩, member, rfl, ends⟩
  · rintro ⟨listed, p, member, rfl, ends⟩
    exact ⟨member, listed, ends⟩

end ControlFlow

namespace Recording

open Relation

/-- A path of terminators leads to a block from the first block of its function. -/
def Enters (code : Recording) (func : FuncId) (b : BlockId) : Prop :=
  ∃ entry ∈ (code.blocksOf func).head?, ReflTransGen (code.LeadsWithin func) entry b

variable {code : Recording} {func : FuncId} {b : BlockId}

theorem Enters.mem (enters : code.Enters func b) : b ∈ code.blocksOf func := by
  obtain ⟨_, first, path⟩ := enters
  cases path with
  | refl => exact List.mem_of_mem_head? first
  | tail _ leads => exact leads.2.1

/-- A block is entered at the start of its function or from a block that is entered itself. -/
theorem enters_iff : code.Enters func b ↔
    b ∈ (code.blocksOf func).head? ∨ ∃ p, code.Enters func p ∧ code.LeadsWithin func p b := by
  constructor
  · rintro ⟨entry, first, path⟩
    cases path with
    | refl => exact .inl first
    | tail path leads => exact .inr ⟨_, ⟨entry, first, path⟩, leads⟩
  · rintro (first | ⟨p, ⟨entry, first, path⟩, leads⟩)
    · exact ⟨b, first, .refl⟩
    · exact ⟨entry, first, path.tail leads⟩

/-- The analysis of the block graph is exact, whatever has been recorded. It answers, in ascending
order and each once, the blocks of the function that are entered, the other blocks of the function,
and the blocks whose terminators lead to a block; and a block is reachable just if it is the first
one or has a reachable predecessor. -/
theorem controlFlow_exact (code : Recording) (func : FuncId) :
    let flow := ofFunc code func
    (flow.reachable.Pairwise (· < ·) ∧
        ∀ n, n ∈ flow.reachable ↔ ⟨n⟩ ∈ code.blocksOf func ∧ code.Enters func ⟨n⟩) ∧
      (flow.unreachable.Pairwise (· < ·) ∧
        ∀ n, n ∈ flow.unreachable ↔ ⟨n⟩ ∈ code.blocksOf func ∧ ¬code.Enters func ⟨n⟩) ∧
      (∀ b, (flow.predecessors b).Pairwise (· < ·) ∧
        (b ∈ code.blocksOf func → ∀ n, n ∈ flow.predecessors b ↔ ⟨n⟩ ∈ code.blocksOf func ∧
          ∃ op ∈ code.terminator? ⟨n⟩, b ∈ op.successors) ∧
        (b ∉ code.blocksOf func → flow.predecessors b = [])) ∧
      ∀ b, b.index ∈ flow.reachable ↔
        b ∈ (code.blocksOf func).head? ∨ ∃ n ∈ flow.predecessors b, n ∈ flow.reachable := by
  intro flow
  have edges : flow.Edge = code.LeadsWithin func :=
    funext₂ fun _ _ => propext edge_ofFunc
  have reached : ∀ b : BlockId, b.index ∈ flow.reachable ↔ code.Enters func b := fun b => by
    rw [mem_reachable, edges]
    rfl
  have leads : ∀ p b : BlockId, p.index ∈ flow.predecessors b ↔ code.LeadsWithin func p b :=
    fun p b => by rw [mem_predecessors_iff_edge, edges]
  refine ⟨⟨Ascending.pairwise_ofList _, fun n => ?_⟩, ⟨Ascending.pairwise_ofList _, fun n => ?_⟩,
    fun b => ⟨Ascending.pairwise_ofList _, fun member n => ?_, fun outside => ?_⟩, fun b => ?_⟩
  · rw [and_iff_right_of_imp Enters.mem]
    exact reached ⟨n⟩
  · rw [← reached ⟨n⟩]
    exact mem_unreachable (b := ⟨n⟩)
  · refine (leads ⟨n⟩ b).trans ?_
    rw [LeadsWithin, and_iff_right member]
  · refine List.eq_nil_iff_forall_not_mem.mpr fun n found => ?_
    exact outside ((leads ⟨n⟩ b).mp found).2.1
  · rw [reached, enters_iff]
    refine or_congr_right ⟨?_, ?_⟩
    · rintro ⟨p, enters, found⟩
      exact ⟨p.index, (leads p b).mpr found, (reached p).mpr enters⟩
    · rintro ⟨n, found, enters⟩
      exact ⟨⟨n⟩, (reached ⟨n⟩).mp enters, (leads ⟨n⟩ b).mp found⟩

end Recording

end CallLowering
