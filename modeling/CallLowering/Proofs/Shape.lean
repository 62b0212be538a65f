import CallLowering.Proofs.Building

/-!
# The shape of recorded code

The blocks listed for a function are those that belong to it, a terminator is the last instruction of
its block, it leads to blocks of the same function, and the tables of names agree with what they
index (`Recording.Proper`). While a function is being
lowered, the exits of its open join points are empty blocks away from the cursor
(`Site.Valid`). Every piece of lowering keeps it that way (`Builds.valid`).
-/

namespace CallLowering

open Recording

namespace Recording

/-- Recorded code is in good shape: the blocks listed for a function are those that belong to it, a
terminator is the last instruction of its block, it leads to blocks of the same function, and the
tables of names agree. -/
structure Proper (code : Recording) : Prop where
  listed : ∀ func, ∀ b ∈ code.blocksOf func, ∃ data, code.block? b = some data ∧ data.func = func
  complete : ∀ b data, code.block? b = some data → b ∈ code.blocksOf data.func
  last : ∀ b data (i : Nat) (instruction : Instruction), code.block? b = some data →
    data.instructions[i]? = some instruction → instruction.op.isTerminator = true →
    i + 1 = data.instructions.size
  targets : ∀ b data (instruction : Instruction), code.block? b = some data →
    instruction ∈ data.instructions.toList → ∀ x ∈ instruction.op.successors,
    ∃ data', code.block? x = some data' ∧ data'.func = data.func
  indexed : code.Indexed

variable {data : BasicBlock} {b block : BlockId} {instruction : Instruction} {code : Recording}
  {op : Operation} {func : FuncId} {label : String} {routine : Routine}

/-- A block after another one was added is the new one or was there before. -/
theorem appendBlock_block?_cases (present : (code.appendBlock func label).2.block? b = some data) :
    code.block? b = some data ∨ data = ⟨label, func, #[]⟩ ∧ b = ⟨code.blocks.size⟩ := by
  by_cases new : b.index = code.blocks.size
  · obtain ⟨_⟩ := b
    subst new
    rw [appendBlock_block?_new, Option.some.injEq] at present
    exact .inr ⟨present.symm, rfl⟩
  · rw [appendBlock_block?_old new] at present
    exact .inl present

/-- A terminator is the last instruction of its block. -/
def TerminatorsLast (code : Recording) : Prop :=
  ∀ b data (i : Nat) (instruction : Instruction), code.block? b = some data →
    data.instructions[i]? = some instruction → instruction.op.isTerminator = true →
    i + 1 = data.instructions.size

/-- The blocks listed for a function are those that belong to it. -/
def Listed (code : Recording) : Prop :=
  ∀ func b, b ∈ code.blocksOf func ↔ ∃ data, code.block? b = some data ∧ data.func = func

theorem Listed.written (listed : code.Listed) : (code.written block op).Listed := by
  refine fun func b => (listed func b).trans ⟨?_, ?_⟩ <;> rintro ⟨data, present, rfl⟩
  · obtain ⟨data', present', _, func, _⟩ := (extends_written block op).block b data present
    exact ⟨data', present', func⟩
  · obtain ⟨before, old, _, func, _⟩ := written_block?_some present
    exact ⟨before, old, func.symm⟩

theorem Listed.appendBlock (listed : code.Listed) (declared : code.routine? func = some routine) :
    (code.appendBlock func label).2.Listed := by
  intro f b
  have member : b ∈ (code.appendBlock func label).2.blocksOf f ↔
      b ∈ code.blocksOf f ∨ func = f ∧ b = ⟨code.blocks.size⟩ := by
    rw [appendBlock_blocksOf]
    split
    · simp_all only [List.mem_append, List.mem_singleton, true_and]
    · rename_i other
      simp only [iff_self_or, and_imp]
      rintro rfl
      exact absurd ⟨rfl, declared ▸ rfl⟩ other
  rw [member, listed]
  refine ⟨?_, ?_⟩
  · rintro (⟨data, there, owned⟩ | ⟨rfl, rfl⟩)
    · exact ⟨data, appendBlock_block?_of_some there, owned⟩
    · exact ⟨_, appendBlock_block?_new, rfl⟩
  · rintro ⟨data, present, rfl⟩
    obtain there | ⟨rfl, rfl⟩ := appendBlock_block?_cases present
    · exact .inl ⟨data, there, rfl⟩
    · exact .inr ⟨rfl, rfl⟩

namespace TerminatorsLast

variable {i : Nat} (last : code.TerminatorsLast)

include last

/-- A terminator is what ends its block. -/
theorem terminator? (present : code.block? b = some data)
    (found : data.instructions[i]? = some instruction)
    (terminator : instruction.op.isTerminator = true) :
    code.terminator? b = some instruction.op := by
  have lastOne := last b data i instruction present found terminator
  have back : data.instructions.back? = some instruction := by
    rw [Array.back?_eq_getElem?, ← lastOne, Nat.add_sub_cancel, found]
  rw [Recording.terminator?, present, Option.bind_some, BasicBlock.terminator?, back]
  exact if_pos terminator

/-- No terminator stands before an instruction that is put at the end of a block. -/
theorem written (running : code.terminator? block = none) :
    (code.written block op).TerminatorsLast := by
  intro b found' i instruction present' found terminator
  obtain ⟨before, old, _, _, apart, same⟩ := written_block?_some present'
  by_cases here : b = block
  · subst here
    rw [same rfl] at found ⊢
    obtain ⟨rfl, _⟩ | found := getElem?_push_cases found
    · rw [Array.size_push]
    · cases running.symm.trans (last.terminator? old found terminator)
  · rw [apart here] at found ⊢
    exact last b before i instruction old found terminator

theorem appendBlock (func : FuncId) (label : String) :
    (code.appendBlock func label).2.TerminatorsLast := by
  intro b data i instruction present found terminator
  obtain there | ⟨rfl, _⟩ := appendBlock_block?_cases present
  · exact last b data i instruction there found terminator
  · cases found

end TerminatorsLast

section

variable (proper : code.Proper)

include proper

theorem Proper.terminator?_of_mem (member : instruction ∈ code.instructionsOf b)
    (terminator : instruction.op.isTerminator = true) :
    code.terminator? b = some instruction.op := by
  obtain ⟨_, present, member⟩ := block?_of_mem_instructionsOf member
  obtain ⟨_, found⟩ := List.getElem?_of_mem member
  exact TerminatorsLast.terminator? proper.last present (Array.getElem?_toList.symm.trans found)
    terminator

/-- An instruction leads to blocks of its function. -/
theorem Proper.target {x : BlockId} (present : code.block? b = some data)
    (member : instruction ∈ code.instructionsOf b) (leads : x ∈ instruction.op.successors) :
    ∃ data', code.block? x = some data' ∧ data'.func = data.func :=
  proper.targets b data instruction present (instructionsOf_of_block? present ▸ member) x leads

theorem Proper.lists : code.Listed :=
  fun func b => ⟨proper.listed func b, fun ⟨data, present, owned⟩ => owned ▸ proper.complete b data present⟩

/-- The function of a block is declared. -/
theorem Proper.declared (present : code.block? b = some data) :
    ∃ routine, code.routine? data.func = some routine := by
  have member := proper.complete b data present
  unfold blocksOf at member
  split at member
  · exact ⟨_, ‹_›⟩
  · cases member

end

namespace Proper

variable {code' : Recording} (proper : code.Proper)

include proper

theorem of_blocks (later : code.Extends code') (same : code'.blocks = code.blocks)
    (listed : ∀ func, code'.blocksOf func = code.blocksOf func) : code'.Proper := by
  obtain ⟨owned, complete, last, targets, indexed⟩ := proper
  have blocks : code'.block? = code.block? := funext fun _ => by rw [block?, block?, same]
  simp only [← listed, ← blocks] at owned complete last targets
  exact ⟨owned, complete, last, targets, later.indexed indexed⟩

theorem written (present : code.block? block = some data) (running : code.terminator? block = none)
    (targets : ∀ x ∈ op.successors, ∃ data', code.block? x = some data' ∧ data'.func = data.func) :
    (code.written block op).Proper := by
  have lists : (code.written block op).Listed := proper.lists.written
  refine ⟨fun func b => (lists func b).mp, fun b found present => (lists _ b).mpr ⟨found, present, rfl⟩,
    TerminatorsLast.written proper.last running, ?_, (extends_written ..).indexed proper.indexed⟩
  · intro b found' instruction present' member x successor
    obtain ⟨before, old, _, func, apart, same⟩ := written_block?_some present'
    have target : ∃ data', code.block? x = some data' ∧ data'.func = before.func := by
      by_cases here : b = block
      · subst here
        rw [same rfl, Array.toList_push, List.mem_append, List.mem_singleton] at member
        obtain member | rfl := member
        · exact proper.targets b before instruction old member x successor
        · rw [present, Option.some.injEq] at old
          subst old
          exact targets x successor
      · rw [apart here] at member
        exact proper.targets b before instruction old member x successor
    obtain ⟨_, there, owned⟩ := target
    obtain ⟨data'', there', _, func', _⟩ := (extends_written block op).block x _ there
    exact ⟨data'', there', func'.trans (owned.trans func.symm)⟩

theorem appendBlock (declared : code.routine? func = some routine) (label : String) :
    (code.appendBlock func label).2.Proper := by
  have lists : (code.appendBlock func label).2.Listed := proper.lists.appendBlock declared
  refine ⟨fun f b => (lists f b).mp, fun b data present => (lists _ b).mpr ⟨data, present, rfl⟩,
    TerminatorsLast.appendBlock proper.last func label, ?_, (extends_appendBlock ..).indexed proper.indexed⟩
  · intro b data instruction present member x successor
    obtain there | ⟨rfl, _⟩ := appendBlock_block?_cases present
    · obtain ⟨data', target, owned⟩ := proper.targets b data instruction there member x successor
      exact ⟨data', appendBlock_block?_of_some target, owned⟩
    · exact absurd member List.not_mem_nil

end Proper

end Recording

/-- What a piece of lowering in a region starts from and leaves behind: code in good shape, with
the cursor and the handlers in the function of the region. The exits of the open join points are
distinct empty blocks away from the cursor, each in the function of its join point. -/
structure Site.Valid (r : Region) (site : Site) : Prop where
  proper : site.code.Proper
  placed : ∃ c data, site.code.cursor = some c ∧ site.code.block? c = some data ∧
    data.func = r.func
  based : r.base ≤ site.joins.size
  handlers : ∀ h ∈ r.handlers, ∃ data, site.code.block? h = some data ∧ data.func = r.func ∧
    data.label = "rescue"
  exits : ∀ (i : Nat) (join : JoinPoint) x, site.joins[i]? = some join → join.exit = some x →
    site.code.cursor ≠ some x ∧ ∃ func, (r.base ≤ i → func = r.func) ∧
      site.code.block? x = some ⟨"merge", func, #[]⟩
  distinct : ∀ (i k : Nat) (join join' : JoinPoint) x, site.joins[i]? = some join →
    site.joins[k]? = some join' → join.exit = some x → join'.exit = some x → i = k

namespace Site.Valid

variable {r : Region} {code code' : Recording} {joins joins' : Array JoinPoint}

theorem placed_at {site : Site} {block : BlockId} (valid : site.Valid r)
    (atBlock : site.code.cursor = some block) :
    ∃ data, site.code.block? block = some data ∧ data.func = r.func := by
  obtain ⟨c, data, here, present, owned⟩ := valid.placed
  obtain rfl : block = c := Option.mem_unique atBlock here
  exact ⟨data, present, owned⟩

/-- Code that leaves other blocks alone keeps the exits as they are. -/
theorem frame (valid : Valid r ⟨code, joins⟩) (frame : code.Frame code') (proper : code'.Proper)
    (placed : ∃ c data, code'.cursor = some c ∧ code'.block? c = some data ∧ data.func = r.func) :
    Valid r ⟨code', joins⟩ where
  proper := proper
  placed := placed
  based := valid.based
  handlers h member := by
    obtain ⟨data, present, owned, named⟩ := valid.handlers h member
    obtain ⟨data', present', label, func, _⟩ := frame.later.block h data present
    exact ⟨data', present', func.trans owned, label.trans named⟩
  exits i join x opened exits := by
    obtain ⟨apart, func, owned, present⟩ := valid.exits i join x opened exits
    have old := block?_eq_some_lt present
    refine ⟨fun here => ?_, func, owned, (frame.others x old apart).trans present⟩
    obtain stays | ⟨_, moves, new⟩ := frame.cursor
    · exact apart (stays.symm.trans here)
    · rw [moves, Option.some.injEq] at here
      exact absurd old (Nat.not_lt.mpr (here ▸ new))
  distinct := valid.distinct

variable {b block exit x : BlockId} {join : JoinPoint} {i : Nat} {cond : ValueId}
  {arm : ValueId × BlockId}

section

variable (valid : Valid r ⟨code, joins⟩)

include valid

theorem exit_lt (opened : joins[i]? = some join) (exits : join.exit = some x) :
    x.index < code.blocks.size := by
  obtain ⟨_, _, _, present⟩ := valid.exits i join x opened exits
  exact block?_eq_some_lt present

theorem exit_block? (inside : r.base ≤ i) (opened : joins[i]? = some join)
    (exits : join.exit = some x) : code.block? x = some ⟨"merge", r.func, #[]⟩ := by
  obtain ⟨_, _, owned, present⟩ := valid.exits i join x opened exits
  exact owned inside ▸ present

theorem cursor_ne_new (atBlock : code.cursor = some block) : ⟨code.blocks.size⟩ ≠ block := by
  rintro rfl
  obtain ⟨_, _, here, present, _⟩ := valid.placed
  rw [atBlock, Option.some.injEq] at here
  subst here
  exact Nat.lt_irrefl _ (block?_eq_some_lt present)

theorem of_blocks (frame : code.Frame code') (proper : code'.Proper)
    (stays : code'.cursor = code.cursor) (same : code'.blocks = code.blocks) : Valid r ⟨code', joins⟩ := by
  obtain ⟨c, data, here, present, owned⟩ := valid.placed
  refine valid.frame frame proper ⟨c, data, stays.trans here, ?_, owned⟩
  rw [block?, same]
  exact present

/-- The cursor may move to another block of the function that is no exit. -/
theorem position {data : BasicBlock} (present : code.block? b = some data)
    (owned : data.func = r.func)
    (apart : ∀ (i : Nat) (join : JoinPoint), joins[i]? = some join → join.exit ≠ some b) :
    Valid r ⟨code.position b, joins⟩ where
  proper := valid.proper.of_blocks (extends_position b) rfl fun _ => rfl
  placed := ⟨b, data, rfl, present, owned⟩
  __ := valid
  exits i join x opened exits := by
    refine ⟨fun here => ?_, (valid.exits i join x opened exits).2⟩
    exact apart i join opened (exits.trans here.symm)

/-- An operation without successors may be put at the cursor. -/
theorem written {op : Operation} (atBlock : code.cursor = some block)
    (running : code.terminator? block = none)
    (targets : ∀ x ∈ op.successors, ∃ data, code.block? x = some data ∧ data.func = r.func) :
    Valid r ⟨code.written block op, joins⟩ := by
  obtain ⟨_, _, here, present, owned⟩ := valid.placed
  rw [atBlock, Option.some.injEq] at here
  subst here
  refine valid.frame (.written atBlock running)
    (valid.proper.written present running fun x member => owned ▸ targets x member) ?_
  exact ⟨block, _, atBlock, written_block?_self present, owned⟩

/-- A new block may be added to the function. -/
theorem appendBlock (label : String) : Valid r ⟨(code.appendBlock r.func label).2, joins⟩ := by
  obtain ⟨c, data, here, present, owned⟩ := valid.placed
  obtain ⟨_, declared⟩ := valid.proper.declared present
  exact valid.frame (.appendBlock r.func label) (valid.proper.appendBlock (owned ▸ declared) label)
    ⟨c, data, here, appendBlock_block?_of_some present, owned⟩

/-- A path may end in a join point; an exit that it opens is a new empty block. -/
theorem reached (opened : joins[i]? = some join)
    (exits : join.exit = some exit ∨ (code.cursor ≠ some exit ∧ code.block? exit = some ⟨"merge", r.func, #[]⟩) ∧ ∀ (k : Nat) (other : JoinPoint), joins[k]? = some other → other.exit ≠ some exit) :
    Valid r ⟨code, joins.setIfInBounds i (join.reached exit arm)⟩ := by
  have cases : ∀ {k : Nat} {found : JoinPoint} {x : BlockId},
      (joins.setIfInBounds i (join.reached exit arm))[k]? = some found → found.exit = some x →
      (k = i ∧ x = exit) ∨ (k ≠ i ∧ joins[k]? = some found) := by
    intro k found x present reaches
    obtain ⟨rfl, rfl⟩ | ⟨same, present⟩ := getElem?_set_cases present
    · exact .inl ⟨rfl, (Option.some.inj reaches).symm⟩
    · exact .inr ⟨same, present⟩
  -- no other join point has the same exit
  have apart : ∀ {k : Nat} {found : JoinPoint}, k ≠ i → joins[k]? = some found →
      found.exit ≠ some exit := by
    intro k found other present same
    obtain old | ⟨_, fresh⟩ := exits
    · exact other (valid.distinct k i found join exit present opened same old)
    · exact fresh k found present same
  refine ⟨valid.proper, valid.placed, ?_, valid.handlers, ?_, ?_⟩
  · simpa using valid.based
  · intro k found x present reaches
    obtain ⟨rfl, rfl⟩ | ⟨_, present⟩ := cases present reaches
    · obtain old | ⟨⟨away, block⟩, _⟩ := exits
      · exact valid.exits k join x opened old
      · exact ⟨away, r.func, fun _ => rfl, block⟩
    · exact valid.exits k found x present reaches
  · intro k l found other x present present' reaches reaches'
    obtain ⟨rfl, rfl⟩ | ⟨away, old⟩ := cases present reaches <;>
      obtain ⟨rfl, _⟩ | ⟨away', old'⟩ := cases present' reaches'
    · rfl
    · exact absurd reaches' (apart away' old')
    · rename_i same
      exact absurd (same ▸ reaches) (apart away old)
    · exact valid.distinct k l found other x old old' reaches reaches'

/-- The innermost join point may be opened. -/
theorem push {ty : Ty} {machineType : MachineType} {needsValue : Bool} :
    Valid r ⟨code, joins.push (.fresh ty machineType needsValue)⟩ := by
  have old : ∀ {k : Nat} {found : JoinPoint} {x : BlockId},
      (joins.push (.fresh ty machineType needsValue))[k]? = some found → found.exit = some x →
      joins[k]? = some found := by
    intro k found x present reaches
    obtain ⟨_, rfl⟩ | present := getElem?_push_cases present
    · cases reaches
    · exact present
  refine ⟨valid.proper, valid.placed, ?_, valid.handlers, ?_, ?_⟩
  · exact Nat.le_trans valid.based (by simp)
  · intro k found x present reaches
    exact valid.exits k found x (old present reaches) reaches
  · intro k l found other x present present' reaches reaches'
    exact valid.distinct k l found other x (old present reaches) (old present' reaches')
      reaches reaches'

end

section

variable (valid : Valid r ⟨code, joins.push join⟩) (inside : r.base ≤ joins.size)

include valid inside

/-- The innermost join point may be closed, if it belongs to the function. -/
theorem pop : Valid r ⟨code, joins⟩ := by
  refine ⟨valid.proper, valid.placed, inside, valid.handlers, ?_, ?_⟩
  · intro k found x present reaches
    exact valid.exits k found x (getElem?_push_of_some present) reaches
  · intro k l found other x present present' reaches reaches'
    exact valid.distinct k l found other x (getElem?_push_of_some present)
      (getElem?_push_of_some present') reaches reaches'

/-- The exit of the innermost join point may be entered when it is closed. -/
theorem entered (exits : join.exit = some exit) : Valid r ⟨join.entered code exit, joins⟩ := by
  have present := valid.exit_block? inside Array.getElem?_push_size exits
  have positioned : Valid r ⟨code.position exit, joins⟩ := by
    refine (valid.pop inside).position present rfl fun k found present' same => ?_
    have small := (Array.getElem?_eq_some_iff.mp present').1
    exact Nat.ne_of_lt small (valid.distinct k joins.size found join exit
      (getElem?_push_of_some present') Array.getElem?_push_size same exits)
  unfold JoinPoint.entered
  split
  · refine positioned.written rfl ?_ (List.forall_mem_nil _)
    rw [terminator?, position_block?, present]
    rfl
  · exact positioned

end

variable (valid : Valid r ⟨code, joins⟩)

include valid

/-- A block that was just added is no exit. -/
theorem exit_ne_new (opened : joins[i]? = some join) (new : code.blocks.size ≤ b.index) :
    join.exit ≠ some b :=
  fun exits => Nat.not_lt.mpr new (valid.exit_lt opened exits)

/-- A block added on the way is no exit, unless it was added by a jump. -/
theorem exit_ne_skipped {limit : Nat} (advance : JoinsAdvance r.base limit joins joins')
    (opened : joins'[i]? = some join) (new : code.blocks.size ≤ b.index)
    (skipped : b.index < limit) : join.exit ≠ some b := by
  intro exits
  obtain ⟨_, opened', exits'⟩ | late := advance.exit_cases opened exits
  · exact valid.exit_ne_new opened' new exits'
  · exact absurd skipped (Nat.not_lt.mpr late)

/-- Another block of the function may become a handler, and handlers may be dropped. -/
theorem withHandlers {handlers : List BlockId}
    (present : ∀ h ∈ handlers, ∃ data, code.block? h = some data ∧ data.func = r.func ∧
      data.label = "rescue") : Valid { r with handlers := handlers } ⟨code, joins⟩ :=
  ⟨valid.proper, valid.placed, valid.based, present, valid.exits, valid.distinct⟩

/-- A new block may be the innermost handler. -/
theorem handling : Valid { r with handlers := ⟨code.blocks.size⟩ :: r.handlers }
      ⟨(code.appendBlock r.func "rescue").2, joins⟩ := by
  have opened := valid.appendBlock "rescue"
  refine opened.withHandlers fun h member => ?_
  obtain rfl | member := List.mem_cons.mp member
  · exact ⟨_, appendBlock_block?_new, rfl, rfl⟩
  · exact opened.handlers h member

variable {r' : Region}

/-- A handler stays empty until its body has been lowered. -/
theorem handler_block?
    (advance : Advance r' ⟨(code.appendBlock r.func "rescue").2, joins⟩ ⟨code', joins'⟩) :
    code'.block? ⟨code.blocks.size⟩ = some ⟨"rescue", r.func, #[]⟩ := by
  have fresh : (code.appendBlock r.func "rescue").2.block? ⟨code.blocks.size⟩ =
      some ⟨"rescue", r.func, #[]⟩ := appendBlock_block?_new
  rw [← fresh]
  exact advance.code.others _ (block?_eq_some_lt fresh)
    fun here => valid.cursor_ne_new here rfl

variable (atBlock : code.cursor = some block)

include atBlock

theorem invoked {handler : BlockId} {func : FuncId} {args : List ValueId} {conv : Option CallConv}
    (handled : handler ∈ r.handlers) (running : code.terminator? block = none) :
    Valid r ⟨code.invoked r.func block handler func args conv, joins⟩ := by
  have opened := valid.appendBlock "invoke_out"
  have fresh : (code.appendBlock r.func "invoke_out").2.block? ⟨code.blocks.size⟩ =
      some ⟨"invoke_out", r.func, #[]⟩ := appendBlock_block?_new
  have ended : Valid r ⟨(code.appendBlock r.func "invoke_out").2.written block
      (.invoke func args ⟨code.blocks.size⟩ handler conv), joins⟩ := by
    refine opened.written atBlock (appendBlock_terminator?.trans running) ?_
    intro x member
    obtain rfl | member := List.mem_cons.mp member
    · exact ⟨_, fresh, rfl⟩
    · rw [List.mem_singleton.mp member]
      obtain ⟨data, present, owned, _⟩ := opened.handlers handler handled
      exact ⟨data, present, owned⟩
  refine ended.position ((written_block?_other (valid.cursor_ne_new atBlock)).trans fresh)
    rfl fun _ _ found => valid.exit_ne_new found (Nat.le_refl _)

/-- Where control goes when a guard does not hold. -/
theorem branched_next :
    (code.branched r.func block cond).block? ⟨code.blocks.size + 1⟩ =
      some ⟨"next_def", r.func, #[]⟩ := by
  have size : (code.appendBlock r.func "current_def").2.blocks.size = code.blocks.size + 1 :=
    appendBlock_blocks_size
  rw [branched, position_block?, written_block?_other, ← size]
  · exact appendBlock_block?_new
  · rw [← size]
    exact (valid.appendBlock "current_def").cursor_ne_new atBlock

theorem branched_current :
    (code.branched r.func block cond).block? ⟨code.blocks.size⟩ =
      some ⟨"current_def", r.func, #[]⟩ := by
  rw [branched, position_block?,
    written_block?_other (valid.cursor_ne_new atBlock)]
  exact appendBlock_block?_of_some appendBlock_block?_new

/-- The block for the next candidate stays empty until the branch has been lowered. -/
theorem next_block?
    (advance : Advance r' ⟨code.branched r.func block cond, joins⟩ ⟨code', joins'⟩) :
    code'.block? ⟨code.blocks.size + 1⟩ = some ⟨"next_def", r.func, #[]⟩ := by
  have fresh : (code.branched r.func block cond).block? ⟨code.blocks.size + 1⟩ =
      some ⟨"next_def", r.func, #[]⟩ := valid.branched_next atBlock
  rw [← fresh]
  refine advance.code.others _ (block?_eq_some_lt fresh) fun here => ?_
  exact Nat.succ_ne_self _ (congrArg BlockId.index (Option.some.inj here)).symm

theorem branched (running : code.terminator? block = none) :
    Valid r ⟨code.branched r.func block cond, joins⟩ := by
  have opened := (valid.appendBlock "current_def").appendBlock "next_def"
  have size : (code.appendBlock r.func "current_def").2.blocks.size = code.blocks.size + 1 :=
    appendBlock_blocks_size
  have current : ((code.appendBlock r.func "current_def").2.appendBlock r.func "next_def").2.block?
      ⟨code.blocks.size⟩ = some ⟨"current_def", r.func, #[]⟩ :=
    appendBlock_block?_of_some appendBlock_block?_new
  have ended : Valid r ⟨((code.appendBlock r.func "current_def").2.appendBlock r.func
      "next_def").2.written block (.condBr cond ⟨code.blocks.size⟩ ⟨code.blocks.size + 1⟩),
      joins⟩ := by
    refine opened.written atBlock (appendBlock_terminator?.trans
      (appendBlock_terminator?.trans running)) ?_
    intro x member
    obtain rfl | member := List.mem_cons.mp member
    · exact ⟨_, current, rfl⟩
    · rw [List.mem_singleton.mp member, ← size]
      exact ⟨_, appendBlock_block?_new, rfl⟩
  refine ended.position
    ((written_block?_other (valid.cursor_ne_new atBlock)).trans current) rfl
    fun _ _ found => valid.exit_ne_new found (Nat.le_refl _)

theorem arrive (opened : joins[i]? = some join) (running : code.terminator? block = none) :
    Valid r ⟨(code.appendBlock r.func "merge").2.written block (.br ⟨code.blocks.size⟩),
      joins.setIfInBounds i (join.reached ⟨code.blocks.size⟩ arm)⟩ := by
  have apart := valid.cursor_ne_new atBlock
  have fresh : (code.appendBlock r.func "merge").2.block? ⟨code.blocks.size⟩ =
      some ⟨"merge", r.func, #[]⟩ := appendBlock_block?_new
  have ended : Valid r ⟨(code.appendBlock r.func "merge").2.written block
      (.br ⟨code.blocks.size⟩), joins⟩ := by
    refine (valid.appendBlock "merge").written atBlock
      (appendBlock_terminator?.trans running) fun _ member => ?_
    rw [List.mem_singleton.mp member]
    exact ⟨_, fresh, rfl⟩
  refine ended.reached opened (.inr ⟨⟨?_, ?_⟩, ?_⟩)
  · intro here
    exact apart (Option.mem_unique atBlock here).symm
  · exact (written_block?_other apart).trans fresh
  · exact fun _ _ found => valid.exit_ne_new found (Nat.le_refl _)

end Site.Valid

namespace Recording

variable {code code' : Recording} {func : FuncId} {params : List ValueId}

theorem Proper.declare (proper : code.Proper) (decl : FnDecl) : (code.declare decl).2.Proper :=
  proper.of_blocks (extends_declare decl) declare_blocks fun _ => declare_blocksOf

/-- A new function body starts in good shape, at an empty block of the function. -/
theorem Proper.beginRoutine (proper : code.Proper)
    (begun : Emit.beginRoutine func code = .ok params code') :
    code'.Proper ∧ code'.cursor = some ⟨code.blocks.size⟩ ∧
      code'.block? ⟨code.blocks.size⟩ = some ⟨"entry", func, #[]⟩ := by
  obtain ⟨atEntry, there, _⟩ := beginRoutine_entry begun
  refine ⟨?_, atEntry, there⟩
  obtain ⟨_, _, _, _, later, blocks, listed, routines, _, rfl⟩ := beginRoutine_ok begun
  have named := (proper.of_blocks later blocks listed).appendBlock ((routines func).trans (if_pos rfl))
  exact (named "entry").of_blocks (extends_position _) rfl fun _ => rfl

end Recording

variable {joins : Array JoinPoint} {code : Recording} {func : FuncId} {params : List ValueId}
  {ret : MachineType} {r : Region}

theorem Site.Valid.declare (valid : Valid r ⟨code, joins⟩) (decl : FnDecl) :
    Valid r ⟨(code.declare decl).2, joins⟩ :=
  valid.of_blocks (frame_declare decl) (valid.proper.declare decl)
    declare_cursor declare_blocks

/-- The body of a function starts in good shape. -/
theorem Site.Valid.entry {code' : Recording} {decl : FnDecl} (proper : code.Proper)
    (begun : Emit.beginRoutine func (code.declare decl).2 = .ok params code') :
    Valid ⟨func, [], 0, ret⟩ ⟨code', #[]⟩ := by
  obtain ⟨proper', here, present⟩ := (proper.declare decl).beginRoutine begun
  exact ⟨proper', ⟨_, _, here, present, rfl⟩, Nat.le_refl _, List.forall_mem_nil _, nofun, nofun⟩

/-- The body of a closure starts in good shape. -/
theorem Site.Valid.enter {code' : Recording} (valid : Valid r ⟨code, joins⟩)
    (begun : Emit.beginRoutine func code = .ok params code') :
    Valid ⟨func, [], joins.size, ret⟩ ⟨code', joins⟩ := by
  obtain ⟨proper', here, present⟩ := valid.proper.beginRoutine begun
  refine ⟨proper', ⟨_, _, here, present, rfl⟩, Nat.le_refl _, List.forall_mem_nil _, ?_,
    valid.distinct⟩
  intro i join x opened exits
  obtain ⟨_, owner, _, there⟩ := valid.exits i join x opened exits
  have old := block?_eq_some_lt there
  refine ⟨fun same => ?_, owner, fun inside => ?_, (beginRoutine_block?_old begun old).trans there⟩
  · rw [← Option.mem_unique here same] at old
    exact Nat.lt_irrefl _ old
  · exact absurd (Array.getElem?_eq_some_iff.mp opened).1 (Nat.not_lt.mpr inside)

/-- The function of a closure leaves the block at the cursor as it is. -/
theorem Site.Valid.closure_block? {entry code1 : Recording} {joins1 : Array JoinPoint}
    {block : BlockId} (valid : Valid r ⟨code, joins⟩)
    (begun : Emit.beginRoutine func code = .ok params entry) (atBlock : code.cursor = some block)
    (advance : Advance ⟨func, [], joins.size, ret⟩ ⟨entry, joins⟩ ⟨code1, joins1⟩) :
    code1.block? block = code.block? block := by
  obtain ⟨_, here, _⟩ := valid.proper.beginRoutine begun
  obtain ⟨c, _, atCursor, present, _⟩ := valid.placed
  obtain rfl : block = c := Option.mem_unique atBlock atCursor
  have old := block?_eq_some_lt present
  have later := (frame_beginRoutine begun).later
  rw [← beginRoutine_block?_old begun old]
  refine advance.code.others block (Nat.lt_of_lt_of_le old later.blocks) fun same => ?_
  rw [here, Option.some.injEq] at same
  exact valid.cursor_ne_new atBlock same

/-- A piece of lowering keeps the recording in good shape. -/
theorem Builds.valid {rules : Rules} {effect : Effect} {known known' : Known} {site site' : Site}
    (built : Builds rules r effect known site known' site') (valid : site.Valid r) :
    site'.Valid r := by
  induction built with
  | refl => exact valid
  | trans _ _ ihFirst ihSecond => exact ihSecond (ihFirst valid)
  | untraced _ _ ih => exact ih valid
  | dead => exact valid
  | constant constant =>
    exact valid.of_blocks (.of_blocks (extends_addConstant constant) rfl rfl)
      (valid.proper.of_blocks (extends_addConstant constant) rfl fun _ => rfl) rfl rfl
  | global name =>
    exact valid.of_blocks (frame_addGlobal name)
      (valid.proper.of_blocks (extends_addGlobal name) addGlobal_blocks fun _ => addGlobal_blocksOf)
      addGlobal_cursor addGlobal_blocks
  | declare decl => exact valid.declare decl
  | write straight _ _ atBlock running =>
    refine valid.written atBlock running fun x member => ?_
    rw [Operation.successors_of_isStraight straight] at member
    exact absurd member List.not_mem_nil
  | invoke _ handled _ atBlock running _ =>
    exact valid.invoked atBlock (List.mem_of_head? handled) running
  | land _ inside opened exits atBlock running _ =>
    refine (valid.written atBlock running fun _ member => ?_).reached opened (.inl exits)
    rw [List.mem_singleton.mp member]
    exact ⟨_, valid.exit_block? inside opened exits, rfl⟩
  | arrive _ _ opened _ atBlock running _ => exact valid.arrive atBlock opened running
  | unreached _ body _ _ ih =>
    have advance := (body.advance valid.push.based).joins.pop valid.based
    exact (ih valid.push).pop (advance.size ▸ valid.based)
  | reached _ body exits _ ih =>
    have advance := (body.advance valid.push.based).joins.pop valid.based
    exact (ih valid.push).entered (advance.size ▸ valid.based) exits
  | @handle r _ _ _ code code1 _ _ _ body _ ih =>
    have inner := ih valid.handling
    have advance := body.advance valid.based
    have there := valid.handler_block? advance
    have back : Site.Valid r ⟨code1, _⟩ :=
      inner.withHandlers (List.forall_mem_cons.mp inner.handlers).2
    refine (back.position there rfl fun i join found => ?_).written rfl ?_ ?_
    · refine valid.exit_ne_skipped advance.joins found (Nat.le_refl _) ?_
      rw [appendBlock_blocks_size]
      exact Nat.lt_succ_self _
    · rw [terminator?, position_block?, there]
      rfl
    · exact List.forall_mem_nil _
  | branch _ _ atBlock running body _ ih =>
    have advance := body.advance valid.based
    refine (ih (valid.branched atBlock running)).position (valid.next_block? atBlock advance) rfl
      fun _ _ found => ?_
    exact valid.exit_ne_skipped advance.joins found (Nat.le_succ _)
      (block?_eq_some_lt (valid.branched_next atBlock))
  | @closure _ _ _ _ code _ _ _ _ decl _ _ block _ _ _ begun atBlock body _ ih =>
    replace valid := valid.declare decl
    replace atBlock : (code.declare decl).2.cursor = some block :=
      declare_cursor.trans atBlock
    have inner := ih (valid.enter begun)
    have advance := body.advance (Nat.le_refl _)
    obtain rfl := advance.joins.eq_of_base
    have frame := (frame_beginRoutine begun).trans advance.code
    obtain ⟨_, data, here, there, owned⟩ := valid.placed
    rw [atBlock, Option.some.injEq] at here
    subst here
    obtain ⟨data', there', _, func', _⟩ := frame.later.block _ data there
    exact valid.frame (frame.resume atBlock)
      (inner.proper.of_blocks (extends_position _) rfl fun _ => rfl)
      ⟨_, data', rfl, there', func'.trans owned⟩

end CallLowering
