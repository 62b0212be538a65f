import CallLowering.Proofs.Functions
import CallLowering.Proofs.Walking

/-!
# Values are available where they are used

On every path through a function, an instruction reads constants, addresses of variables of the
module, parameters and storage of its own function, and values that were computed earlier on the
path.

The proof assigns to every block a set of values that have been computed whenever the block is
entered. Such an assignment justifies recorded code if it fits with every edge and with everything
an instruction reads (`Recording.Justified`). Every piece of lowering extends it to the blocks that
it adds (`Builds.justified`); the exit of a join point gets what was known when the join point was
opened.
-/

namespace CallLowering

open Recording

variable {passed : List BlockId} {params : List ValueId}

namespace Recording

variable {code code' : Recording} {b block : BlockId} {op : Operation}

/-! ## Paths -/

/-- The values that the instructions of a block compute. -/
def computedIn (code : Recording) (b : BlockId) : Known :=
  {v | ∃ instruction ∈ code.instructionsOf b, instruction.result = some v}

/-- The values that the instructions before a place compute in its block. -/
def computedBefore (code : Recording) (spot : Spot) : Known :=
  {v | ∃ instruction ∈ (code.instructionsOf spot.block).take spot.index,
    instruction.result = some v}

/-- The blocks that control may go to at the end of a block. -/
def successorsOf (code : Recording) (b : BlockId) : List BlockId :=
  match code.terminator? b with
  | some op => op.successors
  | none => []

/-- A path from the entry of a function into a block, with the blocks that it has passed, the last
one first. -/
inductive Route (code : Recording) (func : FuncId) : List BlockId → BlockId → Prop where
  | entry {b : BlockId} {rest : List BlockId} (starts : code.blocksOf func = b :: rest) :
      Route code func [] b
  | step {passed : List BlockId} {b b' : BlockId} (route : Route code func passed b)
      (leads : b' ∈ code.successorsOf b) : Route code func (b :: passed) b'

/-- The values computed in some blocks. -/
def computedOn (code : Recording) (passed : List BlockId) : Known :=
  {v | ∃ b ∈ passed, v ∈ code.computedIn b}

instance (code : Recording) (b : BlockId) (v : ValueId) : Decidable (v ∈ code.computedIn b) :=
  inferInstanceAs (Decidable (∃ instruction ∈ code.instructionsOf b, instruction.result = some v))

instance (code : Recording) (spot : Spot) (v : ValueId) :
    Decidable (v ∈ code.computedBefore spot) :=
  inferInstanceAs (Decidable (∃ instruction ∈ (code.instructionsOf spot.block).take spot.index,
    instruction.result = some v))

instance (code : Recording) (passed : List BlockId) (v : ValueId) :
    Decidable (v ∈ code.computedOn passed) :=
  inferInstanceAs (Decidable (∃ b ∈ passed, v ∈ code.computedIn b))

/-- What is there for a function at the end of a block. -/
def offered (code : Recording) (rules : Rules) (before : BlockId → Known) (func : FuncId)
    (b : BlockId) : Known :=
  {v | rules.Usable func (before b ∪ code.computedIn b) code v}

/-- What has to be computed at the targets of an operation has been computed at its place, and so has
what it reads. -/
structure Supplied (code : Recording) (rules : Rules) (before : BlockId → Known) (func : FuncId)
    (spot : Spot) (op : Operation) : Prop where
  edges : ∀ x ∈ op.successors,
    before x ⊆ before spot.block ∪ code.computedBefore ⟨spot.block, spot.index + 1⟩
  allowed : rules.Allows func (before spot.block ∪ code.computedBefore spot) code op
  arms : ∀ v p, (v, p) ∈ op.arms → p.index < code.blocks.size ∧ v ∈ code.offered rules before func p

/-- An assignment of values to blocks that have been computed whenever the block is entered: nothing
at the entry of a function, and elsewhere what has been computed on every edge. Instructions read
nothing else. -/
structure Justified (code : Recording) (rules : Rules) (before : BlockId → Known) : Prop where
  entries : ∀ func b rest, code.blocksOf func = b :: rest → before b = ∅
  supplied : ∀ b data i instruction, code.block? b = some data →
    code.instructionAt? ⟨b, i⟩ = some instruction →
    code.Supplied rules before data.func ⟨b, i⟩ instruction.op

/-- Assignments are equal on the blocks of recorded code. -/
def Agree (code : Recording) (before before' : BlockId → Known) : Prop :=
  ∀ b : BlockId, b.index < code.blocks.size → before' b = before b

variable {rules : Rules} {before before' : BlockId → Known} {func : FuncId}

namespace Agree

theorem refl (code : Recording) (before : BlockId → Known) : code.Agree before before :=
  fun _ _ => rfl

theorem update (known : Known) (new : code.blocks.size ≤ b.index) :
    code.Agree before (Function.update before b known) :=
  fun x inside => Function.update_of_ne (fun same : x = b => Nat.not_lt.mpr new (same ▸ inside)) _ _

theorem trans {before₁ : BlockId → Known} (first : code.Agree before before₁)
    (later : code.Extends code') (second : code'.Agree before₁ before') : code.Agree before before' :=
  fun b inside => (second b (Nat.lt_of_lt_of_le inside later.blocks)).trans (first b inside)

end Agree

section

variable (later : code.Extends code')

include later

theorem Extends.computedIn (b : BlockId) : code.computedIn b ⊆ code'.computedIn b := by
  rintro v ⟨instruction, member, result⟩
  exact ⟨instruction, (later.instructionsOf b).subset member, result⟩

theorem Extends.computedBefore (spot : Spot) :
    code.computedBefore spot ⊆ code'.computedBefore spot := by
  rintro v ⟨instruction, member, result⟩
  obtain ⟨_, longer⟩ := later.instructionsOf spot.block
  refine ⟨instruction, ?_, result⟩
  rw [← longer, List.take_append]
  exact List.mem_append_left _ member

theorem Extends.offered (same : before' b = before b) :
    code.offered rules before func b ⊆ code'.offered rules before' func b := by
  intro v usable
  rw [Recording.offered, same]
  exact usable.mono (Set.union_subset_union_right _ (later.computedIn b)) later

end

theorem Supplied.later {spot : Spot} (supplied : code.Supplied rules before func spot op)
    (later : code.Extends code') (agree : code.Agree before before')
    (here : before' spot.block = before spot.block)
    (targets : ∀ x ∈ op.successors, before' x = before x) :
    code'.Supplied rules before' func spot op where
  edges x successor := by
    rw [targets x successor, here]
    exact (supplied.edges x successor).trans (Set.union_subset_union_right _ (later.computedBefore _))
  allowed := by
    rw [here]
    exact supplied.allowed.mono (Set.union_subset_union_right _ (later.computedBefore spot)) later
  arms v p arm := by
    obtain ⟨inside, usable⟩ := supplied.arms v p arm
    exact ⟨Nat.lt_of_lt_of_le inside later.blocks, later.offered (agree p inside) usable⟩

theorem exists_of_successorsOf {b' : BlockId} (leads : b' ∈ code.successorsOf b) :
    ∃ instruction ∈ code.instructionsOf b, b' ∈ instruction.op.successors := by
  unfold successorsOf at leads
  split at leads
  · rename_i op ends
    obtain ⟨instruction, member, rfl⟩ := exists_of_terminator? ends
    exact ⟨instruction, member, leads⟩
  · cases leads

/-- What has been computed on a path contains what the assignment says of its block. -/
theorem Justified.route (justified : code.Justified rules before) (route : code.Route func passed b) :
    before b ⊆ code.computedOn passed := by
  induction route with
  | entry starts =>
    rw [justified.entries func _ _ starts]
    exact Set.empty_subset _
  | @step passed b b' _ leads ih =>
    obtain ⟨instruction, member, successor⟩ := exists_of_successorsOf leads
    obtain ⟨data, present, _⟩ := block?_of_mem_instructionsOf member
    obtain ⟨i, found⟩ := List.getElem?_of_mem member
    intro v needed
    obtain known | ⟨computing, inside, result⟩ :=
      (justified.supplied b data i instruction present found).edges b' successor needed
    · obtain ⟨p, passes, computed⟩ := ih known
      exact ⟨p, List.mem_cons_of_mem _ passes, computed⟩
    · exact ⟨b, List.mem_cons_self, computing, List.mem_of_mem_take inside, result⟩

/-! ## Recording keeps code justified -/

namespace Justified

variable (justified : code.Justified rules before)

include justified

theorem of_blocks (later : code.Extends code') (same : code'.blocks = code.blocks)
    (listed : ∀ func, code'.blocksOf func = code.blocksOf func) : code'.Justified rules before where
  entries func b rest starts := justified.entries func b rest ((listed func).symm.trans starts)
  supplied b data i instruction present found := by
    have blocks : code'.block? b = code.block? b := by rw [block?, block?, same]
    rw [blocks] at present
    rw [instructionAt?, instructionsOf_congr blocks] at found
    exact (justified.supplied b data i instruction present found).later later (.refl _ _) rfl
      fun _ _ => rfl

theorem written {data : BasicBlock} (present : code.block? block = some data)
    (edges : ∀ x ∈ op.successors, before x ⊆ before block ∪ (code.written block op).computedIn block)
    (allowed : rules.Allows data.func (before block ∪ code.computedIn block) code op)
    (arms : ∀ v p, (v, p) ∈ op.arms → p.index < code.blocks.size ∧
      v ∈ code.offered rules before data.func p) : (code.written block op).Justified rules before where
  entries := justified.entries
  supplied b data' i instruction present' found := by
    have later : code.Extends (code.written block op) := extends_written block op
    obtain ⟨old, present'', _, func, _⟩ := written_block?_some present'
    rw [func]
    change ((code.written block op).instructionsOf b)[i]? = some instruction at found
    obtain found | ⟨rfl, rfl, rfl⟩ := written_instructionsOf_getElem? found
    · exact (justified.supplied b old i instruction present'' found).later later (.refl _ _) rfl
        fun _ _ => rfl
    · obtain rfl := Option.mem_unique present present''
      refine ⟨fun x successor => (edges x successor).trans (Set.union_subset_union_right _ ?_),
        allowed.mono (Set.union_subset_union_right _ ?_) later, fun v p arm => ?_⟩
      · rintro _ ⟨computing, member, result⟩
        refine ⟨computing, ?_, result⟩
        rwa [List.take_of_length_le]
        rw [written_instructionsOf_self present, List.length_append]
        exact le_rfl
      · rintro _ ⟨computing, member, result⟩
        refine ⟨computing, ?_, result⟩
        rw [written_instructionsOf_self present, List.take_left]
        exact member
      · obtain ⟨inside, usable⟩ := arms v p arm
        exact ⟨written_blocks_size.symm ▸ inside, later.offered rfl usable⟩

/-- A new block may be assigned anything, unless it is the entry of its function. -/
theorem appendBlock (proper : code.Proper) (label : String) {known : Known}
    (later : code.blocksOf func ≠ [] ∨ known = ∅) : (code.appendBlock func label).2.Justified rules
      (Function.update before ⟨code.blocks.size⟩ known) := by
  have agree : code.Agree before (Function.update before ⟨code.blocks.size⟩ known) :=
    .update known (Nat.le_refl _)
  refine ⟨?_, ?_⟩
  · intro f b rest starts
    rw [appendBlock_blocksOf] at starts
    split at starts
    · rename_i here
      obtain ⟨rfl, _⟩ := here
      cases blocks : code.blocksOf func with
      | nil =>
        rw [blocks] at starts
        cases starts
        rw [Function.update_self]
        exact later.resolve_left fun begun => begun blocks
      | cons first others =>
        rw [blocks] at starts
        cases starts
        obtain ⟨data, present, _⟩ := proper.listed func b (blocks ▸ List.mem_cons_self)
        rw [agree b (block?_eq_some_lt present)]
        exact justified.entries func b others blocks
    · obtain ⟨data, present, _⟩ := proper.listed f b (starts ▸ List.mem_cons_self)
      rw [agree b (block?_eq_some_lt present)]
      exact justified.entries f b rest starts
  · intro b data i instruction present found
    rw [instructionAt?, appendBlock_instructionsOf] at found
    obtain ⟨_, present', member⟩ := block?_of_mem_instructionsOf (List.mem_of_getElem? found)
    rw [appendBlock_block?_of_some present'] at present
    cases present
    refine (justified.supplied b data i instruction present' found).later
      (extends_appendBlock func label) agree (agree b (block?_eq_some_lt present'))
      fun x successor => ?_
    obtain ⟨_, target, _⟩ := proper.targets b data instruction present' member x successor
    exact agree x (block?_eq_some_lt target)

theorem declare (decl : FnDecl) : (code.declare decl).2.Justified rules before :=
  justified.of_blocks (extends_declare decl) declare_blocks fun _ => declare_blocksOf

/-- Nothing has been computed when a function is entered. -/
theorem beginRoutine (proper : code.Proper) (begun : Emit.beginRoutine func code = .ok params code') :
    code'.Justified rules (Function.update before ⟨code.blocks.size⟩ ∅) := by
  obtain ⟨_, _, _, _, later, blocks, listed, _, _, rfl⟩ := beginRoutine_ok begun
  have named := justified.of_blocks later blocks listed
  rw [← blocks]
  exact (named.appendBlock (proper.of_blocks later blocks listed) "entry" (.inr rfl)).of_blocks
    (extends_position _) rfl fun _ => rfl

end Justified

end Recording

/-! ## While a function is lowered -/

variable {rules : Rules} {before : BlockId → Known} {code code' : Recording} {b exit : BlockId}
  {func : FuncId}

/-- Recorded code is justified while a function is lowered. The exit of an open join point is
assigned the floor of the join point, what was known when it was opened. -/
structure Site.Justified (rules : Rules) (r : Region) (floor : Nat → Known)
    (before : BlockId → Known) (site : Site) : Prop where
  code : site.code.Justified rules before
  exits : ∀ (i : Nat) (join : JoinPoint) x, r.base ≤ i → site.joins[i]? = some join →
    join.exit = some x → before x = floor i
  incoming : ∀ (i : Nat) (join : JoinPoint), r.base ≤ i → site.joins[i]? = some join →
    ∀ v p, (v, p) ∈ join.incoming → p.index < site.code.blocks.size ∧
      v ∈ site.code.offered rules before r.func p

/-- What is known at the cursor has been computed there, and handlers and exits ask for no more. -/
structure Site.Knows (r : Region) (floor : Nat → Known) (before : BlockId → Known) (known : Known)
    (site : Site) : Prop where
  cursor : ∀ c, site.code.cursor = some c → known ⊆ before c ∪ site.code.computedIn c
  handlers : ∀ h ∈ r.handlers, before h ⊆ known
  floors : ∀ i, r.base ≤ i → i < site.joins.size → floor i ⊆ known

section Sites

variable {r : Region} {floor : Nat → Known} {before before' : BlockId → Known}
  {known known' : Known} {code code' : Recording} {joins joins' : Array JoinPoint}
  {block : BlockId}

namespace Site.Justified

section

variable (justified : Justified rules r floor before ⟨code, joins⟩)

include justified

/-- Code is added. -/
theorem extend (valid : Valid r ⟨code, joins⟩) (later : code.Extends code')
    (agree : code.Agree before before') (code_justified : code'.Justified rules before') :
    Justified rules r floor before' ⟨code', joins⟩ where
  code := code_justified
  exits i join x inside opened exits := by
    rw [agree x (valid.exit_lt opened exits)]
    exact justified.exits i join x inside opened exits
  incoming i join inside opened v p arm := by
    obtain ⟨small, usable⟩ := justified.incoming i join inside opened v p arm
    exact ⟨Nat.lt_of_lt_of_le small later.blocks, later.offered (agree p small) usable⟩

theorem position (b : BlockId) : Justified rules r floor before ⟨code.position b, joins⟩ where
  code := justified.code.of_blocks (extends_position b) rfl fun _ => rfl
  exits := justified.exits
  incoming i join inside opened v p arm := by
    obtain ⟨small, usable⟩ := justified.incoming i join inside opened v p arm
    exact ⟨small, (extends_position b).offered rfl usable⟩

/-- A new block of the function is assigned something. -/
theorem appendBlock (valid : Valid r ⟨code, joins⟩) (label : String) (known : Known) :
    Justified rules r floor (Function.update before ⟨code.blocks.size⟩ known)
      ⟨(code.appendBlock r.func label).2, joins⟩ := by
  obtain ⟨c, data, _, present, owned⟩ := valid.placed
  refine justified.extend valid (extends_appendBlock r.func label) (.update known (Nat.le_refl _))
    (justified.code.appendBlock valid.proper label (.inl ?_))
  exact List.ne_nil_of_mem (owned ▸ valid.proper.complete c data present)

/-- The innermost join point is opened. -/
theorem push {ty : Ty} {machineType : MachineType} {needsValue : Bool} (known : Known) :
    Justified rules r (Function.update floor joins.size known) before
      ⟨code, joins.push (.fresh ty machineType needsValue)⟩ where
  code := justified.code
  exits i join x inside opened exits := by
    obtain ⟨_, rfl⟩ | opened := getElem?_push_cases opened
    · cases exits
    · rw [Function.update_of_ne (Nat.ne_of_lt (Array.getElem?_eq_some_iff.mp opened).1)]
      exact justified.exits i join x inside opened exits
  incoming i join inside opened := by
    obtain ⟨_, rfl⟩ | opened := getElem?_push_cases opened
    · exact nofun
    · exact justified.incoming i join inside opened

end

variable {join : JoinPoint}

/-- The innermost join point is closed. -/
theorem pop
    (justified : Justified rules r (Function.update floor joins.size known) before ⟨code, joins.push join⟩) : Justified rules r floor before ⟨code, joins⟩ := by
  refine ⟨justified.code, ?_, ?_⟩
  · intro i found x inside opened exits
    have same := justified.exits i found x inside (getElem?_push_of_some opened) exits
    rwa [Function.update_of_ne (Nat.ne_of_lt (Array.getElem?_eq_some_iff.mp opened).1)] at same
  · intro i found inside opened
    exact justified.incoming i found inside (getElem?_push_of_some opened)

/-- A path ends in a join point. -/
theorem reached {i : Nat} {v : ValueId} (justified : Justified rules r floor before ⟨code, joins⟩)
    (inside : r.base ≤ i) (opened : joins[i]? = some join) (assigned : before exit = floor i)
    (small : block.index < code.blocks.size) (usable : v ∈ code.offered rules before r.func block) :
    Justified rules r floor before ⟨code, joins.setIfInBounds i (join.reached exit (v, block))⟩ := by
  refine ⟨justified.code, ?_, ?_⟩
  · intro k found x low present exits
    obtain ⟨rfl, rfl⟩ | ⟨same, present⟩ := getElem?_set_cases present
    · cases exits
      exact assigned
    · exact justified.exits k found x low present exits
  · intro k found low present w p arm
    obtain ⟨rfl, rfl⟩ | ⟨_, present⟩ := getElem?_set_cases present
    · unfold JoinPoint.reached at arm
      dsimp only at arm
      split at arm
      · obtain old | new := List.mem_append.mp arm
        · exact justified.incoming k join low opened w p old
        · cases List.mem_singleton.mp new
          exact ⟨small, usable⟩
      · exact justified.incoming k join low opened w p arm
    · exact justified.incoming k found low present w p arm

end Site.Justified

section

variable (knows : Site.Knows r floor before known ⟨code, joins⟩)

include knows

/-- More may be known later, as far as it has been computed at the cursor. -/
theorem Site.Knows.later (valid : Valid r ⟨code, joins⟩) (agree : code.Agree before before')
    (size : joins'.size = joins.size) (more : known ⊆ known')
    (cursor : ∀ c, code'.cursor = some c → known' ⊆ before' c ∪ code'.computedIn c) :
    Knows r floor before' known' ⟨code', joins'⟩ where
  cursor := cursor
  handlers h member := by
    obtain ⟨_, present, _⟩ := valid.handlers h member
    rw [agree h (block?_eq_some_lt present)]
    exact (knows.handlers h member).trans more
  floors i inside small := (knows.floors i inside (size ▸ small)).trans more

/-- The cursor enters a block that what is known was assigned to. -/
theorem Site.Knows.enter (valid : Valid r ⟨code, joins⟩) (agree : code.Agree before before')
    (size : joins'.size = joins.size) (more : known ⊆ known') (here : code'.cursor = some block)
    (assigned : before' block = known') : Knows r floor before' known' ⟨code', joins'⟩ := by
  refine knows.later valid agree size more fun _ there => ?_
  rw [Option.mem_unique there here, assigned]
  exact Set.subset_union_left

/-- What is known stays known where the cursor stays. -/
theorem Site.Knows.stay (valid : Valid r ⟨code, joins⟩) (later : code.Extends code')
    (agree : code.Agree before before') (stays : code'.cursor = code.cursor) : Knows r floor before' known ⟨code', joins⟩ := by
  refine knows.later valid agree rfl (Set.Subset.refl _) fun c here => ?_
  obtain ⟨_, _, atBlock, present, _⟩ := valid.placed
  obtain rfl := Option.some.inj ((stays.symm.trans here).symm.trans atBlock)
  rw [agree c (block?_eq_some_lt present)]
  exact (knows.cursor c atBlock).trans (Set.union_subset_union_right _ (later.computedIn c))

/-- A usable value has been computed in the block at the cursor or before it. -/
theorem Site.Knows.usable {v : ValueId} (atBlock : code.cursor = some block)
    (usable : rules.Usable r.func known code v) : v ∈ code.offered rules before r.func block :=
  usable.mono (knows.cursor block atBlock) (.refl code)

theorem Site.Knows.push {join : JoinPoint} :
    Knows r (Function.update floor joins.size known) before known ⟨code, joins.push join⟩ where
  cursor := knows.cursor
  handlers := knows.handlers
  floors i inside small := by
    by_cases last : i = joins.size
    · rw [last, Function.update_self]
    · rw [Function.update_of_ne last]
      refine knows.floors i inside (Nat.lt_of_le_of_ne (Nat.le_of_lt_succ ?_) last)
      rwa [Array.size_push] at small

end

variable {data : BasicBlock}

/-- After an instruction its result has been computed as well. -/
theorem Recording.union_resultOf_subset (op : Operation) (present : code.block? block = some data)
    (computed : known ⊆ before block ∪ code.computedIn block) :
    known ∪ {v | code.resultOf op = some v} ⊆
      before block ∪ (code.written block op).computedIn block := by
  refine Set.union_subset (computed.trans
    (Set.union_subset_union_right _ ((extends_written block op).computedIn block))) ?_
  refine Set.subset_union_of_subset_right (fun _ result => ?_) _
  refine ⟨⟨code.resultOf op, op⟩, ?_, result⟩
  rw [instructionsOf_of_block? (written_block?_self present), Array.toList_push]
  exact List.mem_append_right _ (List.mem_singleton_self _)

/-- An instruction is put at the end of a block of the function. -/
theorem Site.Justified.written {op : Operation} (justified : Justified rules r floor before ⟨code, joins⟩)
    (valid : Valid r ⟨code, joins⟩) (present : code.block? block = some data)
    (owned : data.func = r.func)
    (edges : ∀ x ∈ op.successors, before x ⊆ before block ∪ (code.written block op).computedIn block)
    (allowed : rules.Allows r.func (before block ∪ code.computedIn block) code op)
    (arms : ∀ v p, (v, p) ∈ op.arms → p.index < code.blocks.size ∧
      v ∈ code.offered rules before r.func p) :
    Justified rules r floor before ⟨code.written block op, joins⟩ :=
  justified.extend valid (extends_written block op) (.refl _ _)
    (justified.code.written present edges (owned ▸ allowed) (owned ▸ arms))

/-! ## The pieces of lowering -/

/-- Recorded code is justified, and what is known has been computed. -/
def Site.Supported (rules : Rules) (r : Region) (floor : Nat → Known) (before : BlockId → Known) (known : Known)
    (site : Site) : Prop :=
  site.Justified rules r floor before ∧ site.Knows r floor before known

namespace Site.Supported

variable {op : Operation} {v : ValueId}

section

variable (supported : Supported rules r floor before known ⟨code, joins⟩)
  (valid : Valid r ⟨code, joins⟩)

include supported valid

/-- The blocks and the cursor stay as they are. -/
theorem of_blocks (later : code.Extends code') (same : code'.blocks = code.blocks)
    (listed : ∀ f, code'.blocksOf f = code.blocksOf f) (stays : code'.cursor = code.cursor) :
    Supported rules r floor before known ⟨code', joins⟩ :=
  ⟨supported.1.extend valid later (.refl _ _) (supported.1.code.of_blocks later same listed),
    supported.2.stay valid later (.refl _ _) stays⟩

/-- A function may be declared anywhere. -/
theorem declare (decl : FnDecl) :
    Supported rules r floor before known ⟨(code.declare decl).2, joins⟩ :=
  supported.of_blocks valid (extends_declare decl) declare_blocks (fun _ => declare_blocksOf)
    declare_cursor

/-- A block is added, with any choice of what is known before it. -/
theorem appendBlock (label : String) (first : Known) :
    Supported rules r floor (Function.update before ⟨code.blocks.size⟩ first) known
      ⟨(code.appendBlock r.func label).2, joins⟩ :=
  ⟨supported.1.appendBlock valid label first, supported.2.stay valid
    (extends_appendBlock r.func label) (.update first (Nat.le_refl _)) rfl⟩

/-- A new block becomes the innermost handler. -/
theorem handling : Supported rules { r with handlers := ⟨code.blocks.size⟩ :: r.handlers } floor
      (Function.update before ⟨code.blocks.size⟩ known) known
      ⟨(code.appendBlock r.func "rescue").2, joins⟩ := by
  obtain ⟨⟨justified, exits, incoming⟩, cursor, handlers, floors⟩ :=
    supported.appendBlock valid "rescue" known
  refine ⟨⟨justified, exits, incoming⟩, cursor, fun h member => ?_, floors⟩
  obtain rfl | member := List.mem_cons.mp member
  · rw [Function.update_self]
  · exact handlers h member

variable (atBlock : code.cursor = some block)

include atBlock

theorem write (straight : op.isStraight = true)
    (allowed : rules.Allows r.func known code op) :
    Supported rules r floor before (known ∪ {v | code.resultOf op = some v})
      ⟨code.written block op, joins⟩ := by
  obtain ⟨justified, knows⟩ := supported
  obtain ⟨_, present, owned⟩ := valid.placed_at atBlock
  refine ⟨justified.written valid present owned ?_
    (allowed.mono (knows.cursor block atBlock) (.refl code)) ?_, ?_⟩
  · rw [Operation.successors_of_isStraight straight]
    exact nofun
  · rw [Operation.arms_of_isStraight straight]
    exact nofun
  · refine knows.later valid (.refl _ _) rfl Set.subset_union_left fun c here => ?_
    obtain rfl := Option.mem_unique here atBlock
    exact union_resultOf_subset op present (knows.cursor c atBlock)

/-- A block is ended, and one is entered that what is known there was assigned to. -/
theorem jump {next : BlockId} (allowed : rules.Allows r.func known code op) (armless : op.arms = [])
    (edges : ∀ x ∈ op.successors, before x ⊆ known ∪ {v | code.resultOf op = some v})
    (more : known ⊆ known') (assigned : before next = known') :
    Supported rules r floor before known' ⟨(code.written block op).position next, joins⟩ := by
  obtain ⟨justified, knows⟩ := supported
  obtain ⟨_, present, owned⟩ := valid.placed_at atBlock
  have computed := knows.cursor block atBlock
  refine ⟨(justified.written valid present owned ?_ (allowed.mono computed (.refl code))
    ?_).position next, knows.enter valid (.refl _ _) rfl more rfl assigned⟩
  · exact fun x member => (edges x member).trans (union_resultOf_subset op present computed)
  · rw [armless]
    exact nofun

theorem invoke {handler : BlockId} {args : List ValueId} {conv : Option CallConv}
    (handled : handler ∈ r.handlers) (usable : ∀ v ∈ args, rules.Usable r.func known code v) :
    ∃ before', code.Agree before before' ∧
      Supported rules r floor before' (insert ⟨code.values.size⟩ known)
        ⟨code.invoked r.func block handler func args conv, joins⟩ := by
  have opened := supported.appendBlock valid "invoke_out" (insert ⟨code.values.size⟩ known)
  refine ⟨_, .update _ (Nat.le_refl _), opened.jump (valid.appendBlock _) atBlock (.plain rfl
    fun v read => (usable v read).mono (Set.Subset.refl _) (extends_appendBlock r.func _)) rfl ?_
    (Set.subset_insert _ _) (Function.update_self ..)⟩
  intro x member
  obtain rfl | member := List.mem_cons.mp member
  · rw [Function.update_self, Set.insert_eq, Set.union_comm]
    exact Set.union_subset_union_right _ (Set.singleton_subset_iff.mpr rfl)
  · rw [List.mem_singleton.mp member]
    exact (opened.2.handlers handler handled).trans Set.subset_union_left

/-- The guard of a candidate leads to two new blocks. -/
theorem branched {cond : ValueId}
    (allowed : rules.Allows r.func known code
      (.condBr cond ⟨code.blocks.size⟩ ⟨code.blocks.size + 1⟩)) :
    ∃ before', code.Agree before before' ∧ before' ⟨code.blocks.size + 1⟩ = known ∧
      Supported rules r floor before' known ⟨code.branched r.func block cond, joins⟩ := by
  let code1 := (code.appendBlock r.func "current_def").2
  let before₁ := Function.update before ⟨code.blocks.size⟩ known
  let before₂ := Function.update before₁ ⟨code.blocks.size + 1⟩ known
  have size : code1.blocks.size = code.blocks.size + 1 := appendBlock_blocks_size
  have valid1 : Valid r ⟨code1, joins⟩ := valid.appendBlock _
  have later : code.Extends code1 := extends_appendBlock ..
  have current : before₂ ⟨code.blocks.size⟩ = known := by
    have apart : (⟨code.blocks.size⟩ : BlockId) ≠ ⟨code.blocks.size + 1⟩ := fun same =>
      Nat.succ_ne_self _ (congrArg BlockId.index same).symm
    exact (Function.update_of_ne apart _ _).trans (Function.update_self ..)
  have next : before₂ ⟨code.blocks.size + 1⟩ = known := Function.update_self ..
  have opened := (supported.appendBlock valid _ known).appendBlock valid1 "next_def" known
  rw [size] at opened
  refine ⟨before₂, .trans (.update known (Nat.le_refl _)) later (.update known (Nat.le_of_eq size)),
    next, opened.jump (valid1.appendBlock _) atBlock (allowed.mono (Set.Subset.refl _)
      (later.trans (extends_appendBlock ..))) rfl ?_ (Set.Subset.refl _) current⟩
  intro x member
  refine Set.Subset.trans (Eq.subset ?_) Set.subset_union_left
  obtain rfl | member := List.mem_cons.mp member
  · exact current
  · rw [List.mem_singleton.mp member]
    exact next

variable {join : JoinPoint} {i : Nat}

/-- A path branches to a join point. -/
theorem leave (inside : r.base ≤ i) (opened : joins[i]? = some join)
    (assigned : before exit = floor i) (usable : rules.Usable r.func known code v) :
    Supported rules r floor before known
      ⟨code.written block (.br exit), joins.setIfInBounds i (join.reached exit (v, block))⟩ := by
  obtain ⟨justified, knows⟩ := supported
  obtain ⟨_, present, owned⟩ := valid.placed_at atBlock
  have later : code.Extends (code.written block (.br exit)) := extends_written _ _
  have computed : known ⊆ before block ∪ (code.written block (.br exit)).computedIn block :=
    (knows.cursor block atBlock).trans (Set.union_subset_union_right _ (later.computedIn block))
  have low : floor i ⊆ known := knows.floors i inside (Array.getElem?_eq_some_iff.mp opened).1
  constructor
  · refine (justified.written valid present owned ?_ (.plain rfl (List.forall_mem_nil _))
      fun _ _ none => absurd none List.not_mem_nil).reached inside opened assigned ?_ ?_
    · intro x member
      rw [List.mem_singleton.mp member, assigned]
      exact low.trans computed
    · rw [written_blocks_size]
      exact block?_eq_some_lt present
    · exact later.offered rfl (knows.usable atBlock usable)
  · refine knows.later valid (.refl _ _) Array.size_setIfInBounds (Set.Subset.refl _) ?_
    intro c here
    obtain rfl := Option.mem_unique here atBlock
    exact computed

theorem arrive (inside : r.base ≤ i) (opened : joins[i]? = some join)
    (usable : rules.Usable r.func known code v) :
    ∃ before', code.Agree before before' ∧ Supported rules r floor before' known
      ⟨(code.appendBlock r.func "merge").2.written block (.br ⟨code.blocks.size⟩),
        joins.setIfInBounds i (join.reached ⟨code.blocks.size⟩ (v, block))⟩ := by
  have opened' := supported.appendBlock valid "merge" (floor i)
  exact ⟨_, .update _ (Nat.le_refl _), opened'.leave (valid.appendBlock _) atBlock inside opened
    (Function.update_self ..) (usable.mono (Set.Subset.refl _) (extends_appendBlock ..))⟩

end

section

variable {joins1 : Array JoinPoint} {known1 : Known}
  (knows : Knows r floor before known ⟨code, joins⟩) (valid : Valid r ⟨code, joins⟩)
  (agree : code.Agree before before') (size : joins1.size = joins.size)

include knows valid agree size

/-- The exit of a join point is entered. -/
theorem entered {join : JoinPoint} (valid1 : Valid r ⟨code', joins1.push join⟩)
    (supported1 : Supported rules r (Function.update floor joins1.size known) before' known1 ⟨code', joins1.push join⟩)
    (exits : join.exit = some exit) :
    Supported rules r floor before' (known ∪ join.merged code') ⟨join.entered code' exit, joins1⟩ := by
  obtain ⟨justified1, _⟩ := supported1
  have inside : r.base ≤ joins1.size := size ▸ valid.based
  have last : (joins1.push join)[joins1.size]? = some join := Array.getElem?_push_size
  have present := valid1.exit_block? inside last exits
  have assigned : before' exit = known := by
    have same := justified1.exits joins1.size join exit inside last exits
    rwa [Function.update_self] at same
  have opened := justified1.pop.position exit
  constructor
  · refine justified1.pop.extend (valid1.pop inside) (join.extends_entered code' exit) (.refl _ _) ?_
    unfold JoinPoint.entered
    split
    · refine opened.code.written present (List.forall_mem_nil _)
        (.plain rfl (List.forall_mem_nil _)) ?_
      exact fun v p arm => (justified1.position exit).incoming joins1.size join inside last v p arm
    · exact opened.code
  · refine knows.later valid agree size Set.subset_union_left fun c here => ?_
    obtain rfl := Option.some.inj (here.symm.trans (join.entered_cursor code' exit))
    have computed : known ⊆ before' c ∪ (code'.position c).computedIn c :=
      assigned ▸ Set.subset_union_left
    unfold JoinPoint.entered JoinPoint.merged
    split
    · have there : (code'.position c).block? c = some ⟨"merge", r.func, #[]⟩ := present
      have grown := union_resultOf_subset (.phi join.machineType join.incoming) there
        computed
      refine Set.Subset.trans (Set.union_subset_union_right _ ?_) grown
      exact Set.singleton_subset_iff.mpr rfl
    · rw [Set.union_empty]
      exact computed

/-- The handler is entered when its body has been lowered. -/
theorem handled {handlers : List BlockId}
    (valid1 : Valid { r with handlers := handlers } ⟨code', joins1⟩)
    (supported1 : Supported rules { r with handlers := handlers } floor before' known1 ⟨code', joins1⟩)
    (there : code'.block? block = some ⟨"rescue", r.func, #[]⟩) (assigned : before' block = known) :
    Supported rules r floor before' known
      ⟨(code'.position block).written block .landingPad, joins1⟩ := by
  obtain ⟨justified1, _⟩ := supported1
  have later : code'.Extends ((code'.position block).written block .landingPad) :=
    (extends_position block).trans (extends_written block .landingPad)
  have written : ((code'.position block).written block .landingPad).Justified rules before' :=
    (justified1.position block).code.written there (List.forall_mem_nil _)
      (.plain rfl (List.forall_mem_nil _)) fun _ _ none => absurd none List.not_mem_nil
  obtain ⟨code_justified, exits, incoming⟩ :=
    justified1.extend valid1 later (.refl _ _) written
  exact ⟨⟨code_justified, exits, incoming⟩,
    knows.enter valid agree size (Set.Subset.refl _) rfl assigned⟩

/-- The next candidate is tried when the branch has been lowered. -/
theorem skipped
    (supported1 : Supported rules r floor before' known1 ⟨code', joins1⟩)
    (assigned : before' block = known) :
    Supported rules r floor before' known ⟨code'.position block, joins1⟩ :=
  ⟨supported1.1.position block, knows.enter valid agree size (Set.Subset.refl _) rfl assigned⟩

end

/-- A function starts with nothing known. -/
theorem entry (joins : Array JoinPoint) (floor : Nat → Known) {entry : Recording}
    {ret : MachineType} (justified : code.Justified rules before) (proper : code.Proper)
    (begun : Emit.beginRoutine func code = .ok params entry) :
    Supported rules ⟨func, [], joins.size, ret⟩ floor (Function.update before ⟨code.blocks.size⟩ ∅) ∅
      ⟨entry, joins⟩ := by
  have none : ∀ {i : Nat} {join : JoinPoint}, joins.size ≤ i → joins[i]? = some join → False :=
    fun outside opened => Nat.not_lt.mpr outside (Array.getElem?_eq_some_iff.mp opened).1
  refine ⟨⟨justified.beginRoutine proper begun, ?_, ?_⟩, ?_, ?_, ?_⟩
  · exact fun i join _ outside opened => (none outside opened).elim
  · exact fun i _ outside opened => (none outside opened).elim
  · exact fun _ _ => Set.empty_subset _
  · exact List.forall_mem_nil _
  · exact fun _ outside inside => absurd inside (Nat.not_lt.mpr outside)

end Site.Supported

end Sites

/-- A piece of lowering extends the assignment to the blocks that it adds. -/
theorem Builds.supported {r : Region} {effect : Effect} {known known' : Known}
    {site site' : Site} (built : Builds rules r effect known site known' site')
    (valid : site.Valid r) {floor : Nat → Known}
    (supported : site.Supported rules r floor before known) :
    ∃ before', site.code.Agree before before' ∧ site'.Supported rules r floor before' known' := by
  induction built generalizing floor before with
  | refl | dead => exact ⟨before, .refl _ _, supported⟩
  | trans first second ihFirst ihSecond =>
    obtain ⟨before₁, agree1, supported1⟩ := ihFirst valid supported
    obtain ⟨before', agree', supported'⟩ := ihSecond (first.valid valid) supported1
    exact ⟨before', agree1.trans (first.advance valid.based).code.later agree', supported'⟩
  | untraced _ _ ih => exact ih valid supported
  | constant constant =>
    exact ⟨before, .refl _ _,
      supported.of_blocks valid (extends_addConstant constant) rfl (fun _ => rfl) rfl⟩
  | global name =>
    exact ⟨before, .refl _ _, supported.of_blocks valid (extends_addGlobal name) addGlobal_blocks
      (fun _ => addGlobal_blocksOf) addGlobal_cursor⟩
  | declare decl => exact ⟨before, .refl _ _, supported.declare valid decl⟩
  | write straight allowed _ atBlock =>
    exact ⟨before, .refl _ _, supported.write valid atBlock straight allowed⟩
  | invoke _ handled _ atBlock _ usable =>
    exact supported.invoke valid atBlock (List.mem_of_head? handled) usable
  | land _ inside opened exits atBlock _ usable =>
    exact ⟨before, .refl _ _, supported.leave valid atBlock inside opened
      (supported.1.exits _ _ _ inside opened exits) usable⟩
  | arrive _ inside opened _ atBlock _ usable =>
    exact supported.arrive valid atBlock inside opened usable
  | unreached _ body _ _ ih =>
    have size := ((body.advance valid.push.based).joins.pop valid.based).size
    obtain ⟨before', agree, justified', knows'⟩ :=
      ih valid.push ⟨supported.1.push _, supported.2.push⟩
    rw [← size] at justified'
    refine ⟨before', agree, justified'.pop, ?_⟩
    refine supported.2.later valid agree size (Set.Subset.refl _) fun c here => ?_
    exact body.known_subset.trans (knows'.cursor c here)
  | reached _ body exits _ ih =>
    have size := ((body.advance valid.push.based).joins.pop valid.based).size
    obtain ⟨before', agree, supported'⟩ := ih valid.push ⟨supported.1.push _, supported.2.push⟩
    rw [← size] at supported'
    exact ⟨before', agree,
      .entered supported.2 valid agree size (body.valid valid.push) supported' exits⟩
  | handle _ body _ ih =>
    have advance := body.advance valid.based
    obtain ⟨before', agree', supported'⟩ := ih valid.handling (supported.handling valid)
    have agree := Agree.trans (.update _ (Nat.le_refl _))
      (extends_appendBlock _ "rescue") agree'
    refine ⟨before', agree, .handled supported.2 valid agree advance.joins.size
      (body.valid valid.handling) supported' (valid.handler_block? advance) ?_⟩
    rw [agree' _ (block?_eq_some_lt appendBlock_block?_new),
      Function.update_self]
  | branch _ allowed atBlock running body _ ih =>
    have advance := body.advance valid.based
    obtain ⟨_, agree1, assigned, supported1⟩ := supported.branched valid atBlock allowed
    obtain ⟨before', agree', supported'⟩ := ih (valid.branched atBlock running) supported1
    have agree := agree1.trans (frame_branched atBlock running).later agree'
    refine ⟨before', agree, .skipped supported.2 valid agree advance.joins.size supported' ?_⟩
    rw [agree' _ (block?_eq_some_lt (valid.branched_next atBlock)), assigned]
  | @closure r _ known _ code entry code1 joins _ decl _ _ block _ _ _ begun atBlock body _ ih =>
    have advance := body.advance (Nat.le_refl _)
    obtain rfl := advance.joins.eq_of_base
    replace supported := supported.declare valid decl
    replace valid := valid.declare decl
    replace atBlock : (code.declare decl).2.cursor = some block :=
      declare_cursor.trans atBlock
    obtain ⟨before', agree', supported'⟩ :=
      ih (valid.enter begun) (.entry _ floor supported.1.code valid.proper begun)
    have later := (frame_beginRoutine begun).later
    have agree := Agree.trans (.update _ (Nat.le_refl _)) later agree'
    have grows := later.trans advance.code.later
    exact ⟨before', .trans (.refl _ _) (extends_declare decl) agree,
      (supported.1.extend valid grows agree supported'.1.code).position block,
      supported.2.stay valid (grows.trans (extends_position block)) agree atBlock.symm⟩

/-- A function is justified with the rest of the code. -/
theorem Gains.justified {Γ : Scenario} {defn : Definition} (gains : Gains Γ defn func code code')
    (proper : code.Proper) (justified : ∃ before, code.Justified Γ.toRules before) :
    ∃ before, code'.Justified Γ.toRules before := by
  obtain ⟨_, justified⟩ := justified
  obtain @⟨_, decl, _, _, _, _, _, _, _, begun, builds, _⟩ := gains
  obtain ⟨before', _, supported'⟩ := builds.supported (.entry proper begun)
    (.entry #[] (fun _ => ∅) (justified.declare decl) (proper.declare decl) begun)
  exact ⟨before', supported'.1.code⟩

/-- A path through a function stays in it. -/
theorem Recording.Route.owned (route : code.Route func passed b) (proper : code.Proper) :
    ∃ data, code.block? b = some data ∧ data.func = func := by
  induction route with
  | entry starts => exact proper.listed func _ (starts ▸ List.mem_cons_self)
  | @step _ b _ _ leads ih =>
    obtain ⟨data, present, owned⟩ := ih
    obtain ⟨instruction, member, successor⟩ := exists_of_successorsOf leads
    rw [instructionsOf_of_block? present] at member
    obtain ⟨data', there, same⟩ := proper.targets b data instruction present member _ successor
    exact ⟨data', there, same.trans owned⟩

/-- Whatever an instruction reads on a path through a function of a compiled program is a constant,
the address of a variable of the module, a parameter or storage of the function, or was computed
earlier on the path. For a phi, this holds of the values it takes over at the end of every path into
the block they come from. -/
theorem Program.operands_available {program : Program} {options : Options} {code : Recording}
    (compiled : (program.compile options).result = .ok code) (hygienic : program.Hygienic)
    {func : FuncId} {passed : List BlockId} {b : BlockId} (route : code.Route func passed b) :
    (∀ i instruction, code.instructionAt? ⟨b, i⟩ = some instruction →
        ∀ v ∈ instruction.op.operands, code.Ambient func v ∨ v ∈ code.computedOn passed ∨
          v ∈ code.computedBefore ⟨b, i⟩) ∧
      ∀ b' ∈ code.blocksOf func, ∀ instruction ∈ code.instructionsOf b', ∀ v,
        (v, b) ∈ instruction.op.arms → code.Ambient func v ∨ v ∈ code.computedOn (b :: passed) := by
  have granted : Rules.Granted ⟨False, False, True, False, program.Declares⟩ program :=
    ⟨nofun, nofun, nofun, fun _ => hygienic, id, fun _ => id⟩
  obtain ⟨proper, before, justified⟩ := compile_induction granted
    (motive := fun code => ∃ before, code.Justified _ before)
    ⟨fun _ => ∅, nofun, nofun⟩
    (fun _ _ _ _ proper gains => gains.justified proper) compiled
  have passes := justified.route route
  obtain ⟨data, present, owned⟩ := route.owned proper
  constructor
  · intro i instruction found v read
    have usable := (justified.supplied b data i instruction present found).allowed.usable v read trivial
    rw [owned] at usable
    exact usable.symm.imp id (.imp (fun member => passes member) id)
  · intro b' listed instruction member v arm
    obtain ⟨data', present', owned'⟩ := proper.listed func b' listed
    obtain ⟨i, found⟩ := List.getElem?_of_mem member
    have usable := ((justified.supplied b' data' i instruction present' found).arms v b arm).2 trivial
    rw [owned'] at usable
    refine usable.symm.imp id ?_
    rintro (member | computed)
    · obtain ⟨p, inside, computed⟩ := passes member
      exact ⟨p, List.mem_cons_of_mem _ inside, computed⟩
    · exact ⟨b, List.mem_cons_self, computed⟩

/-- A program whose `main` reads a variable behind a body with a handler. In the body, a function is
called that may raise, and then one of two candidates. -/
def Program.readingAfter (name : String) : Program where
  file := "reading"
  types := ((TypeTable.empty.addClass "Animal" none []).addClass "Dog" (some "Animal") []).addClass
    "Cat" (some "Animal") []
  defs := [
    (Definition.ofSignature "risky" .program [] .nil).raising.withSymbol "risky" .c,
    Definition.ofSignature "Dog#run" (.object "Dog") [] .nil,
    Definition.ofSignature "Cat#run" (.object "Cat") [] .nil,
    (Definition.ofSignature "main" .program [.required "x" (.object "Animal")]
      (.object "Animal")).withBody (.ofKind (.seq [
        .ofKind (.rescue
          (.ofKind (.seq [
            .ofCall (.ofTargets "risky" ["risky"]) .nil,
            .ofCall ((Call.ofTargets "run" ["Dog#run", "Cat#run"]).withReceiver
              (.ofVar "x" (.object "Animal"))) .nil]) .nil)
          (.ofKind .nil .nil)) .nil,
        .ofVar name (.object "Animal")]) (.object "Animal"))]

theorem Program.operands_available_readingAfter :
    (readingAfter "x").Hygienic ∧ ∃ code, ((readingAfter "x").compile .default).result = .ok code ∧
      code.Route ⟨0⟩ [⟨1⟩, ⟨0⟩] ⟨8⟩ ∧
      (∀ i instruction, code.instructionAt? ⟨⟨8⟩, i⟩ = some instruction →
        ∀ v ∈ instruction.op.operands, code.Ambient ⟨0⟩ v ∨ v ∈ code.computedOn [⟨1⟩, ⟨0⟩] ∨
          v ∈ code.computedBefore ⟨⟨8⟩, i⟩) := by
  have hygienic : (readingAfter "x").Hygienic := by
    have plain : ∀ expr ∈ (readingAfter "x").parts, ∀ name ∈ expr.kind.reads,
        name.toList.head? ≠ some '%' := by decide +kernel
    exact fun expr member name read hidden => plain expr member name read hidden.head
  obtain ⟨code, compiled, leads⟩ : ∃ code, ((readingAfter "x").compile .default).result = .ok code ∧
      code.blocksOf ⟨0⟩ = (List.range 9).map BlockId.mk ∧ ⟨1⟩ ∈ code.successorsOf ⟨0⟩ ∧
      ⟨8⟩ ∈ code.successorsOf ⟨1⟩ :=
    exists_code
  obtain ⟨blocks, first, second⟩ := leads
  have route : code.Route ⟨0⟩ [⟨1⟩, ⟨0⟩] ⟨8⟩ := .step (.step (.entry blocks) first) second
  exact ⟨hygienic, code, compiled, route, (operands_available compiled hygienic route).1⟩

/-- A program that reads a hidden variable may read a value that was not computed on the path. -/
theorem Program.operand_unavailable_readingAfter :
    ∃ code passed b i instruction v, ((readingAfter "%self.1").compile .default).result = .ok code ∧
      code.Route ⟨0⟩ passed b ∧ code.instructionAt? ⟨b, i⟩ = some instruction ∧
      v ∈ instruction.op.operands ∧
      ¬(code.Ambient ⟨0⟩ v ∨ v ∈ code.computedOn passed ∨ v ∈ code.computedBefore ⟨b, i⟩) := by
  obtain ⟨code, compiled, facts⟩ :
      ∃ code, ((readingAfter "%self.1").compile .default).result = .ok code ∧
      code.blocksOf ⟨0⟩ = (List.range 9).map BlockId.mk ∧ ⟨1⟩ ∈ code.successorsOf ⟨0⟩ ∧
      ⟨8⟩ ∈ code.successorsOf ⟨1⟩ ∧
      (code.instructionAt? ⟨⟨8⟩, 0⟩).map (·.op.operands) = some [⟨4⟩] ∧
      ¬(code.Ambient ⟨0⟩ ⟨4⟩ ∨ ⟨4⟩ ∈ code.computedOn [⟨1⟩, ⟨0⟩] ∨
        ⟨4⟩ ∈ code.computedBefore ⟨⟨8⟩, 0⟩) :=
    exists_code
  obtain ⟨blocks, first, second, read, unavailable⟩ := facts
  obtain ⟨instruction, found, operands⟩ := Option.map_eq_some_iff.mp read
  have route : code.Route ⟨0⟩ [⟨1⟩, ⟨0⟩] ⟨8⟩ := .step (.step (.entry blocks) first) second
  refine ⟨code, _, ⟨8⟩, 0, instruction, ⟨4⟩, compiled, route, found, ?_, unavailable⟩
  rw [operands]
  exact List.mem_cons_self

end CallLowering
