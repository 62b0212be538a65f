import CallLowering.Proofs.Functions
import CallLowering.Proofs.Reachability

/-!
# Phis and predecessors

A phi stands at the start of the exit of a join point, and names one value for every block that
control comes from. While a join point is open its exit is entered by jumps only, one from each
block that the join point has taken a value from (`Site.Gathered`); what lowering records besides
leads to handlers, to other exits and to new blocks. In a compiled program the blocks that a phi
names are therefore the predecessors of its block.
-/

namespace CallLowering

open Recording

namespace Operation

/-- Whether the operation merges the values of several paths. -/
def isPhi : Operation → Bool
  | phi .. => true
  | _ => false

theorem isPhi_of_isStraight {op : Operation} (straight : op.isStraight = true) :
    op.isPhi = false := by
  cases op <;> first | rfl | cases straight

end Operation

namespace Recording

variable {code code' : Recording} {b block x : BlockId} {op : Operation}
  {sources : List BlockId} {instruction : Instruction}

/-- An instruction leads to blocks that are there. -/
theorem Proper.target_lt (proper : code.Proper) (member : instruction ∈ code.instructionsOf b)
    (leads : x ∈ instruction.op.successors) : x.index < code.blocks.size := by
  obtain ⟨_, present, _⟩ := block?_of_mem_instructionsOf member
  obtain ⟨_, there, _⟩ := proper.target present member leads
  exact block?_eq_some_lt there

/-- Control comes to a block from the given blocks, each named once, and by jumps. -/
structure Gathers (code : Recording) (x : BlockId) (sources : List BlockId) : Prop where
  distinct : sources.Nodup
  jumps : ∀ p, ∀ instruction ∈ code.instructionsOf p, x ∈ instruction.op.successors →
    instruction.op = .br x
  complete : ∀ p, p ∈ sources ↔ ∃ instruction ∈ code.instructionsOf p, instruction.op = .br x

namespace Gathers

section

variable (gathers : code.Gathers x sources)

include gathers

/-- Code that leads elsewhere changes nothing. -/
theorem later (later : code.Extends code')
    (edges : ∀ p, ∀ instruction ∈ code'.instructionsOf p, x ∈ instruction.op.successors → instruction ∈ code.instructionsOf p) : code'.Gathers x sources where
  distinct := gathers.distinct
  jumps p instruction member leads := gathers.jumps p instruction (edges p instruction member leads) leads
  complete p := by
    rw [gathers.complete p]
    constructor
    · rintro ⟨instruction, member, jump⟩
      exact ⟨instruction, (later.instructionsOf p).subset member, jump⟩
    · rintro ⟨instruction, member, jump⟩
      refine ⟨instruction, edges p instruction member ?_, jump⟩
      rw [jump]
      exact List.mem_singleton_self x

theorem written (apart : x ∉ op.successors) : (code.written block op).Gathers x sources := by
  refine gathers.later (extends_written block op) fun _ _ member leads => ?_
  obtain old | ⟨rfl, rfl⟩ := mem_written_instructionsOf member
  · exact old
  · exact absurd leads apart

theorem appendBlock (func : FuncId) (label : String) :
    (code.appendBlock func label).2.Gathers x sources :=
  gathers.later (extends_appendBlock func label) fun _ _ member _ =>
    appendBlock_instructionsOf ▸ member

/-- A block that has not ended may jump there. -/
theorem jump {data : BasicBlock} (proper : code.Proper) (present : code.block? block = some data)
    (running : code.terminator? block = none) :
    (code.written block (.br x)).Gathers x (sources ++ [block]) where
  distinct := by
    refine List.nodup_append.mpr ⟨gathers.distinct, List.pairwise_singleton _ _, fun p source _ here => ?_⟩
    rintro rfl
    obtain rfl := List.mem_singleton.mp here
    obtain ⟨instruction, member, jump⟩ := (gathers.complete p).mp source
    have ended := proper.terminator?_of_mem member (by rw [jump]; rfl)
    exact nomatch ended.symm.trans running
  jumps p instruction member leads := by
    obtain old | ⟨rfl, rfl⟩ := mem_written_instructionsOf member
    · exact gathers.jumps p instruction old leads
    · rfl
  complete p := by
    rw [List.mem_append, List.mem_singleton, gathers.complete p]
    constructor
    · rintro (⟨instruction, member, jump⟩ | rfl)
      · exact ⟨instruction, ((extends_written block (.br x)).instructionsOf p).subset member, jump⟩
      · refine ⟨⟨code.resultOf (.br x), .br x⟩, ?_, rfl⟩
        rw [written_instructionsOf_self present]
        exact List.mem_append_right _ (List.mem_singleton_self _)
    · rintro ⟨instruction, member, jump⟩
      obtain old | ⟨rfl, rfl⟩ := mem_written_instructionsOf member
      · exact .inl ⟨instruction, old, jump⟩
      · exact .inr rfl

end

/-- Nothing leads to a block that is yet to be added. -/
theorem new (proper : code.Proper) : code.Gathers ⟨code.blocks.size⟩ [] where
  distinct := List.nodup_nil
  jumps p instruction member leads := absurd (proper.target_lt member leads) (Nat.lt_irrefl _)
  complete p := by
    refine ⟨fun none => absurd none List.not_mem_nil, ?_⟩
    rintro ⟨instruction, member, jump⟩
    refine absurd (proper.target_lt member ?_) (Nat.lt_irrefl code.blocks.size)
    rw [jump]
    exact List.mem_singleton_self _

end Gathers

end Recording

variable {effect : Effect} {known known' : Known} {code code' : Recording} {r : Region}
  {rules : Rules} {site site' : Site} {machineType : MachineType} {func : FuncId}
  {needsValue : Bool} {ty : Ty}

/-! ## While a function is lowered -/

/-- The active handlers are empty blocks of the function, away from the cursor, and no exits. -/
def Site.Waiting (r : Region) (site : Site) : Prop :=
  ∀ h ∈ r.handlers, site.code.cursor ≠ some h ∧ site.code.instructionsOf h = [] ∧
    ∀ (i : Nat) (join : JoinPoint), site.joins[i]? = some join → join.exit ≠ some h

namespace Site.Waiting

variable {r : Region} {site site' : Site}

theorem advance (waiting : site.Waiting r) (valid : site.Valid r) (advance : Advance r site site') :
    site'.Waiting r := by
  intro h member
  obtain ⟨apart, empty, noExit⟩ := waiting h member
  obtain ⟨_, present, _⟩ := valid.handlers h member
  have old := block?_eq_some_lt present
  refine ⟨fun here => ?_, ?_, fun i _ opened exits => ?_⟩
  · obtain stays | ⟨_, moves, new⟩ := advance.code.cursor
    · exact apart (stays.symm.trans here)
    · obtain rfl := Option.mem_unique moves here
      exact absurd old (Nat.not_lt.mpr new)
  · rw [instructionsOf_congr (advance.code.others h old apart), empty]
  · obtain ⟨join', opened', exits'⟩ | new := advance.joins.exit_cases opened exits
    · exact noExit i join' opened' exits'
    · exact absurd old (Nat.not_lt.mpr new)

variable {joins : Array JoinPoint} {code : Recording}

theorem push (waiting : Waiting r ⟨code, joins⟩) :
    Waiting r ⟨code, joins.push (.fresh ty machineType needsValue)⟩ := by
  intro h member
  obtain ⟨apart, empty, noExit⟩ := waiting h member
  refine ⟨apart, empty, fun i join opened => ?_⟩
  obtain ⟨_, rfl⟩ | opened := getElem?_push_cases opened
  · nofun
  · exact noExit i join opened

/-- A new block may be the innermost handler. -/
theorem handling (waiting : Waiting r ⟨code, joins⟩) (valid : Valid r ⟨code, joins⟩) :
    Waiting { r with handlers := ⟨code.blocks.size⟩ :: r.handlers }
      ⟨(code.appendBlock r.func "rescue").2, joins⟩ := by
  intro h member
  obtain rfl | member := List.mem_cons.mp member
  · refine ⟨fun here => valid.cursor_ne_new here rfl, ?_, fun _ _ opened => ?_⟩
    · exact instructionsOf_of_block? appendBlock_block?_new
    · exact valid.exit_ne_new opened (Nat.le_refl _)
  · exact waiting.advance valid (.of_code (.appendBlock r.func "rescue")) h member

end Site.Waiting

/-- Every phi stands at the start of a block and names the blocks that control comes from. -/
def Recording.Gathered (code : Recording) : Prop :=
  ∀ b (i : Nat) result ty incoming,
    (code.instructionsOf b)[i]? = some ⟨result, .phi ty incoming⟩ →
    i = 0 ∧ code.Gathers b (incoming.map Prod.snd)

/-- Recording no instruction changes nothing. -/
theorem Recording.Gathered.of_instructions (gathered : code.Gathered) (later : code.Extends code')
    (same : ∀ b, code'.instructionsOf b = code.instructionsOf b) : code'.Gathered := by
  intro b i result ty incoming found
  obtain ⟨first, gathers⟩ := gathered b i result ty incoming (same b ▸ found)
  exact ⟨first, gathers.later later fun p _ member _ => same p ▸ member⟩

/-- The phis of recorded code and the open join points whose values are kept name the blocks that
control comes from. -/
structure Site.Gathered (site : Site) : Prop where
  code : site.code.Gathered
  exits : ∀ (i : Nat) (join : JoinPoint) x, site.joins[i]? = some join → join.exit = some x →
    join.materializes = true → site.code.Gathers x (join.incoming.map Prod.snd)
  unreached : ∀ (i : Nat) (join : JoinPoint), site.joins[i]? = some join → join.exit = none →
    join.incoming = []

namespace Site.Gathered

variable {r : Region} {code code' : Recording} {joins : Array JoinPoint}

section

variable (gathered : Gathered ⟨code, joins⟩)

include gathered

/-- Recording no instruction changes nothing. -/
theorem of_instructions (later : code.Extends code')
    (same : ∀ b, code'.instructionsOf b = code.instructionsOf b) : Gathered ⟨code', joins⟩ where
  code := gathered.code.of_instructions later same
  exits i join x opened exits kept :=
    (gathered.exits i join x opened exits kept).later later fun p _ member _ => same p ▸ member
  unreached := gathered.unreached

theorem position (b : BlockId) : Gathered ⟨code.position b, joins⟩ :=
  gathered.of_instructions (extends_position b) fun _ => rfl

theorem appendBlock (func : FuncId) (label : String) :
    Gathered ⟨(code.appendBlock func label).2, joins⟩ :=
  gathered.of_instructions (extends_appendBlock func label) fun _ => appendBlock_instructionsOf

end

variable {block : BlockId} {join : JoinPoint}

section

variable (waiting : Waiting r ⟨code, joins⟩) (valid : Valid r ⟨code, joins⟩)

include waiting valid

/-- An operation other than a phi may be written that leads to handlers and to blocks added for
it. -/
theorem written {op : Operation} (opened : Gathered ⟨code', joins⟩)
    (same : ∀ b, code'.instructionsOf b = code.instructionsOf b) (noPhi : op.isPhi = false)
    (edges : ∀ x ∈ op.successors, x ∈ r.handlers ∨ code.blocks.size ≤ x.index) :
    Gathered ⟨code'.written block op, joins⟩ where
  code := by
    intro b i result ty incoming found
    obtain old | ⟨_, _, new⟩ := written_instructionsOf_getElem? found
    · obtain ⟨first, gathers⟩ := opened.code b i result ty incoming old
      refine ⟨first, gathers.written fun leads => ?_⟩
      -- a phi stands in no handler and in no new block
      have member := same b ▸ List.mem_of_getElem? old
      obtain handler | new := edges b leads
      · rw [(waiting b handler).2.1] at member
        cases member
      · obtain ⟨_, present, _⟩ := block?_of_mem_instructionsOf member
        exact absurd (block?_eq_some_lt present) (Nat.not_lt.mpr new)
    · cases congrArg Instruction.op new
      cases noPhi
  exits i join x opened' exits kept := by
    refine (opened.exits i join x opened' exits kept).written fun leads => ?_
    obtain handler | new := edges x leads
    · exact (waiting x handler).2.2 i join opened' exits
    · exact valid.exit_ne_new opened' new exits
  unreached := opened.unreached

variable (gathered : Gathered ⟨code, joins⟩)

include gathered

theorem invoked {handler : BlockId} {args : List ValueId} {conv : Option CallConv}
    (handled : handler ∈ r.handlers) :
    Gathered ⟨code.invoked r.func block handler func args conv, joins⟩ := by
  refine (written waiting valid (gathered.appendBlock _ "invoke_out")
    (fun _ => appendBlock_instructionsOf) rfl fun _ leads => ?_).position _
  obtain rfl | leads := List.mem_cons.mp leads
  · exact .inr (Nat.le_refl _)
  · exact .inl (List.mem_singleton.mp leads ▸ handled)

theorem branched {cond : ValueId} : Gathered ⟨code.branched r.func block cond, joins⟩ := by
  have opened := (gathered.appendBlock r.func "current_def").appendBlock r.func "next_def"
  refine (written waiting valid opened
    (fun _ => appendBlock_instructionsOf.trans appendBlock_instructionsOf)
    rfl fun _ leads => ?_).position _
  obtain rfl | leads := List.mem_cons.mp leads
  · exact .inr (Nat.le_refl _)
  · exact .inr (List.mem_singleton.mp leads ▸ Nat.le_succ _)

end

variable {exit : BlockId}

/-- The innermost join point may be closed. -/
theorem pop (gathered : Gathered ⟨code, joins.push join⟩) : Gathered ⟨code, joins⟩ := by
  exact ⟨gathered.code,
    fun k found x opened => gathered.exits k found x (getElem?_push_of_some opened),
    fun k found opened => gathered.unreached k found (getElem?_push_of_some opened)⟩

/-- The exit of the innermost join point may be entered when it is closed. -/
theorem entered (gathered : Gathered ⟨code, joins.push join⟩)
    (valid : Valid r ⟨code, joins.push join⟩) (inside : r.base ≤ joins.size)
    (exits : join.exit = some exit) : Gathered ⟨join.entered code exit, joins⟩ := by
  have last : (joins.push join)[joins.size]? = some join := Array.getElem?_push_size
  have present := valid.exit_block? inside last exits
  have outer := gathered.pop.position exit
  unfold JoinPoint.entered
  split
  · rename_i kept
    have gathers := (gathered.position exit).exits joins.size join exit last exits kept
    have nowhere : ∀ {x : BlockId}, x ∉ (Operation.phi join.machineType join.incoming).successors :=
      List.not_mem_nil
    refine ⟨fun b i result ty incoming found => ?_, fun k found x opened exits' kept' => ?_, outer.unreached⟩
    · obtain old | ⟨rfl, rfl, new⟩ := written_instructionsOf_getElem? found
      · obtain ⟨first, gathers'⟩ := outer.code b i result ty incoming old
        exact ⟨first, gathers'.written nowhere⟩
      · -- the exit was empty up to now
        cases congrArg Instruction.op new
        refine ⟨?_, gathers.written nowhere⟩
        rw [position_instructionsOf, instructionsOf_of_block? present]
        rfl
    · exact (outer.exits k found x opened exits' kept').written nowhere
  · exact outer

variable (gathered : Gathered ⟨code, joins⟩)

include gathered

/-- A path may end in a join point, at an exit that is empty and no exit of others. -/
theorem reached {i : Nat} {v : ValueId} (valid : Valid r ⟨code, joins⟩)
    (opened : joins[i]? = some join)
    (gathers : join.materializes = true → code.Gathers exit (join.incoming.map Prod.snd))
    (empty : code.instructionsOf exit = [])
    (apart : ∀ (k : Nat) (other : JoinPoint), k ≠ i → joins[k]? = some other → other.exit ≠ some exit)
    (atBlock : code.cursor = some block) (running : code.terminator? block = none) :
    Gathered ⟨code.written block (.br exit),
      joins.setIfInBounds i (join.reached exit (v, block))⟩ := by
  obtain ⟨_, present, _⟩ := valid.placed_at atBlock
  refine ⟨fun b k result ty incoming found => ?_, fun k found x opened' exits kept => ?_, fun k found opened' exits => ?_⟩
  · obtain old | ⟨_, _, new⟩ := written_instructionsOf_getElem? found
    · obtain ⟨first, gathers'⟩ := gathered.code b k result ty incoming old
      refine ⟨first, gathers'.written fun leads => ?_⟩
      obtain rfl := List.mem_singleton.mp leads
      rw [empty] at old
      cases old
    · cases congrArg Instruction.op new
  · obtain ⟨rfl, rfl⟩ | ⟨same, old⟩ := getElem?_set_cases opened'
    · cases exits
      have kept' : join.materializes = true := kept
      simp only [JoinPoint.reached, kept', ↓reduceIte, List.map_append]
      exact (gathers kept').jump valid.proper present running
    · refine (gathered.exits k found x old exits kept).written fun leads => ?_
      obtain rfl := List.mem_singleton.mp leads
      exact apart k found same old exits
  · obtain ⟨rfl, rfl⟩ | ⟨_, opened'⟩ := getElem?_set_cases opened'
    · cases exits
    · exact gathered.unreached k found opened' exits

/-- The innermost join point may be opened. -/
theorem push : Gathered ⟨code, joins.push (.fresh ty machineType needsValue)⟩ := by
  refine ⟨gathered.code, fun k found x opened exits kept => ?_, fun k found opened exits => ?_⟩
  · obtain ⟨_, rfl⟩ | opened := getElem?_push_cases opened
    · cases exits
    · exact gathered.exits k found x opened exits kept
  · obtain ⟨_, rfl⟩ | opened := getElem?_push_cases opened
    · rfl
    · exact gathered.unreached k found opened exits

/-- A function may be declared anywhere. -/
theorem declare (decl : FnDecl) : Gathered ⟨(code.declare decl).2, joins⟩ :=
  gathered.of_instructions (extends_declare decl) fun _ => declare_instructionsOf

/-- The body of a function starts with phis and predecessors in step. -/
theorem beginRoutine {params : List ValueId} (begun : Emit.beginRoutine func code = .ok params code') :
    Gathered ⟨code', joins⟩ :=
  gathered.of_instructions (frame_beginRoutine begun).later fun _ =>
    beginRoutine_instructionsOf begun

end Site.Gathered

/-- A piece of lowering keeps phis and predecessors in step. -/
theorem Builds.gathered (built : Builds rules r effect known site known' site')
    (valid : site.Valid r) (waiting : site.Waiting r) (gathered : site.Gathered) :
    site'.Gathered := by
  induction built with
  | refl | dead => exact gathered
  | untraced _ _ ih => exact ih valid waiting gathered
  | trans first _ ihFirst ihSecond =>
    exact ihSecond (first.valid valid) (waiting.advance valid (first.advance valid.based))
      (ihFirst valid waiting gathered)
  | constant constant =>
    exact gathered.of_instructions (extends_addConstant constant) fun _ => rfl
  | global name =>
    exact gathered.of_instructions (extends_addGlobal name) fun _ => addGlobal_instructionsOf
  | declare decl => exact gathered.declare decl
  | write straight =>
    refine .written waiting valid gathered (fun _ => rfl)
      (Operation.isPhi_of_isStraight straight) fun _ leads => ?_
    rw [Operation.successors_of_isStraight straight] at leads
    cases leads
  | invoke _ handled => exact .invoked waiting valid gathered (List.mem_of_head? handled)
  | land _ inside opened exits atBlock running _ =>
    refine gathered.reached valid opened (gathered.exits _ _ _ opened exits)
      (instructionsOf_of_block? (valid.exit_block? inside opened exits))
      (fun _ _ apart found same => ?_) atBlock running
    exact apart (valid.distinct _ _ _ _ _ found opened same exits)
  | arrive _ _ opened exits atBlock running _ =>
    refine (gathered.appendBlock _ "merge").reached (valid.appendBlock "merge") opened (fun _ => ?_) ?_ ?_ atBlock
      (appendBlock_terminator?.trans running)
    · rw [gathered.unreached _ _ opened exits]
      exact (Gathers.new valid.proper).appendBlock _ _
    · exact instructionsOf_of_block? appendBlock_block?_new
    · exact fun _ _ _ found => valid.exit_ne_new found (Nat.le_refl _)
  | unreached _ _ _ _ ih => exact (ih valid.push waiting.push gathered.push).pop
  | reached _ body exits _ ih =>
    have advance := (body.advance valid.push.based).joins.pop valid.based
    exact (ih valid.push waiting.push gathered.push).entered (body.valid valid.push)
      (advance.size ▸ valid.based) exits
  | handle _ body _ ih =>
    have inner := ih valid.handling (waiting.handling valid) (gathered.appendBlock _ "rescue")
    have waiting' := (waiting.handling valid).advance valid.handling (body.advance valid.based)
    exact .written waiting' (body.valid valid.handling) (inner.position _) (fun _ => rfl) rfl
      (List.forall_mem_nil _)
  | branch _ _ atBlock running body _ ih =>
    exact (ih (valid.branched atBlock running)
      (waiting.advance valid (.of_code (frame_branched atBlock running)))
      (.branched waiting valid gathered)).position _
  | closure _ _ _ begun _ _ _ ih =>
    have inner := ih ((valid.declare _).enter begun) (List.forall_mem_nil _)
      ((gathered.declare _).beginRoutine begun)
    exact inner.position _

/-- A function keeps phis and predecessors in step. -/
theorem Gains.gathered {Γ : Scenario} {defn : Definition} (gains : Gains Γ defn func code code')
    (proper : code.Proper) (gathered : code.Gathered) : code'.Gathered := by
  obtain @⟨_, decl, _, _, _, _, _, _, _, begun, builds, _⟩ := gains
  have started : Site.Gathered ⟨code, #[]⟩ := ⟨gathered, nofun, nofun⟩
  have started := (started.declare decl).beginRoutine begun
  exact (builds.gathered (.entry proper begun) (List.forall_mem_nil _) started).code

/-- In a compiled program a phi is the first instruction of its block, control comes to the block by
jumps only, and the blocks that the phi names are its predecessors, each named once. -/
theorem Program.phi_predecessors {program : Program} {options : Options} {code : Recording}
    (compiled : (program.compile options).result = .ok code) {b : BlockId} {data : BasicBlock}
    (present : code.block? b = some data) {i : Nat} {result : Option ValueId} {ty : MachineType}
    {incoming : List (ValueId × BlockId)}
    (found : data.instructions[i]? = some ⟨result, .phi ty incoming⟩) :
    i = 0 ∧
      (∀ p ∈ code.blocksOf data.func, ∀ instruction ∈ code.instructionsOf p,
        b ∈ instruction.op.successors → instruction.op = .br b) ∧
      (incoming.map Prod.snd).Nodup ∧
      (∀ p, p ∈ incoming.map Prod.snd ↔
        p.index ∈ (ControlFlow.ofFunc code data.func).predecessors b) ∧
      ∀ p ∈ incoming.map Prod.snd, p ∈ code.blocksOf data.func := by
  obtain ⟨proper, gathered⟩ := compile_induction .unpromised (motive := Gathered)
    (fun _ _ _ _ _ found => absurd found (Option.not_mem_none _))
    (fun _ _ _ _ proper gains => gains.gathered proper) compiled
  have found' : (code.instructionsOf b)[i]? = some ⟨result, .phi ty incoming⟩ := by
    rw [instructionsOf_of_block? present, Array.getElem?_toList]
    exact found
  obtain ⟨first, distinct, jumps, complete⟩ := gathered b i result ty incoming found'
  have listed := proper.complete b data present
  -- a block that jumps here is in the same function
  have owned : ∀ p ∈ incoming.map Prod.snd, p ∈ code.blocksOf data.func := by
    intro p source
    obtain ⟨instruction, member, jump⟩ := (complete p).mp source
    obtain ⟨data', present', _⟩ := block?_of_mem_instructionsOf member
    have leads : b ∈ instruction.op.successors := jump ▸ List.mem_singleton_self b
    obtain ⟨_, there, same⟩ := proper.target present' member leads
    obtain rfl := Option.mem_unique present there
    exact same ▸ proper.complete p data' present'
  refine ⟨first, fun p _ => jumps p, distinct, fun p => ?_, owned⟩
  rw [ControlFlow.mem_predecessors]
  constructor
  · intro source
    obtain ⟨instruction, member, jump⟩ := (complete p).mp source
    have ends := proper.terminator?_of_mem member (by rw [jump]; rfl)
    exact ⟨listed, p, owned p source, rfl, _, ends, jump ▸ List.mem_singleton_self b⟩
  · rintro ⟨_, ⟨index⟩, _, rfl, op, ends, leads⟩
    obtain ⟨instruction, member, rfl⟩ := exists_of_terminator? ends
    exact (complete _).mpr ⟨instruction, member, jumps _ instruction member leads⟩

/-- A program whose `main` takes the value of a call with two candidates, one of which may raise, or
another value if it does. -/
def Program.merging : Program where
  file := "merging"
  types := ((TypeTable.empty.addClass "Animal" none []).addClass "Dog" (some "Animal") []).addClass
    "Cat" (some "Animal") []
  defs := [
    Definition.ofSignature "Dog#speak" (.object "Dog") [] (.int 32 true),
    (Definition.ofSignature "Cat#speak" (.object "Cat") [] .string).raising,
    (Definition.ofSignature "main" .program [.required "x" (.object "Animal")]
      (.union [.int 32 true, .string])).withBody
      (.ofKind (.rescue
        (.ofCall ((Call.ofTargets "speak" ["Dog#speak", "Cat#speak"]).withReceiver
          (.ofVar "x" (.object "Animal"))) (.union [.int 32 true, .string]))
        (.ofKind (.int 0) (.int 32 true))) (.union [.int 32 true, .string]))]

theorem Program.phi_predecessors_merging :
    ∃ code data result ty incoming, (merging.compile .default).result = .ok code ∧
      code.block? ⟨8⟩ = some data ∧ data.instructions[0]? = some ⟨result, .phi ty incoming⟩ ∧
      incoming.map Prod.snd = [⟨4⟩, ⟨1⟩] ∧
      ∀ p ∈ [(⟨4⟩ : BlockId), ⟨1⟩],
        p.index ∈ (ControlFlow.ofFunc code data.func).predecessors ⟨8⟩ := by
  obtain ⟨code, compiled, merge⟩ : ∃ code, (merging.compile .default).result = .ok code ∧
      ((code.block? ⟨8⟩).bind fun data => data.instructions[0]?).map
        (fun instruction => instruction.op.arms.map Prod.snd) = some [⟨4⟩, ⟨1⟩] :=
    exists_code
  obtain ⟨⟨result, op⟩, first, sources⟩ := Option.map_eq_some_iff.mp merge
  obtain ⟨data, present, found⟩ := Option.bind_eq_some_iff.mp first
  cases op with
  | phi ty incoming =>
    obtain ⟨_, _, _, predecessors, _⟩ := phi_predecessors compiled present found
    refine ⟨code, data, result, ty, incoming, compiled, present, found, sources, fun p member => ?_⟩
    exact (predecessors p).mp (sources ▸ member)
  | _ => cases sources

end CallLowering
