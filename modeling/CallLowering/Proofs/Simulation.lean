import CallLowering.Proofs.Joining
import CallLowering.Proofs.Walking

/-!
# Code follows direct evaluation

A piece of lowering is simulated by the code it records: a walk that starts where the piece was
begun makes the calls of direct evaluation, in order, and gets to where direct evaluation ends up
(`Builds.simulates`). That is the end of the recorded code if evaluation goes on, the exit of a join
point if it leaves a frame, and an instruction that ends the function if it does not come back.
-/

namespace CallLowering

open Recording Walk

/-! ## Walks and direct evaluation -/

/-- The walk after some functions were called. -/
def Walk.calling (walk : Walk) (calls : List String) : Walk :=
  { walk with calls := walk.calls ++ calls }

@[simp] theorem Walk.calling_nil (walk : Walk) : walk.calling [] = walk := by
  rw [calling, Array.appendList_nil]

@[simp] theorem Walk.calling_calling (walk : Walk) (first second : List String) :
    (walk.calling first).calling second = walk.calling (first ++ second) := by
  have calls : walk.calls ++ first ++ second = walk.calls ++ (first ++ second) :=
    Array.ext' (by simp)
  simp [calling, calls]

/-- Code goes on at a place: at the end of the block at the cursor, which has not ended. -/
structure Recording.OpenAt (code : Recording) (spot : Spot) : Prop where
  cursor : code.cursor = some spot.block
  last : ∃ data, code.block? spot.block = some data ∧ data.instructions.size = spot.index
  running : code.terminator? spot.block = none

/-- A place where direct evaluation has ended up. -/
def Site.ExitAt (site : Site) (fin : Recording) : Exit → Spot → Prop
  | .continues, spot => site.code.OpenAt spot
  | .leaves frame, spot => spot.index = 0 ∧
      ∃ join, site.joins[frame]? = some join ∧ join.exit = some spot.block
  | .halts, spot => ∃ instruction, fin.instructionAt? spot = some instruction ∧
      instruction.op.isTerminator = true ∧ instruction.op.successors = []

/-- Walks through finished code from a place do what direct evaluation does. -/
def Simulates (rules : Rules) (fin : Recording) (effect : Effect) (spot : Spot) (site : Site) :
    Prop :=
  ∃ run spot' entered, effect = some run ∧ site.ExitAt fin run.exit spot' ∧
    (rules.flat → entered = []) ∧
    ∀ walk : Walk, Stretch fin spot walk entered spot' (walk.calling run.calls)

namespace Simulates

variable {rules : Rules} {fin : Recording} {spot : Spot} {site : Site}

/-- Nothing happens. -/
theorem stay (opened : site.code.OpenAt spot) : Simulates rules fin 1 spot site :=
  ⟨⟨[], .continues⟩, spot, [], rfl, opened, fun _ => rfl, fun _ => by
    rw [calling_nil]
    exact .refl⟩

variable {instruction : Instruction}

/-- One instruction that does not leave its block. -/
theorem next {calls : List String} (found : fin.instructionAt? spot = some instruction)
    (stepped : ∀ walk : Walk, walk.step fin instruction = .ok (.fallThrough, walk.calling calls))
    (opened : site.code.OpenAt ⟨spot.block, spot.index + 1⟩) :
    Simulates rules fin (some ⟨calls, .continues⟩) spot site :=
  ⟨⟨calls, .continues⟩, _, [], rfl, opened, fun _ => rfl, fun walk =>
    .next found (stepped walk) .refl⟩

/-- One instruction that leads to another block. -/
theorem goto {run : Run} {b : BlockId} (layered : ¬rules.flat)
    (found : fin.instructionAt? spot = some instruction)
    (stepped : ∀ walk : Walk, walk.step fin instruction = .ok (.goto b, walk.calling run.calls))
    (exits : site.ExitAt fin run.exit ⟨b, 0⟩) : Simulates rules fin (some run) spot site :=
  ⟨run, _, [b], rfl, exits, fun flat => absurd flat layered, fun walk =>
    .goto found (stepped walk) .refl⟩

end Simulates

namespace Recording

variable {code fin : Recording} {spot : Spot} {block : BlockId} {op : Operation}

/-- The block at the cursor is the same. -/
theorem OpenAt.of_block? {code' : Recording} (opened : code.OpenAt spot)
    (cursor : code'.cursor = code.cursor) (same : code'.block? spot.block = code.block? spot.block) :
    code'.OpenAt spot := by
  obtain ⟨here, _, running⟩ := opened
  exact ⟨cursor.trans here, by rwa [same], (terminator?_of_block? same).trans running⟩

variable {func : FuncId} {label : String}

/-- An empty block at the cursor. -/
theorem OpenAt.of_empty (here : code.cursor = some block)
    (present : code.block? block = some ⟨label, func, #[]⟩) : code.OpenAt ⟨block, 0⟩ :=
  ⟨here, ⟨_, present, rfl⟩, by rw [terminator?, present]; rfl⟩

variable (opened : code.OpenAt spot)

include opened

theorem OpenAt.appendBlock : (code.appendBlock func label).2.OpenAt spot := by
  obtain ⟨_, present, _⟩ := opened.last
  exact opened.of_block? rfl ((appendBlock_block?_of_some present).trans present.symm)

/-- After an instruction that does not end the block, code goes on behind it. -/
theorem OpenAt.written (goesOn : op.isTerminator = false) :
    (code.written spot.block op).OpenAt ⟨spot.block, spot.index + 1⟩ := by
  obtain ⟨here, ⟨_, present, last⟩, _⟩ := opened
  exact ⟨here, ⟨_, written_block?_self present, by rw [Array.size_push, last]⟩,
    terminator?_written present goesOn⟩

/-- Code does not go on where the block has ended. -/
theorem OpenAt.isTerminated : code.isTerminated = false := by
  rw [Recording.isTerminated, opened.cursor]
  simp [opened.running]

/-- The instruction written where code goes on is there in finished code. -/
theorem OpenAt.found (later : (code.written spot.block op).Extends fin) :
    fin.instructionAt? spot = some ⟨code.resultOf op, op⟩ := by
  obtain ⟨_, _⟩ := spot
  obtain ⟨_, ⟨_, present, rfl⟩, _⟩ := opened
  exact later.instructionAt? (instructionAt?_written present)

end Recording

/-- A straight operation. -/
theorem Simulates.write {rules : Rules} {fin code : Recording} {spot : Spot}
    {joins : Array JoinPoint} {op : Operation}
    (straight : op.isStraight = true) (untested : op.isTest = false)
    (declared : ∀ func ∈ op.callee?, ∃ routine, code.routine? func = some routine)
    (opened : code.OpenAt spot) (later : (code.written spot.block op).Extends fin) :
    Simulates rules fin (op.effect code) spot ⟨code.written spot.block op, joins⟩ := by
  have found := opened.found later
  cases op with
  | call func args conv =>
    obtain ⟨_, present⟩ := declared func rfl
    have name : fin.funcName func = code.funcName func :=
      ((extends_written _ _).trans later).funcName present
    refine .next found (fun walk => ?_) (opened.written rfl)
    simp [step, calling, name]
  | unreachable | ret =>
    exact ⟨⟨[], .halts⟩, spot, [], rfl, ⟨_, found, rfl, rfl⟩, fun _ => rfl, fun walk => by
      rw [calling_nil]
      exact .refl⟩
  | phi | landingPad | invoke | br | condBr => cases straight
  | typeId | matchTypeTag | and => cases untested
  | _ =>
    refine .next found (fun _ => ?_) (opened.written rfl)
    rw [calling_nil]
    rfl

/-! ## Putting pieces together -/

/-- Every exit of a join point other than the given one is an exit still. -/
def KeepsExits (apart : Nat → Prop) (joins joins' : Array JoinPoint) : Prop :=
  ∀ (k : Nat) (join : JoinPoint) x, ¬apart k → joins[k]? = some join → join.exit = some x →
    ∃ join' : JoinPoint, joins'[k]? = some join' ∧ join'.exit = some x

namespace Simulates

variable {rules : Rules} {fin : Recording} {effect effect' : Effect} {spot : Spot}
  {site site' : Site}

/-- One piece after another. -/
theorem trans (first : Simulates rules fin effect spot site)
    (kept : KeepsExits (fun _ => False) site.joins site'.joins)
    (second : ∀ spot1, site.code.OpenAt spot1 → Simulates rules fin effect' spot1 site') :
    Simulates rules fin (effect * effect') spot site' := by
  obtain ⟨⟨calls, exit⟩, spot1, entered, rfl, exits, straight, stretch⟩ := first
  cases exit with
  | continues =>
    obtain ⟨⟨calls', exit'⟩, spot', entered', rfl, exits', straight', stretch'⟩ := second spot1 exits
    refine ⟨⟨calls ++ calls', exit'⟩, spot', entered ++ entered', rfl, exits', fun flat => ?_,
      fun walk => ?_⟩
    · rw [straight flat, straight' flat, List.append_nil]
    · rw [← calling_calling]
      exact (stretch walk).trans (stretch' _)
  | leaves frame =>
    obtain ⟨start, join, opened, out⟩ := exits
    exact ⟨⟨calls, .leaves frame⟩, spot1, entered, rfl,
      ⟨start, kept frame join _ id opened out⟩, straight, stretch⟩
  | halts => exact ⟨⟨calls, .halts⟩, spot1, entered, rfl, exits, straight, stretch⟩

variable (inner : Simulates rules fin effect spot site)

include inner

/-- A piece that does not go on, in a site with the same exits. -/
theorem ended (shut : site.code.isTerminated = true)
    (kept : KeepsExits (fun _ => False) site.joins site'.joins) :
    Simulates rules fin effect spot site' := by
  rw [← mul_one effect]
  refine inner.trans kept fun _ opened => ?_
  exact absurd (shut.symm.trans opened.isTerminated) Bool.noConfusion

/-- A frame is closed: what has left it goes on. -/
theorem close {frame : Nat} (shut : ∀ spot', ¬site.code.OpenAt spot')
    (kept : KeepsExits (· = frame) site.joins site'.joins)
    (lands : ∀ join x, site.joins[frame]? = some join → join.exit = some x →
      Simulates rules fin 1 ⟨x, 0⟩ site') :
    Simulates rules fin (effect.close frame) spot site' := by
  obtain ⟨⟨calls, exit⟩, ⟨x, _⟩, entered, rfl, exits, straight, stretch⟩ := inner
  cases exit with
  | continues => exact absurd exits (shut _)
  | leaves frame' =>
    obtain ⟨rfl, join, opened, out⟩ := exits
    by_cases same : frame' = frame
    · subst same
      obtain ⟨_, spot', entered', effect, exits', straight', stretch'⟩ := lands join x opened out
      cases effect
      refine ⟨⟨calls, .continues⟩, spot', entered ++ entered', Effect.close_leaves, exits',
        fun flat => ?_, fun walk => ?_⟩
      · rw [straight flat, straight' flat, List.append_nil]
      · have after := stretch' (walk.calling calls)
        rw [calling_nil] at after
        exact (stretch walk).trans after
    · exact ⟨⟨calls, .leaves frame'⟩, _, entered,
        Effect.close_of_exits fun left => same (Exit.leaves.inj left),
        ⟨rfl, kept frame' join _ same opened out⟩, straight, stretch⟩
  | halts =>
    exact ⟨⟨calls, .halts⟩, _, entered, Effect.close_of_exits nofun, exits, straight, stretch⟩

end Simulates

variable {joins : Array JoinPoint} {join : JoinPoint} {fin : Recording} {rules : Rules}

theorem JoinsAdvance.keepsExits {base blocks : Nat} {joins' : Array JoinPoint}
    (advance : JoinsAdvance base blocks joins joins') :
    KeepsExits (fun _ => False) joins joins' := by
  intro k join x _ opened out
  obtain ⟨join', opened', kept, _⟩ := advance.exits k join opened
  exact ⟨join', opened', kept x out⟩

theorem KeepsExits.pop : KeepsExits (· = joins.size) (joins.push join) joins := by
  intro k found x apart opened out
  rw [Array.getElem?_push, if_neg apart] at opened
  exact ⟨found, opened, out⟩

variable {exit : BlockId} {code : Recording} {r : Region} {spot : Spot}

/-- At the exit of a join point, code goes on behind the phi. -/
theorem Simulates.entered (valid : Site.Valid r ⟨code, joins.push join⟩)
    (inside : r.base ≤ joins.size) (exits : join.exit = some exit)
    (later : (join.entered code exit).Extends fin) :
    Simulates rules fin 1 ⟨exit, 0⟩ ⟨join.entered code exit, joins⟩ := by
  have present := valid.exit_block? inside Array.getElem?_push_size exits
  have opened : (code.position exit).OpenAt ⟨exit, 0⟩ := .of_empty rfl present
  unfold JoinPoint.entered at later ⊢
  split at later
  · rename_i materializes
    rw [if_pos materializes]
    refine .next (opened.found later) (fun _ => ?_) (opened.written rfl)
    rw [calling_nil]
    rfl
  · rename_i unneeded
    rw [if_neg unneeded]
    exact .stay opened

/-- A path that ends in a join point. -/
theorem Simulates.leave {i : Nat} {arm : ValueId × BlockId} (layered : ¬rules.flat)
    (found : joins[i]? = some join) (opened : code.OpenAt spot)
    (later : (code.written spot.block (.br exit)).Extends fin) :
    Simulates rules fin (.leave i) spot
      ⟨code.written spot.block (.br exit), joins.setIfInBounds i (join.reached exit arm)⟩ := by
  refine .goto layered (opened.found later) (fun _ => ?_) ⟨rfl, _,
    Array.getElem?_setIfInBounds_self_of_lt (Array.getElem?_eq_some_iff.mp found).1, rfl⟩
  rw [calling_nil]
  rfl

/-- The code that a piece of lowering records does what direct evaluation of the piece does. -/
theorem Builds.simulates {effect : Effect} {known known' : Known} {site site' : Site}
    (built : Builds rules r effect known site known' site') (isTraced : rules.traced)
    (closes : ¬rules.flat → rules.sealed) (valid : site.Valid r) (later : site'.code.Extends fin)
    (opened : site.code.OpenAt spot) : Simulates rules fin effect spot site' := by
  induction built generalizing fin spot with
  | refl => exact .stay opened
  | trans first second ihFirst ihSecond =>
    have valid1 := first.valid valid
    have advance := second.advance valid1.based
    refine (ihFirst valid (advance.code.later.trans later) opened).trans
      advance.joins.keepsExits fun _ opened1 => ?_
    exact ihSecond valid1 later opened1
  | untraced open_ => exact absurd (closes (open_ isTraced).1) (open_ isTraced).2
  | dead shut => exact absurd (shut.symm.trans opened.isTerminated) Bool.noConfusion
  | constant => exact .stay (opened.of_block? rfl rfl)
  | global name =>
    refine .stay (opened.of_block? addGlobal_cursor ?_)
    rw [block?, block?, addGlobal_blocks]
  | declare decl => exact .stay (opened.of_block? declare_cursor declare_block?)
  | write straight allowed called atBlock running _ =>
    obtain rfl := Option.mem_unique atBlock opened.cursor
    exact .write straight (allowed.untested isTraced) (fun func callee => (called func callee).declared)
      opened later
  | @invoke r _ code _ block handler func args conv layered _ called atBlock _ _ =>
    obtain rfl := Option.mem_unique atBlock opened.cursor
    obtain ⟨_, declared⟩ := called.declared
    have name : fin.funcName func = code.funcName func :=
      ((frame_invoked atBlock opened.running).later.trans later).funcName declared
    have present : (code.invoked r.func spot.block handler func args conv).block?
        ⟨code.blocks.size⟩ = some ⟨"invoke_out", r.func, #[]⟩ :=
      (written_block?_other (valid.cursor_ne_new atBlock)).trans
        appendBlock_block?_new
    refine .goto layered (opened.appendBlock.found ((extends_position _).trans later))
      (fun _ => ?_) (OpenAt.of_empty rfl present)
    simp [step, calling, name]
  | land layered _ found _ atBlock _ _ =>
    obtain rfl := Option.mem_unique atBlock opened.cursor
    exact .leave layered found opened later
  | arrive layered _ found _ atBlock _ _ =>
    obtain rfl := Option.mem_unique atBlock opened.cursor
    exact .leave layered found opened.appendBlock later
  | unreached _ body exits shut ih =>
    have advance := (body.advance valid.push.based).joins.pop valid.based
    have inner := ih valid.push later opened
    refine inner.close (fun spot' opened' => ?_) (advance.size ▸ KeepsExits.pop) ?_
    · exact absurd (shut.symm.trans opened'.isTerminated) Bool.noConfusion
    · intro join x found out
      rw [← advance.size, Array.getElem?_push_size, Option.some.injEq] at found
      exact absurd ((found ▸ out).symm.trans exits) (Option.some_ne_none x)
  | reached layered body exits shut ih =>
    have advance := (body.advance valid.push.based).joins.pop valid.based
    have inner := ih valid.push ((JoinPoint.extends_entered _ _ _).trans later) opened
    refine inner.close (fun _ opened' => ?_) (advance.size ▸ KeepsExits.pop) ?_
    · exact absurd ((shut (closes layered)).symm.trans opened'.isTerminated) Bool.noConfusion
    · intro join x found out
      rw [← advance.size, Array.getElem?_push_size, Option.some.injEq] at found
      subst found
      obtain rfl := Option.mem_unique out exits
      exact .entered (body.valid valid.push) (advance.size ▸ valid.based) exits later
  | handle layered body shut ih =>
    have later1 := ((extends_position _).trans (extends_written _ _)).trans later
    refine (ih valid.handling later1 opened.appendBlock).ended (shut (closes layered)) ?_
    exact fun _ join _ _ found out => ⟨join, found, out⟩
  | branch _ allowed => cases allowed.untested isTraced
  | @closure _ _ _ _ _ _ _ _ _ decl _ _ _ _ _ _ begun atBlock body _ ih =>
    have same := (valid.declare decl).closure_block? begun (declare_cursor.trans atBlock)
      (body.advance (Nat.le_refl _))
    obtain rfl := Option.mem_unique atBlock opened.cursor
    exact .stay (opened.of_block? atBlock.symm (same.trans declare_block?))

end CallLowering
