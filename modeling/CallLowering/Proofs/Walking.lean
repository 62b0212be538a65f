import CallLowering.Code.Walk
import CallLowering.Proofs.Recorded

/-!
# Stretches of a walk

A walk goes from instruction to instruction. `Stretch` is a part of a walk between two places in
recorded code, with what the walk knows at either end and the blocks it enters on the way. Stretches
are put together with `Stretch.trans`, and a stretch from the entry of a function to an instruction
that ends the walk determines the trace (`Stretch.walk`).
-/

namespace CallLowering

open Walk

/-- A place in recorded code: before the instruction with a number in a block. -/
structure Spot where
  block : BlockId
  index : Nat

namespace Recording

variable {code code' : Recording} {b : BlockId}

/-- The instruction at a place. -/
def instructionAt? (code : Recording) (spot : Spot) : Option Instruction :=
  (code.instructionsOf spot.block)[spot.index]?

/-- An instruction stays at its place. -/
theorem Extends.instructionAt? {spot : Spot} {instruction : Instruction}
    (later : code.Extends code') (found : code.instructionAt? spot = some instruction) :
    code'.instructionAt? spot = some instruction := by
  unfold Recording.instructionAt? at found ⊢
  obtain ⟨_, longer⟩ := later.instructionsOf spot.block
  rw [← longer, List.getElem?_append_left (List.getElem?_eq_some_iff.mp found).1, found]

/-- The instruction that was put at the end of a block is there. -/
theorem instructionAt?_written {data : BasicBlock} {op : Operation}
    (present : code.block? b = some data) :
    (code.written b op).instructionAt? ⟨b, data.instructions.size⟩ =
      some ⟨code.resultOf op, op⟩ := by
  rw [instructionAt?, instructionsOf_of_block? (written_block?_self present), Array.toList_push,
    ← Array.length_toList, List.getElem?_concat_length]

end Recording

namespace Walk

variable {code : Recording} {spot : Spot} {instruction : Instruction} {walk walk' : Walk}
  {steps : Nat} {blocks : Array BlockId}

/-- Walks on from a place, through at most `steps` further blocks. -/
def runAt (code : Recording) (steps : Nat) (spot : Spot) (blocks : Array BlockId) (walk : Walk) :
    Except WalkError Trace :=
  match walk.runBlock code ((code.instructionsOf spot.block).drop spot.index) with
  | .error error => .error error
  | .ok (.fallThrough, _) => .error (.fallsOff (code.label spot.block))
  | .ok (.goto next, walk) => walk.runFrom code steps next blocks
  | .ok (.halt stop, walk) => .ok (walk.finish blocks stop)

theorem runFrom_succ {b : BlockId} :
    walk.runFrom code (steps + 1) b blocks = walk.runAt code steps ⟨b, 0⟩ (blocks.push b) := rfl

variable (found : code.instructionAt? spot = some instruction)

include found

theorem drop_of_instructionAt? :
    (code.instructionsOf spot.block).drop spot.index =
      instruction :: (code.instructionsOf spot.block).drop (spot.index + 1) := by
  obtain ⟨inside, rfl⟩ := List.getElem?_eq_some_iff.mp found
  exact List.drop_eq_getElem_cons inside

theorem runAt_of_fallThrough
    (stepped : walk.step code instruction = .ok (.fallThrough, walk')) :
    walk.runAt code steps spot blocks =
      walk'.runAt code steps ⟨spot.block, spot.index + 1⟩ blocks := by
  rw [runAt, drop_of_instructionAt? found, runBlock, stepped]
  rfl

theorem runAt_of_goto {next : BlockId}
    (stepped : walk.step code instruction = .ok (.goto next, walk')) :
    walk.runAt code steps spot blocks = walk'.runFrom code steps next blocks := by
  rw [runAt, drop_of_instructionAt? found, runBlock, stepped]

theorem runAt_of_halt {stop : TraceEnd}
    (stepped : walk.step code instruction = .ok (.halt stop, walk')) :
    walk.runAt code steps spot blocks = .ok (walk'.finish blocks stop) := by
  rw [runAt, drop_of_instructionAt? found, runBlock, stepped]

end Walk

/-- A part of a walk between two places, with the blocks that it enters. -/
inductive Stretch (code : Recording) : Spot → Walk → List BlockId → Spot → Walk → Prop where
  | refl {spot walk} : Stretch code spot walk [] spot walk
  | next {spot spot' walk walk1 walk' entered instruction} (found : code.instructionAt? spot = some instruction)
      (stepped : walk.step code instruction = .ok (.fallThrough, walk1))
      (rest : Stretch code ⟨spot.block, spot.index + 1⟩ walk1 entered spot' walk') :
      Stretch code spot walk entered spot' walk'
  | goto {spot spot' walk walk1 walk' entered instruction b}
      (found : code.instructionAt? spot = some instruction)
      (stepped : walk.step code instruction = .ok (.goto b, walk1))
      (rest : Stretch code ⟨b, 0⟩ walk1 entered spot' walk') :
      Stretch code spot walk (b :: entered) spot' walk'

namespace Stretch

variable {code : Recording} {spot spot1 spot' : Spot} {walk walk1 walk' : Walk}
  {entered entered1 : List BlockId} {steps : Nat}

theorem trans (first : Stretch code spot walk entered spot1 walk1)
    (second : Stretch code spot1 walk1 entered1 spot' walk') :
    Stretch code spot walk (entered ++ entered1) spot' walk' := by
  induction first with
  | refl => exact second
  | next found stepped _ ih => exact .next found stepped (ih second)
  | goto found stepped _ ih => exact .goto found stepped (ih second)

section

variable (stretch : Stretch code spot walk entered spot' walk')

include stretch

/-- The rest of a walk after a stretch of it. -/
theorem runAt (steps : Nat) (blocks : Array BlockId) :
    walk.runAt code (steps + entered.length) spot blocks =
      walk'.runAt code steps spot' (blocks ++ entered) := by
  induction stretch generalizing blocks with
  | refl => rw [Array.appendList_nil, List.length_nil, Nat.add_zero]
  | next found stepped _ ih => rw [runAt_of_fallThrough found stepped, ih]
  | @goto _ _ _ _ _ entered _ b found stepped _ ih =>
    rw [runAt_of_goto found stepped, List.length_cons, ← Nat.add_assoc, runFrom_succ, ih,
      Array.appendList_cons]

/-- A walk through too many blocks ends at the limit. -/
theorem runAt_of_lt (blocks : Array BlockId) (few : steps < entered.length) :
    ∃ trace, walk.runAt code steps spot blocks = .ok trace ∧ trace.stop = .stepLimit := by
  induction stretch generalizing blocks steps with
  | refl => cases few
  | next found stepped _ ih =>
    rw [runAt_of_fallThrough found stepped]
    exact ih blocks few
  | @goto _ _ _ _ _ entered _ b found stepped _ ih =>
    rw [runAt_of_goto found stepped]
    cases steps with
    | zero => exact ⟨_, rfl, rfl⟩
    | succ steps =>
      rw [runFrom_succ]
      exact ih _ (Nat.lt_of_succ_lt_succ few)

end

section Entry

variable {func : FuncId} {entry : BlockId} {rest : List BlockId} {assumed : List Ty}
  {instruction : Instruction} {stop : TraceEnd} (starts : code.blocksOf func = entry :: rest)
  (stretch : Stretch code ⟨entry, 0⟩ ⟨[], assumed, #[], #[]⟩ entered spot' walk1)

include starts stretch

variable (found : code.instructionAt? spot' = some instruction)

include found

variable (halts : walk1.step code instruction = .ok (.halt stop, walk'))

include halts

/-- A stretch from the entry of a function to an instruction that ends the walk is the whole walk,
unless it enters too many blocks. -/
theorem walk_eq (few : entered.length < stepLimit) :
    code.walk func assumed = .ok (walk'.finish (#[entry] ++ entered) stop) := by
  obtain ⟨steps, enough⟩ := Nat.exists_eq_add_of_lt few
  rw [Recording.walk, starts]
  dsimp only
  rw [enough, Nat.add_comm entered.length steps, runFrom_succ, stretch.runAt,
    runAt_of_halt found halts]
  rfl

/-- A stretch from the entry of a function to an instruction that ends the walk determines the
trace, if the walk gets there. -/
theorem walk_ok :
    ∃ trace, code.walk func assumed = .ok trace ∧
      (trace.stop ≠ .stepLimit → trace = walk'.finish (#[entry] ++ entered) stop) := by
  by_cases few : entered.length < stepLimit
  · exact ⟨_, stretch.walk_eq starts found halts few, fun _ => rfl⟩
  · have limit : stepLimit = 9999 + 1 := rfl
    rw [limit, Nat.not_lt] at few
    obtain ⟨trace, ran, stopped⟩ := stretch.runAt_of_lt #[entry] few
    refine ⟨trace, ?_, fun stops => absurd stopped stops⟩
    rw [Recording.walk, starts]
    dsimp only
    rw [limit, runFrom_succ]
    exact ran

end Entry

end Stretch

end CallLowering
