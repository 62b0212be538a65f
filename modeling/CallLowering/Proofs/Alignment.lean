import CallLowering.Proofs.LockstepCalls
import CallLowering.Proofs.Outline
import Mathlib.Data.Set.Basic

/-!
# Runs with one outline

Two runs of lowering over one program that record code of the same outline. The blocks that later
code may be put into are followed by their numbers; the exit of an open join point is not among them,
so it is still open when the join point is closed, whether the value is needed there or not.

`Alignment.sound` says that all of lowering keeps two such runs together.
-/

namespace CallLowering

open JoinPoint Operation
open Emit hiding cursor isTerminated

open Recording

/-- What of a join point does not depend on values. -/
def JoinPoint.frame (join : JoinPoint) : Ty × Option BlockId := (join.ty, join.exit)

theorem JoinPoint.frame_reached (join : JoinPoint) (exit : BlockId) (arm : ValueId × BlockId) :
    (join.reached exit arm).frame = (join.ty, some exit) := by
  unfold reached
  split <;> rfl

theorem JoinPoint.exit_reached (join : JoinPoint) (exit : BlockId) (arm : ValueId × BlockId) :
    (join.reached exit arm).exit = some exit :=
  congrArg Prod.snd (join.frame_reached exit arm)

/-- The exit of the join point with a number. -/
def exitAt? (joins : Array JoinPoint) (i : Nat) : Option BlockId := joins[i]?.bind exit

/-- Sets of blocks are ordered by inclusion. -/
instance blockSetPreorder : Preorder (Set BlockId) where
  le w w' := w ⊆ w'
  lt w w' := w ⊆ w' ∧ ¬w' ⊆ w
  lt_iff_le_not_ge _ _ := Iff.rfl
  le_refl _ := Set.Subset.rfl
  le_trans _ _ _ := Set.Subset.trans

/-- Two runs of lowering over one program. -/
structure Alignment where
  program : Program
  left : Options
  right : Options
  /-- Whether the runs record the same code. -/
  same : Prop
  target : Target
  types : TypeTable
  memory : Memory → Memory → Prop
  events : Array Event → Array Event → Prop

namespace Alignment

variable (A : Alignment)

/-- Sites of one outline. -/
structure Outlined (w : Set BlockId) (x1 x2 : Site) : Prop where
  outline : x1.code.outline = x2.code.outline
  cursor : x1.code.cursor = x2.code.cursor
  target : x1.code.target = A.target ∧ x2.code.target = A.target
  types : x1.code.types = A.types ∧ x2.code.types = A.types
  here : ∀ b ∈ x1.code.cursor, b ∈ w
  known : ∀ b ∈ w, b.index < x1.code.blocks.size
  frames : x1.joins.map frame = x2.joins.map frame
  /-- The exits of join points are open, and later code is put nowhere into them. -/
  exits : ∀ i exit, exitAt? x1.joins i = some exit →
    exit ∉ w ∧ exit.index < x1.code.blocks.size ∧ x1.code.terminator? exit = none
  apart : ∀ i k exit, exitAt? x1.joins i = some exit → exitAt? x1.joins k = some exit → i = k

/-- The runs as a coupling. -/
def coupling : Coupling (Set BlockId) where
  left := ⟨A.program, A.left⟩
  right := ⟨A.program, A.right⟩
  exact := A.same
  needs needed1 needed2 := A.same → needed1 = needed2
  value _ v1 v2 := A.same → v1 = v2
  block w b1 b2 := b1 = b2 ∧ b1 ∈ w
  func _ _ f1 f2 := f1 = f2
  site w x1 x2 := (A.same → x1 = x2) ∧ A.Outlined w x1 x2
  memory := A.memory
  events := A.events
  own _ := True
  calls _ := True
  declares _ := True
  scopes := (0, 0)
  dispatches := (0, 0)
  value_mono _ value := value
  block_mono later block := ⟨block.1, later block.2⟩
  func_mono _ func := func

variable {A} {w : Set BlockId} {c1 c2 : Recording} {j1 j2 : Array JoinPoint} {join : JoinPoint}
  {func : FuncId}

/-! ## Sites -/

namespace Outlined

section

variable (site : A.Outlined w ⟨c1, j1⟩ ⟨c2, j2⟩)

include site

theorem isTerminated : c1.isTerminated = c2.isTerminated := by
  have outline : c1.outline = c2.outline := site.outline
  have cursor : c1.cursor = c2.cursor := site.cursor
  unfold Recording.isTerminated
  rw [cursor]
  cases c2.cursor with
  | none => rfl
  | some b =>
    dsimp only
    rw [outline_isSome_terminator?, outline_isSome_terminator?, outline]

theorem isSome_terminator? (b : BlockId) :
    (c1.terminator? b).isSome = (c2.terminator? b).isSome := by
  have outline : c1.outline = c2.outline := site.outline
  rw [outline_isSome_terminator?, outline_isSome_terminator?, outline]

theorem blocks_size : c1.blocks.size = c2.blocks.size := by
  have outline : c1.outline = c2.outline := site.outline
  rw [← outline_blocks_size, ← outline_blocks_size, outline]

theorem joins_size : j1.size = j2.size := by
  have frames : j1.map frame = j2.map frame := site.frames
  rw [← Array.size_map (f := frame), frames, Array.size_map]

/-- Code is added to both sites: old blocks that later code is put nowhere into are left open. -/
theorem step {w' : Set BlockId} {c1' c2' : Recording} (outline : c1'.outline = c2'.outline)
    (cursor : c1'.cursor = c2'.cursor) (target : c1'.target = c1.target ∧ c2'.target = c2.target)
    (types : c1'.types = c1.types ∧ c2'.types = c2.types) (here : ∀ b ∈ c1'.cursor, b ∈ w')
    (known : ∀ b ∈ w', b.index < c1'.blocks.size) (grown : c1.blocks.size ≤ c1'.blocks.size)
    (new : ∀ b ∈ w', b ∉ w → c1.blocks.size ≤ b.index)
    (running : ∀ b, b ∉ w → c1.terminator? b = none → c1'.terminator? b = none) :
    A.Outlined w' ⟨c1', j1⟩ ⟨c2', j2⟩ where
  outline := outline
  cursor := cursor
  target := ⟨target.1.trans site.target.1, target.2.trans site.target.2⟩
  types := ⟨types.1.trans site.types.1, types.2.trans site.types.2⟩
  here := here
  known := known
  frames := site.frames
  exits i exit found := by
    obtain ⟨apart, inside, open_⟩ := site.exits i exit found
    refine ⟨fun member => ?_, Nat.lt_of_lt_of_le inside grown, running exit apart open_⟩
    exact Nat.not_lt.mpr (new exit member apart) inside
  apart := site.apart

end

variable {joins : Array JoinPoint} {b exit : BlockId} {join1 join2 : JoinPoint} {i index : Nat}

section

variable (site : A.Outlined w ⟨c1, j1⟩ ⟨c2, j2⟩)

include site

/-- The cursors move to a block that code may be put into. -/
theorem position (member : b ∈ w) : A.Outlined w ⟨c1.position b, j1⟩ ⟨c2.position b, j2⟩ :=
  site.step site.outline rfl ⟨rfl, rfl⟩ ⟨rfl, rfl⟩
    (fun _ here => (Option.some.inj here) ▸ member) site.known (Nat.le_refl _)
    (fun _ member absent => absurd member absent) fun _ _ => id

/-- Operations that differ in values only are recorded. -/
theorem written (atBlock : c1.cursor = some b) (alike : op1.Alike op2) :
    A.Outlined w ⟨c1.written b op1, j1⟩ ⟨c2.written b op2, j2⟩ := by
  refine site.step ?_ site.cursor ⟨rfl, rfl⟩ ⟨rfl, rfl⟩ site.here ?_ ?_
    (fun _ member absent => absurd member absent) ?_
  · have outline : c1.outline = c2.outline := site.outline
    rw [outline_written, outline_written, outline, Outline.write_congr alike]
  · intro b' member
    rw [written_blocks_size]
    exact site.known b' member
  · rw [written_blocks_size]
  · intro b' absent open_
    have other : b' ≠ b := fun equal => absent (equal ▸ site.here b atBlock)
    rw [terminator?_of_block? (written_block?_other other)]
    exact open_

/-- A block is added to the function of the block at the cursor. -/
theorem appendBlock (func : FuncId) (label : String) :
    A.Outlined w ⟨(c1.appendBlock func label).2, j1⟩ ⟨(c2.appendBlock func label).2, j2⟩ := by
  refine site.step ?_ site.cursor ⟨rfl, rfl⟩ ⟨rfl, rfl⟩ site.here ?_ ?_
    (fun _ member absent => absurd member absent) ?_
  · have outline : c1.outline = c2.outline := site.outline
    rw [outline_appendBlock, outline_appendBlock, outline]
  · intro b member
    rw [appendBlock_blocks_size]
    exact Nat.lt_succ_of_lt (site.known b member)
  · rw [appendBlock_blocks_size]
    exact Nat.le_succ _
  · intro b _ open_
    rw [appendBlock_terminator?]
    exact open_

/-- Code may be put into a new block that is no exit. -/
theorem allow (inside : b.index < c1.blocks.size) (other : ∀ i, exitAt? j1 i ≠ some b) :
    A.Outlined (insert b w) ⟨c1, j1⟩ ⟨c2, j2⟩ where
  __ := site
  here b' here := .inr (site.here b' here)
  known b' member := by
    obtain rfl | member := member
    · exact inside
    · exact site.known b' member
  exits i exit found := by
    obtain ⟨absent, rest⟩ := site.exits i exit found
    refine ⟨fun member => ?_, rest⟩
    obtain rfl | member := member
    · exact other i found
    · exact absent member

/-- A block is added that code may be put into. -/
theorem newBlock (func : FuncId) (label : String) :
    A.Outlined (insert ⟨c1.blocks.size⟩ w) ⟨(c1.appendBlock func label).2, j1⟩
      ⟨(c2.appendBlock func label).2, j2⟩ := by
  refine (site.appendBlock func label).allow ?_ fun i found => ?_
  · rw [appendBlock_blocks_size]
    exact Nat.lt_succ_self _
  · exact Nat.lt_irrefl _ (site.exits i _ found).2.1

theorem quiet {c1' c2' : Recording} (left : c1.Quiet c1') (right : c2.Quiet c2') : A.Outlined w ⟨c1', j1⟩ ⟨c2', j2⟩ := by
  refine site.step ?_ ?_ ⟨left.target, right.target⟩ ⟨left.types, right.types⟩ ?_ ?_ ?_
    (fun _ member absent => absurd member absent) ?_
  · exact left.outline.trans (site.outline.trans right.outline.symm)
  · exact left.cursor.trans (site.cursor.trans right.cursor.symm)
  · rw [left.cursor]
    exact site.here
  · rw [left.blocks_size]
    exact site.known
  · exact Nat.le_of_eq left.blocks_size.symm
  · intro b _ running
    rw [← Option.not_isSome_iff_eq_none, left.isSome_terminator?, running]
    exact Bool.false_ne_true

theorem declare (decl : FnDecl) :
    A.Outlined w ⟨(c1.declare decl).2, j1⟩ ⟨(c2.declare decl).2, j2⟩ := by
  have same : ∀ code : Recording, (code.declare decl).2.cursor = code.cursor ∧
      (code.declare decl).2.target = code.target ∧ (code.declare decl).2.types = code.types ∧
      (code.declare decl).2.blocks = code.blocks := by
    intro code
    unfold Recording.declare
    split <;> exact ⟨rfl, rfl, rfl, rfl⟩
  refine site.step (outline_declare site.outline decl).2 ?_ ⟨(same c1).2.1, (same c2).2.1⟩
    ⟨(same c1).2.2.1, (same c2).2.2.1⟩ ?_ ?_ ?_ (fun _ member absent => absurd member absent) ?_
  · exact (same c1).1.trans (site.cursor.trans (same c2).1.symm)
  · rw [(same c1).1]
    exact site.here
  · rw [(same c1).2.2.2]
    exact site.known
  · rw [(same c1).2.2.2]
  · intro b _ running
    rw [terminator?, block?, (same c1).2.2.2]
    exact running

/-- A function gets its body, with an entry block that code is put into. -/
theorem begun {count : Nat} :
    A.Outlined (insert ⟨c1.blocks.size⟩ w) ⟨c1.begun func count, j1⟩ ⟨c2.begun func count, j2⟩ := by
  have quiet : ∀ code : Recording, code.Quiet
      ((code.withParamValues func count 0).withParams func (code.nextValues count)) := fun _ =>
    ⟨outline_withParams _ _, rfl, rfl, rfl⟩
  have entry := ((site.quiet (quiet c1) (quiet c2)).newBlock func "entry").position (.inl rfl)
  unfold Recording.begun
  rw [← site.blocks_size]
  exact entry

end

/-! ### Join points -/

theorem exitAt?_push :
    exitAt? (joins.push join) i = if i = joins.size then join.exit else exitAt? joins i := by
  unfold exitAt?
  rw [Array.getElem?_push]
  split <;> rfl

theorem exitAt?_push_of_some (join : JoinPoint) (found : exitAt? joins i = some exit) :
    exitAt? (joins.push join) i = some exit ∧ i < joins.size := by
  obtain ⟨_, present, _⟩ := Option.bind_eq_some_iff.mp found
  have before := (Array.getElem?_eq_some_iff.mp present).1
  exact ⟨by rw [exitAt?_push, if_neg (Nat.ne_of_lt before), found], before⟩

theorem push (site : A.Outlined w ⟨c1, j1⟩ ⟨c2, j2⟩) (same : join1.frame = join2.frame)
    (fresh : join1.exit = none) : A.Outlined w ⟨c1, j1.push join1⟩ ⟨c2, j2.push join2⟩ where
  __ := site
  frames := by
    have frames : j1.map frame = j2.map frame := site.frames
    dsimp only
    rw [Array.map_push, Array.map_push, frames, same]
  exits i exit found := by
    dsimp only at found
    rw [exitAt?_push, fresh] at found
    split at found
    · cases found
    · exact site.exits i exit found
  apart i k exit found1 found2 := by
    dsimp only at found1 found2
    rw [exitAt?_push, fresh] at found1 found2
    split at found1
    · cases found1
    · split at found2
      · cases found2
      · exact site.apart i k exit found1 found2

section

variable (site : A.Outlined w ⟨c1, j1.push join1⟩ ⟨c2, j2.push join2⟩)

include site

theorem frame_eq : join1.frame = join2.frame := by
  have frames : (j1.push join1).map frame = (j2.push join2).map frame :=
    site.frames
  rw [Array.map_push, Array.map_push] at frames
  exact (Array.push_eq_push.mp frames).1

/-- The innermost join point is taken away. -/
theorem pop : A.Outlined w ⟨c1, j1⟩ ⟨c2, j2⟩ where
  __ := site
  frames := by
    have frames : (j1.push join1).map frame = (j2.push join2).map frame :=
      site.frames
    rw [Array.map_push, Array.map_push] at frames
    exact (Array.push_eq_push.mp frames).2
  exits i exit found := site.exits i exit (exitAt?_push_of_some join1 found).1
  apart i k exit found1 found2 :=
    site.apart i k exit (exitAt?_push_of_some join1 found1).1 (exitAt?_push_of_some join1 found2).1

/-- The exit of the innermost join point is open, and no exit of another one. -/
theorem lastExit (exits : join1.exit = some exit) :
    exit.index < c1.blocks.size ∧ c1.terminator? exit = none ∧ ∀ i, exitAt? j1 i ≠ some exit := by
  have last : exitAt? (j1.push join1) j1.size = some exit := by rw [exitAt?_push, if_pos rfl, exits]
  obtain ⟨_, inside, running⟩ := site.exits j1.size exit last
  refine ⟨inside, running, fun i found => ?_⟩
  obtain ⟨found, before⟩ := exitAt?_push_of_some join1 found
  exact Nat.ne_of_lt before (site.apart i j1.size exit found last)

end

theorem exitAt?_setIfInBounds (inside : index < joins.size) :
    exitAt? (joins.setIfInBounds index join) i =
      if i = index then join.exit else exitAt? joins i := by
  unfold exitAt?
  rw [Array.getElem?_setIfInBounds, if_pos inside]
  by_cases equal : index = i
  · rw [if_pos equal, if_pos equal.symm]
    rfl
  · rw [if_neg equal, if_neg (Ne.symm equal)]

/-- A join point is replaced by one whose exit is open and no exit of another one. -/
theorem setJoin (site : A.Outlined w ⟨c1, j1⟩ ⟨c2, j2⟩) (inside : index < j1.size)
    (same : join1.frame = join2.frame)
    (exits : ∀ exit, join1.exit = some exit → exit ∉ w ∧ exit.index < c1.blocks.size ∧ c1.terminator? exit = none ∧ ∀ i ≠ index, exitAt? j1 i ≠ some exit) :
    A.Outlined w ⟨c1, j1.setIfInBounds index join1⟩ ⟨c2, j2.setIfInBounds index join2⟩ where
  __ := site
  frames := by
    have frames : j1.map frame = j2.map frame := site.frames
    dsimp only
    rw [Array.map_setIfInBounds, Array.map_setIfInBounds, frames, same]
  exits i exit found := by
    dsimp only at found
    rw [exitAt?_setIfInBounds inside] at found
    split at found
    · obtain ⟨absent, known, running, _⟩ := exits exit found
      exact ⟨absent, known, running⟩
    · exact site.exits i exit found
  apart i k exit found1 found2 := by
    dsimp only at found1 found2
    rw [exitAt?_setIfInBounds inside] at found1 found2
    split at found1 <;> split at found2
    · rename_i first second
      rw [first, second]
    · rename_i first second
      exact absurd found2 ((exits exit found1).2.2.2 k second)
    · rename_i first second
      exact absurd found1 ((exits exit found2).2.2.2 i first)
    · exact site.apart i k exit found1 found2

theorem frameAt_eq (site : A.Outlined w ⟨c1, j1⟩ ⟨c2, j2⟩) (opened1 : j1[index]? = some join1)
    (opened2 : j2[index]? = some join2) : join1.frame = join2.frame := by
  have frames : j1.map frame = j2.map frame := site.frames
  have same := congrArg (·[index]?) frames
  simpa [opened1, opened2] using same

section Reaching

variable {index : Nat} {join1 join2 : JoinPoint} {b : BlockId}

theorem frame_reached_eq (same : join1.ty = join2.ty) (exit : BlockId) (arm1 arm2 : ValueId × BlockId) :
    (join1.reached exit arm1).frame = (join2.reached exit arm2).frame := by
  rw [frame_reached, frame_reached, same]

/-- A path ends in the exit that a join point has already. -/
theorem branch (arm1 arm2 : ValueId × BlockId) (site : A.Outlined w ⟨c1, j1⟩ ⟨c2, j2⟩)
    (atBlock : c1.cursor = some b) (opened : j1[index]? = some join1) (same : join1.ty = join2.ty)
    (exits : join1.exit = some exit) :
    A.Outlined w ⟨c1.written b (.br exit), j1.setIfInBounds index (join1.reached exit arm1)⟩
      ⟨c2.written b (.br exit), j2.setIfInBounds index (join2.reached exit arm2)⟩ := by
  have branched := site.written atBlock (⟨rfl, rfl, rfl⟩ : (br exit).Alike (.br exit))
  refine branched.setJoin (Array.getElem?_eq_some_iff.mp opened).1 (frame_reached_eq same exit _ _)
    fun exit' reached => ?_
  obtain rfl : exit = exit' := Option.some.inj ((exit_reached _ _ _).symm.trans reached)
  have here : exitAt? j1 index = some exit := by rw [exitAt?, opened]; exact exits
  obtain ⟨absent, known, running⟩ := branched.exits index exit here
  exact ⟨absent, known, running, fun i other found => other (branched.apart i index exit found here)⟩

/-- A path ends in a join point that gets a new block as its exit. -/
theorem branchNew (arm1 arm2 : ValueId × BlockId) (site : A.Outlined w ⟨c1, j1⟩ ⟨c2, j2⟩)
    (atBlock : c1.cursor = some b) (inside : index < j1.size) (same : join1.ty = join2.ty)
    (func : FuncId) (label : String) : A.Outlined w
      ⟨(c1.appendBlock func label).2.written b (.br ⟨c1.blocks.size⟩),
        j1.setIfInBounds index (join1.reached ⟨c1.blocks.size⟩ arm1)⟩
      ⟨(c2.appendBlock func label).2.written b (.br ⟨c1.blocks.size⟩),
        j2.setIfInBounds index (join2.reached ⟨c1.blocks.size⟩ arm2)⟩ := by
  have branched := (site.appendBlock func label).written atBlock
    (⟨rfl, rfl, rfl⟩ : (br ⟨c1.blocks.size⟩).Alike (.br ⟨c1.blocks.size⟩))
  refine branched.setJoin inside (frame_reached_eq same _ _ _) fun exit reached => ?_
  obtain rfl : ⟨c1.blocks.size⟩ = exit :=
    Option.some.inj ((exit_reached _ _ _).symm.trans reached)
  -- No number of a block the site knows is that of the new block.
  refine ⟨fun member => Nat.lt_irrefl _ (site.known _ member), ?_, ?_, fun i _ found =>
    Nat.lt_irrefl _ (site.exits i _ found).2.1⟩
  · rw [written_blocks_size, appendBlock_blocks_size]
    exact Nat.lt_succ_self _
  · have new : b ≠ ⟨c1.blocks.size⟩ := fun equal =>
      Nat.ne_of_lt (site.known b (site.here b atBlock)) (congrArg BlockId.index equal)
    rw [terminator?_of_block? (written_block?_other new.symm),
      appendBlock_terminator?, terminator?, block?,
      Array.getElem?_eq_none (Nat.le_refl _), Option.bind_none]

end Reaching

end Outlined

/-! ## Recording -/

theorem sites (site : A.coupling.site w ⟨c1, j1⟩ ⟨c2, j2⟩) (equal : A.same) : c1 = c2 ∧ j1 = j2 :=
  Site.mk.inj (site.1 equal)

/-- Ways to record code that are the same in same runs agree if they keep the outlines together. -/
theorem records {α : Type} {post : Set BlockId → α → α → Prop} {act1 act2 : Emit α}
    (sites : A.same → c1 = c2 ∧ j1 = j2) (acts : A.same → act1 = act2) (loose : Coupled False
      (fun a c1 b c2 => ∃ w', w ≤ w' ∧ A.Outlined w' ⟨c1, j1⟩ ⟨c2, j2⟩ ∧
        ((A.same → a = b) → post w' a b))
      (fun c1 c2 => ∃ w', w ≤ w' ∧ A.Outlined w' ⟨c1, j1⟩ ⟨c2, j2⟩) (act1 c1) (act2 c2)) :
    A.coupling.Records w j1 j2 post (act1 c1) (act2 c2) := by
  have equal : A.same → act1 c1 = act2 c2 := fun same => by rw [acts same, (sites same).1]
  revert loose equal
  generalize act1 c1 = r1
  generalize act2 c2 = r2
  intro loose equal
  cases r1 with
  | ok a c1 =>
    cases r2 with
    | ok b c2 =>
      obtain ⟨w', later, site, holds⟩ := loose
      refine ⟨w', later, ⟨fun same => ?_, site⟩, holds fun same => ?_⟩
      · obtain ⟨-, codes⟩ := EStateM.Result.ok.inj (equal same)
        rw [codes, (sites same).2]
      · exact (EStateM.Result.ok.inj (equal same)).1
    | error => exact loose
  | error e1 c1 =>
    cases r2 with
    | ok => exact loose
    | error e2 c2 =>
      obtain ⟨_, w', later, site⟩ := loose
      refine ⟨fun same => (EStateM.Result.error.inj (equal same)).1, w', later, fun same => ?_, site⟩
      obtain ⟨-, codes⟩ := EStateM.Result.error.inj (equal same)
      rw [codes, (sites same).2]

theorem values_eq {vs1 vs2 : List ValueId} (same : List.Forall₂ (A.coupling.numbers w).value vs1 vs2)
    (equal : A.same) : vs1 = vs2 :=
  List.forall₂_eq_eq_eq ▸ same.imp fun _ _ value => value equal

theorem func_eq {f1 f2 : FuncId} (same : (A.coupling.numbers w).func f1 f2) : f1 = f2 := by
  obtain ⟨_, equal⟩ := same
  exact equal

variable {join1 join2 : JoinPoint} {index : Nat}

/-- Operations that correspond differ in values only. -/
theorem alike (same : A.coupling.SameOp w op1 op2) : op1.Alike op2 := by
  cases same with
  | call func args =>
    refine ⟨rfl, ?_, rfl⟩
    rw [calling?, calling?, args.length_eq, func_eq func]
  | invoke func args normal handler =>
    refine ⟨rfl, ?_, ?_⟩
    · rw [calling?, calling?, args.length_eq, func_eq func]
    · rw [(normal : _ ∧ _).1, (handler : _ ∧ _).1]
      rfl
  | br target =>
    rw [(target : _ ∧ _).1]
    exact ⟨rfl, rfl, rfl⟩
  | condBr cond yes no =>
    rw [(yes : _ ∧ _).1, (no : _ ∧ _).1]
    exact ⟨rfl, rfl, rfl⟩
  | _ => exact ⟨rfl, rfl, rfl⟩

/-- Operations that correspond in same runs are the same. -/
theorem op_eq (same : A.coupling.SameOp w op1 op2) (equal : A.same) : op1 = op2 := by
  cases same with
  | alloca | landingPad | unreachable => rfl
  | load value | fieldPtr value | extractValue value | cast value | convert value | typeId value
  | matchTypeTag value => rw [value equal]
  | store value ptr | copy value ptr | and value ptr => rw [value equal, ptr equal]
  | phi arms =>
    congr 1
    refine List.forall₂_eq_eq_eq ▸ arms.imp fun _ _ same => ?_
    exact Prod.ext (same.1 equal) same.2.1
  | call func args => rw [values_eq args equal, func_eq func]
  | invoke func args normal handler =>
    rw [values_eq args equal, func_eq func, (normal : _ ∧ _).1, (handler : _ ∧ _).1]
  | makeClosure func data => rw [data equal, func_eq func]
  | br target => rw [(target : _ ∧ _).1]
  | condBr cond yes no => rw [cond equal, (yes : _ ∧ _).1, (no : _ ∧ _).1]
  | ret value =>
    cases value with
    | none => rfl
    | some value => rw [value equal]

namespace Outlined

variable {b : BlockId} (site : A.Outlined w ⟨c1, j1⟩ ⟨c2, j2⟩)

include site

/-- The block at the cursor is open in both runs. -/
theorem atOpen (atBlock : c1.cursor = some b) (running : c1.terminator? b = none) :
    c2.cursor = some b ∧ c2.terminator? b = none := by
  refine ⟨site.cursor.symm.trans atBlock, ?_⟩
  rw [← Option.not_isSome_iff_eq_none, ← site.isSome_terminator?, running]
  exact Bool.false_ne_true

theorem atClosed (closed : ∀ b ∈ c1.cursor, (c1.terminator? b).isSome) :
    ∀ b ∈ c2.cursor, (c2.terminator? b).isSome := by
  intro b atBlock
  rw [← site.isSome_terminator?]
  exact closed b (site.cursor.trans atBlock)

/-- A block belongs to the same function in both runs. -/
theorem present {data1 : BasicBlock} (present : c1.block? b = some data1) :
    ∃ data2, c2.block? b = some data2 ∧ data2.func = data1.func := by
  have outline : c1.outline = c2.outline := site.outline
  have blocks : (c2.block? b).map BasicBlock.outline = some data1.outline := by
    rw [← outline_block?, ← outline, outline_block?, present]
    rfl
  obtain ⟨data2, present2, same⟩ := Option.map_eq_some_iff.mp blocks
  exact ⟨data2, present2, congrArg BlockOutline.func same⟩

end Outlined

variable {op1 op2 : Operation}

section

variable (site : A.coupling.site w ⟨c1, j1⟩ ⟨c2, j2⟩)

include site

theorem emit (same : A.coupling.SameOp w op1 op2) :
    A.coupling.Records w j1 j2 A.coupling.value (value op1 c1) (value op2 c2) := by
  refine records (sites site) (fun equal => congrArg value (op_eq same equal)) ?_
  obtain ⟨_, atBlock, running, _⟩ | ⟨closed, _, _, refused⟩ := value_cases op1 c1
  · obtain ⟨atBlock2, running2⟩ := site.2.atOpen atBlock running
    rw [value_at_open atBlock running, value_at_open atBlock2 running2,
      ← (alike same).hasResult]
    split
    · exact ⟨w, le_refl w, site.2.written atBlock (alike same), id⟩
    · exact ⟨False.elim, w, le_refl w, site.2⟩
  · obtain ⟨_, refused2⟩ := value_of_closed op2 (site.2.atClosed closed)
    rw [refused, refused2]
    exact ⟨False.elim, w, le_refl w, site.2⟩

theorem effect (same : A.coupling.SameOp w op1 op2) :
    A.coupling.Records w j1 j2 (fun _ _ _ => True) (effect op1 c1) (effect op2 c2) := by
  refine records (sites site) (fun equal => congrArg Emit.effect (op_eq same equal)) ?_
  obtain ⟨_, atBlock, running, ran⟩ | ⟨closed, _, _, refused⟩ := effect_cases op1 c1
  · obtain ⟨atBlock2, running2⟩ := site.2.atOpen atBlock running
    rw [ran, effect_of_open atBlock2 running2]
    exact ⟨w, le_refl w, site.2.written atBlock (alike same), fun _ => trivial⟩
  · obtain ⟨_, refused2⟩ := effect_of_closed op2 (site.2.atClosed closed)
    rw [refused, refused2]
    exact ⟨False.elim, w, le_refl w, site.2⟩

/-- The code is given a quiet change in both runs that answers a value. -/
theorem records_quiet {change : Recording → ValueId × Recording}
    (quiet : ∀ code : Recording, code.Quiet (change code).2) :
    A.coupling.Records w j1 j2 A.coupling.value (update change c1) (update change c2) := by
  exact records (sites site) (fun _ => rfl) ⟨w, le_refl w, site.2.quiet (quiet c1) (quiet c2), id⟩

theorem declare (decl : FnDecl) :
    A.coupling.Records w j1 j2 (fun w => A.coupling.func w decl.name) (declare decl c1)
      (declare decl c2) := by
  exact records (sites site) (fun _ => rfl) ⟨w, le_refl w, site.2.declare decl, fun _ =>
    (outline_declare site.2.outline decl).1⟩

theorem beginRoutine :
    A.coupling.Records w j1 j2 (fun w => List.Forall₂ (A.coupling.value w))
      (Emit.beginRoutine func c1) (Emit.beginRoutine func c2) := by
  refine records (sites site) (fun _ => rfl) ?_
  have routines : (c1.routine? func).map (fun routine => (routine.decl, routine.blocks)) =
      (c2.routine? func).map fun routine => (routine.decl, routine.blocks) := by
    have outline : c1.outline = c2.outline := site.2.outline
    rw [← outline_routine?, ← outline_routine?, outline]
  cases declared1 : c1.routine? func with
  | none =>
    rw [declared1] at routines
    have declared2 := Option.map_eq_none_iff.mp routines.symm
    rw [beginRoutine_of_undeclared declared1, beginRoutine_of_undeclared declared2]
    exact ⟨False.elim, w, le_refl w, site.2⟩
  | some routine1 =>
    rw [declared1] at routines
    obtain ⟨routine2, declared2, same⟩ := Option.map_eq_some_iff.mp routines.symm
    obtain ⟨decls, blocks⟩ := Prod.mk.inj same
    have defined : routine1.isDefined = routine2.isDefined := by
      rw [Routine.isDefined, Routine.isDefined, blocks]
    cases body : routine1.isDefined with
    | true =>
      rw [beginRoutine_of_defined declared1 body, beginRoutine_of_defined declared2 (defined ▸ body)]
      exact ⟨False.elim, w, le_refl w, site.2⟩
    | false =>
      rw [beginRoutine_of_bodiless declared1 body,
        beginRoutine_of_bodiless declared2 (defined ▸ body), decls]
      refine ⟨_, Set.subset_insert _ w, site.2.begun, fun _ => ?_⟩
      refine List.forall₂_map_left_iff.mpr (List.forall₂_map_right_iff.mpr ?_)
      exact List.forall₂_same.mpr fun _ _ equal => by rw [(sites site equal).1]

theorem newBlock (label : String) :
    A.coupling.Records w j1 j2 A.coupling.block (newBlock label c1) (newBlock label c2) := by
  refine records (sites site) (fun _ => rfl) ?_
  have outline : c1.outline = c2.outline := site.2.outline
  cases atBlock : c1.cursor with
  | none =>
    rw [newBlock_of_nowhere atBlock,
      newBlock_of_nowhere (site.2.cursor.symm.trans atBlock)]
    exact ⟨False.elim, w, le_refl w, site.2⟩
  | some b =>
    obtain ⟨data1, present1⟩ : ∃ data, c1.block? b = some data :=
      ⟨_, Array.getElem?_eq_getElem (site.2.known b (site.2.here b atBlock))⟩
    obtain ⟨_, present2, funcs⟩ := site.2.present present1
    rw [newBlock_of_present atBlock present1,
      newBlock_of_present (site.2.cursor.symm.trans atBlock) present2, ← site.2.blocks_size, funcs]
    exact ⟨_, Set.subset_insert _ w, site.2.newBlock _ label, fun _ => ⟨rfl, .inl rfl⟩⟩

theorem openJoin {needed1 needed2 : Bool} (needs : A.coupling.needs needed1 needed2) (ty : Ty)
    (machineType : MachineType) : A.coupling.site w ⟨c1, j1.push (.fresh ty machineType needed1)⟩
      ⟨c2, j2.push (.fresh ty machineType needed2)⟩ := by
  refine ⟨fun equal => ?_, site.2.push rfl rfl⟩
  rw [needs equal, (sites site equal).1, (sites site equal).2]

end

theorem setIfInBounds_self {joins : Array JoinPoint} (opened : joins[index]? = some join) :
    joins.setIfInBounds index join = joins := by
  obtain ⟨inside, rfl⟩ := Array.getElem?_eq_some_iff.mp opened
  rw [Array.setIfInBounds, dif_pos inside, Array.set_getElem_self]

/-- The path at the cursor ends in a join point in both runs, or nowhere. -/
theorem add_outlined (v1 v2 : ValueId) (ty : Ty) (site : A.Outlined w ⟨c1, j1⟩ ⟨c2, j2⟩)
    (opened1 : j1[index]? = some join1) (opened2 : j2[index]? = some join2) : Coupled False
      (fun join1' c1' join2' c2' => ∃ w', w ≤ w' ∧ A.Outlined w'
        ⟨c1', j1.setIfInBounds index join1'⟩ ⟨c2', j2.setIfInBounds index join2'⟩)
      (fun c1' c2' => ∃ w', w ≤ w' ∧ A.Outlined w' ⟨c1', j1⟩ ⟨c2', j2⟩)
      (join1.add v1 ty c1) (join2.add v2 ty c2) := by
  have frame := site.frameAt_eq opened1 opened2
  by_cases left : c1.isTerminated = true ∨ ty.isNoReturn = true
  · rw [add_of_left left, add_of_left (site.isTerminated ▸ left)]
    refine ⟨w, le_refl w, ?_⟩
    rw [setIfInBounds_self opened1, setIfInBounds_self opened2]
    exact site
  obtain ⟨running, returns⟩ := not_or.mp left
  cases atBlock : c1.cursor with
  | none =>
    rw [add_of_nowhere atBlock (Bool.eq_false_iff.mpr returns),
      add_of_nowhere (site.cursor.symm.trans atBlock) (Bool.eq_false_iff.mpr returns)]
    exact ⟨False.elim, w, le_refl w, site⟩
  | some b =>
    have open1 : c1.terminator? b = none := by
      rw [isTerminated, atBlock] at running
      exact Option.not_isSome_iff_eq_none.mp running
    obtain ⟨atBlock2, open2⟩ := site.atOpen atBlock open1
    obtain ⟨data1, present1⟩ : ∃ data, c1.block? b = some data :=
      ⟨_, Array.getElem?_eq_getElem (site.known b (site.here b atBlock))⟩
    obtain ⟨_, present2, funcs⟩ := site.present present1
    have returns := Bool.eq_false_iff.mpr returns
    obtain ⟨same, exits_eq⟩ := Prod.mk.inj frame
    have quiet1 : c1.Quiet (join1.handed c1 b v1 ty).2 := .handed open1
    have converted := site.quiet quiet1 (Quiet.handed open2 : c2.Quiet
      (join2.handed c2 b v2 ty).2)
    have atBlock1 : (join1.handed c1 b v1 ty).2.cursor = some b := quiet1.cursor.trans atBlock
    cases exits : join1.exit with
    | some exit =>
      rw [add_of_exit atBlock open1 present1 returns exits,
        add_of_exit atBlock2 open2 present2 returns (exits_eq.symm.trans exits)]
      exact ⟨w, le_refl w, converted.branch _ _ atBlock1 opened1 same exits⟩
    | none =>
      rw [add_of_unreached atBlock open1 present1 returns exits,
        add_of_unreached atBlock2 open2 present2 returns (exits_eq.symm.trans exits), funcs,
        ← site.blocks_size, ← quiet1.blocks_size]
      have inside := (Array.getElem?_eq_some_iff.mp opened1).1
      exact ⟨w, le_refl w, converted.branchNew _ _ atBlock1 inside same data1.func "merge"⟩

theorem add {v1 v2 : ValueId} (ty : Ty) (site : A.coupling.site w ⟨c1, j1⟩ ⟨c2, j2⟩)
    (value : A.coupling.value w v1 v2) (opened1 : j1[index]? = some join1)
    (opened2 : j2[index]? = some join2) : Coupled A.coupling.exact
      (fun join1' c1' join2' c2' => ∃ w', w ≤ w' ∧ A.coupling.site w'
        ⟨c1', j1.setIfInBounds index join1'⟩ ⟨c2', j2.setIfInBounds index join2'⟩)
      (fun c1' c2' => ∃ w', w ≤ w' ∧ A.coupling.site w' ⟨c1', j1⟩ ⟨c2', j2⟩)
      (join1.add v1 ty c1) (join2.add v2 ty c2) := by
  have loose := add_outlined v1 v2 ty site.2 opened1 opened2
  have equal : A.same → join1.add v1 ty c1 = join2.add v2 ty c2 := by
    intro same
    obtain ⟨codes, joins⟩ := Site.mk.inj (site.1 same)
    rw [joins, opened2] at opened1
    rw [Option.some.inj opened1, value same, codes]
  revert loose equal
  cases join1.add v1 ty c1 <;> cases join2.add v2 ty c2
  all_goals
    intro loose equal
  · obtain ⟨w', later, outlined⟩ := loose
    refine ⟨w', later, fun same => ?_, outlined⟩
    obtain ⟨joins, codes⟩ := EStateM.Result.ok.inj (equal same)
    rw [joins, codes, (sites site same).2]
  · exact loose
  · exact loose
  · obtain ⟨_, w', later, outlined⟩ := loose
    refine ⟨fun same => (EStateM.Result.error.inj (equal same)).1, w', later, fun same => ?_, outlined⟩
    rw [(EStateM.Result.error.inj (equal same)).2, (sites site same).2]

theorem close (site : A.coupling.site w ⟨c1, j1.push join1⟩ ⟨c2, j2.push join2⟩) :
    A.coupling.Records w j1 j2 (fun w => Option.Rel (A.coupling.value w)) (join1.close c1)
      (join2.close c2) := by
  have pushed : A.same → join1 = join2 ∧ j1 = j2 := fun equal =>
    Array.push_eq_push.mp (sites site equal).2
  refine records (fun equal => ⟨(sites site equal).1, (pushed equal).2⟩)
    (fun equal => congrArg JoinPoint.close (pushed equal).1) ?_
  have popped := site.2.pop
  obtain ⟨_, sameExit⟩ := Prod.mk.inj site.2.frame_eq
  cases exits : join1.exit with
  | none =>
    rw [exits] at sameExit
    cases ended : c1.isTerminated with
    | true =>
      rw [close_of_ended exits ended,
        close_of_ended sameExit.symm (popped.isTerminated ▸ ended)]
      exact ⟨w, le_refl w, popped, fun _ => .none⟩
    | false =>
      cases atBlock : c1.cursor with
      | none =>
        rw [close_of_nowhere exits atBlock,
          close_of_nowhere sameExit.symm (popped.cursor.symm.trans atBlock)]
        exact ⟨False.elim, w, le_refl w, popped⟩
      | some b =>
        have running : c1.terminator? b = none := by
          rw [isTerminated, atBlock] at ended
          exact Option.not_isSome_iff_eq_none.mp (Bool.eq_false_iff.mp ended)
        obtain ⟨atBlock2, running2⟩ := popped.atOpen atBlock running
        rw [close_of_open atBlock running exits,
          close_of_open atBlock2 running2 sameExit.symm]
        exact ⟨w, le_refl w, popped.written atBlock ⟨rfl, rfl, rfl⟩, fun _ => .none⟩
  | some exit =>
    rw [exits] at sameExit
    obtain ⟨inside, running, other⟩ := site.2.lastExit exits
    have running2 : c2.terminator? exit = none := by
      rw [← Option.not_isSome_iff_eq_none, ← popped.isSome_terminator?, running]
      exact Bool.false_ne_true
    have entered : ∀ {join : JoinPoint} {code : Recording}, code.terminator? exit = none →
        (code.position exit).Quiet (if join.materializes then join.entered code exit
          else ((join.entered code exit).addConstant .nil).2) := by
      intro join code running
      split
      · exact .entered running
      · exact (Quiet.entered running).trans (.addConstant .nil)
    rw [close_of_exit exits running, close_of_exit sameExit.symm running2]
    refine ⟨_, Set.subset_insert exit w, ((popped.allow inside other).position (.inl rfl)).quiet
      (entered running) (entered running2), fun equal => .some fun same => ?_⟩
    exact Option.some.inj (equal same)

/-! ## Soundness -/

/-- All of lowering keeps two runs with one outline together, if classifying foreign prototypes
does. -/
theorem sound (report : ∀ {e1 e2} event, A.events e1 e2 → A.events (e1.push event) (e2.push event))
    (classification : ∀ {w defn} tail loc, A.coupling.Runs w (Lower.classification defn tail loc)
      (Lower.classification defn tail loc) fun _ known1 known2 => known1 = known2) :
    A.coupling.Sound where
  types := rfl
  file := rfl
  target _ := rfl
  nesting _ := rfl
  callable _ := trivial
  clean _ := .inl rfl
  aligned _ := rfl
  needs _ _ := rfl
  report := report
  closure _ _ := trivial
  definition _ _ := trivial
  initializer _ := trivial
  closureDeclared _ _ _ := trivial
  frames site := site.2.joins_size
  cursor site := by
    have here := site.2.here
    rw [← site.2.cursor]
    revert here
    generalize cursor _ = at_
    intro here
    cases at_ with
    | none => exact .none
    | some b => exact .some ⟨rfl, here b rfl⟩
  isTerminated site := site.2.isTerminated
  constant constant site := records_quiet site fun _ => .addConstant constant
  global name site := records_quiet site fun _ => .addGlobal name
  declare site _ := declare site _
  beginRoutine site _ func := by
    rw [← (func : _ = _)]
    exact beginRoutine site
  newBlock label site := newBlock site label
  position site block := by
    obtain ⟨rfl, member⟩ := block
    refine ⟨fun equal => ?_, site.2.position member⟩
    rw [(sites site equal).1, (sites site equal).2]
  emit := emit
  effect := effect
  openJoin ty machineType site needs := openJoin site needs ty machineType
  add := add
  close := close
  classification tail loc _ := (classification tail loc).mono fun _ same =>
    ⟨same, fun _ _ => trivial⟩

end Alignment

end CallLowering
