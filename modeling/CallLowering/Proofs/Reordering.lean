import CallLowering.Proofs.Growth
import CallLowering.Proofs.Memoizing

/-!
# Runs over definitions in different orders

Two runs of lowering over the same definitions in different orders have recorded different code by
the time they come to one definition. A `Reordering` sets the two runs side by side while they lower
this definition. What they add to their code is the same up to numbers: blocks are added in the same
order, and functions and globals have the same names, whether they were there before or not.

`Reordering.Codes` is what holds of their code, and every way of adding to the code keeps it.
-/

namespace CallLowering

open Recording

/-! ## Numbers that stand for each other -/

/-- What has been recorded in two runs since they came to a definition: values and functions that
stand for each other, and the number of blocks. -/
structure Link where
  values : ValueId → ValueId → Prop
  funcs : String → FuncId → FuncId → Prop
  blocks : Nat

namespace Link

instance instPreorder : Preorder Link where
  le w w' := (∀ {v1 v2}, w.values v1 v2 → w'.values v1 v2) ∧
    (∀ {name f1 f2}, w.funcs name f1 f2 → w'.funcs name f1 f2) ∧ w.blocks ≤ w'.blocks
  lt w w' := ((∀ {v1 v2}, w.values v1 v2 → w'.values v1 v2) ∧
      (∀ {name f1 f2}, w.funcs name f1 f2 → w'.funcs name f1 f2) ∧ w.blocks ≤ w'.blocks) ∧
    ¬((∀ {v1 v2}, w'.values v1 v2 → w.values v1 v2) ∧
      (∀ {name f1 f2}, w'.funcs name f1 f2 → w.funcs name f1 f2) ∧ w'.blocks ≤ w.blocks)
  lt_iff_le_not_ge _ _ := Iff.rfl
  le_refl _ := ⟨id, id, Nat.le_refl _⟩
  le_trans _ _ _ first second :=
    ⟨fun value => second.1 (first.1 value), fun func => second.2.1 (first.2.1 func),
      first.2.2.trans second.2.2⟩

/-- Nothing has been recorded. -/
def empty : Link := ⟨fun _ _ => False, fun _ _ _ => False, 0⟩

/-- Two more values stand for each other. -/
def withValue (w : Link) (v1 v2 : ValueId) : Link :=
  { w with values := fun u1 u2 => w.values u1 u2 ∨ u1 = v1 ∧ u2 = v2 }

/-- Two functions of a name stand for each other. -/
def withFunc (w : Link) (name : String) (f1 f2 : FuncId) : Link :=
  { w with funcs := fun name' g1 g2 => w.funcs name' g1 g2 ∨ name' = name ∧ g1 = f1 ∧ g2 = f2 }

/-- Both runs have one more block. -/
def withBlock (w : Link) : Link := { w with blocks := w.blocks + 1 }

/-- There are functions of the name that stand for each other. -/
def Knows (w : Link) (name : String) : Prop := ∃ f1 f2, w.funcs name f1 f2

variable (w : Link)

theorem le_withValue (v1 v2 : ValueId) : w ≤ w.withValue v1 v2 := ⟨.inl, id, Nat.le_refl _⟩

theorem le_withFunc (name : String) (f1 f2 : FuncId) : w ≤ w.withFunc name f1 f2 :=
  ⟨id, .inl, Nat.le_refl _⟩

theorem le_withBlock : w ≤ w.withBlock := ⟨id, id, Nat.le_succ _⟩

theorem knows_withFunc {name name' : String} {f1 f2 : FuncId} :
    (w.withFunc name f1 f2).Knows name' ↔ w.Knows name' ∨ name' = name := by
  constructor
  · rintro ⟨g1, g2, old | ⟨same, _⟩⟩
    · exact .inl ⟨g1, g2, old⟩
    · exact .inr same
  · rintro (⟨g1, g2, old⟩ | rfl)
    · exact ⟨g1, g2, .inl old⟩
    · exact ⟨f1, f2, .inr ⟨rfl, rfl, rfl⟩⟩

end Link

/-- A relation is one-to-one if related pairs are equal on the left exactly if they are on the
right. -/
theorem biUnique_iff {α β : Type} {R : α → β → Prop} :
    Relator.BiUnique R ↔ ∀ a b a' b', R a b → R a' b' → (a = a' ↔ b = b') := by
  constructor
  · rintro unique a b a' b' first second
    exact ⟨fun same => unique.2 first (same ▸ second), fun same => unique.1 first (same ▸ second)⟩
  · exact fun iff => ⟨fun a b c first second => (iff a c b c first second).mpr rfl,
      fun a b c first second => (iff a b a c first second).mp rfl⟩

/-- Two runs of lowering over the definitions of a program in two orders, at the point where both come
to one definition. -/
structure Reordering where
  program : Program
  named : program.WellNamed
  options : Options
  left : List Definition
  right : List Definition
  left_perm : left.Perm program.defs
  right_perm : right.Perm program.defs
  root : Definition
  member : root ∈ program.defs
  before₁ : LowerState
  before₂ : LowerState
  ready₁ : before₁.code.Ready program options.target root
  ready₂ : before₂.code.Ready program options.target root

namespace Reordering

variable (R : Reordering)

/-- Blocks that were added at the same point of the two runs. -/
def block (w : Link) (b1 b2 : BlockId) : Prop :=
  ∃ k < w.blocks, b1.index = R.before₁.code.blocks.size + k ∧
    b2.index = R.before₂.code.blocks.size + k

/-- The numbers that stand for each other. -/
def numbers (w : Link) : Renaming where
  value := w.values
  block := R.block w
  func f1 f2 := ∃ name, w.funcs name f1 f2

/-- Values that stand for each other come from the same places. -/
structure SameValues (w : Link) (values1 values2 : Array ValueSource) : Prop where
  sources : ∀ v1 v2, w.values v1 v2 → ∃ source1 source2, values1[v1.index]? = some source1 ∧
    values2[v2.index]? = some source2 ∧ source1.Renamed (R.numbers w) source2
  unique : Relator.BiUnique w.values

/-- Blocks that belong to the definition and hold the same instructions. -/
structure SameData (w : Link) (data1 data2 : BasicBlock) : Prop where
  renamed : data1.Renamed (R.numbers w) data2
  owned : ∃ name, R.root.Owns name ∧ w.funcs name data1.func data2.func

/-- The blocks that were added hold the same instructions, and old blocks are left alone in the first
run. -/
structure SameBlocks (w : Link) (blocks1 blocks2 : Array BasicBlock) : Prop where
  size₁ : blocks1.size = R.before₁.code.blocks.size + w.blocks
  size₂ : blocks2.size = R.before₂.code.blocks.size + w.blocks
  contents : ∀ b1 b2, R.block w b1 b2 → ∃ data1 data2, blocks1[b1.index]? = some data1 ∧
    blocks2[b2.index]? = some data2 ∧ R.SameData w data1 data2
  kept₁ : Kept R.before₁.code.blocks blocks1

/-- Functions that stand for each other have one name and one prototype, and the same body if they
belong to the definition. -/
structure SameRoutine (w : Link) (name : String) (routine1 routine2 : Routine) : Prop where
  called : routine1.decl.name = name
  decl : routine1.decl = routine2.decl
  body : R.root.Owns name → routine1.Renamed (R.numbers w) routine2

/-- The functions that were declared are the same in both runs, and others are left alone. -/
structure SameRoutines (w : Link) (routines1 routines2 : Array Routine) : Prop where
  grown₁ : Grown R.program R.options.target R.root w.Knows R.before₁.code.routines routines1
  grown₂ : Grown R.program R.options.target R.root w.Knows R.before₂.code.routines routines2
  related : ∀ name f1 f2, w.funcs name f1 f2 → ∃ routine1 routine2,
    routines1[f1.index]? = some routine1 ∧ routines2[f2.index]? = some routine2 ∧
      R.SameRoutine w name routine1 routine2

/-- The code of the two runs is the same up to numbers, as far as it was added since they came to the
definition. -/
structure Codes (w : Link) (code1 code2 : Recording) : Prop where
  target : code1.target = R.options.target ∧ code2.target = R.options.target
  types : code1.types = R.program.types ∧ code2.types = R.program.types
  values : R.SameValues w code1.values code2.values
  blocks : R.SameBlocks w code1.blocks code2.blocks
  routines : R.SameRoutines w code1.routines code2.routines
  cursor : Option.Rel (R.block w) code1.cursor code2.cursor
  indexed : code1.Indexed ∧ code2.Indexed

/-- Join points that gather the same paths. -/
structure SameJoin (w : Link) (join1 join2 : JoinPoint) : Prop where
  ty : join1.ty = join2.ty
  machineType : join1.machineType = join2.machineType
  needsValue : join1.needsValue = join2.needsValue
  exit : Option.Rel (R.block w) join1.exit join2.exit
  incoming : List.Forall₂ (fun arm1 arm2 => w.values arm1.1 arm2.1 ∧ R.block w arm1.2 arm2.2)
    join1.incoming join2.incoming

/-- The runs as a coupling. -/
def coupling : Coupling Link where
  left := ⟨R.program.ordered R.left, R.options⟩
  right := ⟨R.program.ordered R.right, R.options⟩
  exact := False
  needs needed1 needed2 := needed1 = needed2
  value w := w.values
  block w := R.block w
  func w := w.funcs
  site w x1 x2 := R.Codes w x1.code x2.code ∧
    List.Forall₂ (R.SameJoin w) x1.joins.toList x2.joins.toList
  memory memory1 memory2 := memory1.Faithful R.options.target R.program.types ∧
    memory2.Faithful R.options.target R.program.types
  events _ _ := True
  own := R.root.Owns
  calls defn := defn ∈ R.program.defs
  declares decl := R.program.Announces R.options.target decl ∨ R.root.HasClosure decl.name
  scopes := (R.before₁.scopes.all.size, R.before₂.scopes.all.size)
  dispatches := (R.before₁.dispatches, R.before₂.dispatches)
  value_mono later value := later.1 value
  block_mono later block := by
    obtain ⟨k, inside, left, right⟩ := block
    exact ⟨k, inside.trans_le later.2.2, left, right⟩
  func_mono later func := later.2.1 func

variable {R} {w w' : Link}

/-! ## Growing correspondence -/

variable {b1 b2 : BlockId}

theorem block_eq_iff {b1' b2' : BlockId} (first : R.block w b1 b2) (second : R.block w b1' b2') :
    b1 = b1' ↔ b2 = b2' := by
  obtain ⟨_⟩ := b1
  obtain ⟨_⟩ := b2
  obtain ⟨_⟩ := b1'
  obtain ⟨_⟩ := b2'
  obtain ⟨_, _, rfl, rfl⟩ := first
  obtain ⟨_, _, rfl, rfl⟩ := second
  simp

section

variable (later : w ≤ w')

include later

theorem block.mono (same : R.block w b1 b2) : R.block w' b1 b2 :=
  R.coupling.block_mono later same

theorem numbers_within : (R.numbers w).Within (R.numbers w') where
  value := later.1
  block same := same.mono later
  func := by
    rintro f1 f2 ⟨name, same⟩
    exact ⟨name, later.2.1 same⟩

theorem SameValues.mono {values1 values2 : Array ValueSource} (same : R.SameValues w values1 values2)
    (unchanged : w'.values = w.values) : R.SameValues w' values1 values2 where
  sources v1 v2 value := by
    obtain ⟨source1, source2, found1, found2, renamed⟩ := same.sources v1 v2 (unchanged ▸ value)
    exact ⟨source1, source2, found1, found2, renamed.mono (numbers_within later)⟩
  unique := unchanged ▸ same.unique

theorem SameData.mono {data1 data2 : BasicBlock} (same : R.SameData w data1 data2) :
    R.SameData w' data1 data2 := by
  obtain ⟨name, own, func⟩ := same.owned
  exact ⟨same.renamed.mono (numbers_within later), name, own, later.2.1 func⟩

theorem SameBlocks.mono {blocks1 blocks2 : Array BasicBlock} (same : R.SameBlocks w blocks1 blocks2)
    (unchanged : w'.blocks = w.blocks) : R.SameBlocks w' blocks1 blocks2 where
  size₁ := unchanged ▸ same.size₁
  size₂ := unchanged ▸ same.size₂
  contents b1 b2 related := by
    obtain ⟨k, inside, left, right⟩ := related
    obtain ⟨data1, data2, found1, found2, data⟩ :=
      same.contents b1 b2 ⟨k, unchanged ▸ inside, left, right⟩
    exact ⟨data1, data2, found1, found2, data.mono later⟩
  kept₁ := same.kept₁

theorem SameRoutine.mono {name : String} {routine1 routine2 : Routine}
    (same : R.SameRoutine w name routine1 routine2) :
    R.SameRoutine w' name routine1 routine2 where
  called := same.called
  decl := same.decl
  body own := (same.body own).mono (numbers_within later)

theorem SameRoutines.mono {routines1 routines2 : Array Routine}
    (same : R.SameRoutines w routines1 routines2) (unchanged : w'.funcs = w.funcs) :
    R.SameRoutines w' routines1 routines2 where
  grown₁ := by
    unfold Link.Knows
    rw [unchanged]
    exact same.grown₁
  grown₂ := by
    unfold Link.Knows
    rw [unchanged]
    exact same.grown₂
  related name f1 f2 func := by
    obtain ⟨routine1, routine2, found1, found2, routine⟩ :=
      same.related name f1 f2 (unchanged ▸ func)
    exact ⟨routine1, routine2, found1, found2, routine.mono later⟩

theorem cursor_mono {at1 at2 : Option BlockId} (same : Option.Rel (R.block w) at1 at2) :
    Option.Rel (R.block w') at1 at2 :=
  Coupling.rel_imp same fun _ _ => .mono later

theorem SameJoin.mono {join1 join2 : JoinPoint} (same : R.SameJoin w join1 join2) :
    R.SameJoin w' join1 join2 where
  __ := same
  exit := cursor_mono later same.exit
  incoming := same.incoming.imp fun _ _ arm => ⟨later.1 arm.1, arm.2.mono later⟩

end

/-! ## Values -/

namespace SameValues

variable {values1 values2 values1' values2' : Array ValueSource}
  (same : R.SameValues w values1 values2)

include same

theorem grow (left : Kept values1 values1') (right : Kept values2 values2') :
    R.SameValues w values1' values2' where
  sources v1 v2 value := by
    obtain ⟨source1, source2, found1, found2, renamed⟩ := same.sources v1 v2 value
    exact ⟨source1, source2, left _ _ found1, right _ _ found2, renamed⟩
  unique := same.unique

variable {v1 v2 : ValueId} {source1 source2 : ValueSource}

/-- Two more values come to stand for each other. -/
theorem link (found1 : values1[v1.index]? = some source1)
    (found2 : values2[v2.index]? = some source2) (renamed : source1.Renamed (R.numbers w) source2)
    (single : ∀ u1 u2, w.values u1 u2 → (u1 = v1 ↔ u2 = v2)) :
    R.SameValues (w.withValue v1 v2) values1 values2 where
  sources u1 u2 value := by
    have within := numbers_within (R := R) (w.le_withValue v1 v2)
    obtain old | ⟨rfl, rfl⟩ := value
    · obtain ⟨source1, source2, found1, found2, renamed⟩ := same.sources u1 u2 old
      exact ⟨source1, source2, found1, found2, renamed.mono within⟩
    · exact ⟨source1, source2, found1, found2, renamed.mono within⟩
  unique := by
    rw [biUnique_iff]
    rintro u1 u2 u1' u2' (old | ⟨rfl, rfl⟩) (old' | ⟨rfl, rfl⟩)
    · exact biUnique_iff.mp same.unique u1 u2 u1' u2' old old'
    · exact single u1 u2 old
    · rw [eq_comm, single u1' u2' old', eq_comm]
    · exact iff_of_true rfl rfl

/-- New values that come from the same places are added. -/
theorem push (renamed : source1.Renamed (R.numbers w) source2) :
    R.SameValues (w.withValue ⟨values1.size⟩ ⟨values2.size⟩) (values1.push source1)
      (values2.push source2) := by
  have grown := same.grow ((Kept.refl values1).push source1) ((Kept.refl values2).push source2)
  refine grown.link Array.getElem?_push_size Array.getElem?_push_size renamed fun u1 u2 old => ?_
  obtain ⟨_, _, found1, found2, _⟩ := same.sources u1 u2 old
  have inside1 := (Array.getElem?_eq_some_iff.mp found1).1
  have inside2 := (Array.getElem?_eq_some_iff.mp found2).1
  refine iff_of_false (fun equal => ?_) fun equal => ?_
  · exact Nat.ne_of_lt inside1 (congrArg ValueId.index equal)
  · exact Nat.ne_of_lt inside2 (congrArg ValueId.index equal)

/-- The addresses of a global stand for each other. -/
theorem linkGlobal {name : String}
    (one1 : ∀ {v : ValueId}, values1[v.index]? = some (.global name) ↔ v = v1)
    (one2 : ∀ {v : ValueId}, values2[v.index]? = some (.global name) ↔ v = v2) :
    R.SameValues (w.withValue v1 v2) values1 values2 := by
  have found1 := one1.mpr rfl
  have found2 := one2.mpr rfl
  refine same.link found1 found2 .global fun u1 u2 old => ?_
  obtain ⟨_, _, there1, there2, renamed⟩ := same.sources u1 u2 old
  constructor
  · rintro rfl
    rw [found1] at there1
    cases there1
    cases renamed
    exact one2.mp there2
  · rintro rfl
    rw [found2] at there2
    cases there2
    cases renamed
    exact one1.mp there1

end SameValues

/-! ## Blocks -/

namespace SameBlocks

variable {blocks1 blocks2 : Array BasicBlock} (same : R.SameBlocks w blocks1 blocks2)

include same

/-- The same instruction is put at the end of blocks that stand for each other. -/
theorem appendTo (here : R.block w b1 b2) {instruction1 instruction2 : Instruction}
    (renamed : instruction1.Renamed (R.numbers w) instruction2) : R.SameBlocks w
      (blocks1.modify b1.index fun data =>
        { data with instructions := data.instructions.push instruction1 })
      (blocks2.modify b2.index fun data =>
        { data with instructions := data.instructions.push instruction2 }) where
  size₁ := Array.size_modify.trans same.size₁
  size₂ := Array.size_modify.trans same.size₂
  contents c1 c2 related := by
    obtain ⟨data1, data2, found1, found2, data⟩ := same.contents c1 c2 related
    have agree : b1.index = c1.index ↔ b2.index = c2.index := by
      have iff := block_eq_iff here related
      obtain ⟨⟨⟩, ⟨⟩, ⟨⟩, ⟨⟩⟩ := b1, b2, c1, c2
      simpa using iff
    rw [Array.getElem?_modify, Array.getElem?_modify, found1, found2]
    by_cases equal : b1.index = c1.index
    · rw [if_pos equal, if_pos (agree.mp equal)]
      refine ⟨_, _, rfl, rfl, ⟨data.renamed.label, data.renamed.func, ?_⟩, data.owned⟩
      dsimp only
      rw [Array.toList_push, Array.toList_push]
      exact List.rel_append data.renamed.instructions (.cons renamed .nil)
    · rw [if_neg equal, if_neg fun equal2 => equal (agree.mpr equal2)]
      exact ⟨data1, data2, rfl, rfl, data⟩
  kept₁ := by
    obtain ⟨k, _, _, _⟩ := here
    exact same.kept₁.modify (by omega) _

/-- A block is added to functions that belong to the definition. -/
theorem push {name : String} {f1 f2 : FuncId} (own : R.root.Owns name) (func : w.funcs name f1 f2)
    (label : String) :
    R.SameBlocks w.withBlock (blocks1.push ⟨label, f1, #[]⟩) (blocks2.push ⟨label, f2, #[]⟩) where
  size₁ := by rw [Array.size_push, same.size₁]; rfl
  size₂ := by rw [Array.size_push, same.size₂]; rfl
  contents b1 b2 related := by
    obtain ⟨k, inside, left, right⟩ := related
    rw [Array.getElem?_push, Array.getElem?_push, same.size₁, same.size₂]
    by_cases last : k = w.blocks
    · rw [if_pos (by omega), if_pos (by omega)]
      exact ⟨_, _, rfl, rfl, ⟨rfl, ⟨name, func⟩, .nil⟩, name, own, func⟩
    · rw [if_neg (by omega), if_neg (by omega)]
      have old : k < w.blocks := Nat.lt_of_le_of_ne (Nat.le_of_lt_succ inside) last
      obtain ⟨data1, data2, found1, found2, data⟩ := same.contents b1 b2 ⟨k, old, left, right⟩
      exact ⟨data1, data2, found1, found2, data.mono w.le_withBlock⟩
  kept₁ := same.kept₁.push _

/-- The blocks that are added next stand for each other. -/
theorem next : R.block w.withBlock ⟨blocks1.size⟩ ⟨blocks2.size⟩ :=
  ⟨w.blocks, Nat.lt_succ_self _, same.size₁, same.size₂⟩

end SameBlocks

/-! ## Functions -/

namespace SameRoutines

variable {code1 code2 : Recording} {f1 f2 : FuncId} {name : String}
  (same : R.SameRoutines w code1.routines code2.routines)
  (indexed : code1.Indexed ∧ code2.Indexed)

include same indexed

/-- What is one function in the first run is one in the second. -/
theorem eq_iff {name' : String} {g1 g2 : FuncId} (first : w.funcs name f1 f2)
    (second : w.funcs name' g1 g2) :
    (f1.index = g1.index ↔ name = name') ∧ (f2.index = g2.index ↔ name = name') := by
  obtain ⟨_, _, found1, found2, ⟨rfl, decl, _⟩⟩ := same.related name f1 f2 first
  obtain ⟨_, _, found1', found2', ⟨rfl, decl', _⟩⟩ := same.related name' g1 g2 second
  refine ⟨⟨fun equal => ?_, fun equal => ?_⟩, ⟨fun equal => ?_, fun equal => ?_⟩⟩
  · rw [equal, found1'] at found1
    cases found1
    rfl
  · exact congrArg FuncId.index (indexed.1.routine_eq found1 found1' equal).1
  · rw [equal, found2'] at found2
    cases found2
    rw [decl, decl']
  · rw [decl, decl'] at equal
    exact congrArg FuncId.index (indexed.2.routine_eq found2 found2' equal).1

/-- The bodies of functions that belong to the definition are changed alike. -/
theorem modify (own : R.root.Owns name) (func : w.funcs name f1 f2)
    (update1 update2 : Routine → Routine) (decl1 : ∀ routine, (update1 routine).decl = routine.decl)
    (decl2 : ∀ routine, (update2 routine).decl = routine.decl)
    (updates : ∀ routine1 routine2, routine1.Renamed (R.numbers w) routine2 → (update1 routine1).Renamed (R.numbers w) (update2 routine2)) :
    R.SameRoutines w (code1.routines.modify f1.index update1)
      (code2.routines.modify f2.index update2) := by
  obtain ⟨routine1, _, found1, found2, routine⟩ := same.related name f1 f2 func
  obtain ⟨rfl, decl, _⟩ := routine
  refine ⟨same.grown₁.modify found1 own ⟨f1, f2, func⟩ decl1,
    same.grown₂.modify found2 (decl ▸ own) (decl ▸ ⟨f1, f2, func⟩) decl2, fun name' g1 g2 func' => ?_⟩
  obtain ⟨routine1', routine2', found1', found2', routine'⟩ := same.related name' g1 g2 func'
  obtain ⟨left, right⟩ := same.eq_iff indexed func func'
  rw [Array.getElem?_modify, Array.getElem?_modify, found1', found2']
  by_cases equal : routine1.decl.name = name'
  · rw [if_pos (left.mpr equal), if_pos (right.mpr equal)]
    refine ⟨_, _, rfl, rfl, ?_, ?_, fun _ => updates _ _ (routine'.body (equal ▸ own))⟩
    · rw [decl1, routine'.called]
    · rw [decl1, decl2, routine'.decl]
  · rw [if_neg fun index => equal (left.mp index), if_neg fun index => equal (right.mp index)]
    exact ⟨routine1', routine2', rfl, rfl, routine'⟩

end SameRoutines

/-! ## Code -/

namespace Codes

variable {code1 code2 : Recording}

/-- Values that come from the same places are added. -/
theorem addValue (same : R.Codes w code1 code2) {source1 source2 : ValueSource}
    (renamed : source1.Renamed (R.numbers w) source2)
    (local1 : ∀ name, source1 ≠ .global name) (local2 : ∀ name, source2 ≠ .global name) :
    R.Codes (w.withValue ⟨code1.values.size⟩ ⟨code2.values.size⟩) (code1.addValue source1).2
      (code2.addValue source2).2 where
  target := same.target
  types := same.types
  values := same.values.push renamed
  blocks := same.blocks.mono (w.le_withValue _ _) rfl
  routines := same.routines.mono (w.le_withValue _ _) rfl
  cursor := cursor_mono (w.le_withValue _ _) same.cursor
  indexed := ⟨same.indexed.1.addValue local1, same.indexed.2.addValue local2⟩

/-- A global is asked for in both runs. -/
theorem addGlobal (same : R.Codes w code1 code2) (name : String) :
    R.Codes (w.withValue (code1.addGlobal name).1 (code2.addGlobal name).1)
      (code1.addGlobal name).2 (code2.addGlobal name).2 := by
  have later {code : Recording} : Kept code.values (code.addGlobal name).2.values :=
    fun i => (extends_addGlobal name).value ⟨i⟩
  have values := (same.values.grow later later).linkGlobal same.indexed.1.value?_addGlobal
    same.indexed.2.value?_addGlobal
  have indexed : (code1.addGlobal name).2.Indexed ∧ (code2.addGlobal name).2.Indexed :=
    same.indexed.imp Indexed.addGlobal Indexed.addGlobal
  obtain ⟨_, _, after1⟩ := code1.addGlobal_eq name
  obtain ⟨_, _, after2⟩ := code2.addGlobal_eq name
  rw [after1, after2] at values indexed ⊢
  exact {
    target := same.target
    types := same.types
    values := values
    blocks := same.blocks.mono (w.le_withValue _ _) rfl
    routines := same.routines.mono (w.le_withValue _ _) rfl
    cursor := cursor_mono (w.le_withValue _ _) same.cursor
    indexed := indexed }

variable {b1 b2 : BlockId} {f1 f2 : FuncId} {name : String}

theorem position (same : R.Codes w code1 code2) (here : R.block w b1 b2) :
    R.Codes w (code1.position b1) (code2.position b2) where
  __ := same
  cursor := .some here
  indexed := same.indexed.imp (extends_position b1).indexed (extends_position b2).indexed

theorem appendTo (same : R.Codes w code1 code2) (here : R.block w b1 b2)
    {instruction1 instruction2 : Instruction}
    (renamed : instruction1.Renamed (R.numbers w) instruction2) :
    R.Codes w (code1.appendTo b1 instruction1) (code2.appendTo b2 instruction2) where
  __ := same
  blocks := same.blocks.appendTo here renamed
  indexed := ⟨same.indexed.1.of_same rfl rfl .rfl .rfl, same.indexed.2.of_same rfl rfl .rfl .rfl⟩

variable {op op1 op2 : Operation} {code : Recording}

theorem written_of_hasResult (has : op.hasResult = true) (b : BlockId) : code.written b op =
      (code.addValue (.result b)).2.appendTo b ⟨some ⟨code.values.size⟩, op⟩ := by
  simp [written, resultOf, has, Recording.addValue, Recording.appendTo]

theorem written_of_noResult (none : op.hasResult = false) (b : BlockId) :
    code.written b op = code.appendTo b ⟨.none, op⟩ := by
  simp [written, resultOf, none, Recording.appendTo]

variable (same : R.Codes w code1 code2)

include same

/-- An operation with a result is recorded in blocks that stand for each other. -/
theorem writeResult (here : R.block w b1 b2) (renamed : op1.Renamed (R.numbers w) op2)
    (has : op1.hasResult = true) :
    R.Codes (w.withValue ⟨code1.values.size⟩ ⟨code2.values.size⟩) (code1.written b1 op1)
      (code2.written b2 op2) := by
  have later := w.le_withValue ⟨code1.values.size⟩ ⟨code2.values.size⟩
  rw [written_of_hasResult has, written_of_hasResult (renamed.hasResult ▸ has)]
  refine (same.addValue (.result here) (fun _ => ValueSource.noConfusion)
    fun _ => ValueSource.noConfusion).appendTo (here.mono later) ?_
  exact ⟨.some (.inr ⟨rfl, rfl⟩), renamed.mono (numbers_within later)⟩

/-- An operation is recorded in blocks that stand for each other. -/
theorem written (here : R.block w b1 b2) (renamed : op1.Renamed (R.numbers w) op2) :
    ∃ w', w ≤ w' ∧ R.Codes w' (code1.written b1 op1) (code2.written b2 op2) := by
  cases has : op1.hasResult with
  | true => exact ⟨_, w.le_withValue _ _, same.writeResult here renamed has⟩
  | false =>
    rw [written_of_noResult has, written_of_noResult (renamed.hasResult ▸ has)]
    exact ⟨w, le_refl w, same.appendTo here ⟨.none, renamed⟩⟩

/-- A block is added to functions that belong to the definition. -/
theorem appendBlock (own : R.root.Owns name) (func : w.funcs name f1 f2) (label : String) :
    R.Codes w.withBlock (code1.appendBlock f1 label).2 (code2.appendBlock f2 label).2 where
  target := same.target
  types := same.types
  values := same.values.mono w.le_withBlock rfl
  blocks := same.blocks.push own func label
  routines := by
    refine (same.routines.mono w.le_withBlock rfl).modify same.indexed own func
      (fun routine => { routine with blocks := routine.blocks.push ⟨code1.blocks.size⟩ })
      (fun routine => { routine with blocks := routine.blocks.push ⟨code2.blocks.size⟩ })
      (fun _ => rfl) (fun _ => rfl) fun _ _ renamed => ⟨renamed.decl, renamed.params, ?_⟩
    rw [Array.toList_push, Array.toList_push]
    exact List.rel_append renamed.blocks (.cons same.blocks.next .nil)
  cursor := cursor_mono w.le_withBlock same.cursor
  indexed := same.indexed.imp (extends_appendBlock f1 label).indexed
    (extends_appendBlock f2 label).indexed

theorem withParams (own : R.root.Owns name) (func : w.funcs name f1 f2)
    {params1 params2 : List ValueId} (params : List.Forall₂ w.values params1 params2) :
    R.Codes w (code1.withParams f1 params1) (code2.withParams f2 params2) where
  __ := same
  indexed := same.indexed.imp (extends_withParams f1 params1).indexed
    (extends_withParams f2 params2).indexed
  routines := same.routines.modify same.indexed own func
    (fun routine => { routine with params := params1 })
    (fun routine => { routine with params := params2 }) (fun _ => rfl) (fun _ => rfl)
    fun _ _ renamed => ⟨renamed.decl, params, renamed.blocks⟩

/-- A function is declared in both runs. -/
theorem declare {decl : FnDecl}
    (allowed : R.program.Announces R.options.target decl ∨ R.root.HasClosure decl.name) :
    R.Codes (w.withFunc decl.name (code1.declare decl).1 (code2.declare decl).1)
      (code1.declare decl).2 (code2.declare decl).2 := by
  obtain ⟨_, _, after1, grown₁, kept₁, routine1, found1, called1, fresh1⟩ :=
    same.routines.grown₁.declare R.ready₁ same.indexed.1 R.named R.member allowed
  obtain ⟨_, _, after2, grown₂, kept₂, routine2, found2, called2, fresh2⟩ :=
    same.routines.grown₂.declare R.ready₂ same.indexed.2 R.named R.member allowed
  have indexed : (code1.declare decl).2.Indexed ∧ (code2.declare decl).2.Indexed :=
    same.indexed.imp Indexed.declare Indexed.declare
  rw [after1, after2] at indexed ⊢
  have later := w.le_withFunc decl.name (code1.declare decl).1 (code2.declare decl).1
  have knows : (w.withFunc decl.name (code1.declare decl).1 (code2.declare decl).1).Knows =
      fun name => w.Knows name ∨ name = decl.name := funext fun name => propext w.knows_withFunc
  have new : R.SameRoutine w decl.name routine1 routine2 := by
    by_cases known : w.Knows decl.name
    · -- the functions of this name are those that stand for each other already
      obtain ⟨f1, f2, func⟩ := known
      obtain ⟨_, routine2', found1', found2', routine⟩ := same.routines.related _ f1 f2 func
      have called2' : routine2'.decl.name = decl.name := routine.decl ▸ routine.called
      obtain ⟨_, rfl⟩ := indexed.1.routine_eq (kept₁ _ _ found1') found1
        (routine.called.trans called1.symm)
      obtain ⟨_, rfl⟩ := indexed.2.routine_eq (kept₂ _ _ found2') found2
        (called2'.trans called2.symm)
      exact routine
    · obtain ⟨decl1, bare1⟩ := fresh1 known
      obtain ⟨decl2, bare2⟩ := fresh2 known
      refine ⟨called1, decl1.trans decl2.symm, fun own => ⟨decl1.trans decl2.symm, ?_, ?_⟩⟩
      · rw [(bare1 own).2, (bare2 own).2]
        exact .nil
      · rw [(bare1 own).1, (bare2 own).1]
        exact .nil
  refine ⟨same.target, same.types, same.values.mono later rfl, same.blocks.mono later rfl,
    ⟨knows ▸ grown₁, knows ▸ grown₂, fun name f1 f2 func => ?_⟩, cursor_mono later same.cursor,
    indexed⟩
  obtain old | ⟨rfl, rfl, rfl⟩ := func
  · obtain ⟨routine1, routine2, found1, found2, routine⟩ := same.routines.related name f1 f2 old
    exact ⟨routine1, routine2, kept₁ _ _ found1, kept₂ _ _ found2, routine.mono later⟩
  · exact ⟨routine1, routine2, found1, found2, new.mono later⟩

/-- Values are added for the parameters of functions that stand for each other. -/
theorem withParamValues (func : w.funcs name f1 f2) (count : Nat) :
    ∃ w', w ≤ w' ∧ R.Codes w' (code1.withParamValues f1 count 0) (code2.withParamValues f2 count 0) ∧
      List.Forall₂ w'.values (code1.nextValues count) (code2.nextValues count) := by
  have step : ∀ (code : Recording) (f : FuncId) (count : Nat), code.withParamValues f (count + 1) 0 =
        ((code.withParamValues f count 0).addValue (.param f count)).2 ∧
      code.nextValues (count + 1) =
        code.nextValues count ++ [⟨(code.withParamValues f count 0).values.size⟩] := by
    intro code f count
    simp [Recording.withParamValues, nextValues, Recording.addValue, List.range_succ]
  induction count with
  | zero =>
    refine ⟨w, le_refl w, ?_, .nil⟩
    simpa [Recording.withParamValues] using same
  | succ count ih =>
    obtain ⟨w', later, same', params⟩ := ih
    rw [(step code1 f1 count).1, (step code2 f2 count).1, (step code1 f1 count).2,
      (step code2 f2 count).2]
    have further := w'.le_withValue ⟨(code1.withParamValues f1 count 0).values.size⟩
      ⟨(code2.withParamValues f2 count 0).values.size⟩
    refine ⟨_, later.trans further, same'.addValue (.param ⟨name, later.2.1 func⟩)
      (fun _ => ValueSource.noConfusion) fun _ => ValueSource.noConfusion, ?_⟩
    exact List.rel_append (params.imp fun _ _ => further.1) (.cons (.inr ⟨rfl, rfl⟩) .nil)

/-- Functions that belong to the definition get their bodies. -/
theorem begun (own : R.root.Owns name) (func : w.funcs name f1 f2) (count : Nat) :
    ∃ w', w ≤ w' ∧ R.Codes w' (code1.begun f1 count) (code2.begun f2 count) ∧
      List.Forall₂ w'.values (code1.nextValues count) (code2.nextValues count) := by
  obtain ⟨w', later, valued, params⟩ := same.withParamValues func count
  have entry := (valued.withParams own (later.2.1 func) params).appendBlock own (later.2.1 func) "entry"
  exact ⟨w'.withBlock, later.trans w'.le_withBlock, entry.position valued.blocks.next, params⟩

/-- Blocks that stand for each other have both ended, or neither has. -/
theorem isSome_terminator? (here : R.block w b1 b2) :
    (code1.terminator? b1).isSome = (code2.terminator? b2).isSome := by
  obtain ⟨_, _, found1, found2, data⟩ := same.blocks.contents b1 b2 here
  rw [terminator?, terminator?, block?, block?, found1, found2]
  exact data.renamed.isSome_terminator?

theorem isTerminated : code1.isTerminated = code2.isTerminated := by
  have cursor := same.cursor
  unfold Recording.isTerminated
  revert cursor
  generalize code1.cursor = at1
  generalize code2.cursor = at2
  rintro (here | _)
  · exact same.isSome_terminator? here
  · rfl

/-- The blocks at the cursors are open in both runs. -/
theorem atOpen (atBlock : code1.cursor = some b1) (running : code1.terminator? b1 = none) :
    ∃ b2, R.block w b1 b2 ∧ code2.cursor = some b2 ∧ code2.terminator? b2 = none := by
  have cursor := same.cursor
  rw [atBlock] at cursor
  generalize atBlock2 : code2.cursor = at2 at cursor
  obtain @⟨_, b2, here⟩ := cursor
  refine ⟨b2, here, rfl, ?_⟩
  rw [← Option.not_isSome_iff_eq_none, ← same.isSome_terminator? here, running]
  exact Bool.false_ne_true

/-- The blocks at the cursors have ended in both runs, or there are none. -/
theorem atClosed (closed : ∀ b ∈ code1.cursor, (code1.terminator? b).isSome) :
    ∀ b ∈ code2.cursor, (code2.terminator? b).isSome := by
  intro b2 atBlock2
  have cursor := same.cursor
  rw [Option.mem_def.mp atBlock2] at cursor
  generalize atBlock1 : code1.cursor = at1 at cursor
  obtain @⟨b1, _, here⟩ := cursor
  rw [← same.isSome_terminator? here]
  exact closed b1 atBlock1

end Codes

end Reordering

end CallLowering
