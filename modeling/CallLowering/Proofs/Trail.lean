import CallLowering.Proofs.History
import CallLowering.Proofs.Landing
import CallLowering.Proofs.Linking
import CallLowering.Proofs.Selection
import CallLowering.Proofs.Standing
import CallLowering.Proofs.Unfolding

/-!
# The trail of lowering

`Recording.Onward` relates the recordings before and after a piece of lowering by what the history has
gained: calls and handlers as the marks say, functions that are called under names of the program,
and closures, each of which is made once, of a function that has got its body in the meantime. The
recordings in between are `Orderly`. There is one lemma for each way in which a recording grows.
-/

namespace CallLowering

/-- The names under which functions are declared for calls: those of the definitions that are not
only inlined, and those of the initializers. -/
inductive Program.Links (program : Program) : String → Prop where
  | definition {defn : Definition} (member : defn ∈ program.defs)
      (callable : defn.isForeign = true ∨ defn.isInlineOnly = false) : program.Links defn.symbol
  | initializer (name : String) : program.Links ("~" ++ name ++ ":init")

namespace Operation

/-- Whether the operation is a call or starts a handler. -/
def isMilestone : Operation → Bool
  | call .. | invoke .. | landingPad => true
  | _ => false

/-- The function that the operation makes a callable of. -/
def closure? : Operation → Option FuncId
  | makeClosure func _ => some func
  | _ => none

/-- Whether the operation has nothing to do with functions. -/
def isOrdinary : Operation → Bool
  | makeClosure .. => false
  | op => !op.isMilestone

end Operation

/-- The calls and landing pads among operations with values. -/
def milestones (entries : List (ValueId × Operation)) : List (ValueId × Operation) :=
  entries.filter fun entry => entry.2.isMilestone

/-- The functions that become closures, in the order in which they do. -/
def closures (entries : List (ValueId × Operation)) : List FuncId :=
  entries.filterMap fun entry => entry.2.closure?

namespace Recording

variable {code code' : Recording} {v : ValueId} {func f : FuncId} {block b : BlockId}
  {op : Operation} {name : String} {program : Program} {decl : FnDecl} {params : List ValueId}

/-! ## Functions and blocks -/

/-- The function has a body. -/
def Defines (code : Recording) (func : FuncId) : Prop :=
  ∃ routine, code.routine? func = some routine ∧ routine.isDefined = true

/-- The block is there. -/
def Has (code : Recording) (block : BlockId) : Prop := ∃ data, code.block? block = some data

theorem Defines.later (defined : code.Defines func) (later : code.Extends code') :
    code'.Defines func := by
  obtain ⟨routine, present, bodied⟩ := defined
  obtain ⟨routine', present', _, longer⟩ := later.routine func routine present
  refine ⟨routine', present', ?_⟩
  have some : routine.blocks.toList ≠ [] := by simpa [Routine.isDefined] using bodied
  simpa [Routine.isDefined] using List.IsPrefix.ne_nil longer some

theorem Has.later (has : code.Has block) (later : code.Extends code') : code'.Has block := by
  obtain ⟨data, present⟩ := has
  obtain ⟨data', present', _⟩ := later.block block data present
  exact ⟨data', present'⟩

theorem defines_congr (same : code'.routines = code.routines) :
    code'.Defines func ↔ code.Defines func := by
  unfold Defines routine?
  rw [same]

theorem names_declare (named : (code.declare decl).2.Names func name) :
    code.Names func name ∨ func = (code.declare decl).1 ∧ name = decl.name := by
  obtain ⟨routine, present, rfl⟩ := named
  obtain present | ⟨here, rfl, _⟩ := declare_routine?_cases present
  · exact .inl ⟨routine, present, rfl⟩
  · exact .inr ⟨here, rfl⟩

theorem defines_declare : (code.declare decl).2.Defines func ↔ code.Defines func := by
  refine ⟨?_, fun defined => defined.later (extends_declare decl)⟩
  rintro ⟨routine, present, defined⟩
  obtain present | ⟨_, rfl, _⟩ := declare_routine?_cases present
  · exact ⟨routine, present, defined⟩
  · cases defined

variable {label : String}

/-- A block that is added to a function with a body. -/
theorem defines_appendBlock (bodied : code.Defines f) :
    (code.appendBlock f label).2.Defines func ↔ code.Defines func := by
  refine ⟨?_, fun defined => defined.later (extends_appendBlock f label)⟩
  rintro ⟨routine, present, defined⟩
  rw [appendBlock_routine?] at present
  split at present
  · rename_i here
    exact here ▸ bodied
  · exact ⟨routine, present, defined⟩

theorem defines_beginRoutine (begun : Emit.beginRoutine func code = .ok params code') :
    ¬code.Defines func ∧ ∀ f, code'.Defines f ↔ code.Defines f ∨ f = func := by
  obtain ⟨_, routine', present, bodiless, present', _, bodied, others⟩ :=
    beginRoutine_routine? begun
  refine ⟨?_, fun f => ⟨?_, ?_⟩⟩
  · rintro ⟨old, there, defined⟩
    cases present.symm.trans there
    exact Bool.false_ne_true (bodiless.symm.trans defined)
  · rintro ⟨found, there, defined⟩
    by_cases here : f = func
    · exact .inr here
    · exact .inl ⟨found, (others f here).symm.trans there, defined⟩
  · rintro (defined | rfl)
    · exact defined.later (frame_beginRoutine begun).later
    · exact ⟨routine', present', bodied⟩

/-! ## Order -/

/-- Values lead to their operations, blocks belong to functions with a body, names are allowed ones
and lead to their functions, and the cursor stands in a block. -/
structure Ordered (code : Recording) (allowed : String → Prop) : Prop where
  enumerated : code.Enumerated
  homed : ∀ b data, code.block? b = some data → code.Defines data.func
  indexed : code.Indexed
  known : ∀ func name, code.Names func name → allowed name
  placed : ∀ block ∈ code.cursor, code.Has block

/-- Every function has a name for calls or that of a closure. -/
abbrev Orderly (code : Recording) (program : Program) : Prop :=
  code.Ordered fun name => program.Links name ∨ IsClosureName name

theorem names_beginRoutine (begun : Emit.beginRoutine func code = .ok params code')
    (named : code'.Names f name) : code.Names f name := by
  obtain ⟨routine, _, present, _, present', same, _, others⟩ := beginRoutine_routine? begun
  obtain ⟨found, there, rfl⟩ := named
  by_cases here : f = func
  · subst here
    cases present'.symm.trans there
    exact ⟨routine, present, congrArg FnDecl.name same.symm⟩
  · exact ⟨found, (others f here).symm.trans there, rfl⟩

section

variable {allowed : String → Prop} (ordered : code.Ordered allowed)

include ordered

/-- Order stays where no block and no function changes. -/
theorem Ordered.of_same (later : code.Extends code') (blocks : code'.blocks = code.blocks)
    (routines : code'.routines = code.routines) (placed : ∀ block ∈ code'.cursor, code.Has block) : code'.Ordered allowed where
  enumerated := ordered.enumerated.of_instructions later fun b => by
    rw [instructionsOf, instructionsOf, block?, block?, blocks]
  homed b data present := by
    rw [block?, blocks] at present
    exact (ordered.homed b data present).later later
  indexed := later.indexed ordered.indexed
  known f name named := by
    unfold Names routine? at named
    rw [routines] at named
    exact ordered.known f name named
  placed block here := (placed block here).later later

theorem Ordered.position (has : code.Has block) : (code.position block).Ordered allowed := by
  refine ordered.of_same (extends_position block) rfl rfl fun _ here => ?_
  cases here
  exact has

theorem Ordered.declare (known : allowed decl.name) : (code.declare decl).2.Ordered allowed where
  enumerated :=
    ordered.enumerated.of_instructions (extends_declare decl) fun _ => declare_instructionsOf
  homed b data present := by
    rw [block?, declare_blocks] at present
    exact defines_declare.mpr (ordered.homed b data present)
  indexed := ordered.indexed.declare
  known f name named := by
    obtain named | ⟨rfl, rfl⟩ := names_declare named
    · exact ordered.known f name named
    · exact known
  placed block here := by
    rw [declare_cursor] at here
    exact (ordered.placed block here).later (extends_declare decl)

theorem Ordered.appendBlock (bodied : code.Defines func) :
    (code.appendBlock func label).2.Ordered allowed where
  enumerated := ordered.enumerated.of_instructions (extends_appendBlock func label) fun _ =>
    appendBlock_instructionsOf
  homed b data present := by
    rw [defines_appendBlock bodied]
    obtain present | ⟨rfl, _⟩ := appendBlock_block?_cases present
    · exact ordered.homed b data present
    · exact bodied
  indexed := (extends_appendBlock func label).indexed ordered.indexed
  known f name named := ordered.known f name (names_appendBlock.mp named)
  placed block here := (ordered.placed block here).later (extends_appendBlock func label)

theorem Ordered.written (has : code.Has block) : (code.written block op).Ordered allowed where
  enumerated := by
    obtain ⟨data, present⟩ := has
    exact ordered.enumerated.written present
  homed b data present := by
    obtain ⟨old, before, _, owner, _⟩ := written_block?_some present
    rw [owner]
    exact (defines_congr rfl).mpr (ordered.homed b old before)
  indexed := (extends_written block op).indexed ordered.indexed
  known := ordered.known
  placed b here := (ordered.placed b here).later (extends_written block op)

theorem Ordered.beginRoutine (begun : Emit.beginRoutine func code = .ok params code') : code'.Ordered allowed where
  enumerated := ordered.enumerated.of_instructions (frame_beginRoutine begun).later fun _ =>
    beginRoutine_instructionsOf begun
  homed b data present := by
    rw [(defines_beginRoutine begun).2]
    by_cases old : b.index < code.blocks.size
    · exact .inl (ordered.homed b data ((beginRoutine_block?_old begun old).symm.trans present))
    · -- the only new block is the entry
      refine .inr ?_
      obtain ⟨_, there, size⟩ := beginRoutine_entry begun
      have inside := block?_eq_some_lt present
      rw [size] at inside
      obtain rfl : b = ⟨code.blocks.size⟩ := by
        obtain ⟨_⟩ := b
        exact congrArg BlockId.mk (Nat.le_antisymm (Nat.le_of_lt_succ inside) (Nat.not_lt.mp old))
      cases there.symm.trans present
      rfl
  indexed := (frame_beginRoutine begun).later.indexed ordered.indexed
  known f name named := ordered.known f name (names_beginRoutine begun named)
  placed block here := by
    obtain ⟨_, atEntry, data, present, _⟩ := beginRoutine_standsIn begun
    cases atEntry.symm.trans here
    exact ⟨data, present⟩

end

/-! ## Histories that stay -/

theorem history_declare (decl : FnDecl) : (code.declare decl).2.history = code.history := by
  refine history_of_instructions (extends_declare decl) (fun _ => declare_instructionsOf)
    fun _ _ present => ?_
  rw [← @declare_values code decl]
  exact value?_lt present

theorem history_beginRoutine (begun : Emit.beginRoutine func code = .ok params code') :
    code'.history = code.history := by
  refine history_of_instructions (frame_beginRoutine begun).later
    (fun _ => beginRoutine_instructionsOf begun) fun v b present => ?_
  obtain ⟨_, _, _, _, _, _, _, _, ⟨_, _, old⟩, rfl⟩ := beginRoutine_ok begun
  obtain present | ⟨_, param⟩ := old v _ present
  · exact value?_lt present
  · cases param

end Recording

/-! ## Trails -/

/-- What a mark says of an operation with its value: a callee that raises is invoked under the
innermost rescue. -/
def Mark.Recorded (code : Recording) : Mark → ValueId × Operation → Prop
  | .call defn rescues, (_, op) =>
    ∃ func, op.callee? = some func ∧ code.Names func defn.symbol ∧
      op.handler? = if defn.raises then rescues.head? else none
  | .initializer name, (_, op) =>
    ∃ func, op = .call func [] none ∧ code.Names func ("~" ++ name ++ ":init")
  | .handler rescue, (v, op) => op = .landingPad ∧ code.value? v = some (.result rescue)

/-- What an operation has to do with functions: callees have names for calls, and closures have names
of closures. -/
structure Operation.Sound (program : Program) (code : Recording) (op : Operation) : Prop where
  callee : ∀ func ∈ op.callee?, ∃ name, program.Links name ∧ code.Names func name
  closure : ∀ func ∈ op.closure?, ∃ name, IsClosureName name ∧ code.Names func name

section

variable {program : Program} {code code1 code' : Recording} {marks marks' : List Mark}
  {op : Operation} {block : BlockId} {started started' : List FuncId} {func : FuncId}

theorem Mark.Recorded.later {mark : Mark} {entry : ValueId × Operation}
    (recorded : mark.Recorded code entry) (later : code.Extends code') :
    mark.Recorded code' entry := by
  cases mark with
  | call defn rescues =>
    obtain ⟨func, callee, named, handled⟩ := recorded
    exact ⟨func, callee, named.later later, handled⟩
  | initializer name =>
    obtain ⟨func, called, named⟩ := recorded
    exact ⟨func, called, named.later later⟩
  | handler rescue => exact ⟨recorded.1, later.value _ _ recorded.2⟩

theorem Operation.Sound.later (sound : op.Sound program code) (later : code.Extends code') :
    op.Sound program code' where
  callee func called := by
    obtain ⟨name, links, named⟩ := sound.callee func called
    exact ⟨name, links, named.later later⟩
  closure func made := by
    obtain ⟨name, closed, named⟩ := sound.closure func made
    exact ⟨name, closed, named.later later⟩

theorem Operation.Sound.of_isOrdinary (ordinary : op.isOrdinary = true) : op.Sound program code := by
  cases op with
  | call | invoke | landingPad | makeClosure => cases ordinary
  | _ => exact ⟨nofun, nofun⟩

namespace Recording

/-- What a recording has gained: the history is longer, and the calls and handlers in it are those that
the marks say. The functions that have got a body are those that have been started and those that
have become closures, each of them once. -/
structure Gained (program : Program) (code : Recording) (started : List FuncId) (marks : List Mark)
    (added : List (ValueId × Operation)) (code' : Recording) : Prop where
  history : code'.history = code.history ++ added
  recorded : List.Forall₂ (Mark.Recorded code') marks (milestones added)
  once : (closures added).Nodup
  apart : ∀ func ∈ closures added, func ∉ started
  fresh : ∀ func, func ∈ started ∨ func ∈ closures added → ¬code.Defines func
  defines : ∀ func, code'.Defines func ↔
    code.Defines func ∨ func ∈ started ∨ func ∈ closures added
  sound : ∀ entry ∈ added, entry.2.Sound program code'

/-- A piece of lowering leads from one recording to another and leaves marks. -/
structure Onward (program : Program) (code : Recording) (marks : List Mark) (code' : Recording) :
    Prop where
  later : code.Extends code'
  orderly : code'.Orderly program
  gained : ∃ added, Gained program code [] marks added code'

variable {decl : FnDecl} {added : List (ValueId × Operation)}

theorem Gained.of_none (history : code'.history = code.history ++ added)
    (recorded : List.Forall₂ (Mark.Recorded code') marks (milestones added))
    (none : closures added = []) (defines : ∀ func, code'.Defines func ↔ code.Defines func)
    (sound : ∀ entry ∈ added, entry.2.Sound program code') :
    Gained program code [] marks added code' := by
  refine ⟨history, recorded, ?_, ?_, ?_, ?_, sound⟩ <;> simp [none, defines]

theorem Gained.trans {added' : List (ValueId × Operation)}
    (first : Gained program code started marks added code1)
    (second : Gained program code1 started' marks' added' code') (later : code1.Extends code') :
    Gained program code (started ++ started') (marks ++ marks') (added ++ added') code' := by
  have both : closures (added ++ added') = closures added ++ closures added' :=
    List.filterMap_append
  have early : ∀ func, func ∈ started ∨ func ∈ closures added → code1.Defines func :=
    fun func made => (first.defines func).mpr (.inr made)
  refine ⟨by rw [second.history, first.history, List.append_assoc], ?_, ?_, ?_, ?_, ?_, ?_⟩
  · rw [milestones, List.filter_append]
    exact List.rel_append (first.recorded.imp fun _ _ recorded => recorded.later later)
      second.recorded
  · rw [both, List.nodup_append]
    refine ⟨first.once, second.once, ?_⟩
    rintro func member _ member' rfl
    exact second.fresh func (.inr member') (early func (.inr member))
  · intro func member
    rw [both, List.mem_append] at member
    rw [List.mem_append, not_or]
    rcases member with member | member
    · exact ⟨first.apart func member, fun again =>
        second.fresh func (.inl again) (early func (.inr member))⟩
    · exact ⟨fun again => second.fresh func (.inr member) (early func (.inl again)),
        second.apart func member⟩
  · intro func made defined
    rw [both, List.mem_append, List.mem_append, or_or_or_comm] at made
    rcases made with made | made
    · exact first.fresh func made defined
    · exact second.fresh func made ((first.defines func).mpr (.inl defined))
  · intro func
    rw [second.defines, first.defines, both, List.mem_append, List.mem_append, or_assoc]
    exact or_congr_right or_or_or_comm
  · intro entry member
    rcases List.mem_append.mp member with member | member
    · exact (first.sound entry member).later later
    · exact second.sound entry member

theorem Onward.trans (first : code.Onward program marks code1)
    (second : code1.Onward program marks' code') : code.Onward program (marks ++ marks') code' := by
  obtain ⟨_, gained⟩ := first.gained
  obtain ⟨_, gained'⟩ := second.gained
  exact ⟨first.later.trans second.later, second.orderly, _, gained.trans gained' second.later⟩

/-- Nothing is added to the history. -/
theorem Onward.of_history (later : code.Extends code') (orderly : code'.Orderly program)
    (history : code'.history = code.history)
    (defines : ∀ func, code'.Defines func ↔ code.Defines func) : code.Onward program [] code' :=
  ⟨later, orderly, [], .of_none (by rw [history, List.append_nil]) .nil rfl defines
    (List.forall_mem_nil _)⟩

section

variable (orderly : code.Orderly program)

include orderly

theorem Onward.refl : code.Onward program [] code :=
  .of_history (.refl code) orderly rfl fun _ => Iff.rfl

theorem Onward.constant (constant : Constant) :
    code.Onward program [] (code.addConstant constant).2 :=
  have later : code.Extends (code.addConstant constant).2 := extends_addConstant constant
  .of_history later (orderly.of_same later rfl rfl orderly.placed) (history_addConstant constant)
    fun _ => defines_congr rfl

theorem Onward.global (name : String) : code.Onward program [] (code.addGlobal name).2 := by
  have later : code.Extends (code.addGlobal name).2 := extends_addGlobal name
  refine .of_history later (orderly.of_same later addGlobal_blocks addGlobal_routines ?_)
    (history_addGlobal name) fun _ => defines_congr addGlobal_routines
  rw [addGlobal_cursor]
  exact orderly.placed

theorem Onward.position (has : code.Has block) : code.Onward program [] (code.position block) :=
  .of_history (extends_position block) (orderly.position has) rfl fun _ => defines_congr rfl

theorem Onward.declare (links : program.Links decl.name) :
    code.Onward program [] (code.declare decl).2 :=
  .of_history (extends_declare decl) (orderly.declare (.inl links)) (history_declare decl)
    fun _ => defines_declare

theorem Onward.appendBlock (bodied : code.Defines func) (label : String) :
    code.Onward program [] (code.appendBlock func label).2 :=
  .of_history (extends_appendBlock func label) (orderly.appendBlock bodied)
    (history_appendBlock func label) fun _ => defines_appendBlock bodied

/-- An operation is recorded. -/
theorem Onward.written (has : code.Has block) (unmade : op.closure? = none)
    (sound : op.Sound program code)
    (recorded : List.Forall₂ (Mark.Recorded (code.written block op)) marks (milestones (if op.hasResult then [(⟨code.values.size⟩, op)] else []))) :
    code.Onward program marks (code.written block op) := by
  have later : code.Extends (code.written block op) := extends_written block op
  obtain ⟨data, present⟩ := has
  refine ⟨later, orderly.written ⟨data, present⟩, _,
    .of_none (orderly.enumerated.history_written present) recorded ?_ (fun _ => defines_congr rfl) ?_⟩
  · unfold closures
    split
    · exact List.filterMap_cons_none unmade
    · rfl
  · intro entry member
    split at member
    · rw [List.mem_singleton.mp member]
      exact sound.later later
    · cases member

end

theorem Onward.ordinary (op : Operation) (orderly : code.Orderly program) (has : code.Has block)
    (ordinary : op.isOrdinary = true) : code.Onward program [] (code.written block op) := by
  refine .written orderly has ?_ (.of_isOrdinary ordinary) ?_
  · cases op <;> first | rfl | cases ordinary
  · cases op <;> first | exact .nil | cases ordinary

variable {params : List ValueId} {entry : Recording}

/-- A function gets its body. -/
theorem Gained.begun
    (begun : Emit.beginRoutine (code.declare decl).1 (code.declare decl).2 = .ok params entry) :
    Gained program code [(code.declare decl).1] [] [] entry := by
  obtain ⟨undefined, defines⟩ := defines_beginRoutine begun
  simp only [defines_declare] at undefined defines
  refine ⟨?_, .nil, List.nodup_nil, nofun, fun func made => ?_, fun _ => ?_, nofun⟩
  · rw [history_beginRoutine begun, history_declare, List.append_nil]
  · obtain rfl := List.mem_singleton.mp (made.resolve_right List.not_mem_nil)
    exact undefined
  · rw [defines, List.mem_singleton]
    exact or_congr_right (or_iff_left List.not_mem_nil).symm

/-- A function that has been started becomes a closure. -/
theorem Gained.closed {data : ValueId} (inside : Gained program code [func] marks added code')
    (orderly : code'.Orderly program) (has : code'.Has block) {name : String}
    (closed : IsClosureName name) (named : code'.Names func name) :
    Gained program code [] marks (added ++ [(⟨code'.values.size⟩, .makeClosure func data)])
      (code'.written block (.makeClosure func data)) := by
  have made : code'.Extends (code'.written block (.makeClosure func data)) := extends_written block _
  have both : closures (added ++ [(⟨code'.values.size⟩, .makeClosure func data)]) =
      closures added ++ [func] := List.filterMap_append
  have either : ∀ f, f ∈ ([] : List FuncId) ∨ f ∈ closures added ++ [func] ↔
      f ∈ [func] ∨ f ∈ closures added := by
    intro f
    rw [or_iff_right List.not_mem_nil, List.mem_append, or_comm]
  refine ⟨?_, ?_, ?_, nofun, fun f => ?_, fun f => ?_, ?_⟩
  · obtain ⟨_, present⟩ := has
    rw [orderly.enumerated.history_written present, inside.history, List.append_assoc]
    rfl
  · rw [milestones, List.filter_append, List.filter_cons_of_neg Bool.false_ne_true,
      List.filter_nil, List.append_nil]
    exact inside.recorded.imp fun _ _ recorded => recorded.later made
  · rw [both, List.nodup_append]
    refine ⟨inside.once, List.nodup_singleton _, ?_⟩
    rintro f member _ member' rfl
    exact inside.apart f member member'
  · rw [both, either]
    exact inside.fresh f
  · rw [both, either]
    exact (defines_congr rfl).trans (inside.defines f)
  · intro found member
    rcases List.mem_append.mp member with member | member
    · exact (inside.sound found member).later made
    · rw [List.mem_singleton.mp member]
      refine ⟨nofun, fun _ made' => ?_⟩
      cases made'
      exact ⟨name, closed, named.later made⟩

theorem Onward.closure (indexed : code.Indexed) (data : ValueId)
    (begun : Emit.beginRoutine (code.declare decl).1 (code.declare decl).2 = .ok params entry)
    (named : IsClosureName decl.name) (inside : entry.Onward program marks code')
    (has : code'.Has block) :
    code.Onward program marks (code'.written block (.makeClosure (code.declare decl).1 data)) := by
  obtain ⟨_, gained⟩ := inside.gained
  have started := (frame_beginRoutine begun).later.trans inside.later
  exact ⟨((extends_declare decl).trans started).trans (extends_written block _),
    inside.orderly.written has, _, ((Gained.begun begun).trans gained inside.later).closed
      inside.orderly has named ((indexed.names_declare decl).later started)⟩

end Recording

end

end CallLowering
