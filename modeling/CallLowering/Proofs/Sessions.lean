import CallLowering.Proofs.Growth
import CallLowering.Proofs.Trail

/-!
# Sessions with a recording

A recording is built by a sequence of requests, each of which is answered or refused. `Session`
relates the answers so far to the recording that they have led to. The tables of the recording fit
together in every session, whatever the order of the requests and wherever the cursor was moved in
between (`Session.faithful`).
-/

namespace CallLowering

/-! ## Requests -/

/-- What a recording is asked for. -/
inductive Request where
  | declare (decl : FnDecl)
  | beginRoutine (func : FuncId)
  | newBlock (label : String)
  | position (block : BlockId)
  | constant (value : Constant)
  | global (name : String)
  | emit (op : Operation)
  | emitValue (op : Operation)
  | read {α : Type} (view : Recording → α)

namespace Request

/-- What a request is answered with. -/
def Answer : Request → Type
  | declare _ => FuncId
  | beginRoutine _ => List ValueId
  | newBlock _ => BlockId
  | position _ => Unit
  | constant _ | global _ | emitValue _ => ValueId
  | emit _ => Option ValueId
  | @read α _ => α

/-- What a recording does when it is asked. -/
def perform : (request : Request) → Emit request.Answer
  | declare decl => Emit.declare decl
  | beginRoutine func => Emit.beginRoutine func
  | newBlock label => Emit.newBlock label
  | position block => Emit.position block
  | constant value => Emit.constant value
  | global name => Emit.global name
  | emit op => Emit.push op
  | emitValue op => Emit.value op
  | read view => Emit.update fun code => (view code, code)

/-- The block that the cursor is to move to is there. -/
def InRange (code : Recording) : Request → Prop
  | position block => code.Has block
  | _ => True

/-- The prototype that is declared under a name. -/
def prototype? (name : String) : Request → Option FnDecl
  | declare decl => if decl.name = name then some decl else none
  | _ => none

/-- Whether the function is to get its body. -/
def begins (func : FuncId) : Request → Bool
  | beginRoutine f => f == func
  | _ => false

end Request

/-- A request with its answer. -/
abbrev Exchange := (request : Request) × request.Answer

/-- What an answer says of the recording. -/
def Exchange.Holds (code : Recording) : Exchange → Prop
  | ⟨.declare decl, func⟩ => code.Names func decl.name
  | ⟨.global name, v⟩ => code.value? v = some (.global name)
  | _ => True

/-- What a new recording was asked and answered, the first request first, and the recording after
that. Between the answers, any request may have been refused. -/
inductive Session (target : Target) (types : TypeTable) : List Exchange → Recording → Prop where
  | start : Session target types [] (.empty target types)
  | answered {past code code' request answer} (session : Session target types past code)
      (inRange : request.InRange code) (ran : request.perform code = .ok answer code') :
      Session target types (past ++ [⟨request, answer⟩]) code'
  | refused {past code code'} {request : Request}
      {error} (session : Session target types past code)
      (ran : request.perform code = .error error code') : Session target types past code'

variable {request : Request} {code code' : Recording} {past : List Exchange}

/-- A request that is refused changes nothing. -/
theorem Request.perform_error {error : RecordError}
    (ran : request.perform code = .error error code') : code' = code := by
  cases request with
  | beginRoutine func =>
    cases declared : code.routine? func with
    | none => cases (Emit.beginRoutine_of_undeclared declared).symm.trans ran; rfl
    | some routine =>
      cases body : routine.isDefined with
      | true => cases (Emit.beginRoutine_of_defined declared body).symm.trans ran; rfl
      | false => cases (Emit.beginRoutine_of_bodiless declared body).symm.trans ran
  | newBlock label =>
    cases found : code.cursor.bind code.block? with
    | none => cases (Emit.newBlock_of_absent found).symm.trans ran; rfl
    | some data =>
      obtain ⟨_, atBlock, present⟩ := Option.bind_eq_some_iff.mp found
      cases (Emit.newBlock_of_present atBlock present).symm.trans ran
  | emit op =>
    obtain ⟨_, _, _, pushed⟩ | ⟨_, _, _, refused⟩ := Emit.push_cases op code
    · cases pushed.symm.trans ran
    · cases refused.symm.trans ran
      rfl
  | emitValue op =>
    obtain ⟨_, _, _, made⟩ | ⟨_, _, _, refused⟩ := Emit.value_cases op code
    · replace ran := made.symm.trans ran
      split at ran <;> cases ran
      rfl
    · cases refused.symm.trans ran
      rfl
  | _ => cases ran

namespace Recording

/-! ## Tables that fit together -/

/-- A value that is a result has its instruction, a terminator is the last instruction of its block,
and a block is listed once, for the function it belongs to. -/
structure Tidy (code : Recording) : Prop where
  sources : ∀ v b, code.value? v = some (.result b) →
    ∃ instruction ∈ code.instructionsOf b, instruction.result = some v
  last : code.TerminatorsLast
  listed : code.Listed
  nodup : ∀ func, (code.blocksOf func).Nodup

namespace Tidy

variable {block : BlockId} {func : FuncId} (tidy : code.Tidy)

include tidy

/-- Values that are no results and functions without blocks may be added. -/
theorem of_blocks (blocks : code'.blocks = code.blocks) (lists : code'.blocksOf = code.blocksOf)
    (sources : ∀ v b, code'.value? v = some (.result b) → code.value? v = some (.result b)) :
    code'.Tidy := by
  have same : code'.block? = code.block? := funext fun _ => by rw [block?, block?, blocks]
  refine ⟨fun v b source => ?_, ?_, ?_, ?_⟩
  · rw [instructionsOf_congr (congrFun same b)]
    exact tidy.sources v b (sources v b source)
  · unfold TerminatorsLast
    rw [same]
    exact tidy.last
  · unfold Listed
    rw [same, lists]
    exact tidy.listed
  · rw [lists]
    exact tidy.nodup

theorem addValue (source : ValueSource) (other : ∀ b, source ≠ .result b) :
    (code.addValue source).2.Tidy := by
  refine tidy.of_blocks rfl rfl fun v b found => ?_
  obtain ⟨_, same⟩ | found := getElem?_push_cases found
  · exact absurd same.symm (other b)
  · exact found

theorem written {op : Operation} (has : code.Has block) (running : code.terminator? block = none) :
    (code.written block op).Tidy := by
  refine ⟨fun v b source => ?_, tidy.last.written running, tidy.listed.written, tidy.nodup⟩
  have old (source : code.value? v = some (.result b)) :
      ∃ instruction ∈ (code.written block op).instructionsOf b, instruction.result = some v :=
    have ⟨instruction, member, result⟩ := tidy.sources v b source
    ⟨instruction, ((extends_written block op).instructionsOf b).subset member, result⟩
  unfold value? Recording.written at source
  dsimp only at source
  split at source
  · rename_i hasResult
    obtain ⟨new, here⟩ | source := getElem?_push_cases source
    · cases here
      obtain ⟨_, present⟩ := has
      rw [written_instructionsOf_self present]
      refine ⟨_, List.mem_append_right _ (List.mem_singleton_self _), ?_⟩
      exact (if_pos hasResult).trans (congrArg (some ∘ ValueId.mk) new.symm)
    · exact old source
  · exact old source

theorem appendBlock {routine : Routine} (declared : code.routine? func = some routine)
    (label : String) : (code.appendBlock func label).2.Tidy := by
  refine ⟨fun v b source => ?_, tidy.last.appendBlock func label, tidy.listed.appendBlock declared,
    fun f => ?_⟩
  · rw [appendBlock_instructionsOf]
    exact tidy.sources v b source
  · rw [appendBlock_blocksOf]
    split
    · refine List.nodup_append.mpr ⟨tidy.nodup f, List.nodup_singleton _, ?_⟩
      rintro _ member _ new rfl
      obtain ⟨_, present, _⟩ := (tidy.listed f _).mp member
      rw [List.mem_singleton.mp new] at present
      exact Nat.lt_irrefl _ (block?_eq_some_lt present)
    · exact tidy.nodup f

end Tidy

/-! ## What was asked before -/

/-- What was asked explains a function: it has the prototype that was declared first under its name,
was begun once if it has a body and never if not, and has a value for each parameter then. -/
structure Explained (code : Recording) (past : List Exchange) (func : FuncId) (routine : Routine) :
    Prop where
  first : past.findSome? (·.1.prototype? routine.decl.name) = some routine.decl
  begun : past.countP (·.1.begins func) = if routine.isDefined then 1 else 0
  params : routine.isDefined = true → routine.params.length = routine.decl.params.length ∧
    ∀ (i : Nat) v, routine.params[i]? = some v → code.value? v = some (.param func i)

/-- The answers still hold, and there are no functions besides those they explain. -/
structure Remembers (code : Recording) (past : List Exchange) : Prop where
  holds : ∀ exchange ∈ past, exchange.Holds code
  explained : ∀ func routine, code.routine? func = some routine → code.Explained past func routine
  unbegun : ∀ func, code.routine? func = none → past.countP (·.1.begins func) = 0

variable {exchange : Exchange} {func : FuncId} {decl : FnDecl} {params : List ValueId}

theorem Explained.later {routine : Routine} (explained : code.Explained past func routine)
    (later : code.Extends code') (unbegun : exchange.1.begins func = false) :
    code'.Explained (past ++ [exchange]) func routine where
  first := by rw [List.findSome?_append, explained.first, Option.some_or]
  begun := by
    rw [List.countP_append, List.countP_singleton, unbegun]
    exact explained.begun
  params defined := by
    obtain ⟨length, each⟩ := explained.params defined
    exact ⟨length, fun i v found => later.value v _ (each i v found)⟩

namespace Remembers

variable (remembers : code.Remembers past)

include remembers

section

variable (later : code.Extends code')

include later

theorem unbegun_later (unbegun : exchange.1.begins func = false)
    (absent : code'.routine? func = none) : (past ++ [exchange]).countP (·.1.begins func) = 0 := by
  rw [List.countP_append, List.countP_singleton, unbegun]
  cases present : code.routine? func with
  | none => exact remembers.unbegun func present
  | some routine =>
    obtain ⟨_, present', _⟩ := later.routine func routine present
    cases absent.symm.trans present'

variable (own : exchange.Holds code')

include own

theorem holds_later : ∀ exchange' ∈ past ++ [exchange], exchange'.Holds code' := by
  intro exchange' member
  obtain member | member := List.mem_append.mp member
  · have held := remembers.holds exchange' member
    obtain ⟨request, answer⟩ := exchange'
    cases request with
    | declare => exact Names.later held later
    | global => exact later.value answer _ held
    | _ => trivial
  · exact List.mem_singleton.mp member ▸ own

/-- Functions may get more blocks. -/
theorem plain (unbegun : ∀ func, exchange.1.begins func = false)
    (routines : ∀ func routine', code'.routine? func = some routine' → ∃ blocks,
      code.routine? func = some { routine' with blocks := blocks } ∧
        routine'.isDefined = !blocks.isEmpty) : code'.Remembers (past ++ [exchange]) := by
  refine ⟨remembers.holds_later later own, fun func routine' present => ?_,
    fun func => remembers.unbegun_later later (unbegun func)⟩
  obtain ⟨_, present, same⟩ := routines func routine' present
  have explained := (remembers.explained func _ present).later later (unbegun func)
  exact ⟨explained.first, explained.begun.trans (by rw [same]; rfl),
    fun defined => explained.params (same.symm.trans defined)⟩

theorem same_routines (unbegun : ∀ func, exchange.1.begins func = false)
    (same : code'.routines = code.routines) :
    code'.Remembers (past ++ [exchange]) :=
  remembers.plain later own unbegun fun _ routine present =>
    ⟨routine.blocks, by rwa [routine?, ← same], rfl⟩

end

theorem declare (indexed : code.Indexed) : (code.declare decl).2.Remembers
    (past ++ [⟨.declare decl, (code.declare decl).1⟩]) := by
  refine ⟨remembers.holds_later (extends_declare decl) (indexed.names_declare decl),
    fun func routine present => ?_, fun _ => remembers.unbegun_later (extends_declare decl) rfl⟩
  obtain present | ⟨rfl, rfl, absent⟩ := declare_routine?_cases present
  · exact (remembers.explained func routine present).later (extends_declare decl) rfl
  have undeclared : past.findSome? (·.1.prototype? decl.name) = none := by
    rw [List.findSome?_eq_none_iff]
    rintro ⟨request, answer⟩ member
    cases request with
    | declare decl' =>
      refine if_neg fun same => ?_
      have named : code.Names answer decl'.name := remembers.holds _ member
      cases absent.symm.trans (same ▸ indexed.names.mpr named)
    | _ => rfl
  refine ⟨?_, ?_, nofun⟩
  · rw [List.findSome?_append, undeclared, List.findSome?_singleton]
    exact if_pos rfl
  · rw [List.countP_append, remembers.unbegun _ (by simp [Recording.declare, absent, routine?])]
    rfl

theorem beginRoutine (began : Emit.beginRoutine func code = .ok params code') :
    code'.Remembers (past ++ [⟨.beginRoutine func, params⟩]) := by
  have later := (frame_beginRoutine began).later
  obtain ⟨routine, opened, present, empty, _, _, _, routines, ⟨length, each, _⟩, rfl⟩ :=
    beginRoutine_ok began
  have explained := remembers.explained func routine present
  have entry (f : FuncId) := (@appendBlock_routine? opened func f "entry").trans (by rw [routines])
  refine ⟨remembers.holds_later later trivial, fun f found there => ?_, fun f absent => ?_⟩
  · replace there := (entry f).symm.trans there
    split at there
    · rename_i here
      subst here
      cases there
      refine ⟨by rw [List.findSome?_append, explained.first, Option.some_or], ?_,
        fun _ => ⟨length, each⟩⟩
      rw [List.countP_append, explained.begun, List.countP_singleton]
      simp [Routine.isDefined, empty, Request.begins]
    · rename_i elsewhere
      exact (remembers.explained f found there).later later (beq_false_of_ne elsewhere)
  · refine remembers.unbegun_later later (beq_false_of_ne fun here => ?_) absent
    replace absent := (entry f).symm.trans absent
    rw [if_pos here, if_pos here] at absent
    cases absent

end Remembers

end Recording

/-! ## Sessions -/

open Recording

/-- What one request leaves behind. -/
theorem Request.perform_ok {answer : request.Answer} (ordered : code.Ordered fun _ => True)
    (tidy : code.Tidy) (remembers : code.Remembers past) (inRange : request.InRange code)
    (ran : request.perform code = .ok answer code') :
    code'.Ordered (fun _ => True) ∧ code'.Tidy ∧ code'.Remembers (past ++ [⟨request, answer⟩]) := by
  have written {op : Operation} {exchange : Exchange} (block : BlockId)
      (atBlock : code.cursor = some block) (running : code.terminator? block = none)
      (own : exchange.Holds (code.written block op)) (unbegun : ∀ func, exchange.1.begins func = false) :
      (code.written block op).Ordered (fun _ => True) ∧ (code.written block op).Tidy ∧
        (code.written block op).Remembers (past ++ [exchange]) :=
    have has := ordered.placed block atBlock
    ⟨ordered.written has, tidy.written has running,
      remembers.same_routines (extends_written block op) own unbegun rfl⟩
  cases request with
  | declare decl =>
    obtain ⟨rfl, rfl⟩ : (code.declare decl).1 = answer ∧ (code.declare decl).2 = code' := by
      cases ran
      exact ⟨rfl, rfl⟩
    refine ⟨ordered.declare trivial, tidy.of_blocks declare_blocks
      (funext fun _ => declare_blocksOf) ?_, remembers.declare ordered.indexed⟩
    unfold value?
    rw [declare_values]
    exact fun _ _ => id
  | beginRoutine func =>
    refine ⟨ordered.beginRoutine ran, ?_, remembers.beginRoutine ran⟩
    obtain ⟨_, opened, _, _, _, blocks, listed, routines, ⟨_, _, old⟩, rfl⟩ :=
      beginRoutine_ok ran
    have named : opened.Tidy := by
      refine tidy.of_blocks blocks (funext listed) fun v b source => ?_
      obtain source | ⟨_, param⟩ := old v _ source
      · exact source
      · cases param
    exact (named.appendBlock ((routines func).trans (if_pos rfl)) "entry").of_blocks rfl rfl
      fun _ _ => id
  | newBlock label =>
    obtain ⟨block, data, _, present, _, rfl⟩ := Emit.newBlock_ok ran
    have bodied := ordered.homed block data present
    obtain ⟨routine, declared, defined⟩ := id bodied
    refine ⟨ordered.appendBlock bodied, tidy.appendBlock declared label, remembers.plain
      (extends_appendBlock data.func label) trivial (fun _ => rfl) fun f routine' there => ?_⟩
    rw [appendBlock_routine?] at there
    split at there
    · rename_i here
      subst here
      rw [declared] at there
      cases there
      exact ⟨routine.blocks, declared, .trans (by simp [Routine.isDefined]) defined.symm⟩
    · exact ⟨routine'.blocks, there, rfl⟩
  | position block =>
    cases ran
    exact ⟨ordered.position inRange, tidy.of_blocks rfl rfl fun _ _ => id,
      remembers.same_routines (extends_position block) trivial (fun _ => rfl) rfl⟩
  | constant known =>
    cases ran
    have later : code.Extends (code.addConstant known).2 := extends_addConstant known
    exact ⟨ordered.of_same later rfl rfl ordered.placed, tidy.addValue (.const known) (by simp),
      remembers.same_routines later trivial (fun _ => rfl) rfl⟩
  | global name =>
    obtain ⟨rfl, rfl⟩ : (code.addGlobal name).1 = answer ∧ (code.addGlobal name).2 = code' := by
      cases ran
      exact ⟨rfl, rfl⟩
    have later : code.Extends (code.addGlobal name).2 := extends_addGlobal name
    refine ⟨ordered.of_same later addGlobal_blocks addGlobal_routines ?_, ?_,
      remembers.same_routines later (ordered.indexed.value?_addGlobal.mpr rfl) (fun _ => rfl)
        addGlobal_routines⟩
    · rw [addGlobal_cursor]
      exact ordered.placed
    · obtain same | ⟨_, added⟩ := code.addGlobal_snd name
      · exact same.symm ▸ tidy
      · exact added ▸ (tidy.addValue (.global name) (by simp)).of_blocks rfl rfl fun _ _ => id
  | emit op =>
    obtain ⟨block, atBlock, running, pushed⟩ | ⟨_, _, _, refused⟩ := Emit.push_cases op code
    · cases pushed.symm.trans ran
      exact written block atBlock running trivial fun _ => rfl
    · cases refused.symm.trans ran
  | emitValue op =>
    obtain ⟨block, atBlock, running, _, rfl⟩ := Emit.value_ok ran
    exact written block atBlock running trivial fun _ => rfl
  | _ =>
    cases ran
    exact ⟨ordered, tidy, remembers.same_routines (.refl code) trivial (fun _ => rfl) rfl⟩

namespace Session

variable {target : Target} {types : TypeTable}

theorem kept (session : Session target types past code) :
    code.Ordered (fun _ => True) ∧ code.Tidy ∧ code.Remembers past := by
  induction session with
  | start =>
    refine ⟨⟨.empty target types, nofun, indexed_empty target types, fun _ _ _ => trivial, nofun⟩, ⟨nofun, nofun, ?_, fun _ => .nil⟩,
      List.forall_mem_nil _, nofun, fun _ _ => rfl⟩
    · refine fun _ _ => ⟨fun none => absurd none List.not_mem_nil, ?_⟩
      rintro ⟨_, none, _⟩
      exact absurd none (Option.not_mem_none _)
  | answered _ inRange ran ih => exact Request.perform_ok ih.1 ih.2.1 ih.2.2 inRange ran
  | refused _ ran ih => exact Request.perform_error ran ▸ ih

/-- In every session with a recording, its tables are as the answers so far explain them: the names of
functions and the addresses of globals are found in their tables exactly as they were recorded, and a
global is always answered with one address. A request that is refused now has left everything as it
was. -/
theorem faithful (session : Session target types past code) :
    code.Ordered (fun _ => True) ∧ code.Tidy ∧ code.Remembers past ∧ code.Indexed ∧
      (∀ name v w, ⟨.global name, v⟩ ∈ past → ⟨.global name, w⟩ ∈ past → v = w) ∧
      ∀ (request : Request) (error : RecordError) (code' : Recording),
        request.perform code = .error error code' → code' = code := by
  obtain ⟨ordered, tidy, remembers⟩ := session.kept
  refine ⟨ordered, tidy, remembers, ordered.indexed, fun name v w asked asked' => ?_,
    fun _ _ _ => Request.perform_error⟩
  have found : code.value? v = some (.global name) := remembers.holds _ asked
  have again : code.value? w = some (.global name) := remembers.holds _ asked'
  exact Option.mem_unique (ordered.indexed.globals.mpr found) (ordered.indexed.globals.mpr again)

/-- Before there is a function, no block can be added; once a block has ended, it takes nothing. -/
theorem faithful_main : ∃ past code, Session .x86_64 .empty past code ∧ past.length = 3 ∧
    code.funcNamed? "main" = some ⟨0⟩ := by
  have early : Session .x86_64 .empty [] (.empty .x86_64 .empty) :=
    @refused _ _ _ _ _ (.newBlock "early") _ .start rfl
  have declared : (Request.declare ⟨"main", [], .void, none, false⟩).perform (.empty .x86_64 .empty) =
      .ok ⟨0⟩ ⟨.x86_64, .empty, #[⟨⟨"main", [], .void, none, false⟩, #[], []⟩], [("main", ⟨0⟩)], #[], #[], [],
        none⟩ := rfl
  have known := @answered _ _ _ _ _ (.declare _) _ early trivial declared
  have begun := @answered _ _ _ _ _ (.beginRoutine ⟨0⟩) _ known trivial rfl
  have ended := @answered _ _ _ _ _ (.emit .unreachable) _ begun trivial rfl
  have late := @refused _ _ _ _ _ (.emit .unreachable) _ ended rfl
  exact ⟨_, _, late, rfl, late.faithful.2.2.2.1.names.mpr ⟨_, rfl, rfl⟩⟩

end Session

end CallLowering
