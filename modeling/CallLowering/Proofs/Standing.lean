import CallLowering.Proofs.LockstepCalls

/-!
# Where a computation stands

Lowering keeps to rules whether it succeeds or fails. It closes the join points that it has opened,
the innermost first; it puts the cursor into blocks of the function it is in; it works under other
contexts for a while only; it binds variables in scopes of its own, under names that are not bound
yet, or under the numbers of its own dispatches.

`Moves` is the judgement that a computation keeps to the rules. It says what the computation does in
terms of what is known where it stands (`Standing`), and it speaks of a computation together with the
way in which the expressions inside are lowered. There is one rule for each primitive of lowering.
Which facts the rules are good for is a matter of induction over `Moves`.
-/

namespace CallLowering

open Recording Lower Emit

variable {block : Block} {name : String}

/-! ## Results -/

/-- A result is a success or a failure with the given property. -/
def Outcome {ε σ α : Type} (done : α → σ → Prop) (failed : ε → σ → Prop) :
    EStateM.Result ε σ α → Prop
  | .ok a s => done a s
  | .error error s => failed error s

namespace Outcome

variable {ε σ α β : Type} {done done1 : α → σ → Prop} {done' : β → σ → Prop}
  {failed failed' : ε → σ → Prop} {result : EStateM.Result ε σ α} {s : σ}

theorem of_ok {a : α} (ran : result = .ok a s) (holds : done a s) :
    Outcome done failed result := ran ▸ holds

theorem of_error {error : ε} (ran : result = .error error s) (holds : failed error s) :
    Outcome done failed result := ran ▸ holds

theorem mono (outcome : Outcome done failed result) (succeeds : ∀ a s, done a s → done1 a s)
    (fails : ∀ error s, failed error s → failed' error s) : Outcome done1 failed' result := by
  cases result with
  | ok a s => exact succeeds a s outcome
  | error error s => exact fails error s outcome

theorem bind {act : EStateM ε σ α} {next : α → EStateM ε σ β} (first : Outcome done failed (act s))
    (rest : ∀ a s', done a s' → Outcome done' failed' (next a s'))
    (fails : ∀ error s', failed error s' → failed' error s') :
    Outcome done' failed' ((act >>= next) s) := by
  change Outcome done' failed' (EStateM.bind act next s)
  unfold EStateM.bind
  cases result : act s with
  | ok a s' =>
    rw [result] at first
    exact rest a s' first
  | error error s' =>
    rw [result] at first
    exact fails error s' first

end Outcome

/-! ## Recording -/

namespace Emit

variable {α β : Type} {op : Operation}

/-- What was recorded stays, and the cursor is where it was. -/
def Steady (code code' : Recording) : Prop :=
  code.Extends code' ∧ code'.cursor = code.cursor

theorem Steady.refl (code : Recording) : Steady code code := ⟨.refl code, rfl⟩

theorem Steady.trans {code code1 code' : Recording} (first : Steady code code1)
    (second : Steady code1 code') : Steady code code' :=
  ⟨first.1.trans second.1, second.2.trans first.2⟩

/-- A recording leaves the cursor where it is, and every operation that is asked for its value has
one. -/
def Quiet (act : Emit α) : Prop :=
  ∀ code, Outcome (fun _ code' => Steady code code')
    (fun error code' => error ≠ .noResult ∧ Steady code code') (act code)

namespace Quiet

theorem pure (a : α) : Quiet (pure a : Emit α) := fun code => .refl code

theorem bind {act : Emit α} {next : α → Emit β} (first : act.Quiet)
    (rest : ∀ a, (next a).Quiet) : (act >>= next).Quiet := by
  intro code
  refine (first code).bind (fun a code1 steady => ?_) fun _ _ failed => failed
  exact (rest a code1).mono (fun _ _ later => steady.trans later)
    fun _ _ later => ⟨later.1, steady.trans later.2⟩

theorem update {change : Recording → α × Recording}
    (steady : ∀ code, Steady code (change code).2) : (update change).Quiet := steady

theorem constant (value : Constant) : (constant value).Quiet :=
  update fun _ => ⟨extends_addConstant value, rfl⟩

theorem global (name : String) : (global name).Quiet :=
  update fun _ => by
    refine ⟨extends_addGlobal name, ?_⟩
    rw [addGlobal]
    split <;> rfl

theorem declare (decl : FnDecl) : (declare decl).Quiet :=
  update fun _ => ⟨extends_declare decl, declare_cursor⟩

theorem isTerminated : isTerminated.Quiet := update fun code => .refl code

theorem cursor : cursor.Quiet := update fun code => .refl code

theorem throw {error : RecordError} (harmless : error ≠ .noResult) :
    Quiet (throw error : Emit α) := fun code => ⟨harmless, .refl code⟩

theorem effect (op : Operation) : (effect op).Quiet := by
  intro code
  obtain ⟨block, _, _, ran⟩ | ⟨_, _, harmless, ran⟩ := effect_cases op code
  · exact .of_ok ran ⟨extends_written block op, rfl⟩
  · exact .of_error ran ⟨harmless, .refl code⟩

theorem value (has : op.hasResult = true) : (value op).Quiet := by
  intro code
  obtain ⟨block, _, _, ran⟩ | ⟨_, _, harmless, ran⟩ := value_cases op code
  · rw [if_pos has] at ran
    exact .of_ok ran ⟨extends_written block op, rfl⟩
  · exact .of_error ran ⟨harmless, .refl code⟩

end Quiet

end Emit

namespace Recording

variable {code code' : Recording} {func : FuncId} {b : BlockId}

/-- The block belongs to the function. -/
def Owns (code : Recording) (func : FuncId) (b : BlockId) : Prop :=
  ∃ data, code.block? b = some data ∧ data.func = func

/-- The cursor stands in a block of the function. -/
def StandsIn (code : Recording) (func : FuncId) : Prop :=
  ∃ b, code.cursor = some b ∧ code.Owns func b

theorem Owns.later (owns : code.Owns func b) (later : code.Extends code') : code'.Owns func b := by
  obtain ⟨data, present, owned⟩ := owns
  obtain ⟨data', present', _, same, _⟩ := later.block b data present
  exact ⟨data', present', same.trans owned⟩

theorem StandsIn.steady (stands : code.StandsIn func) (steady : Steady code code') :
    code'.StandsIn func := by
  obtain ⟨b, here, owns⟩ := stands
  exact ⟨b, steady.2.trans here, owns.later steady.1⟩

end Recording

/-- A new block belongs to the function at the cursor. -/
theorem Emit.newBlock_outcome (label : String) (code : Recording) :
    Outcome (fun b code' => Steady code code' ∧ ∀ func, code.StandsIn func → code'.Owns func b)
      (fun error code' => error ≠ .noResult ∧ Steady code code') (newBlock label code) := by
  cases here : code.cursor.bind code.block? with
  | none =>
    rw [newBlock_of_absent here]
    exact ⟨nofun, .refl code⟩
  | some data =>
    obtain ⟨_, atBlock, present⟩ := Option.bind_eq_some_iff.mp here
    rw [newBlock_of_present atBlock present]
    refine ⟨⟨extends_appendBlock _ _, rfl⟩, fun _ stands => ?_⟩
    obtain ⟨_, atBlock', _, present', owned⟩ := stands
    obtain rfl := Option.mem_unique atBlock atBlock'
    obtain rfl := Option.mem_unique present present'
    exact ⟨_, appendBlock_block?_new, owned⟩

theorem Emit.Quiet.newBlock (label : String) : (newBlock label).Quiet :=
  fun code => (newBlock_outcome label code).mono (fun _ _ made => made.1) fun _ _ => id

namespace Recording

variable {code code' : Recording} {func : FuncId} {params : List ValueId}

/-- A function that was just begun is where the cursor stands. -/
theorem beginRoutine_standsIn (begun : Emit.beginRoutine func code = .ok params code') :
    code'.StandsIn func :=
  have ⟨atEntry, there, _⟩ := beginRoutine_entry begun
  ⟨_, atEntry, _, there, rfl⟩

end Recording

namespace JoinPoint

theorem add_quiet (join : JoinPoint) (value : ValueId) (ty : Ty) : (join.add value ty).Quiet := by
  have received : (join.receive value ty).Quiet := by
    unfold receive
    split
    · dsimp only
      split <;> refine Quiet.bind ?_ fun _ => Quiet.cursor.bind fun found => ?_
      · exact .pure value
      · cases found <;> first | exact .throw nofun | exact .pure _
      · exact .value rfl
      · cases found <;> first | exact .throw nofun | exact .pure _
    · exact .pure join
  have opened : ∀ join : JoinPoint, join.openExit.Quiet := by
    intro join
    unfold openExit
    split
    · exact .pure _
    · exact (Quiet.newBlock "merge").bind fun _ => .pure _
  refine Quiet.isTerminated.bind fun _ => ?_
  split
  · exact .pure join
  · split
    · exact .pure join
    · exact received.bind fun join => (opened join).bind fun _ =>
        (Quiet.effect _).bind fun _ => .pure _

/-- A path that ends in a join point leaves the cursor where it is. The exit of the join point is
the one it had, or a new block of the function at the cursor. -/
theorem add_outcome (join : JoinPoint) (value : ValueId) (ty : Ty) (code : Recording) :
    Outcome (fun join' code' => Steady code code' ∧ ∀ func, code.StandsIn func →
        ∀ x ∈ join'.exit, x ∈ join.exit ∨ code'.Owns func x)
      (fun error code' => error ≠ .noResult ∧ Steady code code') (join.add value ty code) := by
  have quiet := join.add_quiet value ty code
  cases ran : join.add value ty code with
  | error error code' =>
    rw [ran] at quiet
    exact quiet
  | ok join' code' =>
    rw [ran] at quiet
    refine ⟨quiet, fun func stands _ exits => ?_⟩
    obtain ⟨_, rfl, _⟩ | ⟨_, _, _, code1, here, _, converted, exited⟩ := add_ok ran
    · exact .inl exits
    · obtain ⟨_, old, _, rfl⟩ | ⟨_, data, present, rfl, rfl⟩ := exited
      · exact .inl (old.trans exits)
      · cases exits
        have steady : Steady code code1 := by
          obtain ⟨_, rfl⟩ | ⟨_, rfl⟩ := converted
          · exact .refl _
          · exact ⟨extends_written _ _, rfl⟩
        obtain ⟨_, there, _, present', owned⟩ := stands.steady steady
        obtain rfl := Option.mem_unique (steady.2.trans here) there
        obtain rfl := Option.mem_unique present present'
        have owns : (code1.appendBlock data.func "merge").2.Owns func ⟨code1.blocks.size⟩ :=
          ⟨_, appendBlock_block?_new, owned⟩
        exact .inr (owns.later (extends_written _ _))

/-- Closing a join point leaves the cursor where it is or moves it to the exit. -/
theorem close_outcome (join : JoinPoint) (code : Recording) :
    Outcome (fun _ code' => code.Extends code' ∧
        (code'.cursor = code.cursor ∨ ∃ x ∈ join.exit, code'.cursor = some x))
      (fun error code' => error ≠ .noResult ∧ code.Extends code' ∧
        (code'.cursor = code.cursor ∨ ∃ x ∈ join.exit, code'.cursor = some x))
      (join.close code) := by
  unfold close
  cases exits : join.exit with
  | none =>
    have stops : Quiet (do
        if ← isTerminated then return none
        else
          effect .unreachable
          return none : Emit (Option ValueId)) := by
      refine Quiet.isTerminated.bind fun _ => ?_
      split
      · exact .pure none
      · exact (Quiet.effect .unreachable).bind fun _ => .pure none
    exact (stops code).mono (fun _ _ steady => ⟨steady.1, .inl steady.2⟩)
      fun _ _ failed => ⟨failed.1, failed.2.1, .inl failed.2.2⟩
  | some exit =>
    have answers : Quiet (if join.materializes then
        return some (← value (.phi join.machineType join.incoming))
        else return some (← constant .nil) : Emit (Option ValueId)) := by
      split
      · exact (Quiet.value rfl).bind fun _ => .pure _
      · exact (Quiet.constant .nil).bind fun _ => .pure _
    have moved : code.Extends (code.position exit) := extends_position exit
    refine (answers (code.position exit)).mono (fun _ _ steady => ?_) fun _ _ failed => ?_
    · exact ⟨moved.trans steady.1, .inr ⟨exit, rfl, steady.2⟩⟩
    · exact ⟨failed.1, moved.trans failed.2.1, .inr ⟨exit, rfl, failed.2.2⟩⟩

end JoinPoint

namespace Lower

variable {α : Type} {env : Env} {s : LowerState}

/-- What is recorded changes the code only. -/
theorem record_outcome {act : Emit α} {done : α → Recording → Prop}
    {failed : RecordError → Recording → Prop} (outcome : Outcome done failed (act s.code)) :
    Outcome (fun a s' => ∃ code, s' = { s with code := code } ∧ done a code)
      (fun error s' => ∃ cause code, error = .backend (.record cause) ∧
        s' = { s with code := code } ∧ failed cause code) (record act env s) := by
  unfold record
  cases ran : act s.code with
  | ok a code =>
    rw [ran] at outcome
    exact ⟨code, rfl, outcome⟩
  | error cause code =>
    rw [ran] at outcome
    exact ⟨cause, code, rfl, rfl, outcome⟩

variable {i : Nat}

/-- A path that ends in an open join point changes the code and the join point. -/
theorem addToJoin_outcome {join : JoinPoint} (opened : s.joins[i]? = some join) (value : ValueId)
    (ty : Ty) :
    Outcome (fun _ s' => ∃ join' code, s' = { s with
          code := code, joins := s.joins.setIfInBounds i join' } ∧
        Steady s.code code ∧ ∀ func, s.code.StandsIn func →
          ∀ x ∈ join'.exit, x ∈ join.exit ∨ code.Owns func x)
      (fun error s' => ∃ cause code, error = .backend (.record cause) ∧ cause ≠ .noResult ∧
        s' = { s with code := code } ∧ Steady s.code code) (addToJoin i value ty env s) := by
  have outcome := join.add_outcome value ty s.code
  rw [addToJoin_run, opened]
  dsimp only
  cases ran : join.add value ty s.code with
  | ok join' code =>
    rw [ran] at outcome
    exact ⟨join', code, rfl, outcome⟩
  | error cause code =>
    rw [ran] at outcome
    exact ⟨cause, code, rfl, outcome.1, rfl, outcome.2⟩

/-- Closing the innermost join point changes the code and drops the join point. -/
theorem closeJoin_outcome (env : Env) (last : i + 1 = s.joins.size) :
    ∃ join, s.joins[i]? = some join ∧
      Outcome (fun _ s' => ∃ code, s' = { s with code := code, joins := s.joins.pop } ∧
          s.code.Extends code ∧
            (code.cursor = s.code.cursor ∨ ∃ x ∈ join.exit, code.cursor = some x))
        (fun error s' => ∃ cause code, error = .backend (.record cause) ∧ cause ≠ .noResult ∧
          s' = { s with code := code, joins := s.joins.pop } ∧ s.code.Extends code ∧
            (code.cursor = s.code.cursor ∨ ∃ x ∈ join.exit, code.cursor = some x))
        (closeJoin i env s) := by
  have inside : i < s.joins.size := last ▸ Nat.lt_succ_self i
  have back : s.joins.back? = some s.joins[i] := by
    rw [Array.back?_eq_getElem?, ← last, Nat.add_sub_cancel, Array.getElem?_eq_getElem inside]
  refine ⟨s.joins[i], Array.getElem?_eq_getElem inside, ?_⟩
  have outcome := s.joins[i].close_outcome s.code
  rw [closeJoin_run, if_neg (not_not_intro last), back]
  dsimp only
  cases ran : s.joins[i].close s.code with
  | ok result code =>
    rw [ran] at outcome
    exact ⟨code, rfl, outcome⟩
  | error cause code =>
    rw [ran] at outcome
    exact ⟨cause, code, rfl, outcome.1, rfl, outcome.2⟩

theorem around_outcome {enter leave : Context → Context} {act : Lower α}
    {done : α → LowerState → Prop} {failed : LowerError → LowerState → Prop}
    (outcome : Outcome done failed (act env { s with context := enter s.context })) :
    Outcome (fun a s' => ∃ t, s' = { t with context := leave t.context } ∧ done a t)
      (fun error s' => ∃ t, s' = { t with context := leave t.context } ∧ failed error t)
      (around enter leave act env s) := by
  unfold around
  cases ran : act env { s with context := enter s.context } with
  | ok a t =>
    rw [ran] at outcome
    exact ⟨t, rfl, outcome⟩
  | error error t =>
    rw [ran] at outcome
    exact ⟨t, rfl, outcome⟩

theorem withContext_outcome {context : Context} {act : Lower α} {done : α → LowerState → Prop}
    {failed : LowerError → LowerState → Prop}
    (outcome : Outcome done failed (act env { s with context := context })) :
    Outcome (fun a s' => ∃ t, s' = { t with context := s.context } ∧ done a t)
      (fun error s' => ∃ t, s' = { t with context := s.context } ∧ failed error t)
      (withContext context act env s) := by
  rw [withContext_run]
  exact around_outcome outcome

end Lower

/-! ## Functions of their own -/

/-- Lowers the body of a function of its own and comes back to the cursor. -/
def Lower.inFunction {α : Type} (func : FuncId) (name : String) (body : List ValueId → Lower α) :
    Lower α := do
  let resume ← cursor
  let values ← beginRoutine func
  let context ← freshContext name
  returningTo resume (withContext context (body values))

namespace LowerState

/-- The state in which the body of a function of its own is lowered. -/
def entering (s : LowerState) (env : Env) (name : String) (code : Recording) : LowerState :=
  { s with
    code := code
    scopes := (s.scopes.add none).2
    context := .initial name env.program.file (s.scopes.add none).1 }

/-- The state after a function of its own was lowered from another state. -/
def leaving (t s : LowerState) : LowerState :=
  { t with code := { t.code with cursor := s.code.cursor.or t.code.cursor }, context := s.context }

end LowerState

namespace Lower

variable {α : Type} {env : Env} {s : LowerState} {failed : LowerError → LowerState → Prop}
  {done : α → LowerState → Prop}

theorem returningTo_outcome {resume : Option BlockId} {act : Lower α}
    (outcome : Outcome done failed (act env s)) :
    Outcome
      (fun a s' => ∃ t, s' = { t with code := { t.code with cursor := resume.or t.code.cursor } } ∧
        done a t)
      (fun error s' => ∃ t, s' = { t with
        code := { t.code with cursor := resume.or t.code.cursor } } ∧ failed error t)
      (returningTo resume act env s) := by
  unfold returningTo
  cases resume with
  | none => exact outcome.mono (fun _ t known => ⟨t, rfl, known⟩) fun _ t known => ⟨t, rfl, known⟩
  | some block =>
    dsimp only
    cases ran : act env s with
    | ok a t =>
      rw [ran] at outcome
      exact ⟨t, rfl, outcome⟩
    | error error t =>
      rw [ran] at outcome
      exact ⟨t, rfl, outcome⟩

theorem beginRoutine_outcome (func : FuncId) :
    Outcome (fun params s' => ∃ code, s' = { s with code := code } ∧
        Emit.beginRoutine func s.code = .ok params code)
      (fun error s' => ∃ cause, error = .backend (.record cause) ∧ cause ≠ .noResult ∧ s' = s)
      (beginRoutine func env s) := by
  unfold beginRoutine record
  cases declared : s.code.routine? func with
  | none =>
    rw [Emit.beginRoutine_of_undeclared declared]
    exact ⟨_, rfl, nofun, rfl⟩
  | some routine =>
    cases body : routine.isDefined with
    | true =>
      rw [Emit.beginRoutine_of_defined declared body]
      exact ⟨_, rfl, nofun, rfl⟩
    | false =>
      rw [Emit.beginRoutine_of_bodiless declared body]
      exact ⟨_, rfl, rfl⟩

/-- A function of its own is not begun, or its body is lowered and then everything is as before. -/
theorem inFunction_outcome {func : FuncId} {body : List ValueId → Lower α}
    (inside : ∀ values code, Emit.beginRoutine func s.code = .ok values code → Outcome done failed (body values env (s.entering env name code))) :
    Outcome (fun a s' => ∃ t, s' = t.leaving s ∧ done a t)
      (fun error s' => (∃ cause, error = .backend (.record cause) ∧ cause ≠ .noResult ∧ s' = s) ∨
        ∃ t, s' = t.leaving s ∧ failed error t) (inFunction func name body env s) := by
  have here : cursor env s = .ok s.code.cursor s := rfl
  unfold inFunction
  rw [bind_of_ok here]
  refine (beginRoutine_outcome func).bind ?_ fun _ _ => .inl
  rintro values _ ⟨code, rfl, begun⟩
  refine (returningTo_outcome (withContext_outcome (inside values code begun))).mono ?_ ?_
  · rintro a _ ⟨_, rfl, t, rfl, known⟩
    exact ⟨t, rfl, known⟩
  · rintro error _ ⟨_, rfl, t, rfl, known⟩
    exact .inr ⟨t, rfl, known⟩

end Lower

/-! ## Names -/

/-- The expression binds variables of the given names only. -/
def Expr.Tidy (names : String → Prop) (expr : Expr) : Prop :=
  ∀ part ∈ expr.parts, ∀ name ∈ part.kind.binds, names name

/-- The block binds variables of the given names only. -/
structure Block.Tidy (names : String → Prop) (block : Block) : Prop where
  params : ∀ param ∈ block.params, names param.name
  captures : ∀ name ∈ block.captures, names name
  body : block.body.Tidy names

/-- The call binds variables of the given names only. -/
structure Call.Tidy (names : String → Prop) (call : Call) : Prop where
  obj : ∀ obj ∈ call.obj, obj.Tidy names
  args : ∀ arg ∈ call.args, arg.Tidy names
  block : ∀ block ∈ call.block, block.Tidy names

/-- The definition binds variables of the given names only. -/
structure Definition.Tidy (names : String → Prop) (defn : Definition) : Prop where
  params : ∀ param ∈ defn.params, names param.name
  specials : ∀ special ∈ defn.specialVars, names special.name
  body : ∀ body ∈ defn.body, body.Tidy names
  defaults : ∀ param ∈ defn.params, ∀ value, param.default? = some (.expr value) → value.Tidy names

/-- A program and the names that variables may have in it. -/
structure Vocabulary where
  env : Env
  names : String → Prop
  tidy : ∀ defn ∈ env.program.defs, defn.Tidy names

theorem Expr.Tidy.any (expr : Expr) : expr.Tidy fun _ => True := fun _ _ _ _ => trivial

theorem Block.Tidy.any (block : Block) : block.Tidy fun _ => True :=
  ⟨fun _ _ => trivial, fun _ _ => trivial, .any block.body⟩

theorem Call.Tidy.any (call : Call) : call.Tidy fun _ => True :=
  ⟨fun obj _ => .any obj, fun arg _ => .any arg, fun block _ => .any block⟩

theorem Definition.Tidy.any (defn : Definition) : defn.Tidy fun _ => True :=
  ⟨fun _ _ => trivial, fun _ _ => trivial, fun body _ => .any body, fun _ _ value _ => .any value⟩

namespace Expr.Tidy

variable {names : String → Prop} {expr part : Expr}

theorem child (tidy : expr.Tidy names) (member : part ∈ expr.kind.children) : part.Tidy names :=
  fun part inside => tidy part (expr.kind_parts_subset (ExprKind.child_parts_subset member inside))

theorem binds (tidy : expr.Tidy names) (bound : name ∈ expr.kind.binds) :
    names name := tidy expr expr.mem_parts_self name bound

/-- Reading a variable binds nothing. -/
theorem read (name : String) (ty : Ty) (loc : Location) : Expr.Tidy names ⟨.var name, ty, loc⟩ := by
  intro part inside name' bound
  have here : part = ⟨.var name, ty, loc⟩ := by
    simpa [Expr.parts, ExprKind.parts] using inside
  rw [here] at bound
  cases bound

/-- The type of an expression does not matter. -/
theorem retype (tidy : expr.Tidy names) (ty : Ty) : Expr.Tidy names { expr with ty := ty } := by
  obtain ⟨_, _, _⟩ := expr
  refine List.forall_mem_cons.mpr ⟨fun _ => tidy.binds, fun part inside => ?_⟩
  exact tidy part (List.mem_cons_of_mem _ inside)

variable {loc : Location} {ty : Ty}

theorem call {call : Call} (tidy : Expr.Tidy names ⟨.call call, ty, loc⟩) : call.Tidy names where
  obj obj found := tidy.child (List.mem_append_left _ (List.mem_append_left _
    (Option.mem_toList.mpr found)))
  args arg member := tidy.child (List.mem_append_left _ (List.mem_append_right _ member))
  block block found := by
    have bound : ∀ name ∈ block.params.map (·.name) ++ block.captures, names name := by
      intro name member
      refine tidy.binds ?_
      rw [ExprKind.binds, found]
      exact member
    refine ⟨fun _ member => ?_, fun _ member => ?_, tidy.child ?_⟩
    · exact bound _ (List.mem_append_left _ (List.mem_map_of_mem member))
    · exact bound _ (List.mem_append_right _ member)
    · refine List.mem_append_right _ (Option.mem_toList.mpr ?_)
      rw [found]
      rfl

theorem procLiteral (tidy : Expr.Tidy names ⟨.procLiteral block, ty, loc⟩) : block.Tidy names where
  params _ member := tidy.binds (List.mem_append_left _ (List.mem_map_of_mem member))
  captures _ member := tidy.binds (List.mem_append_right _ member)
  body := tidy.child (List.mem_singleton_self _)

end Expr.Tidy

/-! ## Contexts -/

/-- The scopes, the outermost scopes of functions, the join points and the blocks that a context
refers to are among the given ones, and so are those of the contexts that blocks were written in. -/
inductive Context.Over (scopes roots : Set ScopeId) (joins : Set Nat) (blocks : Block → Prop) :
    Context → Prop where
  | intro {context : Context} (scope : context.scope ∈ scopes)
      (functionScope : context.functionScope ∈ roots)
      (breakJoin : ∀ i ∈ context.breakJoin, i ∈ joins)
      (nextJoin : ∀ i ∈ context.nextJoin, i ∈ joins)
      (handed : ∀ target ∈ context.yieldTarget, blocks target.1 ∧ target.2.2 ∈ joins)
      (callers : ∀ target ∈ context.yieldTarget, Over scopes roots joins blocks target.2.1) :
      Over scopes roots joins blocks context

namespace Context.Over

variable {scopes scopes' roots roots' : Set ScopeId} {joins joins' : Set Nat}
  {blocks blocks' : Block → Prop} {context context' : Context}
  (covers : context.Over scopes roots joins blocks)

include covers

theorem mono (scope : scopes ⊆ scopes') (root : roots ⊆ roots') (join : joins ⊆ joins')
    (block : ∀ b, blocks b → blocks' b) : context.Over scopes' roots' joins' blocks' := by
  induction covers with
  | intro here functionScope breakJoin nextJoin handed _ ih =>
    exact .intro (scope here) (root functionScope) (fun i found => join (breakJoin i found))
      (fun i found => join (nextJoin i found))
      (fun target found => ⟨block _ (handed target found).1, join (handed target found).2⟩) ih

/-- What else a context says does not matter. -/
theorem alter (scope : context'.scope ∈ scopes)
    (functionScope : context'.functionScope = context.functionScope)
    (breakJoin : ∀ i ∈ context'.breakJoin, i ∈ joins)
    (nextJoin : ∀ i ∈ context'.nextJoin, i ∈ joins)
    (yieldTarget : context'.yieldTarget = context.yieldTarget) :
    context'.Over scopes roots joins blocks := by
  obtain ⟨_, root, _, _, handed, callers⟩ := covers
  exact .intro scope (functionScope ▸ root) breakJoin nextJoin (yieldTarget ▸ handed)
    (yieldTarget ▸ callers)

theorem scope : context.scope ∈ scopes := by
  obtain ⟨here, _⟩ := covers
  exact here

theorem functionScope : context.functionScope ∈ roots := by
  obtain ⟨_, root, _⟩ := covers
  exact root

theorem breakJoin : ∀ i ∈ context.breakJoin, i ∈ joins := by
  obtain ⟨_, _, usable, _⟩ := covers
  exact usable

theorem nextJoin : ∀ i ∈ context.nextJoin, i ∈ joins := by
  obtain ⟨_, _, _, usable, _⟩ := covers
  exact usable

theorem handed {caller : Context} {join : Nat}
    (found : context.yieldTarget = some (block, caller, join)) :
    blocks block ∧ join ∈ joins ∧ caller.Over scopes roots joins blocks := by
  obtain ⟨_, _, _, _, given, callers⟩ := covers
  exact ⟨(given _ found).1, (given _ found).2, callers _ found⟩

end Context.Over

/-! ## Standings -/

/-- What is known where a computation stands. -/
structure Standing where
  context : Context
  /-- The context is not changed for good. -/
  held : Prop
  /-- The cursor is not moved into another function for good. -/
  anchored : Prop
  /-- The number of join points that are open before the computation opens any. -/
  base : Nat
  /-- How many join points the computation has opened. -/
  depth : Nat
  /-- The join points that were there to be used before. -/
  joins : Set Nat
  /-- Blocks of the function. -/
  blocks : Set BlockId
  /-- The scopes that can be worked in. -/
  scopes : Set ScopeId
  /-- The scopes that lie inside none. -/
  roots : Set ScopeId
  /-- The scopes that the computation has made itself. -/
  fresh : Set ScopeId
  /-- The numbers of the dispatches that the computation has begun. -/
  numbers : Set Nat

/-- Names that are known not to be bound in a scope, for the time being. -/
abbrev Unbound := Set (ScopeId × String)

namespace Standing

/-- The join points that can be used. -/
def usable (γ : Standing) : Set Nat := γ.joins ∪ { i | γ.base ≤ i ∧ i < γ.base + γ.depth }

/-- The context refers to what is known only. -/
def Sound (V : Vocabulary) (γ : Standing) : Prop :=
  γ.context.Over γ.scopes γ.roots γ.usable (Block.Tidy V.names)

/-- The standing under another context. -/
def within (γ : Standing) (context : Context) : Standing :=
  { γ with context := context, held := False }

/-- The standing with another block of the function. -/
def withBlock (γ : Standing) (b : BlockId) : Standing := { γ with blocks := insert b γ.blocks }

/-- The standing with another open join point. -/
def withJoin (γ : Standing) : Standing := { γ with depth := γ.depth + 1 }

theorem usable_withJoin (γ : Standing) : γ.usable ⊆ γ.withJoin.usable :=
  Set.union_subset_union_right _ fun _ inside => ⟨inside.1, Nat.lt_succ_of_lt inside.2⟩

theorem join_usable (γ : Standing) : γ.base + γ.depth ∈ γ.withJoin.usable :=
  .inr ⟨Nat.le_add_right _ _, Nat.lt_succ_self _⟩

/-- The standing with another scope. -/
def withScope (γ : Standing) (x : ScopeId) (parent : Option ScopeId) : Standing :=
  { γ with
    scopes := insert x γ.scopes
    roots := { y | y ∈ γ.roots ∨ y = x ∧ parent = none }
    fresh := insert x γ.fresh }

/-- The standing with another dispatch. -/
def withNumber (γ : Standing) (id : Nat) : Standing := { γ with numbers := insert id γ.numbers }

/-- The standing at the start of a function of its own, above so many open join points. -/
def entry (env : Env) (name : String) (x : ScopeId) (base : Nat) : Standing where
  context := .initial name env.program.file x
  held := False
  anchored := True
  base := base
  depth := 0
  joins := ∅
  blocks := ∅
  scopes := {x}
  roots := {x}
  fresh := {x}
  numbers := ∅

/-- A context that leads to the same places refers to what is known, too. -/
theorem Sound.alter {V : Vocabulary} {γ : Standing} {context : Context} (sound : γ.Sound V)
    (scope : context.scope = γ.context.scope)
    (functionScope : context.functionScope = γ.context.functionScope)
    (breakJoin : context.breakJoin = γ.context.breakJoin)
    (nextJoin : context.nextJoin = γ.context.nextJoin)
    (yieldTarget : context.yieldTarget = γ.context.yieldTarget) : (γ.within context).Sound V := by
  have covers : γ.context.Over γ.scopes γ.roots γ.usable (Block.Tidy V.names) := sound
  exact covers.alter (scope ▸ covers.scope) functionScope (breakJoin ▸ covers.breakJoin)
    (nextJoin ▸ covers.nextJoin) yieldTarget

/-- One standing is the other with less known. -/
structure Less (γ0 γ : Standing) : Prop where
  context : γ0.context = γ.context
  held : γ0.held = γ.held
  anchored : γ0.anchored = γ.anchored
  base : γ0.base = γ.base
  depth : γ0.depth = γ.depth
  joins : γ0.joins ⊆ γ.joins
  blocks : γ0.blocks ⊆ γ.blocks
  scopes : γ0.scopes ⊆ γ.scopes
  roots : γ0.roots ⊆ γ.roots
  fresh : γ0.fresh ⊆ γ.fresh
  numbers : γ0.numbers ⊆ γ.numbers

/-- The names that are not bound in a state. -/
def unboundIn (γ : Standing) (s : LowerState) : Unbound :=
  { entry | s.scopes.lookup? entry.1 entry.2 = none ∨
    entry.1 ∈ γ.roots ∧ s.scopes.lookupLocal? entry.1 entry.2 = none }

/-- A name may be bound in a scope: in a scope of one's own, or because it is not bound yet, or
because it belongs to a dispatch of one's own. -/
inductive Admits (V : Vocabulary) (γ : Standing) (unbound : Unbound) : ScopeId → String → Prop where
  | own {x : ScopeId} {name : String} (made : x ∈ γ.fresh) (named : V.names name) :
      Admits V γ unbound x name
  | new {x : ScopeId} {name : String} (free : (x, name) ∈ unbound) (named : V.names name) :
      Admits V γ unbound x name
  | hidden {x : ScopeId} {name : String} {id : Nat} (begun : id ∈ γ.numbers)
      (named : name = hiddenReceiver id ∨ ∃ index, name = hiddenArgument id index) :
      Admits V γ unbound x name

end Standing

/-! ## Computations -/

/-- The error reports that lowering has lost track of its own bookkeeping. -/
def LowerError.isInconsistency : LowerError → Bool
  | .internal (.notForeign _) _ | .internal .noReturnSlot _ | .internal .specialNotInArguments _ => true
  | .backend (.noJoinPoint _) | .backend (.closedOutOfOrder _) | .backend .noJoinPoints => true
  | .backend (.record .noResult) => true
  | _ => false

/-- What the state remembers is what its code answers. -/
def LowerState.Faithful (s : LowerState) : Prop := s.memory.Faithful s.code.target s.code.types

/-- The states differ in what is counted, remembered and reported at most. -/
structure LowerState.Alike (s s' : LowerState) : Prop where
  code : s'.code = s.code
  scopes : s'.scopes = s.scopes
  context : s'.context = s.context
  joins : s'.joins = s.joins
  dispatches : s'.dispatches = s.dispatches
  faithful : s.Faithful → s'.Faithful

/-- The computation takes notes at most, and does not fail because it has lost track. -/
def Lower.Notes {α : Type} (act : Lower α) : Prop :=
  ∀ env (s : LowerState), Outcome (fun _ => s.Alike)
    (fun error s' => error.isInconsistency = false ∧ s.Alike s') (act env s)

/-- A computation that is told how to lower expressions. -/
abbrev Lowering (α : Type) := (Expr → Lower ValueId) → Lower α

/-- A computation keeps to the rules. It starts from a standing, with some names known not to be
bound; if it succeeds, its answer and the standing it ends in are as said. -/
inductive Moves (V : Vocabulary) : {α : Type} → Standing → Unbound → Lowering α →
    (α → Standing → Unbound → Prop) → Prop where
  | pure {α γ u post} {a : α}
      (holds : post a γ u) : Moves V γ u (fun _ => pure a) post
  | bind {α β γ u mid post act} {next : α → Lowering β}
      (first : Moves V γ u act mid)
      (rest : ∀ a γ' u', mid a γ' u' → Moves V γ' u' (next a) post) :
      Moves V γ u (fun inner => act inner >>= fun a => next a inner) post
  | weaken {α γ0 γ u0 u post0 post} {act : Lowering α} (less : γ0.Less γ)
      (fewer : u0 ⊆ u) (moves : Moves V γ0 u0 act post0)
      (weaker : ∀ a γ' u', post0 a γ' u' → post a γ' u') : Moves V γ u act post
  | throw {α γ u} {post : α → Standing → Unbound → Prop}
      {error} (harmless : error.isInconsistency = false) :
      Moves V γ u (fun _ => throw error) post
  | read {γ u} :
      Moves V γ u (fun _ => read) fun env γ' u' => γ' = γ ∧ u' = u ∧ env = V.env
  | get {γ u} :
      Moves V γ u (fun _ => get) fun s γ' u' =>
        γ' = γ ∧ u' = u ∪ γ.unboundIn s ∧ s.context = γ.context
  | record {α γ u} {act : Emit α} (quiet : act.Quiet) :
      Moves V γ u (fun _ => record act) fun _ γ' u' => γ' = γ ∧ u' = u
  | newBlock {γ u} (label : String) :
      Moves V γ u (fun _ => newBlock label) fun b γ' u' => γ' = γ.withBlock b ∧ u' = u
  | position {γ u b} (known : b ∈ γ.blocks) :
      Moves V γ u (fun _ => position b) fun _ γ' u' => γ' = γ ∧ u' = u
  | note {α γ u} {act : Lower α}
      (noted : act.Notes) :
      Moves V γ u (fun _ => act) fun _ γ' u' => γ' = γ ∧ u' = u
  | nextDispatch {γ u} :
      Moves V γ u (fun _ => nextDispatch) fun id γ' u' => γ' = γ.withNumber id ∧ u' = u
  | newScope {γ u parent}
      (known : ∀ x ∈ parent, x ∈ γ.scopes) :
      Moves V γ u (fun _ => newScope parent) fun x γ' u' => γ' = γ.withScope x parent ∧ u' = ∅
  | declareIn {γ u x name binding}
      (admitted : γ.Admits V u x name) :
      Moves V γ u (fun _ => declareIn x name binding) fun _ γ' u' => γ' = γ ∧ u' = ∅
  | openJoin {γ u} (ty : Ty) :
      Moves V γ u (fun _ => openJoin ty) fun i γ' u' =>
        γ' = γ.withJoin ∧ u' = u ∧ i = γ.base + γ.depth
  | addToJoin {γ u i} (usable : i ∈ γ.usable) (value : ValueId)
      (ty : Ty) : Moves V γ u (fun _ => addToJoin i value ty) fun _ γ' u' => γ' = γ ∧ u' = u
  | closeJoin {γ u} :
      Moves V γ.withJoin u (fun _ => closeJoin (γ.base + γ.depth)) fun _ γ' u' =>
        γ' = γ ∧ u' = u
  | inner {γ u expr} (sound : γ.Sound V)
      (tidy : expr.Tidy V.names) :
      Moves V γ u (fun inner => inner expr) fun _ γ' u' => γ' = γ ∧ u' = ∅
  | setContext {γ u} (change : Context → Context) (free : ¬γ.held) :
      Moves V γ u (fun _ => setContext change) fun _ γ' u' =>
        γ' = { γ with context := change γ.context } ∧ u' = u
  /-- The context is put back because of what is known of the one that was reached: nothing, or
  that it is the one the computation was given. -/
  | around {α γ u act}
      {post : α → Standing → Unbound → Prop} {enter leave held}
      (inside : Moves V { γ with context := enter γ.context, held := held } u act post)
      (back : ∀ context, (held → context = enter γ.context) → leave context = γ.context) :
      Moves V γ u (fun inner => around enter leave (act inner)) fun a γ' u' =>
        ∃ γ1, post a γ1 u' ∧ γ' = { γ1 with context := γ.context, held := γ.held }
  | inFunction {γ u func name}
      {body : List ValueId → Lowering Unit}
      (inside : ∀ values x, Moves V (.entry V.env name x (γ.base + γ.depth)) ∅ (body values)
        fun _ γ' _ => ∃ context, γ' = (Standing.entry V.env name x (γ.base + γ.depth)).within context) :
      Moves V γ u (fun inner => inFunction func name fun values => body values inner)
        fun _ γ' u' => γ' = γ ∧ u' = ∅
  | beginRoutine {γ u func} (free : ¬γ.anchored) :
      Moves V γ u (fun _ => beginRoutine func) fun _ γ' u' =>
        γ' = { γ with blocks := ∅ } ∧ u' = u

variable {γ γ1 : Standing}

section

variable (first : γ.held → γ1.held ∧ γ1.context = γ.context)

include first

/-- A context that is held all along is the same in the end. -/
theorem Standing.held_trans {γ2 : Standing} (second : γ1.held → γ2.held ∧ γ2.context = γ1.context)
    (held : γ.held) : γ2.held ∧ γ2.context = γ.context := by
  obtain ⟨held1, same1⟩ := first held
  obtain ⟨held2, same2⟩ := second held1
  exact ⟨held2, same2.trans same1⟩

/-- A context that is held is put back by what comes next. -/
theorem Standing.restored_trans {context : Context} (restored : γ1.held → context = γ1.context)
    (held : γ.held) : context = γ.context := by
  obtain ⟨held1, same1⟩ := first held
  exact (restored held1).trans same1

end

theorem Standing.Less.refl (γ : Standing) : γ.Less γ :=
  ⟨rfl, rfl, rfl, rfl, rfl, subset_rfl, subset_rfl, subset_rfl, subset_rfl, subset_rfl, subset_rfl⟩

theorem Standing.less_withBlock (γ : Standing) (b : BlockId) : γ.Less (γ.withBlock b) :=
  { Less.refl γ with blocks := Set.subset_insert b γ.blocks }

theorem Standing.less_withNumber (γ : Standing) (id : Nat) : γ.Less (γ.withNumber id) :=
  { Less.refl γ with numbers := Set.subset_insert id γ.numbers }

theorem Standing.less_withScope (γ : Standing) (x : ScopeId) (parent : Option ScopeId) :
    γ.Less (γ.withScope x parent) :=
  { Less.refl γ with
    scopes := Set.subset_insert x γ.scopes
    roots := fun _ => .inl
    fresh := Set.subset_insert x γ.fresh }

/-- A computation keeps to the rules and ends where it started, with an answer as said. -/
abbrev Stays (V : Vocabulary) {α : Type} (γ : Standing) (u : Unbound) (act : Lowering α)
    (holds : α → Prop) : Prop :=
  Moves V γ u act fun a γ' u' => γ' = γ ∧ u' = u ∧ holds a

section Rules

variable {V : Vocabulary} {α β : Type} {γ : Standing} {u : Unbound}
  {post post' : α → Standing → Unbound → Prop} {act : Lowering α}

namespace Moves

theorem mono (moves : Moves V γ u act post)
    (weaker : ∀ a γ' u', post a γ' u' → post' a γ' u') : Moves V γ u act post' :=
  .weaken (.refl γ) subset_rfl moves weaker

/-- What a computation has come to know may be forgotten. -/
theorem recede (moves : Moves V γ u act post)
    (less : ∀ a γ' u', post a γ' u' → ∃ γ1 u1, γ1.Less γ' ∧ u1 ⊆ u' ∧ post' a γ1 u1) :
    Moves V γ u act post' := by
  have ends : Moves V γ u (fun inner => act inner >>= fun a => Pure.pure a) post' := by
    refine .bind moves fun a γ' u' known => ?_
    obtain ⟨_, _, smaller, fewer, known⟩ := less a γ' u' known
    exact .weaken smaller fewer (.pure known) fun _ _ _ => id
  simpa using ends

end Moves

namespace Stays

variable {holds : α → Prop} {next : α → Lowering β} {after : β → Standing → Unbound → Prop}

theorem bind (first : Stays V γ u act holds) (rest : ∀ a, holds a → Moves V γ u (next a) after) :
    Moves V γ u (fun inner => act inner >>= fun a => next a inner) after := by
  refine Moves.bind first ?_
  rintro a _ _ ⟨rfl, rfl, known⟩
  exact rest a known

theorem of_moves (moves : Moves V γ u act fun _ γ' u' => γ' = γ ∧ u' = u) :
    Stays V γ u act fun _ => True :=
  moves.mono fun _ _ _ known => ⟨known.1, known.2, trivial⟩

theorem discard (stays : Stays V γ u act holds) :
    Stays V γ u (fun inner => discard (act inner)) fun _ => True := by
  have same : (fun inner => Functor.discard (act inner)) =
      fun inner => act inner >>= fun _ => Pure.pure () := by
    funext inner
    exact (bind_pure_comp (fun _ => ()) (act inner)).symm
  rw [same]
  exact stays.bind fun _ _ => .pure ⟨rfl, rfl, trivial⟩

end Stays

end Rules

end CallLowering
