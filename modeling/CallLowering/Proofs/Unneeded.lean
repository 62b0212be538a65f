import CallLowering.Proofs.Alignment

/-!
# Values that nobody needs

Whether the value of an expression is needed never changes what its code does. Without need, join
points have no phi and convert nothing, and an aggregate that a call returns is not stored; blocks,
calls and jumps are the same.

`LowerState.Reachable` says which states lowering gets into, and `Lower.lowerExpr_needsValue` compares
the lowering of an expression in such a state with and without need.
-/

namespace CallLowering

open Lower Recording LowerState Alignment LowerState

/-! ## Results of calls -/

namespace Lower

variable {env : Env} {s s' : LowerState} {defn : Definition} {result : ValueId}

/-- Behind a call the block at the cursor is open. -/
theorem callOrInvoke_open {func : FuncId} {args : List ValueId} {conv : Option CallConv}
    (present : ∀ b ∈ s.code.cursor, b.index < s.code.blocks.size)
    (ran : callOrInvoke func args defn conv env s = .ok result s') :
    ∃ b, s'.code.cursor = some b ∧ s'.code.terminator? b = none := by
  obtain ⟨_, called⟩ | ⟨_, _, _, _, _, made, invoked, rfl⟩ := callOrInvoke_ok ran
  · obtain ⟨b, atBlock, _, _, rfl⟩ := emit_ok called
    exact ⟨b, atBlock, terminator?_written (Array.getElem?_eq_getElem (present b atBlock)) rfl⟩
  · obtain ⟨code, recorded, rfl⟩ := record_ok made
    obtain ⟨b, _, atBlock, _, rfl, rfl⟩ := Emit.newBlock_ok recorded
    obtain ⟨b', atBlock', _, _, rfl⟩ := emit_ok invoked
    obtain rfl : b = b' := Option.mem_unique atBlock atBlock'
    have new : b ≠ ⟨s.code.blocks.size⟩ := fun same =>
      Nat.ne_of_lt (present b atBlock) (congrArg BlockId.index same)
    refine ⟨⟨s.code.blocks.size⟩, rfl, ?_⟩
    change terminator? (written _ b _) _ = none
    rw [terminator?_of_block? (written_block?_other new.symm),
      appendBlock_terminator?, terminator?, block?,
      Array.getElem?_eq_none (Nat.le_refl _), Option.bind_none]

/-- What becomes of the result of a call that returns is recorded quietly. -/
theorem uniformReturn_quiet {b : BlockId} (atBlock : s.code.cursor = some b)
    (running : s.code.terminator? b = none) (returns : defn.ret.isNoReturn = false) :
    ∃ v code, uniformReturn defn result env s = .ok ⟨v, defn.ret⟩ { s with code := code } ∧
      s.code.Quiet code := by
  unfold uniformReturn
  rw [returns, if_neg Bool.false_ne_true]
  split
  · change ∃ v code, (if s.context.needsValue then _ else _ : Lower CallOutcome) env s = _ ∧ _
    split
    · let slot : Operation := .alloca (env.program.types.machineType defn.ret) "ret"
      have allocated : s.code.Quiet (s.code.written b slot) := .written rfl rfl running
      have running' : (s.code.written b slot).terminator? b = none := by
        rw [← Option.not_isSome_iff_eq_none, allocated.isSome_terminator?, running]
        exact Bool.false_ne_true
      have stored : Emit.effect (.store result ⟨s.code.values.size⟩) (s.code.written b slot) = .ok () _ :=
        Emit.effect_of_open atBlock running'
      exact ⟨_, _, (bind_of_ok (record_of_ok (Emit.value_of_open atBlock running rfl))).trans
        ((bind_of_ok (record_of_ok stored)).trans rfl), allocated.trans (.written rfl rfl running')⟩
    · exact ⟨_, _, rfl, .addConstant .nil⟩
  · split
    · exact ⟨_, _, rfl, .addConstant .nil⟩
    · exact ⟨result, s.code, rfl, .refl _⟩

end Lower

/-- Two runs agree on calls and their results, also where only one of them needs the values. -/
theorem Alignment.returns {A : Alignment} (sound : A.coupling.Sound) : A.coupling.Returns := by
  intro w name f1 f2 args1 args2 defn func args
  by_cases same : A.same
  · exact sound.returns (fun _ _ needs => needs same) defn func args
  by_cases never : defn.ret.isNoReturn = true
  · refine (sound.callOrInvoke func args).bind @fun _ r1 r2 _ _ => ?_
    unfold uniformReturn
    rw [if_pos never, if_pos never]
    exact sound.neverReturns
  have calls : A.coupling.Runs w (callOrInvoke f1 args1 defn none)
      (callOrInvoke f2 args2 defn none) _ := sound.callOrInvoke func args
  intro s1 s2 states
  have present : ∀ b ∈ s1.code.cursor, b.index < s1.code.blocks.size := fun b here =>
    states.site.2.known b (states.site.2.here b here)
  have called := calls s1 s2 states
  revert called
  cases ran1 : callOrInvoke f1 args1 defn none A.coupling.left s1 with
  | error e1 t1 =>
    cases ran2 : callOrInvoke f2 args2 defn none A.coupling.right s2 with
    | error e2 t2 =>
      rw [bind_of_error ran1, bind_of_error ran2]
      exact id
    | ok => exact False.elim
  | ok r1 t1 =>
    cases ran2 : callOrInvoke f2 args2 defn none A.coupling.right s2 with
    | error => exact False.elim
    | ok r2 t2 =>
      rintro ⟨w', later, states', _⟩
      obtain ⟨_, atBlock, running⟩ := callOrInvoke_open present ran1
      obtain ⟨atBlock2, running2⟩ := states'.site.2.atOpen atBlock running
      have returns := Bool.eq_false_iff.mpr never
      obtain ⟨_, _, kept₁, quiet1⟩ := uniformReturn_quiet atBlock running returns
      obtain ⟨_, _, kept₂, quiet2⟩ := uniformReturn_quiet atBlock2 running2 returns
      rw [bind_of_ok ran1, bind_of_ok ran2, kept₁, kept₂]
      refine ⟨w', later, states'.ofSite (le_refl _) ⟨fun equal => absurd equal same, ?_⟩,
        fun equal => absurd equal same, rfl⟩
      exact states'.site.2.quiet quiet1 quiet2

/-! ## Twins -/

namespace Alignment

/-- Two runs under one environment, which are the same run or differ in what is needed. -/
def twin (env : Env) (target : Target) (types : TypeTable) (same : Prop) : Alignment where
  program := env.program
  left := env.options
  right := env.options
  same := same
  target := target
  types := types
  memory := Eq
  events := Eq

variable {env : Env} {target : Target} {types : TypeTable} {same : Prop} {w : Stage (Set BlockId)}

theorem push_event {events1 events2 : Array Event} (event : Event) (equal : events1 = events2) :
    events1.push event = events2.push event := by
  rw [equal]

theorem twin_remember (change : Memory → Memory) :
    (twin env target types same).coupling.Runs w
      (modify fun s => { s with
        classified := (change s.memory).classified, scripted := (change s.memory).scripted })
      (modify fun s => { s with
        classified := (change s.memory).classified, scripted := (change s.memory).scripted })
      fun _ _ _ => True :=
  fun _ _ states => ⟨w, le_refl w, { states with memory := congrArg change states.memory }, trivial⟩

theorem twin_classify (signature : Signature) :
    (twin env target types same).coupling.Runs w (classify signature) (classify signature)
      fun _ known1 known2 => known1 = known2 := by
  refine .get_bind fun _ s2 states => ?_
  rw [(Memory.mk.inj states.memory).2]
  cases s2.scripted with
  | nil =>
    refine .get_bind fun _ _ states => .pure ?_
    rw [Recording.classify, Recording.classify, states.site.2.target.1, states.site.2.target.2,
      states.site.2.types.1, states.site.2.types.2]
  | cons answer rest =>
    refine (twin_remember fun memory => ⟨memory.classified, rest⟩).andThen fun _ => ?_
    cases answer with
    | ok classification => exact .pure rfl
    | error text => exact .throw fun _ => rfl

theorem twin_classifyAfresh (defn : Definition) (signature : Signature) (loc : Location) :
    (twin env target types same).coupling.Runs w (classifyAfresh defn signature loc)
      (classifyAfresh defn signature loc) fun _ known1 known2 => known1 = known2 := by
  refine (twin_classify signature).bind @fun _ known _ _ equal => ?_
  subst equal
  refine .ite (fun _ => .fault fun _ => rfl) fun _ => ?_
  refine .read_bind (.ite (fun _ => ?_) fun _ => .pure rfl)
  exact (twin_remember fun memory =>
    ⟨(signature, known) :: memory.classified, memory.scripted⟩).andThen fun _ => .pure rfl

theorem twin_classification (defn : Definition) (tail : List Ty) (loc : Location) :
    (twin env target types same).coupling.Runs w (classification defn tail loc)
      (classification defn tail loc) fun _ known1 known2 => known1 = known2 := by
  refine .read_bind (.ite (fun _ => ?_) fun _ => twin_classifyAfresh defn _ loc)
  refine .get_bind fun _ _ states => ?_
  rw [(Memory.mk.inj states.memory).1]
  split
  · intro t1 t2 states
    exact ⟨w, le_refl w, { states with events := push_event _ states.events }, rfl⟩
  · exact twin_classifyAfresh defn _ loc

theorem twin_sound : (twin env target types same).coupling.Sound :=
  sound (fun event equal => push_event event equal) fun tail loc => twin_classification _ tail loc

/-! ## The same run -/

theorem rel_eq {α : Type} {R : α → α → Prop} {x y : Option α} (related : Option.Rel R x y)
    (equal : ∀ a b, R a b → a = b) : x = y := by
  cases related with
  | none => rfl
  | some related => rw [equal _ _ related]

variable {w : Stage (Set BlockId)}

theorem twin_binding_eq {b1 b2 : Binding}
    (related : (twin env target types True).coupling.SameBinding w b1 b2) : b1 = b2 := by
  cases related with
  | slot value => rw [value trivial]
  | value value => rw [value trivial]

theorem twin_scope_eq {x1 x2 : ScopeId} (related : (twin env target types same).coupling.Scope w x1 x2) :
    x1 = x2 := by
  obtain ⟨_, _, left, right⟩ := related
  obtain ⟨x1⟩ := x1
  obtain ⟨x2⟩ := x2
  exact congrArg ScopeId.mk (left.trans right.symm)

theorem twin_context_eq {c1 c2 : Context}
    (related : (twin env target types True).coupling.SameContext w c1 c2) : c1 = c2 := by
  induction related with
  | @intro c1 c2 here callers ih =>
    have handed : c1.yieldTarget = c2.yieldTarget := by
      have handed := here.handed
      revert handed ih
      generalize c1.yieldTarget = target1
      generalize c2.yieldTarget = target2
      rintro ih (handed | _)
      · rename_i target1 target2
        congr 1
        exact Prod.ext handed.block (Prod.ext (ih _ _ rfl rfl) handed.join)
      · rfl
    have self := rel_eq here.self fun _ _ => twin_binding_eq
    have withScope := rel_eq here.withScope fun _ _ => twin_binding_eq
    have handlers : c1.handlers = c2.handlers :=
      List.forall₂_eq_eq_eq ▸ here.handlers.imp fun _ _ block => block.1
    obtain ⟨fnName, _, file, scope, functionScope, _, selfTy, _, needs, _, _, breakJoin, nextJoin⟩ :=
      here
    obtain ⟨⟩ := c1
    obtain ⟨⟩ := c2
    simp only [Context.mk.injEq]
    exact ⟨fnName, file, twin_scope_eq scope, twin_scope_eq functionScope, self, selfTy, withScope,
      needs trivial, handlers, handed, breakJoin, nextJoin⟩

theorem twin_scopes_eq {t1 t2 : Scopes}
    (related : (twin env target types True).coupling.SameScopes w t1 t2) : t1 = t2 := by
  have size₁ : t1.all.size = w.2 := related.left.trans (Nat.zero_add _)
  have size₂ : t2.all.size = w.2 := related.right.trans (Nat.zero_add _)
  have each : ∀ i : Nat, t1.all[i]? = t2.all[i]? := by
    intro i
    by_cases inside : i < w.2
    · obtain ⟨⟨bindings1, parent1⟩, ⟨bindings2, parent2⟩, found1, found2, level⟩ :=
        related.scope i inside
      have bindings : bindings1 = bindings2 := List.forall₂_eq_eq_eq ▸ level.bindings.imp
        fun _ _ same => Prod.ext (same.1.eq_of_aligned rfl) (twin_binding_eq same.2)
      have parent : parent1 = parent2 := rel_eq level.parent fun _ _ => twin_scope_eq
      rw [bindings, parent, ← found2] at found1
      change t1.all[0 + i]? = t2.all[0 + i]? at found1
      rwa [Nat.zero_add] at found1
    · rw [Array.getElem?_eq_none (size₁ ▸ Nat.le_of_not_lt inside),
        Array.getElem?_eq_none (size₂ ▸ Nat.le_of_not_lt inside)]
  obtain ⟨_⟩ := t1
  obtain ⟨_⟩ := t2
  exact congrArg Scopes.mk (Array.ext_getElem? each)

/-- States of the same run are the same. -/
theorem twin_states_eq {s1 s2 : LowerState}
    (related : (twin env target types True).coupling.States w s1 s2) : s1 = s2 := by
  obtain ⟨code, joins⟩ := Site.mk.inj (related.site.1 trivial)
  obtain ⟨_, left, right⟩ := related.dispatches
  obtain ⟨classified, scripted⟩ := Memory.mk.inj related.memory
  have scopes := twin_scopes_eq related.scopes
  have context := twin_context_eq related.context
  have events : s1.events = s2.events := related.events
  have closures := related.closures
  obtain ⟨⟩ := s1
  obtain ⟨⟩ := s2
  simp only [LowerState.mk.injEq]
  exact ⟨code, scopes, context, joins, closures, left.trans right.symm, classified, scripted, events⟩

end Alignment

/-! ## Reachable states -/

namespace Lower

/-- The state that a computation ends in, whether it succeeds or fails. -/
def final {α : Type} (act : Lower α) (env : Env) (s : LowerState) : LowerState :=
  match act env s with
  | .ok _ s => s
  | .error _ s => s

/-- A computation that is told how to lower expressions lowers one in the state `t`: what is done
there makes a difference. -/
def Consults {α : Type} (act : (Expr → Lower ValueId) → Lower α) (inner : Expr → Lower ValueId)
    (env : Env) (s t : LowerState) : Prop :=
  ∃ inner' : Expr → Lower ValueId, (∀ expr u, u ≠ t → inner' expr env u = inner expr env u) ∧
    act inner' env s ≠ act inner env s

/-- Lowering a definition lowers its body in the state `t`. -/
def Enters (defn : Definition) (env : Env) (s t : LowerState) : Prop :=
  ∃ func declared params code,
    s.code.declare (prototype env.program.types defn) = (func, declared) ∧
    Emit.beginRoutine func declared = .ok params code ∧
    bindArguments defn .specialNotInParameters defn.loc
      (if defn.takesReceiver then params.tail else params) env
      (s.atFunction env defn func params code) = .ok () t

end Lower

/-- The states that lowering gets into: it starts with any code and any answers that stand in for
classifications, and lowers expressions, calls and definitions one after the other. The states in
which it lowers the expressions inside these are reached too. -/
inductive LowerState.Reachable (env : Env) : LowerState → Prop where
  | start (code : Recording) (answers : List (Except String Classification))
      (present : ∀ b ∈ code.cursor, b.index < code.blocks.size) :
      Reachable env { initial env with code := code, scripted := answers }
  | afterExpr {s : LowerState} (expr : Expr) (reached : Reachable env s) :
      Reachable env (final (lowerExpr expr) env s)
  | afterCall {s : LowerState} (call : Call) (reached : Reachable env s) :
      Reachable env (final (lowerCall call) env s)
  | afterFunction {s : LowerState} (defn : Definition) (reached : Reachable env s) :
      Reachable env (final (lowerFunction defn) env s)
  | atBody {s t : LowerState} (defn : Definition) (reached : Reachable env s)
      (enters : Enters defn env s t) : Reachable env t
  | insideExpr {s t : LowerState} (depth : Nat) (expr : Expr) (reached : Reachable env s)
      (consults : Consults (lowerExprWith · expr) (lowerExprWithin depth) env s t) :
      Reachable env t
  | insideCall {s t : LowerState} (depth : Nat) (call : Call) (reached : Reachable env s)
      (consults : Consults (lowerCallWith · call) (lowerExprWithin depth) env s t) :
      Reachable env t

namespace Alignment

section Reached

variable {env : Env} {target : Target} {types : TypeTable} {w : Stage (Set BlockId)}
  {s t : LowerState} {c1 c2 : Context} {α : Type}

section

variable (states : (twin env target types True).coupling.States w s s)

include states

theorem twin_final {act : Lower α} {post : Stage (Set BlockId) → α → α → Prop}
    (runs : (twin env target types True).coupling.Runs w act act post) :
    ∃ w', (twin env target types True).coupling.States w' (final act env s)
      (final act env s) := by
  have ran := runs s s states
  change Coupled _ _ _ (act env s) (act env s) at ran
  unfold final
  revert ran
  cases act env s with
  | ok a s' =>
    rintro ⟨w', _, states', _⟩
    exact ⟨w', states'⟩
  | error e s' =>
    rintro ⟨_, w', _, states'⟩
    exact ⟨w', states'⟩

theorem twin_lowerFunction (defn : Definition) :
    ∃ w', (twin env target types True).coupling.States w' (final (lowerFunction defn) env s)
      (final (lowerFunction defn) env s) := by
  have ran := twin_sound.lowerFunction (returns twin_sound) defn trivial trivial trivial states.toCore
  change Coupled _ _ _ (lowerFunction defn env s) (lowerFunction defn env s) at ran
  have kept : ∀ {w' s'}, w ≤ w' → (twin env target types True).coupling.Idle w' s s' s' →
      (twin env target types True).coupling.States w' s' s' := by
    intro w' s' later idle
    refine ⟨idle.core, ?_, rfl⟩
    rw [idle.left]
    exact states.context.mono later
  unfold final
  revert ran
  cases lowerFunction defn env s with
  | ok f s' =>
    rintro ⟨w', later, idle, _⟩
    exact ⟨w', kept later idle⟩
  | error e s' =>
    rintro ⟨_, w', later, idle⟩
    exact ⟨w', kept later idle⟩

theorem twin_enters {defn : Definition} (enters : Enters defn env s t) :
    ∃ w', (twin env target types True).coupling.States w' t t := by
  obtain ⟨func, declared, params, code, declares, begun, bound⟩ := enters
  have ran : Emit.declare (prototype env.program.types defn) s.code = .ok func declared := by
    unfold Emit.declare Emit.update
    dsimp only
    rw [declares]
  have site := declare states.site (prototype env.program.types defn)
  rw [ran] at site
  obtain ⟨_, later, site, _⟩ := site
  have begins : (twin env target types True).coupling.Records _ _ _ _ (Emit.beginRoutine func declared)
      (Emit.beginRoutine func declared) := beginRoutine site
  rw [begun] at begins
  obtain ⟨link', later', site', begins⟩ := begins
  have values : (twin env target types True).coupling.Values (link', w.2 + 1)
      (if defn.takesReceiver then params.tail else params)
      (if defn.takesReceiver then params.tail else params) := by
    split
    · exact Coupling.tail_rel begins
    · exact begins
  have entered : (twin env target types True).coupling.States (link', w.2 + 1)
      (s.atFunction env defn func params code) (s.atFunction env defn func params code) :=
    twin_sound.atFunction func func states.toCore trivial (later.trans later') site' begins
  have runs : (twin env target types True).coupling.Runs (link', w.2 + 1)
      (bindArguments defn .specialNotInParameters defn.loc _)
      (bindArguments defn .specialNotInParameters defn.loc _) _ :=
    twin_sound.bindArguments trivial values
  obtain ⟨w', states'⟩ := twin_final entered runs
  unfold final at states'
  rw [bound] at states'
  exact ⟨w', states'⟩

/-- A state in which lowering consults itself is related to itself, because lowering agrees with a
copy of itself that does something else in an unrelated state. -/
theorem twin_consults {act : (Expr → Lower ValueId) → Lower α} {depth : Nat}
    {post : Stage (Set BlockId) → α → α → Prop} (equal : ∀ w a b, post w a b → a = b)
    (runs : ∀ {inner1 inner2}, (twin env target types True).coupling.Handles inner1 inner2 → (twin env target types True).coupling.Runs w (act inner1) (act inner2) post)
    (consults : Consults act (lowerExprWithin depth) env s t) :
    ∃ w', (twin env target types True).coupling.States w' t t := by
  obtain ⟨inner, elsewhere, differs⟩ := consults
  by_contra unrelated
  have handles : (twin env target types True).coupling.Handles inner (lowerExprWithin depth) := by
    intro w' expr1 expr2 same s1 s2 related
    obtain rfl := twin_states_eq related
    have other : s1 ≠ t := fun same => unrelated ⟨w', same ▸ related⟩
    change Coupled _ _ _ (inner expr1 env s1) _
    rw [elsewhere expr1 s1 other]
    exact twin_sound.lowerExprWithin (returns twin_sound) depth w' expr1 expr2 same s1 s1 related
  have ran := runs handles s s states
  change Coupled _ _ _ (act inner env s) (act (lowerExprWithin depth) env s) at ran
  revert ran differs
  cases act inner env s <;> cases act (lowerExprWithin depth) env s
  · rintro differs ⟨w', _, states', answers⟩
    exact differs (by rw [equal w' _ _ answers, twin_states_eq states'])
  · exact fun _ => False.elim
  · exact fun _ => False.elim
  · rintro differs ⟨errors, w', _, states'⟩
    exact differs (by rw [errors trivial, twin_states_eq states'])

end

theorem twin_start (code : Recording) (answers : List (Except String Classification))
    (present : ∀ b ∈ code.cursor, b.index < code.blocks.size) :
    (twin env code.target code.types True).coupling.States ({ b | b ∈ code.cursor }, 1)
      { initial env with code := code, scripted := answers }
      { initial env with code := code, scripted := answers } where
  site := ⟨fun _ => rfl, {
    outline := rfl
    cursor := rfl
    target := ⟨rfl, rfl⟩
    types := ⟨rfl, rfl⟩
    here := fun _ => id
    known := present
    frames := rfl
    exits := by rintro _ _ ⟨⟩
    apart := by rintro _ _ _ ⟨⟩ }⟩
  scopes := {
    left := rfl
    right := rfl
    scope := by
      intro k inside
      obtain rfl := Nat.lt_one_iff.mp inside
      exact ⟨_, _, rfl, rfl, .nil, .none⟩ }
  dispatches := ⟨0, rfl, rfl⟩
  memory := rfl
  events := rfl
  context := by
    have scope : (twin env code.target code.types True).coupling.Scope ({ b | b ∈ code.cursor }, 1)
        (initial env).context.scope (initial env).context.scope :=
      ⟨0, Nat.one_pos, rfl, rfl⟩
    refine .intro ⟨rfl, trivial, rfl, scope, scope, .none, rfl, .none, fun _ => rfl, .nil, .none, rfl,
      rfl⟩ ?_
    rintro _ _ ⟨⟩
  closures := rfl

/-- A state that lowering gets into is related to itself. -/
theorem twin_reachable (reached : s.Reachable env) :
    ∃ target types w, (twin env target types True).coupling.States w s s := by
  have value_eq : ∀ {target types} (w : Stage (Set BlockId)) (v1 v2 : ValueId),
      (twin env target types True).coupling.Value w v1 v2 → v1 = v2 := fun _ _ _ same => same trivial
  induction reached with
  | start code answers present => exact ⟨_, _, _, twin_start code answers present⟩
  | afterExpr expr _ ih =>
    obtain ⟨target, types, w, states⟩ := ih
    exact ⟨target, types, twin_final states (twin_sound.lowerExpr (returns twin_sound) (.inl rfl))⟩
  | afterCall call _ ih =>
    obtain ⟨target, types, w, states⟩ := ih
    exact ⟨target, types, twin_final states (twin_sound.lowerCall (returns twin_sound) (.inl rfl))⟩
  | afterFunction defn _ ih =>
    obtain ⟨target, types, w, states⟩ := ih
    exact ⟨target, types, twin_lowerFunction states defn⟩
  | atBody defn _ enters ih =>
    obtain ⟨target, types, w, states⟩ := ih
    exact ⟨target, types, twin_enters states enters⟩
  | insideExpr depth expr _ consults ih =>
    obtain ⟨target, types, w, states⟩ := ih
    exact ⟨target, types, twin_consults states value_eq
      (fun handles => twin_sound.lowerExprWith (returns twin_sound) handles w _ _ (.same (.inl rfl)))
      consults⟩
  | insideCall depth call _ consults ih =>
    obtain ⟨target, types, w, states⟩ := ih
    have self : (twin env target types True).coupling.SameCall call call :=
      Coupling.SameCall.refl (.inl rfl : _ ∨ ∀ name ∈ (Expr.ofCall call .nil).variables, _) rfl
    have outcome_eq : ∀ (w : Stage (Set BlockId)) (outcome1 outcome2 : CallOutcome),
        (twin env target types True).coupling.SameOutcome w outcome1 outcome2 →
        outcome1 = outcome2 := by
      rintro _ ⟨v1, ty⟩ ⟨v2, _⟩ ⟨values, rfl⟩
      rw [value_eq _ v1 v2 values]
    exact ⟨target, types, twin_consults states outcome_eq
      (fun handles => twin_sound.lowerCallWith (returns twin_sound) handles self) consults⟩

/-! ### Forgetting what is needed -/

theorem twin_loose_binding {b1 b2 : Binding}
    (related : (twin env target types True).coupling.SameBinding w b1 b2) :
    (twin env target types False).coupling.SameBinding w b1 b2 := by
  cases related with
  | slot => exact .slot False.elim
  | value => exact .value False.elim

theorem twin_loose_name {n1 n2 : String} (related : (twin env target types True).coupling.SameName n1 n2) :
    (twin env target types False).coupling.SameName n1 n2 := by
  cases related with
  | shown => exact .shown (.inl rfl)
  | receiver k => exact .receiver k
  | argument k i => exact .argument k i

theorem twin_loose_frame (related : (twin env target types True).coupling.SameFrame w c1 c2) :
    (twin env target types False).coupling.SameFrame w c1 c2 where
  __ := related
  own := trivial
  self := Coupling.rel_imp related.self fun _ _ => twin_loose_binding
  withScope := Coupling.rel_imp related.withScope fun _ _ => twin_loose_binding
  needs := False.elim
  handed := Coupling.rel_imp related.handed fun _ _ handed => ⟨handed.block, .inl rfl, handed.join⟩

theorem twin_loose_context (related : (twin env target types True).coupling.SameContext w c1 c2) :
    (twin env target types False).coupling.SameContext w c1 c2 := by
  induction related with
  | intro here _ callers => exact .intro (twin_loose_frame here) callers

theorem twin_loose_scopes {t1 t2 : Scopes}
    (related : (twin env target types True).coupling.SameScopes w t1 t2) :
    (twin env target types False).coupling.SameScopes w t1 t2 where
  left := related.left
  right := related.right
  scope k inside := by
    obtain ⟨d1, d2, found1, found2, level⟩ := related.scope k inside
    exact ⟨d1, d2, found1, found2, level.bindings.imp fun _ _ binding =>
      ⟨twin_loose_name binding.1, twin_loose_binding binding.2⟩, level.parent⟩

theorem twin_loose_site {x1 x2 : Site} {link : Set BlockId}
    (related : (twin env target types True).Outlined link x1 x2) :
    (twin env target types False).Outlined link x1 x2 :=
  ⟨related.outline, related.cursor, related.target, related.types, related.here, related.known,
    related.frames, related.exits, related.apart⟩

end Reached

end Alignment

/-! ## Lowering with and without need -/

/-- The state with the value of the next expression needed, or not. -/
def LowerState.needing (s : LowerState) (needed : Bool) : LowerState :=
  { s with context := { s.context with needsValue := needed } }

/-- Both runs succeed and have recorded code of one outline, or both fail. -/
@[irreducible] def SameEffects {α β : Type} :
    EStateM.Result LowerError LowerState α → EStateM.Result LowerError LowerState β → Prop
  | .ok _ s1, .ok _ s2 => s1.code.outline = s2.code.outline
  | .error _ _, .error _ _ => True
  | _, _ => False

theorem Alignment.twin_needing {env : Env} {target : Target} {types : TypeTable}
    {w : Stage (Set BlockId)} {s : LowerState} (needed1 needed2 : Bool)
    (states : (twin env target types True).coupling.States w s s) :
    (twin env target types False).coupling.States w (s.needing needed1) (s.needing needed2) where
  site := ⟨False.elim, twin_loose_site states.site.2⟩
  scopes := twin_loose_scopes states.scopes
  __ := states
  context := (twin_loose_context states.context).ofFrame
    { twin_loose_frame states.context.here with needs := False.elim } rfl rfl

/-- Whether a value is needed changes no effect: in every state that lowering gets into, every
expression is lowered with success in both cases or in none, and then the declared functions, the
blocks, the calls in them and the ways they end are the same. -/
theorem Lower.lowerExpr_needsValue {env : Env} {s : LowerState} (reached : s.Reachable env)
    (expr : Expr) :
    SameEffects (lowerExpr expr env (s.needing true)) (lowerExpr expr env (s.needing false)) := by
  obtain ⟨target, types, w, states⟩ := twin_reachable reached
  have runs : (twin env target types False).coupling.Runs w (lowerExpr expr) (lowerExpr expr) _ :=
    twin_sound.lowerExpr (returns twin_sound) (.inl rfl)
  have ran := runs _ _ (twin_needing true false states)
  change Coupled _ _ _ (lowerExpr expr env (s.needing true)) (lowerExpr expr env (s.needing false)) at ran
  revert ran
  unfold SameEffects
  cases lowerExpr expr env (s.needing true) <;> cases lowerExpr expr env (s.needing false)
  · rintro ⟨_, _, states', _⟩
    exact states'.site.2.outline
  · exact id
  · exact id
  · exact fun _ => trivial

/-- A program that fetches a pair, which may raise. -/
def Program.fetching : Program where
  file := "fetching"
  types := TypeTable.empty.addStruct "Pair" [⟨"left", .int 64 true⟩, ⟨"right", .int 64 true⟩]
  defs := [(Definition.ofSignature "fetch" .program [] (.struct "Pair")).raising,
    Definition.ofSignature "spare" .program [] (.struct "Pair")]

/-- A pair is fetched; a spare one stands in for it if that raises. -/
def Expr.fetched : Expr :=
  .ofKind (.rescue (.ofCall (.ofTargets "fetch" ["fetch"]) (.struct "Pair"))
    (.ofCall (.ofTargets "spare" ["spare"]) (.struct "Pair"))) (.struct "Pair")

/-- The state in which a function has just been begun. -/
def LowerState.fetching : LowerState :=
  { initial ⟨.fetching, .default⟩ with
    code := ((empty .x86_64 Program.fetching.types).declare
      ⟨"main", [], .void, none, false⟩).2.begun ⟨0⟩ 0
    scripted := [] }

/-- The run that needs the pair records ten instructions and the other one five; calls and jumps are
the same. -/
theorem Lower.lowerExpr_needsValue_fetching :
    fetching.Reachable ⟨.fetching, .default⟩ ∧
      [true, false].map (fun needed => ((final (lowerExpr .fetched) ⟨.fetching, .default⟩
        (fetching.needing needed)).code.instructionsIn ⟨0⟩).length) = [10, 5] ∧
      SameEffects (lowerExpr .fetched ⟨.fetching, .default⟩ (fetching.needing true))
        (lowerExpr .fetched ⟨.fetching, .default⟩ (fetching.needing false)) := by
  have reached : fetching.Reachable ⟨.fetching, .default⟩ :=
    .start _ [] (by decide +kernel)
  exact ⟨reached, by decide +kernel, lowerExpr_needsValue reached .fetched⟩

end CallLowering
