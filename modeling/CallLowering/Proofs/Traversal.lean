import CallLowering.Proofs.Discipline

/-!
# Lowering goes through the text

A call goes through its operands, and then through its callee if it is inlined or calls it otherwise.
The candidates of a dispatch are tried one after the other, each with the operands that it evaluates
itself; the hidden operands have no effects. A rescue is gone through with its handler outside of it.
So lowering goes through every expression (`lowerExprWithin_walks`).
-/

namespace CallLowering

open Lower CallLowering.Task

variable {V : Vocabulary} {γ : Standing} {u : Unbound} {α : Type} {call : Call} {defn : Definition}
  {arg body expr : Expr} {args : List Expr} {params : List Param} {values : List ValueId}
  {loc : Location} {id join : Nat} {ty : Ty} {kind : ExprKind} {act : Lowering α}
  {receiver : Option DispatchReceiver} {holds : α → Prop} {tasks : List Block → List Task}
  {after : α → Standing → Unbound → Prop} {env : Env}

namespace Goes

/-! ## Calls of one definition -/

theorem blockArgument (tidy : call.Tidy V.names) (domestic : defn.isForeign = false) :
    Goes V γ ∅ (fun _ => defn.blockTasks call.block)
      (fun inner => blockArgument inner call defn) fun _ => True := by
  unfold Lower.blockArgument Definition.blockTasks
  rw [domestic, Bool.not_false, Bool.and_true]
  split
  · cases found : call.block <;> dsimp only
    case some block => exact (materialize (tidy.block block found)).closing fun _ => pure trivial
    case none => exact plain
  · exact pure trivial

section

variable (sound : γ.Sound V) (tidy : call.Tidy V.names) (member : defn ∈ V.env.program.defs)

include sound tidy member

/-- A call inside the program goes through its operands and calls the function of the definition,
unless the body takes the place of the call. -/
theorem lowerUniform (domestic : defn.isForeign = false) (callable : defn.isInlineOnly = false) :
    Goes V γ ∅ (fun _ => each (call.operands defn) ++ [.perform defn call.block])
      (fun inner => lowerUniform inner call defn) fun _ => True := by
  have symbol : defn.name = defn.symbol := by
    unfold Definition.isForeign at domestic
    unfold Definition.symbol
    cases spec : defn.foreign with
    | none => rfl
    | some => rw [spec] at domestic; cases domestic
  have links : V.env.program.Links defn.symbol := .definition member (.inr callable)
  refine (uniformArgs sound tidy (V.tidy defn member)).bind @fun args built => ?_
  have called : Goes V γ ∅ (fun _ => [.perform defn call.block]) (fun inner => do
      let block ← Lower.blockArgument inner call defn
      let func ← declareDefinition defn
      report (.call defn.name (args.values ++ block).length)
      let result ← callOrInvoke func (args.values ++ block) defn none
      uniformReturn defn result) fun _ => True := by
    refine Tracks.retask ((blockArgument tidy domestic).bind fun _ => ?_) fun _ => .performed
    simp only [declareDefinition, bind_assoc]
    exact plain.bind fun _ => callDeclared links symbol fun _ => plain
  cases substituted : defn.isSubstituted with
  | false =>
    simp only [substitute?_eq substituted built.1, pure_bind]
    exact called
  | true =>
    refine plain.bind @fun found _ => ?_
    cases found with
    | some value => exact (pure trivial).dropping (.substituted substituted)
    | none => exact called

theorem lowerSingle :
    Goes V γ ∅ (fun handed => each (call.operands defn) ++ defn.performed handed call.block)
      (fun inner => lowerSingle inner call defn) fun _ => True := by
  refine .ite (fun inlined => ?_) fun called => ?_
  · rw [Bool.and_eq_true, Bool.not_eq_true'] at inlined
    exact lowerInlined sound tidy (V.tidy defn member) inlined.2
  · simp only [Definition.performed, if_neg called]
    refine .ite (lowerForeign sound tidy member) fun domestic => .ite (fun _ => fault rfl) ?_
    exact fun proper => lowerUniform sound tidy member (Bool.eq_false_iff.mpr domestic)
      (Bool.eq_false_iff.mpr proper)

end

end Goes

/-! ## Calls of several candidates -/

/-- What stands for an argument of a dispatch: a hidden variable, or the argument itself if the
candidates evaluate it. -/
def DispatchArg.StandsFor (arg : Expr) (hidden : DispatchArg) : Prop :=
  if isEvaluatedByCallee arg then hidden.expr = arg ∧ hidden.tag = none
  else hidden.expr.kind.isSideEffectFree = true

namespace Lower

variable {hidden : List DispatchArg}

/-- A candidate is left with the arguments that it evaluates itself. -/
theorem rebindArgs_each (params : List Param)
    (standing : List.Forall₂ DispatchArg.StandsFor args hidden) :
    (rebindArgs hidden params).length = args.length ∧
      each (rebindArgs hidden params) = each (args.filter isEvaluatedByCallee) := by
  induction standing generalizing params with
  | nil => cases params <;> exact ⟨rfl, rfl⟩
  | @cons arg found args hidden stands _ ih =>
    -- a hidden variable may be read at another type
    have cons {rebound : Expr} {params' : List Param} (kind : rebound.kind = found.expr.kind)
        (same : found.tag = none → rebound = found.expr) :
        (rebound :: rebindArgs hidden params').length = (arg :: args).length ∧
          each (rebound :: rebindArgs hidden params') =
            each ((arg :: args).filter isEvaluatedByCallee) := by
      refine ⟨congrArg Nat.succ (ih params').1, ?_⟩
      unfold DispatchArg.StandsFor at stands
      by_cases own : isEvaluatedByCallee arg = true
      · rw [if_pos own] at stands
        rw [same stands.2, stands.1, List.filter_cons_of_pos own, each_cons, (ih params').2,
          ← each_cons]
      · rw [if_neg own, ← kind] at stands
        rw [List.filter_cons_of_neg own, ← (ih params').2, each,
          List.filter_cons_of_neg (by simp [stands])]
        rfl
    cases params with
    | nil => exact cons rfl fun _ => rfl
    | cons param params =>
      unfold rebindArgs
      cases tagged : found.tag with
      | none => exact cons rfl fun _ => rfl
      | some tag =>
        refine cons rfl fun untagged => ?_
        rw [tagged] at untagged
        cases untagged

/-- A candidate evaluates the operands that are not hidden. -/
theorem candidateCall_each (standing : List.Forall₂ DispatchArg.StandsFor call.args hidden) :
    each ((candidateCall call receiver hidden defn).operands defn) =
      Task.each (call.ownOperands defn) := by
  obtain ⟨length, each⟩ := rebindArgs_each defn.params standing
  have none : Task.each (receiver.map fun found => rebindReceiver call found defn).toList = [] := by
    cases receiver <;> rfl
  rw [Call.operands, Call.ownOperands, candidateCall, each_append, none, List.nil_append,
    each_append, each_append, each, length]

end Lower

namespace Goes

theorem hideReceiver (value : ValueId) (ty : Ty) (begun : id ∈ γ.numbers) :
    Keeps V γ ∅ (fun _ => hideReceiver id value ty) fun _ => True :=
  Keeps.bind (of_tracks (declare (.hidden begun (.inl rfl)))) fun _ => plain

theorem dispatchArg (index : Nat) (sound : γ.Sound V) (tidy : arg.Tidy V.names)
    (begun : id ∈ γ.numbers) :
    Goes V γ ∅ (fun _ => each ([arg].filter fun arg => !isEvaluatedByCallee arg))
      (fun inner => dispatchArg inner id index arg) fun hidden =>
        hidden.expr.Tidy V.names ∧ DispatchArg.StandsFor arg hidden := by
  refine .ite (fun own => ?_) fun shared => ?_
  · have same : DispatchArg.StandsFor arg ⟨arg, arg.ty, none⟩ := by
      rw [DispatchArg.StandsFor, if_pos own]
      exact ⟨rfl, rfl⟩
    exact (pure ⟨tidy, same⟩).dropping (.dropping _)
  · have hides {hidden : DispatchArg} (free : hidden.expr.kind.isSideEffectFree = true) :
        DispatchArg.StandsFor arg hidden := by
      rw [DispatchArg.StandsFor, if_neg shared]
      exact free
    rw [List.filter_cons_of_pos (by simp [shared])]
    refine (lowerUsed sound tidy).closing fun _ => ?_
    refine Keeps.bind (of_tracks (declare (.hidden begun (.inr ⟨index, rfl⟩)))) fun _ => ?_
    refine .ite (fun _ => pure ⟨.read _ _ _, hides rfl⟩) fun _ => ?_
    exact plain.bind fun _ => pure ⟨.read _ _ _, hides rfl⟩

theorem dispatchArgs (index : Nat) (sound : γ.Sound V) (tidy : ∀ arg ∈ args, arg.Tidy V.names)
    (begun : id ∈ γ.numbers) :
    Goes V γ ∅ (fun _ => each (args.filter fun arg => !isEvaluatedByCallee arg))
      (fun inner => dispatchArgs inner id index args) (List.Forall₂ (fun arg hidden =>
        hidden.expr.Tidy V.names ∧ DispatchArg.StandsFor arg hidden) args) := by
  induction args generalizing index with
  | nil => exact pure .nil
  | cons arg args ih =>
    rw [← List.singleton_append, List.filter_append, each_append]
    refine (dispatchArg index sound (tidy arg List.mem_cons_self) begun).bind fun first => ?_
    refine (ih (index + 1) (List.forall_mem_cons.mp tidy).2).closing
      fun rest => pure ?_
    exact .cons first rest

/-- A new block is made, and the cursor may be put there. -/
theorem newBlock {next : BlockId → Lowering α} (label : String)
    (rest : ∀ b, Tracks V (γ.withBlock b) u tasks (next b) after) :
    Tracks V γ u tasks (fun inner => newBlock label >>= fun b => next b inner) after := by
  refine .after (.silent (.newBlock label)) ?_
  rintro b _ _ ⟨rfl, rfl⟩
  exact rest b

theorem position {b : BlockId} (known : b ∈ γ.blocks) :
    Keeps V γ u (fun _ => position b) fun _ => True := of_tracks (.position known)

theorem rebindArgs_tidy {args : List DispatchArg} (tidy : ∀ arg ∈ args, arg.expr.Tidy V.names) :
    ∀ arg ∈ rebindArgs args params, arg.Tidy V.names := by
  induction args generalizing params with
  | nil => exact List.forall_mem_nil _
  | cons arg args ih =>
    have first := tidy arg List.mem_cons_self
    have rest := fun params => @ih params (List.forall_mem_cons.mp tidy).2
    cases params with
    | nil => exact List.forall_mem_cons.mpr ⟨first, rest []⟩
    | cons param params =>
      refine List.forall_mem_cons.mpr ⟨?_, rest params⟩
      cases arg.tag with
      | some => exact first.retype param.ty
      | none => exact first

theorem candidateCall_tidy {args : List DispatchArg} (tidy : call.Tidy V.names)
    (hidden : ∀ arg ∈ args, arg.expr.Tidy V.names) :
    (candidateCall call receiver args defn).Tidy V.names where
  obj obj found := by
    obtain ⟨_, _, rfl⟩ := Option.map_eq_some_iff.mp found
    exact .read _ _ _
  args := rebindArgs_tidy hidden
  block := tidy.block

/-- The initializer of a constant is called as it is. -/
theorem callInitializer (name : String) :
    Goes V γ u (fun _ => [.initializer name]) (fun _ => callInitializer name)
      fun _ => True where
  moves := (Stays.of_moves (.record (.declare _))).bind fun _ _ => Stays.discard (.of_moves (.record (.value rfl)))
  leaves {_ _ s s' a} _ tracked ran := by
    have orderly := tracked.orderly
    obtain ⟨_, _, declared, ran1⟩ := bind_ok ran
    obtain ⟨rfl, rfl⟩ := declareFn_ok declared
    obtain ⟨_, called⟩ := discard_ok ran1
    obtain ⟨block, here, _, _, rfl⟩ := emit_ok called
    have links : V.env.program.Links ("~" ++ name ++ ":init") := .initializer name
    let decl : FnDecl := ⟨"~" ++ name ++ ":init", [], .void, none, false⟩
    have first : s.code.Onward V.env.program [] (s.code.declare decl).2 := .declare orderly.code links
    have named : (s.code.declare decl).2.Names (s.code.declare decl).1 decl.name :=
      orderly.code.indexed.names_declare decl
    have second : Recording.Onward V.env.program _ [.initializer name]
        ((s.code.declare decl).2.written block (.call (s.code.declare decl).1 [] none)) :=
      .written first.orderly (first.orderly.placed block here) rfl
      ⟨fun _ same => by cases same; exact ⟨_, links, named⟩, nofun⟩
      (.cons ⟨_, rfl, named.later (Recording.extends_written _ _)⟩ .nil)
    exact ⟨_, .initializer, .of_code orderly (first.trans second)⟩

theorem lowerConst (name : String) (initializer : Bool) (ty : Ty) (loc : Location) :
    Goes V γ u (fun _ => [.expr ⟨.const name initializer, ty, loc⟩])
      (fun _ => lowerConst name initializer ty loc) fun _ => True := by
  unfold Lower.lowerConst
  split
  · exact plain.expands fun _ => .metaclass
  · rename_i ordinary
    cases initializer with
    | true =>
      exact Tracks.expands ((callInitializer _).closing fun _ => plain) fun _ => .initialized ordinary
    | false =>
      simp only [Bool.false_eq_true, ↓reduceIte]
      exact plain.expands fun _ => .quiet rfl

section

variable (sound : γ.Sound V)

include sound

theorem dispatchReceiver {defns : List Definition} (tidy : call.Tidy V.names)
    (begun : id ∈ γ.numbers) :
    Goes V γ ∅ (fun _ => each call.obj.toList)
      (fun inner => dispatchReceiver inner call defns id) fun _ => True := by
  unfold Lower.dispatchReceiver
  cases found : call.obj <;> dsimp only
  case some obj =>
    exact (lowerUsed sound (tidy.obj obj found)).closing fun _ =>
      (hideReceiver _ _ begun).bind fun _ => pure trivial
  case none =>
    split
    · refine Keeps.bind (context.bind fun _ => (orFault fun _ => rfl).any) fun _ => ?_
      exact plain.bind fun _ => (hideReceiver _ _ begun).bind fun _ => pure trivial
    · exact pure trivial

/-- A candidate is tried on a path of its own. -/
theorem tryCandidate {hidden : List DispatchArg}
    (tidy : (candidateCall call receiver hidden defn).Tidy V.names)
    (member : defn ∈ V.env.program.defs) (usable : join ∈ γ.usable)
    (standing : List.Forall₂ DispatchArg.StandsFor call.args hidden) :
    Goes V γ ∅ (fun handed => call.branch handed defn)
      (fun inner => tryCandidate inner call receiver hidden join defn) fun _ => True := by
  refine plain.bind fun _ => newBlock _ fun current => newBlock _ fun next => ?_
  refine plain.bind fun _ => ?_
  refine (position (Set.mem_insert_of_mem _ (Set.mem_insert _ _))).bind fun _ => ?_
  have own : each ((candidateCall call receiver hidden defn).operands defn) =
      each (call.ownOperands defn) := candidateCall_each standing
  simp only [Call.branch, ← own]
  refine closing (lowerSingle sound tidy member) fun _ => ?_
  have usable' : join ∈ ((γ.withBlock current).withBlock next).usable := usable
  refine (addToJoin usable' _ _).bind fun _ => ?_
  refine Tracks.recede (position (Set.mem_insert _ _)) ?_
  rintro _ _ _ ⟨rfl, rfl, _⟩
  have less : γ.Less ((γ.withBlock current).withBlock next) :=
    { Standing.Less.refl γ with blocks := fun _ known => .inr (.inr known) }
  exact ⟨γ, ∅, less, subset_rfl, rfl, rfl, trivial⟩

/-- A call of several candidates goes through what it hides, and then through its branches. -/
theorem lowerDispatch (tidy : call.Tidy V.names) (several : 2 ≤ call.targets.length) :
    Goes V γ ∅ (fun _ => [.expr ⟨.call call, ty, loc⟩])
      (fun inner => lowerDispatch inner call) fun _ => True := by
  refine (Keeps.mapM fun name _ => definition name call.loc).bind @fun defns found => ?_
  have targets : call.targets.map V.env.program.target? = defns.map some := by
    rw [← List.forall₂_eq_eq_eq, List.forall₂_map_left_iff, List.forall₂_map_right_iff]
    exact found
  refine Tracks.expands (plain.bind fun _ => .after (.silent .nextDispatch) ?_) fun _ =>
    .several several targets
  rintro id _ _ ⟨rfl, rfl⟩
  have begun : id ∈ (γ.withNumber id).numbers := Set.mem_insert _ _
  have numbered : (γ.withNumber id).Sound V := sound
  simp only [Call.sharedOperands, each_append, List.append_assoc]
  refine (dispatchReceiver numbered tidy begun).bind fun _ => ?_
  refine (dispatchArgs 0 numbered tidy.args begun).bind @fun args hidden => openJoin _ ?_
  have covers : (γ.withNumber id).withJoin.Sound V :=
    sound.mono subset_rfl subset_rfl γ.usable_withJoin fun _ tidy => tidy
  have tidied : ∀ arg ∈ args, arg.expr.Tidy V.names := fun arg member =>
    (exists_of_forall₂ hidden arg member).elim fun _ hides => hides.1
  have standing := hidden.imp fun _ _ hides => hides.2
  refine (forM fun defn member => ?_).closing fun _ => ?_
  · obtain ⟨_, target⟩ := exists_of_forall₂ found defn member
    exact tryCandidate covers (candidateCall_tidy tidy tidied) (Program.target?_mem target)
      (Standing.join_usable _) standing
  · refine plain.bind fun _ => .after closeJoinOrNil ?_
    rintro value _ _ ⟨rfl, rfl⟩
    exact .forget (γ.less_withNumber id) (pure trivial)

theorem lowerCallWith (tidy : call.Tidy V.names) :
    Goes V γ ∅ (fun _ => [.expr ⟨.call call, ty, loc⟩])
      (fun inner => lowerCallWith inner call) fun _ => True := by
  unfold Lower.lowerCallWith
  split
  · exact fault rfl
  · rename_i name targets
    refine (definition _ _).bind fun target => ?_
    exact (lowerSingle sound tidy (Program.target?_mem target)).expands fun _ => .single targets target
  · rename_i none single
    refine lowerDispatch sound tidy ?_
    rcases targets : call.targets with _ | ⟨name, _ | ⟨second, rest⟩⟩
    · exact absurd targets none
    · exact absurd targets (single name)
    · exact Nat.le_add_left 2 rest.length

/-! ## Expressions -/

theorem lowerAssign {target : String} {value : Expr} (named : V.names target)
    (tidy : value.Tidy V.names) :
    Goes V γ ∅ (fun _ => each [value]) (fun inner => lowerAssign inner target value)
      fun _ => True := by
  refine (lowerUsed sound tidy).closing fun _ => plain.bind fun _ => ?_
  refine .ite (fun _ => pure trivial) fun _ => lookup? target (fun binding => ?_) ?_
  · cases binding with
    | slot => exact plain
    | value => exact fault rfl
  · refine plain.bind fun _ => .after (declare (.new rfl named)) ?_
    rintro _ _ _ ⟨rfl, rfl⟩
    exact pure trivial

theorem lowerSeq {exprs : List Expr} (tidy : ∀ expr ∈ exprs, expr.Tidy V.names) :
    Goes V γ ∅ (fun _ => each exprs) (fun inner => lowerSeq inner exprs)
      fun _ => True := by
  induction exprs with
  | nil =>
    simp only [Lower.lowerSeq]
    exact plain
  | cons expr exprs ih =>
    have first := tidy expr List.mem_cons_self
    cases exprs with
    | nil => exact operand sound first
    | cons second rest =>
      rw [each_cons]
      refine (discard (lowerUnused sound first)).bind fun _ => ?_
      exact ih (List.forall_mem_cons.mp tidy).2

end

theorem withHandler {handler : BlockId}
    (inside : Goes V { γ with
      context.handlers := handler :: γ.context.handlers, held := True } u tasks act holds) :
    Goes V γ u (fun handed => [.guarded handler (tasks handed)])
      (fun inner => withHandler handler (act inner)) holds := by
  refine around inside (fun context same => ?_) fun handed hands => ⟨handed, hands, .guarded⟩
  rw [same trivial]
  cases γ.context
  rfl

end Goes

/-- The handler starts with its mark. -/
theorem Lower.landingPad_onward {s s' : LowerState} {v : ValueId} (rescue : BlockId)
    (orderly : s.Orderly env.program) (atRescue : s.code.cursor = some rescue)
    (ran : emit .landingPad env s = .ok v s') : s.Onward env.program [.handler rescue] s' := by
  obtain ⟨_, here, _, _, rfl⟩ := emit_ok ran
  cases atRescue.symm.trans here
  exact .of_code orderly (.written orderly.code (orderly.code.placed rescue here) rfl
    ⟨nofun, nofun⟩ (.cons ⟨rfl, Recording.written_value?_new rfl⟩ .nil))

namespace Goes

/-- The cursor is put where a handler starts. -/
theorem landing {rescue : BlockId} {next : Lowering α} (known : rescue ∈ γ.blocks)
    (rest : Tracks V γ u tasks next after) :
    Tracks V γ u (fun handed => [.land rescue] ++ tasks handed) (fun inner => do
      Lower.position rescue
      Functor.discard (Lower.emit .landingPad)
      next inner) after := by
  have landed : Goes V γ u (fun _ => [.land rescue]) (fun _ => do
      Lower.position rescue
      Functor.discard (Lower.emit .landingPad)) fun _ => True := by
    refine ⟨?_, fun _ tracked ran => ?_⟩
    · exact (Stays.of_moves (.position known)).bind fun _ _ =>
        Stays.discard (.of_moves (.record (.value rfl)))
    · obtain ⟨_, _, moved, landed⟩ := Lower.bind_ok ran
      cases moved
      obtain ⟨_, landed⟩ := Lower.discard_ok landed
      have onward := LowerState.Onward.of_code tracked.orderly
        (.position tracked.orderly.code (tracked.has known))
      exact ⟨_, .land, onward.trans (Lower.landingPad_onward rescue onward.orderly rfl landed)⟩
  simpa using landed.bind fun _ => rest

/-- The body of a rescue is inside it, and the handler outside. -/
theorem lowerRescue {handler : Expr} (ty : Ty) (loc : Location) (sound : γ.Sound V)
    (bodyTidy : body.Tidy V.names) (handlerTidy : handler.Tidy V.names) :
    Goes V γ ∅ (fun _ => [.expr ⟨.rescue body handler, ty, loc⟩])
      (fun inner => lowerRescue inner body handler ty) fun _ => True := by
  refine newBlock _ fun rescue => openJoin ty ?_
  have covers : (γ.withBlock rescue).withJoin.Sound V :=
    sound.mono subset_rfl subset_rfl γ.usable_withJoin fun _ => id
  have usable := (γ.withBlock rescue).join_usable
  refine Tracks.expands (?_ : Tracks V _ ∅ (fun _ => [.guarded rescue [.expr body]] ++
    ([.land rescue] ++ [.expr handler])) _ _) fun _ => .rescue
  refine bind (withHandler (inner (covers.alter rfl rfl rfl rfl rfl) bodyTidy)) fun _ => ?_
  refine (addToJoin usable _ _).bind fun _ => ?_
  refine landing (Set.mem_insert _ _) ((inner covers handlerTidy).closing fun _ => ?_)
  refine (addToJoin usable _ _).bind fun _ => ?_
  refine closeJoinOrNil.recede ?_
  rintro _ _ _ ⟨rfl, rfl⟩
  exact ⟨γ, ∅, γ.less_withBlock rescue, subset_rfl, rfl, rfl, trivial⟩

theorem lowerKind (sound : γ.Sound V) (tidy : Expr.Tidy V.names ⟨kind, ty, loc⟩) :
    Goes V γ ∅ (fun _ => [.expr ⟨kind, ty, loc⟩]) (fun inner => lowerKind inner kind ty loc)
      fun _ => True := by
  have child : ∀ part ∈ kind.children, part.Tidy V.names := fun _ member => tidy.child member
  cases kind with
  | nop | nil | bool | char | string | int | float | symbol | var | selfRef =>
    simp only [lowerKind]
    exact plain.expands fun _ => .quiet rfl
  | field =>
    simp only [lowerKind]
    exact plain.expands fun _ => .field
  | assign target value =>
    exact (lowerAssign sound (tidy.binds (List.mem_singleton_self _))
      (child _ (List.mem_singleton_self _))).expands fun _ => .assign
  | const => exact lowerConst _ _ _ _
  | call => exact (lowerCallWith sound tidy.call).closing fun _ => plain
  | yield args scope =>
    refine closing (lowerYield sound (fun arg member => child arg ?_) fun expr found =>
      child expr ?_) fun _ => plain
    · exact List.mem_append_left _ member
    · exact List.mem_append_right _ (Option.mem_toList.mpr found)
  | breakWith value =>
    refine context.bind @fun found here => ?_
    subst here
    exact (lowerJump sound sound.breakJoin fun expr found =>
      child expr (Option.mem_toList.mpr found)).expands fun _ => .breaks
  | nextWith value =>
    refine context.bind @fun found here => ?_
    subst here
    exact (lowerJump sound sound.nextJoin fun expr found =>
      child expr (Option.mem_toList.mpr found)).expands fun _ => .nexts
  | out => exact fault rfl
  | discard => exact fault rfl
  | procLiteral => exact (materialize tidy.procLiteral).expands fun _ => .literal
  | seq => exact (lowerSeq sound child).expands fun _ => .seq
  | rescue body handler =>
    exact lowerRescue ty loc sound (child body List.mem_cons_self)
      (child handler (List.mem_cons_of_mem _ (List.mem_singleton_self _)))

theorem lowerExprWith (sound : γ.Sound V) (tidy : expr.Tidy V.names) :
    Goes V γ ∅ (fun _ => [.expr expr]) (fun inner => lowerExprWith inner expr)
      fun _ => True := by
  obtain ⟨_, _, _⟩ := expr
  exact plain.bind fun _ => .ite (fun _ => plain.dropping .dropped) fun _ => lowerKind sound tidy

end Goes

/-! ## Functions -/

namespace Lower

variable (inner : Expr → Lower ValueId)

/-- Lowers a definition into a function of its own, given how to lower the expressions inside. -/
def lowerFunctionWith (defn : Definition) : Lower FuncId := do
  let body ← orFault defn.body (.noBody defn.name) defn.loc
  report (.loweringFunction defn.name)
  let func ← declareDefinition defn
  let values ← beginRoutine func
  let (context, values) ← functionContext defn values
  modify fun state => { state with closures := 0 }
  withContext context do
    bindArguments defn .specialNotInParameters defn.loc values
    let value ← inner body
    emitReturn value body.ty defn.ret
  return func

theorem lowerCall_run (call : Call) (env : Env) (s : LowerState) :
    lowerCall call env s = lowerCallWith
      (lowerExprWithin (env.program.nestingBound (Expr.ofCall call .nil))) call env s := rfl

end Lower

namespace Goes

/-- A function starts in a scope of its own, with nowhere to jump to. -/
theorem functionContext (defn : Definition) (values : List ValueId) :
    Tracks V γ u (fun _ => []) (fun _ => functionContext defn values) fun start γ' u' =>
      γ' = γ.withScope start.1.scope none ∧ u' = ∅ ∧ start.1.functionScope = start.1.scope ∧
        start.1.breakJoin = none ∧ start.1.nextJoin = none ∧ start.1.yieldTarget = none := by
  refine freshContext _ fun _ => ?_
  dsimp only
  split <;> exact .silent (.pure ⟨rfl, rfl, rfl, rfl, rfl, rfl⟩)

theorem functionBody (sound : γ.Sound V) (own : γ.context.scope ∈ γ.fresh)
    (known : defn.Tidy V.names) (tidy : body.Tidy V.names) :
    Goes V γ ∅ (fun _ => [.expr body]) (fun inner => do
      Lower.bindArguments defn .specialNotInParameters defn.loc values
      let value ← inner body
      Lower.emitReturn value body.ty defn.ret) fun _ => True :=
  (bindArguments own known (.inr rfl)).bind fun _ => (inner sound tidy).closing fun _ => plain

end Goes

theorem Stays.lowerFunctionWith (known : defn.Tidy V.names) (free : ¬γ.anchored)
    (empty : γ.blocks = ∅) :
    Stays V γ ∅ (fun inner => lowerFunctionWith inner defn) fun _ => True := by
  simp only [Lower.lowerFunctionWith, Lower.declareDefinition, bind_assoc]
  refine Stays.bind (Goes.orFault fun _ => rfl).moves fun body hasBody => ?_
  refine Stays.bind Goes.plain.moves fun _ _ => Stays.bind Goes.plain.moves fun _ _ => ?_
  refine (of_moves (.record (.declare _))).bind fun _ _ => .bind (.beginRoutine free) ?_
  rintro values _ _ ⟨rfl, rfl⟩
  have same : { γ with blocks := ∅ } = γ := by rw [← empty]
  rw [same]
  refine .bind (Goes.functionContext defn values).moves ?_
  rintro ⟨start, values⟩ _ _ ⟨rfl, rfl, functionScope, breakJoin, nextJoin, yieldTarget⟩
  dsimp only at functionScope breakJoin nextJoin yieldTarget ⊢
  have inside : ((γ.withScope start.scope none).within start).Sound V := by
    refine .intro (Set.mem_insert _ _) (.inr ⟨functionScope, rfl⟩) ?_ ?_ ?_ ?_
    · exact fun i found => absurd (breakJoin.symm.trans found) nofun
    · exact fun _ found => absurd (nextJoin.symm.trans found) nofun
    · exact fun target found => absurd (yieldTarget.symm.trans found) nofun
    · exact fun _ found => absurd (yieldTarget.symm.trans found) nofun
  refine bind (of_moves (.note fun _ _ => ⟨rfl, rfl, rfl, rfl, rfl, id⟩)) fun _ _ => ?_
  refine .bind (.withContext (Goes.functionBody inside (Set.mem_insert _ _) known
    (known.body body hasBody)).moves) ?_
  rintro _ _ _ ⟨_, ⟨rfl, rfl, _⟩, rfl⟩
  exact .weaken (γ.less_withScope _ _) subset_rfl (.pure ⟨rfl, rfl, trivial⟩) fun _ _ _ => id

/-- Lowering goes through every expression. -/
theorem Lower.lowerExprWithin_walks (depth : Nat) : Walks V (lowerExprWithin depth) := by
  induction depth with
  | zero =>
    refine ⟨fun _ _ {_ _ _ _ _} _ fits => ?_, fun _ _ _ ran => by cases ran⟩
    exact .of_error rfl (fits.refused (fun _ => rfl) (.of_site ..) (.refl _) rfl)
  | succ depth ih =>
    refine ⟨fun _ tidy {_ _ _ _ _} sound fits => ?_, fun sound tidy tracked ran => ?_⟩
    · exact fits.run (Goes.lowerExprWith sound tidy).moves ih.fitting
    · exact (Goes.lowerExprWith sound tidy).leaves ih (tracked.less (.refl _) (Set.empty_subset _)) ran

/-! ## Starting anywhere -/

/-- A program in which variables may have any names. -/
def Vocabulary.any (env : Env) : Vocabulary where
  env := env
  names _ := True
  tidy defn _ := .any defn

/-- Where a computation stands that starts in a state and may use some join points. -/
def LowerState.standing (s : LowerState) (anchored : Prop) (joins : Set Nat) : Standing where
  context := s.context
  held := True
  anchored := anchored
  base := s.joins.size
  depth := 0
  joins := joins
  blocks := ∅
  scopes := Set.univ
  roots := Set.univ
  fresh := ∅
  numbers := ∅

theorem LowerState.standing_sound {s : LowerState} {anchored : Prop} {joins : Set Nat}
    (covers : s.context.Over Set.univ Set.univ joins fun _ => True) :
    (s.standing anchored joins).Sound (.any env) :=
  covers.mono subset_rfl subset_rfl Set.subset_union_left fun block _ => .any block

end CallLowering
