import CallLowering.Proofs.Running

/-!
# The calling convention

A position in the argument list of a definition stands for the receiver, for a parameter, for a
special variable or for the block. `Definition.roles` lists what the positions stand for. The
prototype, the argument list at a call site, the function of the definition and its inlined body all
follow this list, position by position (`Definition.Agrees`).
-/

namespace CallLowering

open Lower Definition

/-- What a position in an argument list stands for. -/
inductive Role where
  | self
  | formal (index : Nat) (param : Param)
  | special (state : Param)
  | block

/-- A row of parameters, the first of which has the given index. -/
def Role.formals : (first : Nat) → List Param → List Role
  | _, [] => []
  | first, param :: params => .formal first param :: formals (first + 1) params

namespace Definition

/-- What the positions in the argument list of a definition stand for, the block excepted. -/
def plainRoles (defn : Definition) : List Role :=
  (if defn.takesReceiver then [.self] else []) ++ Role.formals 0 defn.fixedParams ++
    defn.specialVars.map .special ++ Role.formals defn.fixedArity defn.trailingParams

/-- What the positions in the argument list of a definition stand for. -/
def roles (defn : Definition) : List Role :=
  defn.plainRoles ++ if defn.blockArg then [.block] else []

end Definition

namespace Lower

variable (inner : Expr → Lower ValueId) (call : Call) (defn : Definition)

/-! ## The convention, position by position -/

/-- The representation of what a position stands for. -/
def roleType (types : TypeTable) : Role → MachineType
  | .self => types.flowType defn.owner
  | .formal _ param => paramType types defn param.ty
  | .special _ => .ptr
  | .block => closureType

/-- The argument that a call passes at a position. -/
def roleArgument : Role → Lower ValueId
  | .self => do
    let (value, ty) ← receiverValue inner call
    if ty.isNil then nilValue
    else
      match defn.owner with
      | .metaclass _ => return value
      | owner => coerce value ty owner
  | .formal index param => uniformArg inner call defn param call.args[index]?
  | .special state => specialAddress state call.loc
  | .block =>
    match call.block with
    | some block => materialize inner block
    | none => nilValue

/-- The arguments that a call passes. A receiver that the callee does not take is only evaluated. -/
def roleArguments (roles : List Role) : Lower (List ValueId) := do
  if defn.takesReceiver then roles.mapM (roleArgument inner call defn)
  else
    lowerIgnoredReceiver inner call.obj
    roles.mapM (roleArgument inner call defn)

/-- Binds the value at a position to what the position stands for. -/
def bindRole (missing : Fault) (loc : Location) : Role → Option ValueId → Lower Unit
  | .self, value => setContext fun context =>
      { context with selfBinding := value.map fun value => .value value defn.owner }
  | .formal _ param, value => bindParam param.name param.ty value defn.primitive loc
  | .special state, value => do
    declare state.name (.slot (← orFault value missing loc) state.ty)
  | .block, _ => return ()

/-- Binds the values from a position on. -/
def bindRoles (missing : Fault) (loc : Location) (values : List ValueId) :
    (position : Nat) → List Role → Lower Unit
  | _, [] => return ()
  | position, role :: roles => do
    bindRole defn missing loc role values[position]?
    bindRoles missing loc values (position + 1) roles

/-- Calls the function of a definition by its roles. -/
def callByRoles : Lower CallOutcome := do
  let values ← roleArguments inner call defn defn.roles
  let func ← declareDefinition defn
  report (.call defn.name values.length)
  let result ← callOrInvoke func values defn none
  uniformReturn defn result

/-- Lowers a definition into a function by its roles. -/
def functionByRoles : Lower FuncId := do
  let body ← orFault defn.body (.noBody defn.name) defn.loc
  report (.loweringFunction defn.name)
  let func ← declareDefinition defn
  let values ← beginRoutine func
  let context ← freshContext defn.name
  modify fun state => { state with closures := 0 }
  withContext { context with selfTy := defn.owner } do
    bindRoles defn .specialNotInParameters defn.loc values 0 defn.roles
    let value ← lowerExpr body
    emitReturn value body.ty defn.ret
  return func

/-- Lowers a call by inlining the callee by its roles. -/
def inlineByRoles (block : Block) (body : Expr) : Lower CallOutcome := do
  report (.inliningBlock defn.name)
  let values ← roleArguments inner call defn defn.roles
  let ty := Ty.merge (defn.ret :: block.breakTy.toList)
  let join ← openJoin ty
  let callee ← calleeContext defn block none join
  withContext callee do
    bindRoles defn .specialNotInArguments call.loc values 0 defn.roles
    let value ← inner body
    addToJoin join value body.ty
  let value ← closeJoinOrNil join
  if ← isTerminated then return ⟨value, .noReturn⟩ else return ⟨value, ty⟩

variable {inner call defn}

/-! ## The prototype -/

theorem formals_types (types : TypeTable) (first : Nat) (params : List Param) :
    (Role.formals first params).map (roleType defn types) =
      params.map fun param => paramType types defn param.ty := by
  induction params generalizing first with
  | nil => rfl
  | cons param params ih => rw [Role.formals, List.map_cons, ih, List.map_cons, roleType]

/-- The prototype lists the representations of the roles. -/
theorem prototype_params (types : TypeTable) :
    (prototype types defn).params = defn.roles.map (roleType defn types) := by
  unfold prototype roles plainRoles
  simp only [List.map_append, formals_types, List.map_map]
  cases defn.takesReceiver <;> cases defn.blockArg <;> rfl

/-! ## The argument list -/

/-- The receiver is passed at the type of the owner. -/
theorem lowerReceiver_eq (taken : defn.takesReceiver = true) : lowerReceiver inner call defn =
      (fun value => some (value, defn.owner)) <$> roleArgument inner call defn .self := by
  unfold lowerReceiver roleArgument
  rw [if_pos taken, map_bind]
  refine bind_congr fun (value, ty) => ?_
  dsimp only
  split
  · rw [map_eq_pure_bind]
  · cases defn.owner <;> simp only [map_eq_pure_bind, pure_bind]

theorem uniformArgsFor_eq (params : List Param) (first : Nat) :
    uniformArgsFor inner call defn params (call.args.drop first) =
      (Role.formals first params).mapM (roleArgument inner call defn) := by
  induction params generalizing first with
  | nil => rfl
  | cons param params ih =>
    rw [uniformArgsFor, Role.formals, List.mapM_cons, List.head?_drop, List.tail_drop, ih]
    rfl

/-- The argument list goes through the roles. -/
theorem uniformArgs_eq (few : call.args.length ≤ defn.params.length) :
    uniformArgs inner call defn = do
      let values ← roleArguments inner call defn defn.plainRoles
      return ⟨values, if defn.takesReceiver then values.head?.map (·, defn.owner) else none⟩ := by
  have fixed : uniformArgsFor inner call defn defn.fixedParams call.args = _ :=
    uniformArgsFor_eq defn.fixedParams 0
  have never : ¬call.args.length > defn.params.length := Nat.not_lt.mpr few
  unfold uniformArgs roleArguments plainRoles
  simp only [if_neg never, fixed, uniformArgsFor_eq]
  cases taken : defn.takesReceiver with
  | true =>
    rw [lowerReceiver_eq taken]
    simp only [if_true, List.mapM_append, List.mapM_cons, List.mapM_nil, List.mapM_map, bind_assoc,
      pure_bind, bind_map_left, Option.map_some, Option.toList_some]
    rfl
  | false =>
    have untaken : lowerReceiver inner call defn = do
        lowerIgnoredReceiver inner call.obj
        return none := by
      unfold lowerReceiver
      rw [taken]
      rfl
    rw [untaken]
    simp only [Bool.false_eq_true, if_false, List.mapM_append, List.mapM_map, bind_assoc,
      pure_bind, Option.map_none, Option.toList_none, List.nil_append]
    rfl

/-- The block is passed last. -/
theorem roleArguments_roles :
    roleArguments inner call defn defn.roles = do
      let values ← roleArguments inner call defn defn.plainRoles
      return values ++ (← blockArgument inner call defn) := by
  have block : (if defn.blockArg then [Role.block] else []).mapM (roleArgument inner call defn) =
      blockArgument inner call defn := by
    unfold blockArgument
    cases defn.blockArg with
    | true =>
      cases given : call.block with
      | none => simp [roleArgument, given]
      | some => simp [roleArgument, given]
    | false => rfl
  unfold roleArguments roles
  simp only [List.mapM_append, block]
  split
  · rfl
  · rw [bind_assoc]

section Length

variable {env : Env} {s s' : LowerState} {roles : List Role} {values : List ValueId}

theorem mapM_length {α β : Type} {act : α → Lower β} {as : List α} {bs : List β}
    (ran : as.mapM act env s = .ok bs s') : bs.length = as.length := by
  induction as generalizing bs s with
  | nil =>
    cases ran
    rfl
  | cons a as ih =>
    rw [List.mapM_cons] at ran
    obtain ⟨_, _, _, ran1⟩ := bind_ok ran
    obtain ⟨_, _, others, ran2⟩ := bind_ok ran1
    cases ran2
    rw [List.length_cons, List.length_cons, ih others]

/-- There is one argument for every role. -/
theorem roleArguments_length (ran : roleArguments inner call defn roles env s = .ok values s') :
    values.length = roles.length := by
  unfold roleArguments at ran
  split at ran
  · exact mapM_length ran
  · obtain ⟨_, _, _, ran1⟩ := bind_ok ran
    exact mapM_length ran1

variable {args : CallArgs}

/-- A call with more arguments than parameters is refused. -/
theorem uniformArgs_refused (many : defn.params.length < call.args.length) :
    uniformArgs inner call defn env s ≠ .ok args s' := by
  intro ran
  unfold uniformArgs at ran
  obtain ⟨_, _, _, ran1⟩ := bind_ok ran
  rw [if_pos many] at ran1
  cases ran1

theorem uniformArgs_length (ran : uniformArgs inner call defn env s = .ok args s') :
    args.values.length = defn.plainRoles.length := by
  by_cases few : call.args.length ≤ defn.params.length
  · rw [uniformArgs_eq few] at ran
    obtain ⟨_, _, built, ran1⟩ := bind_ok ran
    cases ran1
    exact roleArguments_length built
  · exact absurd ran (uniformArgs_refused (Nat.not_le.mp few))

/-- The arguments of a call fit the prototype of its target. -/
theorem arguments_length {block : List ValueId} {s1 s2 : LowerState}
    (built : uniformArgs inner call defn env s = .ok args s')
    (passed : blockArgument inner call defn env s1 = .ok block s2) (types : TypeTable) :
    (args.values ++ block).length = (prototype types defn).params.length := by
  have sized : block.length = (if defn.blockArg then [Role.block] else []).length := by
    unfold blockArgument at passed
    split at passed
    · rename_i taken
      rw [if_pos taken]
      cases given : call.block with
      | none | some =>
        rw [given] at passed
        obtain ⟨_, _, _, passed1⟩ := bind_ok passed
        cases passed1
        rfl
    · rename_i untaken
      cases passed
      rw [if_neg untaken]
      rfl
  rw [prototype_params, List.length_map, roles, List.length_append, List.length_append,
    uniformArgs_length built, sized]

end Length

/-- A call that is not substituted goes on to the call instruction. -/
theorem substitute?_eq {args : CallArgs} (called : defn.isSubstituted = false)
    (taken : args.receiver.isSome = true → defn.takesReceiver = true) :
    substitute? defn args = pure none := by
  unfold isSubstituted at called
  unfold substitute?
  cases foreign : defn.isForeign with
  | true => rfl
  | false =>
    cases bodied : defn.body with
    | none => rfl
    | some body =>
      rw [foreign, bodied] at called
      simp only [Bool.not_false, Bool.true_and, Bool.or_eq_false_iff] at called
      obtain ⟨complex, unread⟩ := called
      obtain ⟨kind, ty, loc⟩ := body
      have trivial : trivialBody defn.ret ⟨kind, ty, loc⟩ args.receiver = pure none := by
        unfold trivialBody
        rw [complex, Bool.and_false, if_neg Bool.false_ne_true]
        cases kind with
        | selfRef | field =>
          cases received : args.receiver with
          | none => rfl
          | some receiver =>
            rw [received] at taken
            rw [taken rfl] at unread
            cases unread
        | nil | bool | char | string | int | float | symbol => cases complex
        | _ => rfl
      rw [if_neg Bool.false_ne_true]
      dsimp only
      rw [trivial, pure_bind]

/-- A call is made by the roles of its target. -/
theorem lowerUniform_eq (few : call.args.length ≤ defn.params.length)
    (called : defn.isSubstituted = false) :
    lowerUniform inner call defn = callByRoles inner call defn := by
  unfold lowerUniform callByRoles
  rw [uniformArgs_eq few, roleArguments_roles]
  simp only [bind_assoc, pure_bind]
  refine bind_congr fun _ => ?_
  rw [substitute?_eq called fun received => ?_, pure_bind]
  cases taken : defn.takesReceiver with
  | true => rfl
  | false =>
    rw [taken] at received
    cases received

/-! ## The bound values -/

variable {missing : Fault} {loc : Location} {values : List ValueId}

theorem bindRoles_append (position : Nat) (roles roles' : List Role) :
    bindRoles defn missing loc values position (roles ++ roles') =
      bindRoles defn missing loc values position roles >>= fun _ =>
        bindRoles defn missing loc values (position + roles.length) roles' := by
  induction roles generalizing position with
  | nil => rfl
  | cons role roles ih =>
    rw [List.cons_append, bindRoles, bindRoles, ih, bind_assoc, List.length_cons,
      Nat.add_comm roles.length, ← Nat.add_assoc]

theorem formals_length (first : Nat) (params : List Param) :
    (Role.formals first params).length = params.length := by
  induction params generalizing first with
  | nil => rfl
  | cons param params ih => rw [Role.formals, List.length_cons, ih, List.length_cons]

theorem bindParams_eq (missing : Fault) (params : List Param) (first position : Nat) :
    bindParams defn loc params (values.drop position) = do
      bindRoles defn missing loc values position (Role.formals first params)
      return values.drop (position + params.length) := by
  induction params generalizing first position with
  | nil => rfl
  | cons param params ih =>
    rw [bindParams, Role.formals, bindRoles, List.head?_drop, List.tail_drop, ih (first + 1),
      bind_assoc, List.length_cons, Nat.add_comm params.length, ← Nat.add_assoc]
    rfl

theorem bindSpecials_eq (defn : Definition) (specials : List Param) (position : Nat) :
    bindSpecials missing loc specials (values.drop position) = do
      bindRoles defn missing loc values position (specials.map .special)
      return values.drop (position + specials.length) := by
  induction specials generalizing position with
  | nil => rfl
  | cons special specials ih =>
    rw [bindSpecials, List.map_cons, bindRoles, List.head?_drop, List.tail_drop, ih, bindRole]
    simp only [bind_assoc]
    rw [List.length_cons, Nat.add_comm specials.length, ← Nat.add_assoc]

/-- The values behind the receiver are bound by the roles. -/
theorem bindArguments_eq (position : Nat) : bindArguments defn missing loc (values.drop position) =
      bindRoles defn missing loc values position (Role.formals 0 defn.fixedParams ++
        defn.specialVars.map .special ++ Role.formals defn.fixedArity defn.trailingParams) := by
  unfold bindArguments
  rw [bindParams_eq missing defn.fixedParams 0, bindRoles_append, bindRoles_append]
  simp only [bind_assoc, pure_bind]
  refine bind_congr fun _ => ?_
  rw [bindSpecials_eq defn]
  simp only [bind_assoc, pure_bind, formals_length]
  refine bind_congr fun _ => ?_
  rw [bindParams_eq missing defn.trailingParams defn.fixedArity, List.length_append, List.length_map,
    formals_length, ← Nat.add_assoc]
  simp [Functor.discard, map_const]

/-- The receiver is bound first, where there is one. -/
theorem bindRoles_roles :
    bindRoles defn missing loc values 0 defn.roles =
      if defn.takesReceiver then
        setContext (fun context =>
          { context with selfBinding := values.head?.map fun value => .value value defn.owner }) >>=
          fun _ => bindArguments defn missing loc values.tail
      else bindArguments defn missing loc values := by
  have blockless : ∀ position roles,
      bindRoles defn missing loc values position (roles ++ if defn.blockArg then [.block] else []) =
        bindRoles defn missing loc values position roles := by
    intro position roles
    rw [bindRoles_append]
    cases defn.blockArg with
    | true =>
      simp [bindRoles, bindRole]
    | false =>
      simp [bindRoles]
  unfold roles plainRoles
  rw [blockless]
  cases defn.takesReceiver with
  | true =>
    rw [if_pos rfl, if_pos rfl, ← List.drop_one, bindArguments_eq, List.head?_eq_getElem?]
    rfl
  | false =>
    have all : bindArguments defn missing loc values = _ := bindArguments_eq 0
    rw [all]
    rfl

/-- A definition is lowered by its roles. -/
theorem lowerFunction_eq : lowerFunction defn = functionByRoles defn := by
  unfold lowerFunction functionByRoles functionContext functionBody
  refine bind_congr fun _ => bind_congr fun _ => bind_congr fun _ => bind_congr fun _ => ?_
  rw [bindRoles_roles]
  cases defn.takesReceiver with
  | true =>
    simp only [if_true, bind_assoc, pure_bind]
    rfl
  | false =>
    simp

/-- A callee is inlined by its roles. -/
theorem lowerInlined_eq {block : Block} {body : Expr} (few : call.args.length ≤ defn.params.length)
    (given : call.block = some block) (bodied : defn.body = some body)
    (domestic : defn.foreign = none) (yielding : defn.blockArg = false) :
    lowerInlined inner call defn = inlineByRoles inner call defn block body := by
  have isForeign : defn.isForeign = false := by rw [isForeign, domestic]; rfl
  have roles : defn.roles = defn.plainRoles := by
    rw [roles, yielding]
    exact List.append_nil _
  unfold lowerInlined inlineByRoles inlinedBody calleeContext
  rw [given, bodied]
  dsimp only
  rw [isForeign, if_neg Bool.false_ne_true, uniformArgs_eq few]
  simp only [bind_assoc, pure_bind, bindRoles_roles]
  rw [roles]
  refine bind_congr fun _ => bind_congr fun values => bind_congr fun _ => bind_congr fun _ =>
    bind_congr fun _ => ?_
  cases defn.takesReceiver with
  | true =>
    cases values with
    | nil => rfl
    | cons value values => rfl
  | false => rfl

end Lower

/-! ## Agreement -/

variable {defn : Definition} {index : Nat} {param : Param}

theorem Role.mem_formals {first : Nat} {params : List Param} :
    Role.formal index param ∈ Role.formals first params ↔
      first ≤ index ∧ params[index - first]? = some param := by
  induction params generalizing first with
  | nil => simp [Role.formals]
  | cons param' params ih =>
    rw [Role.formals, List.mem_cons, ih, Role.formal.injEq]
    rcases Nat.lt_trichotomy index first with before | rfl | after
    · constructor
      · rintro (⟨rfl, _⟩ | ⟨later, _⟩) <;> omega
      · rintro ⟨later, _⟩
        omega
    · simp [eq_comm]
    · obtain ⟨offset, rfl⟩ := Nat.exists_eq_add_of_lt after
      have apart : first + offset + 1 ≠ first := by omega
      have next : first + offset + 1 - (first + 1) = offset := by omega
      have here : first + offset + 1 - first = offset + 1 := by omega
      rw [next, here, List.getElem?_cons_succ]
      simp only [apart, false_and, false_or]
      constructor
      · rintro ⟨_, found⟩
        exact ⟨by omega, found⟩
      · rintro ⟨_, found⟩
        exact ⟨by omega, found⟩

/-- Every parameter has a position, which stands for it under its index. -/
theorem Definition.formal_mem_roles :
    Role.formal index param ∈ defn.roles ↔ defn.params[index]? = some param := by
  have self : Role.formal index param ∉ (if defn.takesReceiver then [Role.self] else []) := by
    split <;> simp
  have block : Role.formal index param ∉ (if defn.blockArg then [Role.block] else []) := by
    split <;> simp
  have special : Role.formal index param ∉ defn.specialVars.map Role.special := by simp
  simp only [roles, plainRoles, List.mem_append, self, block, special, false_or, or_false,
    Role.mem_formals, fixedParams, trailingParams, Nat.zero_le, true_and, Nat.sub_zero,
    List.getElem?_take, List.getElem?_drop]
  by_cases fixed : index < defn.fixedArity
  · have before : ¬defn.fixedArity ≤ index := by omega
    simp [fixed]
  · have trailing : defn.fixedArity ≤ index := by omega
    have place : defn.fixedArity + (index - defn.fixedArity) = index := by omega
    simp [trailing]

/-- The prototype of a definition, the argument list at a call site, the function of the definition
and its inlined body agree on what the positions stand for. -/
structure Definition.Agrees (defn : Definition) : Prop where
  formals : ∀ index param, Role.formal index param ∈ defn.roles ↔ defn.params[index]? = some param
  prototype : ∀ types,
    (prototype types defn).params = defn.roles.map (roleType defn types)
  arguments : ∀ inner call, call.args.length ≤ defn.params.length → (do
      let args ← uniformArgs inner call defn
      return args.values ++ (← blockArgument inner call defn)) =
    roleArguments inner call defn defn.roles
  refused : ∀ inner call env s args s', defn.params.length < call.args.length →
    uniformArgs inner call defn env s ≠ .ok args s'
  call : ∀ inner call, call.args.length ≤ defn.params.length → defn.isSubstituted = false →
    lowerUniform inner call defn = callByRoles inner call defn
  function : lowerFunction defn = functionByRoles defn
  inlined : ∀ inner call block body, call.args.length ≤ defn.params.length →
    call.block = some block → defn.body = some body → defn.blockArg = false →
    lowerInlined inner call defn = inlineByRoles inner call defn block body

theorem Definition.agrees (domestic : defn.foreign = none) : defn.Agrees where
  formals _ _ := formal_mem_roles
  prototype := prototype_params
  arguments inner call few := by
    rw [uniformArgs_eq few, roleArguments_roles, bind_assoc]
    simp
  refused inner call env s args s' many := uniformArgs_refused many
  call _ _ := lowerUniform_eq
  function := lowerFunction_eq
  inlined _ _ _ _ few given bodied := lowerInlined_eq few given bodied domestic

end CallLowering
