import CallLowering.Proofs.Lockstep

/-!
# Values and arguments in lockstep

What lowering does with values, arguments and foreign calls in two coupled runs, function by
function. Nested expressions are lowered in both runs by functions that are in lockstep themselves
(`Coupling.Handles`).
-/

namespace CallLowering

open Lower

namespace Coupling

variable {W : Type} [Preorder W] {C : Coupling W} {w : Stage W}

/-- Two ways to lower nested expressions are in lockstep. -/
def Handles (C : Coupling W) (inner1 inner2 : Expr → Lower ValueId) : Prop :=
  ∀ w expr1 expr2, C.SameExpr expr1 expr2 → C.Runs w (inner1 expr1) (inner2 expr2) C.Value

/-- Values with a type that correspond. -/
def Typed (C : Coupling W) (w : Stage W) (found1 found2 : ValueId × Ty) : Prop :=
  C.Value w found1.1 found2.1 ∧ found1.2 = found2.2

theorem Typed.mono {w' : Stage W} {found1 found2 : ValueId × Ty} (later : w ≤ w')
    (same : C.Typed w found1 found2) : C.Typed w' found1 found2 :=
  ⟨same.1.mono later, same.2⟩

/-- Outcomes of calls that correspond. -/
def SameOutcome (C : Coupling W) (w : Stage W) (outcome1 outcome2 : CallOutcome) : Prop :=
  C.Value w outcome1.value outcome2.value ∧ outcome1.ty = outcome2.ty

/-- Argument lists that correspond. -/
structure SameArgs (C : Coupling W) (w : Stage W) (args1 args2 : CallArgs) : Prop where
  values : C.Values w args1.values args2.values
  receiver : Option.Rel (C.Typed w) args1.receiver args2.receiver

theorem SameBinding.ty_eq {b1 b2 : Binding} (same : C.SameBinding w b1 b2) : b1.ty = b2.ty := by
  cases same <;> rfl

namespace SameExpr

variable {expr1 expr2 : Expr} (same : C.SameExpr expr1 expr2)

include same

theorem ty_eq : expr1.ty = expr2.ty := by cases same <;> rfl

theorem loc_eq : expr1.loc = expr2.loc := by cases same <;> rfl

theorem isSideEffectFree_eq :
    expr1.kind.isSideEffectFree = expr2.kind.isSideEffectFree := by cases same <;> rfl

end SameExpr

namespace SameCall

variable {call1 call2 : Call} (same : C.SameCall call1 call2)

include same

theorem receiver : Option.Rel C.SameExpr call1.obj call2.obj := by
  cases same
  assumption

theorem passed : List.Forall₂ C.SameExpr call1.args call2.args := by
  cases same
  assumption

theorem loc_eq : call1.loc = call2.loc := by
  cases same
  rfl

end SameCall

variable {α β : Type} {R : α → β → Prop} {x : Option α} {y : Option β} {xs : List α} {ys : List β}
  {body : Expr}

theorem rel_or {x' : Option α} {y' : Option β} (first : Option.Rel R x y)
    (second : Option.Rel R x' y') : Option.Rel R (x.or x') (y.or y') := by
  cases first with
  | none => exact second
  | some first => exact .some first

theorem head_rel (rows : List.Forall₂ R xs ys) : Option.Rel R xs.head? ys.head? := by
  cases rows with
  | nil => exact .none
  | cons first _ => exact .some first

theorem toList_rel (related : Option.Rel R x y) : List.Forall₂ R x.toList y.toList := by
  cases related with
  | none => exact .nil
  | some related => exact .cons related .nil

/-! ## Definitions -/

namespace Sound

variable (sound : C.Sound)

include sound

variable {cls : ArgClass} {call1 call2 : Call} {defn : Definition} {params : List Param}
  {loc : Location} {param special : Param} {name : String} {ret ty : Ty} {p1 p2 v1 v2 : ValueId}

section

variable (target : C.calls defn)

include target

theorem param_shown (member : param ∈ defn.params) : C.SameName param.name param.name := by
  refine (sound.clean target).shown (List.mem_append_left _ (List.mem_append_left _ ?_))
  exact List.mem_map_of_mem member

theorem special_shown (member : special ∈ defn.specialVars) :
    C.SameName special.name special.name := by
  refine (sound.clean target).shown (List.mem_append_left _ (List.mem_append_right _ ?_))
  exact List.mem_map_of_mem member

theorem default_clean {value : Expr} (member : param ∈ defn.params)
    (defaulted : param.default? = some (.expr value)) : C.Clean value.variables := by
  refine (sound.clean target).mono (List.subset_append_of_subset_right _ fun _ named => ?_)
  obtain ⟨part, inside, mentioned⟩ := List.mem_flatMap.mp named
  refine List.mem_flatMap.mpr ⟨part, List.mem_append_right _ ?_, mentioned⟩
  exact List.mem_flatMap.mpr ⟨param, member, by rw [defaulted]; exact inside⟩

theorem body_clean (bodied : defn.body = some body) : C.Clean body.variables := by
  refine (sound.clean target).mono (List.subset_append_of_subset_right _ fun _ named => ?_)
  obtain ⟨part, inside, mentioned⟩ := List.mem_flatMap.mp named
  refine List.mem_flatMap.mpr ⟨part, List.mem_append_left _ ?_, mentioned⟩
  rw [bodied, Expr.optionParts]
  exact inside

end

/-! ## Values -/

theorem intConstant {value : Int64} :
    C.Runs w (intConstant ty value) (intConstant ty value) C.Value := by
  unfold Lower.intConstant
  split <;> exact .constant sound

theorem floatConstant {value : Float} :
    C.Runs w (floatConstant ty value) (floatConstant ty value) C.Value := by
  unfold Lower.floatConstant
  split <;> exact .constant sound

theorem tagConstant : C.Runs w (tagConstant ty loc) (tagConstant ty loc) C.Value := by
  refine .types_bind sound (Runs.orFault_same.bind ?_)
  rintro w1 tag _ _ ⟨_, rfl⟩
  exact .constant sound

variable {arg1 arg2 : Expr} {args1 args2 : List Expr} {vs1 vs2 : List ValueId} {formal : Option Ty}
  {owner source : Ty}

section

variable (value : C.Value w v1 v2)

include value

theorem coerce {dest : Ty} : C.Runs w (coerce v1 source dest) (coerce v2 source dest) C.Value := by
  refine .ite (fun _ => .pure value) fun _ => ?_
  refine .isTerminated_bind sound fun _ => .ite (fun _ => .pure value) fun _ => ?_
  exact .ite (fun _ => .pure value) fun _ => .emit sound (.convert value)

theorem storeSlot (ptr : C.Value w p1 p2) :
    C.Runs w (storeSlot v1 p1 ty) (storeSlot v2 p2 ty) fun _ _ _ => True := by
  refine .ite (fun _ => .types_bind sound (sound.emitEffect (.copy ptr value))) fun _ => ?_
  exact .ite (fun _ => .pure trivial) fun _ => sound.emitEffect (.store value ptr)

theorem spill : C.Runs w (spill v1 ty name) (spill v2 ty name) C.Value := by
  refine .types_bind sound (Runs.bind (.emit sound .alloca) fun later1 slot => ?_)
  refine (sound.storeSlot (value.mono later1) slot).andThen fun later2 => ?_
  exact .pure (slot.mono later2)

theorem emitReturn :
    C.Runs w (emitReturn v1 source ret) (emitReturn v2 source ret)
      fun _ _ _ => True := by
  refine .isTerminated_bind sound fun _ => .ite (fun _ => .pure trivial) fun _ => ?_
  refine .ite (fun _ => sound.emitEffect .unreachable) fun _ => .types_bind sound ?_
  refine .ite (fun _ => sound.emitEffect (.ret .none)) fun _ => ?_
  refine (sound.coerce value).bind fun _ value => ?_
  refine .ite (fun _ => .types_bind sound ?_) fun _ => sound.emitEffect (.ret (.some value))
  refine Runs.bind (.emit sound (.load value)) fun _ loaded => ?_
  exact sound.emitEffect (.ret (.some loaded))

/-! ## Arguments -/

end

theorem loadSlot (ptr : C.Value w p1 p2) : C.Runs w (loadSlot p1 ty) (loadSlot p2 ty) C.Value := by
  refine .ite (fun _ => .pure ptr) fun _ => .ite (fun _ => sound.nilValue) fun _ => ?_
  exact .types_bind sound (.emit sound (.load ptr))

theorem readBinding {b1 b2 : Binding} (binding : C.SameBinding w b1 b2) :
    C.Runs w (readBinding b1) (readBinding b2) C.Value := by
  cases binding with
  | slot ptr => exact sound.loadSlot ptr
  | value value => exact .pure value

theorem fieldAddress (ptr : C.Value w p1 p2) :
    C.Runs w (fieldAddress owner p1 name loc) (fieldAddress owner p2 name loc)
      C.Typed := by
  refine .types_bind sound (Runs.orFault_same.bind ?_)
  rintro w1 ⟨index, field⟩ _ later1 ⟨_, rfl⟩
  refine Runs.bind (.emit sound (.fieldPtr (ptr.mono later1))) fun _ address => ?_
  exact .pure ⟨address, rfl⟩

theorem loadField (ptr : C.Value w p1 p2) :
    C.Runs w (loadField owner p1 name loc) (loadField owner p2 name loc) C.Typed := by
  refine (sound.fieldAddress ptr).bind ?_
  rintro w1 ⟨a1, ty⟩ ⟨a2, _⟩ _ ⟨address, rfl⟩
  exact (sound.loadSlot address).bind fun _ value => .pure ⟨value, rfl⟩

/-- The instances that `self` is in both runs. -/
theorem selfInstance :
    C.Runs w (selfInstance loc) (selfInstance loc) fun w found1 found2 =>
      found1.1 = found2.1 ∧ C.Value w found1.2 found2.2 := by
  refine .context_bind fun _ _ context => ?_
  refine (Runs.orFault context.here.self fun _ => rfl).bind fun later1 binding => ?_
  exact (sound.readBinding (binding.mono later1)).bind fun _ value =>
    .pure ⟨binding.ty_eq, value⟩

omit sound in
theorem implicitReceiver (same : C.SameCall call1 call2) :
    C.Runs w (implicitReceiver call1) (implicitReceiver call2) C.SameBinding := by
  obtain ⟨_, _, _⟩ := same
  refine .ite (fun _ => ?_) fun _ => ?_
  all_goals refine .context_bind fun _ _ context => ?_
  · exact (Runs.orFault context.here.withScope fun _ => rfl).mono fun later found =>
      found.mono later
  · exact (Runs.orFault context.here.self fun _ => rfl).mono fun later found =>
      found.mono later

theorem magicConstant (same : C.SameCall call1 call2) :
    C.Runs w (magicConstant name call1 ty) (magicConstant name call2 ty) C.Value := by
  obtain ⟨_, _, _⟩ := same
  unfold magicConstant
  split
  · exact sound.intConstant
  · exact sound.intConstant
  · refine .program_bind ?_
    rw [sound.file]
    exact .constant sound
  · refine .program_bind ?_
    rw [sound.file]
    exact .constant sound
  · exact .fault fun _ => rfl

theorem passArgument (value : C.Value w v1 v2) :
    C.Runs w (passArgument defn param v1 ty) (passArgument defn param v2 ty)
      C.Value := by
  refine (sound.coerce value).bind fun _ value => ?_
  exact .ite (fun _ => .types_bind sound (.emit sound (.load value))) fun _ => .pure value

theorem specialAddress (named : C.SameName special.name special.name) :
    C.Runs w (specialAddress special loc) (specialAddress special loc) C.Value := by
  refine .context_bind fun _ _ context => ?_
  refine (Runs.lookup named).bind @fun _ b1 b2 later1 nearest => .get_bind fun _ _ states => ?_
  have functionScope := context.here.functionScope.mono later1
  have found := rel_or nearest (states.scopes.lookupLocal? functionScope named)
  dsimp only
  revert found
  generalize b1.or _ = found1
  generalize b2.or _ = found2
  rintro ((ptr | _) | _)
  · exact .pure ptr
  · exact .fault fun _ => rfl
  · refine .types_bind sound (Runs.bind (.emit sound .alloca) fun later2 ptr => ?_)
    refine (Runs.declareIn (functionScope.mono later2) named (.slot ptr)).andThen ?_
    exact fun later3 => .pure (ptr.mono later3)

theorem specialAddresses (target : C.calls defn) :
    C.Runs w (defn.specialVars.mapM fun special => Lower.specialAddress special loc)
      (defn.specialVars.mapM fun special => Lower.specialAddress special loc) C.Values :=
  .mapM (fun later value => value.mono later) fun _ _ _ member =>
    sound.specialAddress (sound.special_shown target member)

variable {inner1 inner2 : Expr → Lower ValueId} {missing : Fault}

section

variable (handles : C.Handles inner1 inner2)

include handles

variable {expr1 expr2 : Expr}

theorem lowerUsed (same : C.SameExpr expr1 expr2) :
    C.Runs w (lowerUsed inner1 expr1) (lowerUsed inner2 expr2) C.Value :=
  .withNeedsValue sound (handles w _ _ same)

theorem lowerUnused (same : C.SameExpr expr1 expr2) :
    C.Runs w (lowerUnused inner1 expr1) (lowerUnused inner2 expr2) C.Value :=
  .withNeedsValue sound (handles w _ _ same)

theorem lowerIgnoredReceiver {obj1 obj2 : Option Expr} (same : Option.Rel C.SameExpr obj1 obj2) :
    C.Runs w (lowerIgnoredReceiver inner1 obj1) (lowerIgnoredReceiver inner2 obj2)
      fun _ _ _ => True := by
  cases same with
  | none => exact .pure trivial
  | @some obj1 obj2 same =>
    simp only [Lower.lowerIgnoredReceiver, same.isSideEffectFree_eq]
    exact .ite (fun _ => .pure trivial) fun _ => (sound.lowerUnused handles same).discard

variable (same : C.SameCall call1 call2)

include same

theorem receiverValue :
    C.Runs w (receiverValue inner1 call1) (receiverValue inner2 call2) C.Typed := by
  have receiver := same.receiver
  unfold Lower.receiverValue
  revert receiver
  generalize call1.obj = obj1
  generalize call2.obj = obj2
  rintro (receiver | _)
  · exact (sound.lowerUsed handles receiver).bind fun _ value =>
      .pure ⟨value, receiver.ty_eq⟩
  · refine (implicitReceiver same).bind fun _ binding => ?_
    exact (sound.readBinding binding).bind fun _ value => .pure ⟨value, binding.ty_eq⟩

theorem lowerReceiver :
    C.Runs w (lowerReceiver inner1 call1 defn) (lowerReceiver inner2 call2 defn)
      fun w => Option.Rel (C.Typed w) := by
  refine .ite (fun _ => ?_) fun _ => ?_
  · refine (sound.receiverValue handles same).bind ?_
    rintro w1 ⟨v1, ty⟩ ⟨v2, _⟩ _ ⟨value, rfl⟩
    refine .ite (fun _ => ?_) fun _ => ?_
    · exact sound.nilValue.bind fun _ nil => .pure (.some ⟨nil, rfl⟩)
    · generalize defn.owner = owner
      cases owner with
      | metaclass => exact .pure (.some ⟨value, rfl⟩)
      | _ =>
        exact (sound.coerce value).bind fun _ coerced => .pure (.some ⟨coerced, rfl⟩)
  · refine (sound.lowerIgnoredReceiver handles same.receiver).andThen fun _ => ?_
    exact .pure .none

variable (target : C.calls defn)

include target

theorem uniformArg {arg1 arg2 : Option Expr} (member : param ∈ defn.params)
    (passed : Option.Rel C.SameExpr arg1 arg2) :
    C.Runs w (uniformArg inner1 call1 defn param arg1)
      (uniformArg inner2 call2 defn param arg2) C.Value := by
  cases passed with
  | @some arg1 arg2 passed =>
    refine (sound.lowerUsed handles passed).bind fun _ value => ?_
    rw [passed.ty_eq]
    exact sound.passArgument value
  | none =>
    unfold Lower.uniformArg
    dsimp only
    cases defaulted : param.default? with
    | none =>
      obtain ⟨_, _, _⟩ := same
      exact .fault fun _ => rfl
    | some default =>
      cases default with
      | magic name => exact sound.magicConstant same
      | expr value =>
        refine (sound.lowerUsed handles (.same (sound.default_clean target member defaulted))).bind ?_
        exact fun _ value => sound.passArgument value

theorem uniformArgsFor (members : params ⊆ defn.params)
    (passed : List.Forall₂ C.SameExpr args1 args2) :
    C.Runs w (uniformArgsFor inner1 call1 defn params args1)
      (uniformArgsFor inner2 call2 defn params args2) C.Values := by
  induction params generalizing w args1 args2 with
  | nil => exact .pure .nil
  | cons param params ih =>
    obtain ⟨member, members⟩ := List.cons_subset.mp members
    refine (sound.uniformArg handles same target member (head_rel passed)).bind ?_
    intro w1 v1 v2 _ value
    refine (ih members (tail_rel passed)).bind fun later2 values => ?_
    exact .pure (.cons (value.mono later2) values)

theorem uniformArgs :
    C.Runs w (Lower.uniformArgs inner1 call1 defn) (Lower.uniformArgs inner2 call2 defn)
      C.SameArgs := by
  refine (sound.lowerReceiver handles same).bind fun _ receiver => ?_
  rw [same.passed.length_eq, same.loc_eq]
  refine .ite (fun _ => .fault fun _ => rfl) fun _ => ?_
  refine (sound.uniformArgsFor handles same target (List.take_subset _ _) same.passed).bind ?_
  intro w2 fixed1 fixed2 later2 fixed
  refine (sound.specialAddresses target).bind fun later3 specials => ?_
  refine (sound.uniformArgsFor handles same target (List.drop_subset _ _)
    (List.forall₂_drop _ same.passed)).bind fun later4 trailing => ?_
  have later := (later2.trans later3).trans later4
  refine .pure ⟨?_, rel_imp receiver fun _ _ => .mono later⟩
  refine List.rel_append (List.rel_append (List.rel_append ?_ ?_) ?_) trailing
  · cases receiver with
    | none => exact .nil
    | some receiver => exact .cons (receiver.1.mono later) .nil
  · exact fixed.mono (later3.trans later4)
  · exact specials.mono later4

end

theorem declareDefinition (target : C.calls defn) (inside : defn.foreign = none) :
    C.Runs w (declareDefinition defn) (declareDefinition defn)
      fun w => C.Func w defn.name :=
  .types_bind sound (sound.declareFn (sound.definition target inside))

theorem bindParam {v1 v2 : Option ValueId} {primitive : Bool} (named : C.SameName name name)
    (value : Option.Rel (C.Value w) v1 v2) :
    C.Runs w (bindParam name ty v1 primitive loc) (bindParam name ty v2 primitive loc)
      fun _ _ _ => True := by
  refine (Runs.orFault value fun _ => rfl).bind fun later1 value => ?_
  have value := value.mono later1
  refine .ite (fun _ => .declare named (.value value)) fun _ => .types_bind sound ?_
  refine Runs.bind (.emit sound .alloca) fun later2 slot => ?_
  refine .ite (fun _ => .declare named (.slot slot)) fun _ => ?_
  refine (sound.emitEffect (.store (value.mono later2) slot)).andThen fun later3 => ?_
  exact .declare named (.slot (slot.mono later3))

theorem bindParams (named : ∀ param ∈ params, C.SameName param.name param.name)
    (values : C.Values w vs1 vs2) :
    C.Runs w (bindParams defn loc params vs1) (bindParams defn loc params vs2)
      C.Values := by
  induction params generalizing w vs1 vs2 with
  | nil => exact .pure values
  | cons param params ih =>
    obtain ⟨first, rest⟩ := List.forall_mem_cons.mp named
    refine (sound.bindParam first (head_rel values)).andThen fun later1 => ?_
    exact ih rest (Values.mono later1 (tail_rel values))

omit sound in
theorem bindSpecials {specials : List Param}
    (named : ∀ special ∈ specials, C.SameName special.name special.name)
    (values : C.Values w vs1 vs2) : C.Runs w (bindSpecials missing loc specials vs1)
      (bindSpecials missing loc specials vs2) C.Values := by
  induction specials generalizing w vs1 vs2 with
  | nil => exact .pure values
  | cons special specials ih =>
    obtain ⟨first, rest⟩ := List.forall_mem_cons.mp named
    refine (Runs.orFault (head_rel values) fun _ => rfl).bind fun later1 ptr => ?_
    refine (Runs.declare first (.slot (ptr.mono later1))).andThen fun later2 => ?_
    exact ih rest (Values.mono (later1.trans later2) (tail_rel values))

theorem bindArguments (target : C.calls defn) (values : C.Values w vs1 vs2) :
    C.Runs w (bindArguments defn missing loc vs1) (bindArguments defn missing loc vs2)
      fun _ _ _ => True := by
  refine (sound.bindParams (fun param member =>
    sound.param_shown target (List.mem_of_mem_take member)) values).bind fun _ values => ?_
  refine (bindSpecials (fun _ => sound.special_shown target) values).bind
    fun _ values => ?_
  exact (sound.bindParams (fun _ member =>
    sound.param_shown target (List.mem_of_mem_drop member)) values).discard

/-! ## Call instructions -/

theorem callOrInvoke {f1 f2 : FuncId} {args1 args2 : List ValueId} {conv : Option CallConv}
    (func : C.Func w name f1 f2) (args : C.Values w args1 args2) :
    C.Runs w (callOrInvoke f1 args1 defn conv) (callOrInvoke f2 args2 defn conv)
      C.Value := by
  refine .context_bind fun c1 c2 context => ?_
  have handler := head_rel context.here.handlers
  revert handler
  generalize c1.handlers.head? = handler1
  generalize c2.handlers.head? = handler2
  rintro (handler | _)
  · refine .ite (fun _ => ?_) fun _ => .emit sound (.call ⟨_, func⟩ args)
    refine (Runs.newBlock sound).bind fun later1 normal => ?_
    refine (Runs.emit sound (.invoke ⟨_, func.mono later1⟩ (args.mono later1) normal
      (handler.mono later1))).bind fun later2 value => ?_
    refine (Runs.position sound (normal.mono later2)).andThen fun later3 => ?_
    exact .pure (value.mono later3)
  · exact .emit sound (.call ⟨_, func⟩ args)

theorem neverReturns : C.Runs w neverReturns neverReturns C.SameOutcome := by
  refine (sound.emitEffect .unreachable).andThen fun _ => ?_
  exact sound.nilValue.bind fun _ nil => .pure ⟨nil, rfl⟩

/-! ## Trivial bodies -/

theorem literalValue {kind : ExprKind} {literal : Lower (ValueId × Ty)}
    (found : literalValue? kind ty = some literal) : C.Runs w literal literal C.Typed := by
  have typed : ∀ {value : Lower ValueId} {ty : Ty}, C.Runs w value value C.Value →
      C.Runs w (do return (← value, ty)) (do return (← value, ty)) C.Typed := fun value =>
    value.bind fun _ value => .pure ⟨value, rfl⟩
  cases kind with
  | nil =>
    cases found
    exact typed (sound.nilValue)
  | bool | char | string | symbol =>
    cases found
    exact typed (.constant sound)
  | int =>
    cases found
    exact typed sound.intConstant
  | float =>
    cases found
    exact typed sound.floatConstant
  | _ => cases found

theorem trivialBody {r1 r2 : Option (ValueId × Ty)} (receiver : Option.Rel (C.Typed w) r1 r2) :
    C.Runs w (trivialBody ret body r1) (trivialBody ret body r2)
      fun w => Option.Rel fun found1 found2 =>
        C.Value w found1.1 found2.1 ∧ found1.2 = found2.2 := by
  obtain ⟨kind, ty, _⟩ := body
  refine .ite (fun _ => ?_) fun _ => ?_
  · exact sound.nilValue.bind @fun w1 _ _ _ nil => .pure (.some ⟨nil, rfl⟩)
  cases literal : literalValue? kind ty with
  | some _ =>
    refine (sound.literalValue literal).bind ?_
    rintro w1 ⟨v1, ty⟩ ⟨v2, _⟩ _ ⟨value, rfl⟩
    exact .pure (.some ⟨value, rfl⟩)
  | none =>
    cases receiver with
    | none => cases kind <;> exact .pure Option.Rel.none
    | @some r1 r2 receiver =>
      obtain ⟨_, _⟩ := r1
      obtain ⟨_, _⟩ := r2
      obtain ⟨value, rfl⟩ := receiver
      cases kind with
      | selfRef =>
        refine .ite (fun _ => .pure (.some ⟨value, rfl⟩)) fun _ => ?_
        exact sound.tagConstant.bind @fun w1 _ _ _ tag => .pure (.some ⟨tag, rfl⟩)
      | field name =>
        refine (sound.loadField value).bind ?_
        rintro w1 ⟨f1, ty⟩ ⟨f2, _⟩ _ ⟨field, rfl⟩
        exact .pure (.some ⟨field, rfl⟩)
      | _ => exact .pure Option.Rel.none

theorem substitute {args1 args2 : CallArgs} (args : C.SameArgs w args1 args2) :
    C.Runs w (substitute? defn args1) (substitute? defn args2)
      fun w => Option.Rel (C.Value w) := by
  refine .ite (fun _ => .pure .none) fun _ => ?_
  cases defn.body with
  | none => exact .pure .none
  | some body =>
    refine (sound.trivialBody args.receiver).bind @fun _ found1 found2 _ found => ?_
    cases found with
    | none => exact .pure .none
    | @some found1 found2 found =>
      obtain ⟨_, _, _⟩ := found1
      obtain ⟨_, _⟩ := found2
      obtain ⟨value, rfl⟩ := found
      refine (Runs.report sound).andThen fun later2 => ?_
      exact (sound.coerce (value.mono later2)).bind fun _ coerced => .pure (.some coerced)

/-! ## Foreign calls -/

theorem outAddress {target : Expr} (clean : C.Clean (ExprKind.out target).mentions) :
    C.Runs w (outAddress target) (outAddress target) C.Value := by
  obtain ⟨kind, _, _⟩ := target
  cases kind with
  | var name =>
    have named : C.SameName name name := clean.shown List.mem_cons_self
    refine (Runs.lookup named).bind @fun w1 _ _ _ found => ?_
    obtain (⟨ptr⟩ | _) | _ := found
    · exact .pure ptr
    · exact .fault fun _ => rfl
    · refine .types_bind sound (Runs.bind (.emit sound .alloca) @fun w2 p1 p2 _ ptr => ?_)
      exact (Runs.declare named (.slot ptr)).andThen fun later3 => .pure (ptr.mono later3)
  | field name =>
    refine sound.selfInstance.bind ?_
    rintro w1 ⟨owner, p1⟩ ⟨_, p2⟩ _ ⟨rfl, ptr⟩
    exact (sound.fieldAddress ptr).bind fun _ address => .pure address.1
  | discard => exact .types_bind sound (.emit sound .alloca)
  | _ => exact .fault fun _ => rfl

omit sound in
theorem capturesSelf_eq {b1 b2 : Option Binding} (same : Option.Rel (C.SameBinding w) b1 b2) :
    capturesSelf b1 = capturesSelf b2 := by
  cases same with
  | none => rfl
  | some same => exact congrArg Ty.hasValue same.ty_eq

omit sound in
theorem isContextFree_eq {b1 b2 : Option Binding} (self : Option.Rel (C.SameBinding w) b1 b2)
    (same : C.SameExpr arg1 arg2) : isContextFree b1 arg1 = isContextFree b2 arg2 := by
  cases same with
  | same =>
    unfold isContextFree
    rw [capturesSelf_eq self]
  | read => rfl

theorem fillBuffer {b1 b2 : ValueId} (buffer : C.Value w b1 b2) (value : C.Value w v1 v2) :
    C.Runs w (fillBuffer b1 v1 ty cls) (fillBuffer b2 v2 ty cls) fun _ _ _ => True :=
  .ite (fun _ => sound.emitEffect (.copy buffer value)) fun _ =>
    sound.emitEffect (.store value buffer)

theorem passByClass (value : C.Value w v1 v2) :
    C.Runs w (passByClass v1 ty cls) (passByClass v2 ty cls)
      fun w => Option.Rel (C.Value w) := by
  unfold Lower.passByClass
  cases cls.kind with
  | ignore => exact .pure .none
  | indirect =>
    refine Runs.bind (.emit sound .alloca) @fun w1 b1 b2 later1 buffer => ?_
    refine (sound.fillBuffer buffer (value.mono later1)).andThen fun later2 => ?_
    exact .pure (.some (buffer.mono later2))
  | direct =>
    dsimp only
    cases cls.cast with
    | some cast =>
      refine Runs.bind (.emit sound .alloca) fun later1 buffer => ?_
      refine (sound.fillBuffer buffer (value.mono later1)).andThen fun later2 => ?_
      exact Runs.bind (.emit sound (.load (buffer.mono later2))) fun _ loaded =>
        .pure (.some loaded)
    | none =>
      refine .ite (fun _ => ?_) fun _ => .pure (.some value)
      exact Runs.bind (.emit sound (.load value)) fun _ loaded => .pure (.some loaded)

theorem foreignReturn {r1 r2 : ValueId} {s1 s2 : Option ValueId} (result : C.Value w r1 r2)
    (slot : Option.Rel (C.Value w) s1 s2) :
    C.Runs w (foreignReturn r1 cls s1 ret loc) (foreignReturn r2 cls s2 ret loc)
      C.Value := by
  unfold Lower.foreignReturn
  cases cls.kind with
  | indirect => exact (Runs.orFault slot fun _ => rfl).mono fun later value => value.mono later
  | ignore =>
    refine .types_bind sound ?_
    exact .ite (fun _ => .fault fun _ => rfl) fun _ => sound.nilValue
  | direct =>
    dsimp only
    cases cls.cast with
    | some cast =>
      refine Runs.bind (.emit sound .alloca) fun later1 buffer => ?_
      refine (sound.emitEffect (.store (result.mono later1) buffer)).andThen
        fun later2 => ?_
      refine Runs.bind (.emit sound .alloca) fun later3 value => ?_
      refine (sound.emitEffect (.copy value (buffer.mono (later2.trans later3)))).andThen
        fun later4 => ?_
      have value := value.mono later4
      exact .ite (fun _ => .pure value) fun _ => .emit sound (.load value)
    | none =>
      refine .ite (fun _ => ?_) fun _ => .pure result
      refine Runs.bind (.emit sound .alloca) fun later1 storage => ?_
      refine (sound.emitEffect (.store (result.mono later1) storage)).andThen
        fun later2 => ?_
      exact .pure (storage.mono later2)

theorem returnSlot :
    C.Runs w (returnSlot cls) (returnSlot cls) fun w => Option.Rel (C.Value w) := by
  refine .ite (fun _ => ?_) fun _ => .pure .none
  exact Runs.bind (.emit sound .alloca) fun _ slot => .pure (.some slot)

omit sound in
theorem promoted_eq (same : List.Forall₂ C.SameExpr args1 args2) :
    args1.map (·.ty.promoted) = args2.map (·.ty.promoted) := by
  induction same with
  | nil => rfl
  | cons first _ ih => rw [List.map_cons, List.map_cons, first.ty_eq, ih]

variable (handles : C.Handles inner1 inner2)

include handles

theorem foreignValue (same : C.SameExpr arg1 arg2) :
    C.Runs w (foreignValue inner1 arg1 formal) (foreignValue inner2 arg2 formal)
      C.Typed := by
  refine (sound.lowerUsed handles same).bind fun _ value => ?_
  rw [same.ty_eq]
  cases formal with
  | some formal =>
    exact (sound.coerce value).bind fun _ coerced => .pure ⟨coerced, rfl⟩
  | none =>
    dsimp only
    cases arg2.ty.promotion? with
    | some promotion =>
      exact Runs.bind (.emit sound (.cast value)) fun _ cast => .pure ⟨cast, rfl⟩
    | none => exact .pure ⟨value, rfl⟩

theorem foreignArg (same : C.SameExpr arg1 arg2) :
    C.Runs w (foreignArg inner1 arg1 formal) (foreignArg inner2 arg2 formal)
      C.Typed := by
  rw [foreignArg.eq_def inner2]
  split
  · rename_i target out
    cases same with
    | read => cases out
    | same clean =>
      have clean : C.Clean (ExprKind.out target).mentions :=
        out ▸ clean.mono (Expr.mentions_subset arg1)
      rw [foreignArg.eq_def, out]
      exact (sound.outAddress clean).bind @fun w1 _ _ _ address => .pure ⟨address, rfl⟩
  rename_i other
  rw [foreignArg.eq_def inner1]
  split
  · rename_i target out
    cases same with
    | read => cases out
    | same => exact absurd out (other target)
  refine .context_bind fun c1 c2 context => ?_
  rw [isContextFree_eq context.here.self same, same.ty_eq, same.loc_eq]
  refine .ite (fun _ => .throw fun _ => rfl) fun _ => .ite (fun _ => ?_) fun _ => ?_
  · refine (sound.lowerUnused handles same).discard.andThen @fun w1 _ _ _ => ?_
    exact (Runs.constant sound).bind fun _ null => .pure ⟨null, rfl⟩
  · refine (sound.foreignValue handles same).bind ?_
    rintro w1 ⟨v1, ty⟩ ⟨v2, _⟩ _ ⟨value, rfl⟩
    refine .ite (fun _ => .types_bind sound ?_) fun _ => .pure ⟨value, rfl⟩
    exact Runs.bind (.emit sound (.extractValue value)) fun _ code => .pure ⟨code, rfl⟩

theorem foreignArgs {classes : List ArgClass}
    (same : List.Forall₂ C.SameExpr args1 args2) :
    C.Runs w (foreignArgs inner1 args1 classes params)
      (foreignArgs inner2 args2 classes params) C.Values := by
  induction same generalizing w classes params with
  | nil => cases classes <;> exact .pure .nil
  | cons first _ ih =>
    cases classes with
    | nil => exact .pure .nil
    | cons cls classes =>
      refine (sound.foreignArg handles first).bind ?_
      rintro w1 ⟨v1, ty⟩ ⟨v2, _⟩ _ ⟨value, rfl⟩
      refine (sound.passByClass value).bind fun _ passed => ?_
      refine ih.bind fun later3 rest => .pure (List.rel_append ?_ rest)
      exact Values.mono later3 (toList_rel passed)

theorem lowerForeign (same : C.SameCall call1 call2)
    (target : C.calls defn) :
    C.Runs w (lowerForeign inner1 call1 defn) (lowerForeign inner2 call2 defn)
      C.SameOutcome := by
  unfold Lower.lowerForeign
  rw [same.loc_eq, same.passed.length_eq]
  refine Runs.orFault_same.bind ?_
  rintro w1 spec _ _ ⟨foreign, rfl⟩
  refine (sound.lowerIgnoredReceiver handles same.receiver).andThen fun _ => ?_
  dsimp only
  rw [promoted_eq (List.forall₂_drop _ same.passed)]
  refine .ite (fun _ => .fault fun _ => rfl) fun _ => ?_
  refine (sound.classification _ _ target).bind ?_
  rintro w3 known _ _ ⟨rfl, declares⟩
  refine sound.returnSlot.bind @fun _ s1 s2 _ slot => ?_
  refine (sound.foreignArgs handles same.passed).bind @fun w5 passed1 passed2 later5 passed => ?_
  have slot := rel_imp slot fun _ _ => Value.mono later5
  have args : C.Values w5 (s1.toList ++ passed1) (s2.toList ++ passed2) :=
    List.rel_append (toList_rel slot) passed
  refine (sound.declareFn (declares spec foreign)).bind fun later6 func => ?_
  rw [args.length_eq]
  refine (Runs.report sound).andThen fun later7 => ?_
  have later := later6.trans later7
  refine (sound.callOrInvoke (func.mono later7) (args.mono later)).bind
    fun later8 result => ?_
  refine .ite (fun _ => sound.neverReturns) fun _ => ?_
  exact (sound.foreignReturn result (rel_imp slot fun _ _ => .mono (later.trans later8))).bind
    fun _ value => .pure ⟨value, rfl⟩

end Sound

end Coupling

end CallLowering
