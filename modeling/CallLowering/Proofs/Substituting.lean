import CallLowering.Proofs.Unneeded

/-!
# Trivial bodies stand for their calls

A call of a definition whose body is a literal, `self` or a field read is lowered to the value of the
body. That is what comes of lowering the body itself, with the receiver as `self`, and converting the
value to what the definition returns: the same answer or error and the same code
(`Lower.substitute?_seen`).

Most of what is done for a trivial body depends on the code only (`Lower.Blind`), so that the two ways
agree although their contexts and their reports differ.
-/

namespace CallLowering

/-- The type of a literal; numbers have the type they are annotated with. -/
def ExprKind.literalTy (annotated : Ty) : ExprKind → Ty
  | .nil => .nil
  | .bool _ => .bool
  | .char _ => .char
  | .string _ => .string
  | .symbol _ => .symbol
  | _ => annotated

/-- The body of a definition is a literal, `self` or a field read that is annotated with its own type,
and the receiver was built if the body needs it. -/
inductive Definition.Trivial (types : TypeTable) (defn : Definition)
    (receiver : Option (ValueId × Ty)) : Expr → Prop where
  | literal {kind ty loc} (literal : kind.isLiteral = true)
      (natural : ty = kind.literalTy ty) (returns : defn.ret.isNil = false) :
      Trivial types defn receiver ⟨kind, ty, loc⟩
  | selfRead {self loc} (given : receiver = some (self, defn.owner))
      (real : defn.owner.hasValue = true) : Trivial types defn receiver ⟨.selfRef, defn.owner, loc⟩
  | fieldRead {self name ty loc}
      (given : receiver = some (self, defn.owner))
      (natural : ∀ index field, types.fieldIndex? defn.owner name = some (index, field) →
        ty = field.ty) : Trivial types defn receiver ⟨.field name, ty, loc⟩

namespace Lower

variable {α β : Type}

/-- What is seen of a computation in the code: its answer or its error, and the code it leaves. -/
def seen (act : Lower α) (env : Env) (s : LowerState) : Except LowerError α × Recording :=
  match act env s with
  | .ok a s' => (.ok a, s'.code)
  | .error error s' => (.error error, s'.code)

/-- The body is lowered in another context, and its value converted to the given type. -/
def inPlace (context : Context) (body : Expr) (ret : Ty) : Lower (Option ValueId) := do
  let value ← withContext context (lowerExpr body)
  return some (← coerce value body.ty ret)

/-- What is seen of the computation depends on the code only. -/
class Blind (act : Lower α) : Prop where
  seen : ∀ {env : Env} {s t : LowerState}, s.code = t.code → act.seen env s = act.seen env t

variable {act act' : Lower α} {next next' : α → Lower β} {env : Env} {s t : LowerState}

theorem seen_bind (first : act.seen env s = act'.seen env t)
    (rest : ∀ a s' t', s'.code = t'.code → (next a).seen env s' = (next' a).seen env t') :
    (act >>= next).seen env s = (act' >>= next').seen env t := by
  have ran : ∀ (act : Lower α) (next : α → Lower β) s, (act >>= next).seen env s =
      match act env s with
      | .ok a s' => (next a).seen env s'
      | .error error s' => (.error error, s'.code) := by
    intro act next s
    cases ran : act env s with
    | ok => rw [seen, bind_of_ok ran]; rfl
    | error => rw [seen, bind_of_error ran]
  rw [ran, ran]
  unfold seen at first
  revert first
  cases act env s <;> cases act' env t <;> intro first
  · obtain ⟨answer, same⟩ := Prod.mk.inj first
    cases answer
    exact rest _ _ _ same
  · cases (Prod.mk.inj first).1
  · cases (Prod.mk.inj first).1
  · obtain ⟨answer, same⟩ := Prod.mk.inj first
    cases answer
    exact congrArg (Prod.mk (Except.error _)) same

theorem seen_withContext {context : Context} :
    (withContext context act).seen env s = act.seen env { s with context := context } := by
  unfold seen
  rw [withContext_run, around]
  cases act env { s with context := context } <;> rfl

namespace Blind

instance (a : α) : Blind (pure a : Lower α) := ⟨fun same => congrArg (Prod.mk (Except.ok a)) same⟩

instance {error : LowerError} : Blind (throw error : Lower α) :=
  ⟨fun same => congrArg (Prod.mk (Except.error error)) same⟩

instance [first : act.Blind] [rest : ∀ a, (next a).Blind] : (act >>= next).Blind :=
  ⟨fun same => seen_bind (first.seen same) fun a _ _ => (rest a).seen⟩

instance {c : Prop} [Decidable c] {yes no : Lower α} [yes.Blind] [no.Blind] :
    (if c then yes else no).Blind := by
  split <;> infer_instance

instance {value : Option α} {cause : Fault} {loc : Location} : (orFault value cause loc).Blind := by
  cases value with
  | none => exact inferInstanceAs (Blind (throw _))
  | some a => exact inferInstanceAs (Blind (pure a))

instance : types.Blind := ⟨fun same => congrArg (Prod.mk (Except.ok _)) same⟩

instance (act : Emit α) : (record act).Blind where
  seen {env s t} same := by
    have ran : ∀ s : LowerState, (record act).seen env s = match act s.code with
        | .ok a code => (.ok a, code)
        | .error error code => (.error (.backend (.record error)), code) := by
      intro s
      unfold Lower.seen record
      cases act s.code <;> rfl
    rw [ran, ran, same]

instance {op : Operation} : (emit op).Blind := by unfold emit; infer_instance

instance {value : Constant} : (constant value).Blind := by unfold constant; infer_instance

instance {value : ValueId} {source dest : Ty} : (coerce value source dest).Blind := by
  unfold coerce isTerminated; infer_instance

instance {owner : Ty} {self : ValueId} {name : String} {loc : Location} :
    (loadField owner self name loc).Blind := by
  unfold loadField fieldAddress loadSlot nilValue; infer_instance

end Blind

variable {defn : Definition} {receiver : Option (ValueId × Ty)} {body : Expr} {context : Context}

theorem lowerExpr_running (env : Env) (body : Expr) (running : s.code.isTerminated = false) : ∃ depth,
    lowerExpr body env s = lowerKind (lowerExprWithin depth) body.kind body.ty body.loc env s := by
  have positive : 0 < env.program.nestingBound body := Nat.pow_pos (Nat.succ_pos _)
  obtain ⟨depth, bound⟩ := Nat.exists_eq_succ_of_ne_zero positive.ne'
  refine ⟨depth, ?_⟩
  change lowerExprWithin (env.program.nestingBound body) body env s = _
  rw [bound, lowerExprWithin, lowerExprWith]
  have asked : isTerminated env s = .ok false s := by
    rw [← running]
    rfl
  rw [bind_of_ok asked, if_neg Bool.false_ne_true]

theorem coerce_self (value : ValueId) (ty : Ty) : coerce value ty ty = pure value := by
  rw [coerce, if_pos (beq_self_eq_true ty)]

/-- A field that is read has the type it was declared with. -/
theorem loadField_ty {owner : Ty} {self : ValueId} {name : String} {loc : Location}
    {found : ValueId × Ty} (ran : loadField owner self name loc env s = .ok found t) :
    ∃ index field, env.program.types.fieldIndex? owner name = some (index, field) ∧
      found.2 = field.ty := by
  obtain ⟨⟨_, _⟩, _, addressed, loaded⟩ := bind_ok ran
  obtain ⟨_, _, _, done⟩ := bind_ok loaded
  cases done
  obtain ⟨_, _, known, addressed⟩ := bind_ok addressed
  cases known
  obtain ⟨⟨index, field⟩, _, present, addressed⟩ := bind_ok addressed
  obtain ⟨_, _, _, done⟩ := bind_ok addressed
  cases done
  exact ⟨index, field, (orFault_ok present).1, rfl⟩

/-- What comes after a computation matters where it succeeds only. -/
theorem bind_congr_ok (same : ∀ a s', act env s = .ok a s' → next a env s' = next' a env s') :
    (act >>= next) env s = (act >>= next') env s := by
  cases ran : act env s with
  | ok a s' => rw [bind_of_ok ran, bind_of_ok ran, same a s' ran]
  | error => rw [bind_of_error ran, bind_of_error ran]

/-- A literal is a constant, whether it is looked up or lowered. -/
theorem literalValue?_constant (inner : Expr → Lower ValueId) (loc : Location)
    {kind : ExprKind} {ty : Ty} (literal : kind.isLiteral = true)
    (natural : ty = kind.literalTy ty) :
    ∃ value, lowerKind inner kind ty loc = constant value ∧
      literalValue? kind ty = some (constant value >>= fun v => pure (v, ty)) := by
  cases kind with
  | int | float => cases ty <;> exact ⟨_, rfl, rfl⟩
  | nil | bool | char | string | symbol =>
    rw [natural]
    exact ⟨_, rfl, rfl⟩
  | _ => cases literal

/-- A trivial body has one value, whether it is looked up or lowered. -/
theorem trivialBody_value (inner : Expr → Lower ValueId)
    (trivial : defn.Trivial env.program.types receiver body)
    (self : ∀ found ∈ receiver, context.selfBinding = some (.value found.1 found.2)) :
    ∃ (value : Lower ValueId) (shape : BodyShape), value.Blind ∧
      (∀ s, trivialBody defn.ret body receiver env s =
        (value >>= fun v => pure (some (v, body.ty, shape))) env s) ∧
      ∀ s : LowerState, s.context = context →
        lowerKind inner body.kind body.ty body.loc env s = value env s := by
  cases trivial with
  | @literal kind ty loc literal natural returns =>
    obtain ⟨value, lowered, looked⟩ := literalValue?_constant inner loc literal natural
    refine ⟨constant value, .literal, inferInstance, fun s => ?_, fun s _ => by rw [lowered]⟩
    unfold trivialBody
    dsimp only
    rw [returns, Bool.false_and, if_neg Bool.false_ne_true, looked]
    simp
  | @selfRead v loc given real =>
    subst given
    refine ⟨pure v, .selfRead, inferInstance, fun s => ?_, fun s here => ?_⟩
    · have proper : (defn.ret.isNil && ExprKind.selfRef.isLiteral) = false := Bool.and_false _
      unfold trivialBody literalValue?
      dsimp only
      rw [proper, if_neg Bool.false_ne_true, if_pos real]
      rfl
    · subst here
      change (orFault s.context.selfBinding .noSelf loc >>= readBinding) env s = _
      rw [self (v, defn.owner) rfl]
      rfl
  | @fieldRead v name ty loc given natural =>
    subst given
    have typed : ∀ {s t found}, loadField defn.owner v name loc env s = .ok found t →
        found.2 = ty := fun ran => by
      obtain ⟨index, field, present, same⟩ := loadField_ty ran
      exact same.trans (natural index field present).symm
    refine ⟨loadField defn.owner v name loc >>= fun found => pure found.1, .fieldRead, inferInstance,
      fun s => ?_, fun s here => ?_⟩
    · have proper : (defn.ret.isNil && (ExprKind.field name).isLiteral) = false := Bool.and_false _
      unfold trivialBody literalValue?
      dsimp only
      rw [proper, if_neg Bool.false_ne_true, bind_assoc]
      exact bind_congr_ok fun found s' ran => by
        rw [← typed ran]
        rfl
    · subst here
      have known : selfInstance loc env s = .ok (defn.owner, v) s := by
        change (orFault s.context.selfBinding .noSelf loc >>= fun binding => do
          return (binding.ty, ← readBinding binding)) env s = _
        rw [self (v, defn.owner) rfl]
        rfl
      refine (bind_of_ok known).trans (bind_congr_ok fun found s' ran => ?_)
      obtain ⟨value, fieldTy⟩ := found
      have same : fieldTy = ty := typed ran
      subst same
      exact congrFun₂ (coerce_self value fieldTy) env s'

/-- A trivial body that stands for its call gives what lowering the body gives: the same answer or the
same error, and the same code. -/
theorem substitute?_seen {args : CallArgs} (domestic : defn.isForeign = false)
    (bodied : defn.body = some body)
    (trivial : defn.Trivial env.program.types args.receiver body)
    (self : ∀ found ∈ args.receiver, context.selfBinding = some (.value found.1 found.2))
    (running : s.code.isTerminated = false) :
    (substitute? defn args).seen env s = (inPlace context body defn.ret).seen env s := by
  obtain ⟨depth, lowered⟩ := lowerExpr_running env body
    (s := { s with context := context }) running
  obtain ⟨value, shape, blind, looked, found⟩ :=
    trivialBody_value (lowerExprWithin depth) trivial self
  have taken : substitute? defn args env s = (value >>= fun v => do
      report (.substituted defn.name shape)
      return some (← coerce v body.ty defn.ret)) env s := by
    have same : ∀ next : Option (ValueId × Ty × BodyShape) → Lower (Option ValueId),
        (trivialBody defn.ret body args.receiver >>= next) env s =
          (value >>= fun v => next (some (v, body.ty, shape))) env s := by
      intro next
      change EStateM.bind (trivialBody defn.ret body args.receiver env) _ s = _
      unfold EStateM.bind
      rw [looked]
      cases ran : value env s with
      | ok => rw [bind_of_ok ran, bind_of_ok ran]; rfl
      | error => rw [bind_of_error ran, bind_of_error ran]
    unfold substitute?
    rw [domestic, if_neg Bool.false_ne_true, bodied]
    exact same _
  have placed : (withContext context (lowerExpr body)).seen env s = value.seen env s := by
    rw [seen_withContext, seen, lowered, found _ rfl]
    exact blind.seen rfl
  rw [seen, taken]
  have converted : ∀ v, Blind (do return some (← coerce v body.ty defn.ret)) :=
    fun v => inferInstance
  exact seen_bind placed.symm fun v s' _ same =>
    (converted v).seen (s := { s' with events := s'.events.push (.substituted defn.name shape) }) same

/-- A getter of a pair gives a narrower integer than the field has, so that the field is read and
converted. -/
theorem substitute?_seen_getter :
    let defn : Definition := { Definition.ofSignature "left" (.struct "Pair") [] (.int 32 true) with
      body := some (.ofKind (.field "left") (.int 64 true)) }
    let s : LowerState := { LowerState.fetching with
      code := ((Recording.empty .x86_64 Program.fetching.types).declare
        ⟨"left", [.ptr], .int 32, none, false⟩).2.begun ⟨0⟩ 1 }
    let seen := (substitute? defn ⟨[⟨0⟩], some (⟨0⟩, .struct "Pair")⟩).seen ⟨.fetching, .default⟩ s
    (seen.2.instructionsIn ⟨0⟩).length = 3 ∧
      seen = (inPlace { s.context with selfBinding := some (.value ⟨0⟩ (.struct "Pair")) }
        (.ofKind (.field "left") (.int 64 true)) (.int 32 true)).seen ⟨.fetching, .default⟩ s := by
  refine ⟨by decide +kernel, substitute?_seen rfl rfl (.fieldRead rfl ?_) ?_ (by decide +kernel)⟩
  · rintro index field (found : _ = _)
    cases found
    rfl
  · rintro _ ⟨⟩
    rfl

end Lower

end CallLowering
