import CallLowering.Proofs.Storage

/-!
# Receivers and arguments

Building the argument list of a call evaluates the receiver, the arguments in order and then the
defaults of the omitted ones, and answers available values (`uniformArgs_does`). Binding the
values inside a callee records plain code only (`bindArguments_does`).
-/

namespace CallLowering

open Evaluation Param

/-! ## What is evaluated for a row of parameters -/

/-- The expression evaluated for a parameter: the argument, or else the default. -/
def Param.evaluated (param : Param) (arg : Option Expr) : List Expr :=
  match arg with
  | some arg => [arg]
  | none => param.defaultExpr?.toList

/-- The expressions evaluated for a row of parameters; those passed come first. -/
def Param.row : List Param → List Expr → List Expr
  | [], _ => []
  | param :: params, args => param.evaluated args.head? ++ row params args.tail

theorem Param.row_append (params params' : List Param) (args : List Expr) :
    row (params ++ params') args = row params args ++ row params' (args.drop params.length) := by
  induction params generalizing args with
  | nil => rfl
  | cons param params ih =>
    rw [List.cons_append, row, row, ih, List.append_assoc, List.length_cons, List.drop_tail]

/-- Without arguments the defaults are evaluated. -/
theorem Param.row_nil (params : List Param) : row params [] = params.filterMap defaultExpr? := by
  induction params with
  | nil => rfl
  | cons param params ih =>
    rw [row, List.tail_nil, ih, List.filterMap_cons]
    unfold evaluated
    cases param.defaultExpr? <;> rfl

/-- The arguments are evaluated in order, then the defaults of the omitted parameters. -/
theorem Param.row_eq (params : List Param) (args : List Expr)
    (enough : args.length ≤ params.length) :
    row params args = args ++ row (params.drop args.length) [] := by
  induction args generalizing params with
  | nil => rfl
  | cons arg args ih =>
    cases params with
    | nil => exact absurd enough (Nat.not_succ_le_zero _)
    | cons param params => exact congrArg (arg :: ·) (ih params (Nat.le_of_succ_le_succ enough))

namespace Definition

theorem fixedArity_le (defn : Definition) : defn.fixedArity ≤ defn.params.length := by
  unfold fixedArity
  cases found : defn.params.findIdx? isMagic with
  | none => exact Nat.le_refl _
  | some index => exact Nat.le_of_lt (List.findIdx?_eq_some_iff_getElem.mp found).1

/-- The fixed and the trailing parameters together evaluate the arguments in order, then the
defaults of the omitted ones. -/
theorem row_fixed_append_trailing (defn : Definition) (args : List Expr)
    (enough : args.length ≤ defn.params.length) :
    row defn.fixedParams args ++ row defn.trailingParams (args.drop defn.fixedArity) =
      args ++ defn.omitted args.length := by
  have arity : defn.fixedParams.length = defn.fixedArity :=
    List.length_take_of_le defn.fixedArity_le
  rw [omitted, ← row_nil, ← row_eq _ _ enough, ← arity, ← row_append]
  congr 1
  exact List.take_append_drop _ _

end Definition

theorem Evaluation.all_append (inner : Activation → Nat → Expr → Effect) (activation : Activation)
    (frames : Nat) (exprs exprs' : List Expr) : all inner activation frames (exprs ++ exprs') =
      all inner activation frames exprs * all inner activation frames exprs' := by
  induction exprs with
  | nil => exact (one_mul _).symm
  | cons expr exprs ih => rw [List.cons_append, all, all, ih, mul_assoc]

theorem Evaluation.all_singleton (inner : Activation → Nat → Expr → Effect)
    (activation : Activation) (frames : Nat) (expr : Expr) :
    all inner activation frames [expr] = inner activation frames expr := by
  rw [all, all, mul_one]

/-! ## Building an argument list -/

namespace Lower

variable {Γ : Scenario} {σ : Setting} {known : Known} {s : LowerState}
  {inner : Expr → Lower ValueId} {meaning : Activation → Nat → Expr → Effect}
  {call : Call} {defn : Definition}

theorem lowerIgnoredReceiver_does (handles : Handles Γ inner meaning)
    (lowerable : ∀ obj ∈ call.obj, Γ.Lowerable σ obj) (ignored : defn.takesReceiver = false) :
    Does Γ σ (receiver meaning σ.context.activation σ.frames call defn) known s
      (lowerIgnoredReceiver inner call.obj) fun _ _ _ => True := by
  unfold lowerIgnoredReceiver receiver
  cases present : call.obj with
  | none => exact .pure trivial
  | some obj =>
    simp only [ignored, Bool.not_false, Bool.true_and]
    by_cases free : obj.kind.isSideEffectFree = true
    · rw [if_pos free, if_pos free]
      exact .pure trivial
    · rw [if_neg free, if_neg free]
      exact .discard (handles.unused (lowerable obj present))

theorem implicitReceiver_does : Does Γ σ 1 known s (implicitReceiver call) fun known' s' binding =>
      Γ.Avail σ known' s' binding.ref := by
  unfold implicitReceiver
  refine .ready fun ready => ?_
  obtain ⟨_, _, _, self, scope, _⟩ := ready.contexts
  split
  · exact .context_bind (.orFault fun binding bound => scope binding bound)
  · exact .context_bind (.orFault fun binding bound => self binding bound)

section

variable (handles : Handles Γ inner meaning) (lowerable : ∀ obj ∈ call.obj, Γ.Lowerable σ obj)

include handles lowerable

theorem receiverValue_does (taken : defn.takesReceiver = true) :
    Does Γ σ (receiver meaning σ.context.activation σ.frames call defn) known s
      (receiverValue inner call) fun known' s' found => Γ.Avail σ known' s' found.1 := by
  unfold receiverValue receiver
  cases present : call.obj with
  | none =>
    refine .silently implicitReceiver_does fun _ avail => ?_
    exact .silently (readBinding_does avail) fun _ avail => .pure avail
  | some obj =>
    rw [taken]
    exact .finally (handles.used (lowerable obj present)) fun _ result => .pure result.1

/-- The receiver is evaluated unless it is dropped, and the callee gets one if it takes one. -/
theorem lowerReceiver_does :
    Does Γ σ (receiver meaning σ.context.activation σ.frames call defn) known s
      (lowerReceiver inner call defn) fun known' s' receiver =>
        (∀ found ∈ receiver, Γ.Avail σ known' s' found.1) ∧
          receiver.isSome = defn.takesReceiver := by
  have given : ∀ {known' s' value owner}, defn.takesReceiver = true →
      Γ.Avail σ known' s' value → (∀ found ∈ some (value, owner), Γ.Avail σ known' s' found.1) ∧
        (some (value, owner) : Option (ValueId × Ty)).isSome = defn.takesReceiver := by
    intro known' s' value owner taken avail
    exact ⟨fun _ same => by cases same; exact avail, taken.symm⟩
  unfold lowerReceiver
  split
  · rename_i taken
    refine .finally (receiverValue_does handles lowerable taken) @fun _ _ ⟨_, _⟩ _ avail => ?_
    dsimp only
    split
    · refine .silently .nilValue fun _ avail => ?_
      exact .pure (given taken avail)
    · split
      · exact .pure (given taken avail)
      · refine .silently (coerce_does avail) fun _ avail => ?_
        exact .pure (given taken avail.1)
  · rename_i ignored
    have ignored := Bool.eq_false_iff.mpr ignored
    refine .finally (lowerIgnoredReceiver_does handles lowerable ignored) fun _ _ => ?_
    exact .pure ⟨nofun, ignored.symm⟩

end

variable {values : List ValueId} {loc : Location} {ty : Ty} {missing : Fault}
  {params specials : List Param} {param : Param} {name : String} {v : ValueId}

theorem magicConstant_does : Does Γ σ 1 known s (magicConstant name call ty) (Γ.Avail σ) := by
  unfold magicConstant
  split
  · exact intConstant_does
  · exact intConstant_does
  · exact .program_bind .constant
  · exact .program_bind .constant
  · exact .fault

theorem passArgument_does (usable : Γ.Avail σ known s v) :
    Does Γ σ 1 known s (passArgument defn param v ty) (Γ.Avail σ) := by
  unfold passArgument
  refine .silently (coerce_does usable) fun _ avail => ?_
  split
  · exact .types_bind (.emit rfl (.cons avail.1 .nil))
  · exact .pure avail.1

/-- The address of a special variable is storage that the caller knows, or new storage. -/
theorem specialAddress_does {special : Param} :
    Does Γ σ 1 known s (specialAddress special loc) (Γ.Avail σ) := by
  unfold specialAddress
  refine .ready fun ready => .context_bind (.lookup_bind fun found visible => .get_bind ?_)
  cases bound : found.or (s.scopes.lookupLocal? σ.context.functionScope special.name) with
  | none =>
    refine .types_bind (.silently .alloca @fun _ _ ptr _ stored => ?_)
    refine .silently (.declareIn (.inl ⟨.inr rfl, .inl ⟨rfl, stored⟩⟩)) fun later _ => ?_
    exact .pure (stored.mono later).avail
  | some binding =>
    cases binding with
    | value v ty => exact .fault
    | slot ptr ty =>
      refine .pure ?_
      obtain near | ⟨_, local_⟩ := Option.or_eq_some_iff.mp bound
      · exact visible _ near (.inl rfl)
      · exact ready.root _ _ local_ rfl

theorem specials_does :
    Does Γ σ 1 known s (specials.mapM fun special => specialAddress special loc)
      (AllAvail Γ σ) := by
  induction specials generalizing known s with
  | nil => exact .pure .nil
  | cons special specials ih =>
    rw [List.mapM_cons]
    refine .silently specialAddress_does fun _ avail => ?_
    refine .silently ih fun later avails => ?_
    exact .pure (.cons (avail.mono later) avails)

section

variable (handles : Handles Γ inner meaning)

include handles

/-- The argument for a parameter is evaluated, or else the default. -/
theorem uniformArg_does {arg : Option Expr}
    (lowerable : ∀ expr ∈ param.evaluated arg, Γ.Lowerable σ expr) : Does Γ σ
      (all meaning σ.context.activation σ.frames (param.evaluated arg)) known s
      (uniformArg inner call defn param arg) (Γ.Avail σ) := by
  unfold evaluated at lowerable ⊢
  unfold uniformArg
  cases arg with
  | some arg =>
    rw [all_singleton]
    refine .finally (handles.used (lowerable arg (List.mem_singleton_self _))) ?_
    exact fun _ result => passArgument_does result.1
  | none =>
    unfold defaultExpr? at lowerable ⊢
    rcases found : param.default? with _ | name | value
    · exact .fault
    · exact magicConstant_does
    · rw [found] at lowerable
      rw [Option.toList_some, all_singleton]
      refine .finally (handles.used (lowerable value (List.mem_singleton_self _))) ?_
      exact fun _ result => passArgument_does result.1

theorem uniformArgsFor_does {args : List Expr}
    (lowerable : ∀ expr ∈ row params args, Γ.Lowerable σ expr) :
    Does Γ σ (all meaning σ.context.activation σ.frames (row params args)) known s
      (uniformArgsFor inner call defn params args) (AllAvail Γ σ) := by
  induction params generalizing args known s with
  | nil => exact .pure .nil
  | cons param params ih =>
    rw [row, all_append]
    refine .bind (uniformArg_does handles (List.forall_mem_append.mp lowerable).1) fun _ avail => ?_
    refine .finally (ih (List.forall_mem_append.mp lowerable).2) ?_
    intro _ _ values later avails
    exact .pure (.cons (avail.mono later) avails)

/-- Building the argument list evaluates the operands of the call. -/
theorem uniformArgs_does (ready : Γ.CallReady σ call defn) (evaluates : defn.evaluatesDefaults call) :
    Does Γ σ (operands meaning σ.context.activation σ.frames call defn) known s
      (uniformArgs inner call defn) fun known' s' args => AllAvail Γ σ known' s' args.values ∧
          (∀ found ∈ args.receiver, Γ.Avail σ known' s' found.1) ∧
          args.receiver.isSome = defn.takesReceiver := by
  unfold uniformArgs operands
  refine .bind (lowerReceiver_does handles ready.obj) @fun _ _ receiver _ given => ?_
  split
  · exact .fault
  · rename_i enough
    have rows := defn.row_fixed_append_trailing call.args (Nat.not_lt.mp enough)
    have lowerable : ∀ expr ∈ call.args ++ defn.omitted call.args.length, Γ.Lowerable σ expr :=
      fun expr member => (List.mem_append.mp member).elim (ready.args expr) fun omitted =>
        .inl (ready.default evaluates expr omitted)
    rw [← rows] at lowerable ⊢
    rw [all_append]
    refine .bind (uniformArgsFor_does handles (List.forall_mem_append.mp lowerable).1) fun later1 avail1 => ?_
    refine .silently specials_does fun later2 avail2 => ?_
    refine .finally (uniformArgsFor_does handles (List.forall_mem_append.mp lowerable).2) fun later3 avail3 => ?_
    have later := later1.trans (later2.trans later3)
    refine .pure ⟨?_, fun found member => (given.1 found member).mono later, given.2⟩
    have self : AllAvail Γ σ _ _ (receiver.map (·.1)).toList := .of_option fun _ member => by
      obtain ⟨found, present, rfl⟩ := Option.map_eq_some_iff.mp member
      exact given.1 found present
    exact (((self.mono later).append (avail1.mono (later2.trans later3))).append
      (avail2.mono later3)).append avail3

end

theorem declareDefinition_does (member : defn ∈ Γ.env.program.defs) (domestic : defn.foreign = none) :
    Does Γ σ 1 known s (declareDefinition defn) fun _ s' func => s'.code.Names func defn.name :=
  .types_bind (.declareFn (Γ.listed _ (.definition member domestic)))

/-! ## Binding the arguments in the callee -/

variable (entering : σ.entering = true)

include entering

theorem bindParam_does {value : Option ValueId} {primitive : Bool}
    (avail : ∀ v ∈ value, Γ.Avail σ known s v) :
    Does Γ σ 1 known s (bindParam name ty value primitive loc) fun _ _ _ => True := by
  unfold bindParam
  refine .orFault_bind fun v given => ?_
  split
  · exact .declareEntering entering (avail v given)
  · refine .types_bind (.silently .alloca fun later stored => ?_)
    split
    · exact .declareSlot stored
    · have operands := AllAvail.cons ((avail _ given).mono later) (.cons stored.avail .nil)
      refine .silently (.emitEffect rfl operands) fun later _ => ?_
      exact .declareSlot (stored.mono later)

variable (avail : AllAvail Γ σ known s values)

include avail

theorem bindParams_does :
    Does Γ σ 1 known s (bindParams defn loc params values) (AllAvail Γ σ) := by
  induction params generalizing values known s with
  | nil => exact .pure avail
  | cons param params ih =>
    refine .silently (bindParam_does entering avail.head) fun later _ => ?_
    exact ih (avail.tail.mono later)

theorem bindSpecials_does :
    Does Γ σ 1 known s (bindSpecials missing loc specials values) (AllAvail Γ σ) := by
  induction specials generalizing values known s with
  | nil => exact .pure avail
  | cons special specials ih =>
    refine .orFault_bind fun ptr given => ?_
    refine .silently (.declareEntering entering (avail.head ptr given)) fun later _ => ?_
    exact ih (avail.tail.mono later)

/-- Binding the arguments of a definition fills the scope of its body. -/
theorem bindArguments_does :
    Does Γ σ 1 known s (bindArguments defn missing loc values) fun _ _ _ => True := by
  unfold bindArguments
  refine .silently (bindParams_does entering avail) fun _ avail => ?_
  refine .silently (bindSpecials_does entering avail) fun _ avail => ?_
  exact (bindParams_does entering avail).discard

end Lower

end CallLowering
