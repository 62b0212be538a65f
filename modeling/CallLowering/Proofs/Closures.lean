import CallLowering.Proofs.Inlining

/-!
# Function bodies and closures

The body of a function starts in a context of its own, in which nothing is bound yet
(`Ready.entry`). The function of a closure is such a body, lowered in the middle of another one:
afterwards the enclosing body goes on where it was (`materialize_does`).
-/

namespace CallLowering

open Setting

variable {Γ : Scenario} {σ σ' : Setting} {effect : Effect} {known : Known} {s s' : LowerState}

/-! ## Function bodies -/

/-- The setting at the start of a function. -/
def Setting.entry (func : FuncId) (fnName file : String) (scope : ScopeId) (selfTy : Ty)
    (self : Option Binding) (base seen : Nat) (ret : MachineType) : Setting where
  region := ⟨func, [], base, ret⟩
  context := { Context.initial fnName file scope with selfTy := selfTy, selfBinding := self }
  frames := base
  hidden := ∅
  seen := seen
  entering := true

variable {func : FuncId} {params : List ValueId} {code : Recording} {scopes : Scopes}

/-- The parameters of a function may be used everywhere in it. -/
theorem Recording.Ambient.of_params {code' : Recording}
    (begun : Emit.beginRoutine func code = .ok params code') :
    ∀ v ∈ params, code'.Ambient func v := by
  obtain ⟨_, _, _, _, _, _, _, _, ⟨_, sources, _⟩, rfl⟩ := beginRoutine_ok begun
  intro v member
  obtain ⟨i, found⟩ := List.getElem?_of_mem member
  exact .param (sources i v found)

/-- Nothing is bound at the start of a function but `self`. -/
theorem Ready.entry {fnName file : String} {selfTy : Ty} {self : Option Binding} {seen : Nat}
    {ret : MachineType} (valid : Site.Valid ⟨func, [], s.joins.size, ret⟩ ⟨code, s.joins⟩)
    (ordered : s.scopes.Ordered)
    (memo : s.Remembers Γ.env) (target : s.code.target = Γ.env.options.target)
    (types : s.code.types = Γ.env.program.types) (seenBefore : seen ≤ s.dispatches)
    (begun : Emit.beginRoutine func s.code = .ok params code)
    (bound : ∀ binding ∈ self, binding.ref ∈ params) :
    Ready Γ (.entry func fnName file ⟨s.scopes.all.size⟩ selfTy self s.joins.size seen ret) ∅
      { s with
        code := code
        scopes := (s.scopes.add none).2
        context := (entry func fnName file ⟨s.scopes.all.size⟩ selfTy self s.joins.size
          seen ret).context } := by
  have grown : Scopes.Grow (fun _ _ _ => False) s.scopes (s.scopes.add none).2 :=
    .add fun _ given => absurd given (Option.not_mem_none _)
  have inside : s.scopes.all.size < (s.scopes.add none).2.all.size := by
    simp only [Scopes.add, Array.size_push]
    exact Nat.lt_succ_self _
  exact {
    context := rfl
    handlers := rfl
    valid := valid
    frames := rfl
    seen := seenBefore
    ordered := grown.ordered ordered
    contexts := .intro rfl inside
      (fun name binding found => by cases (s.scopes.add_lookup?_none name).symm.trans found)
      (fun binding given _ => .inr (.of_params begun _ (bound binding given)))
      (fun _ given => absurd given (Option.not_mem_none _))
      (fun _ given => absurd given (Option.not_mem_none _))
      (fun _ given => absurd given (Option.not_mem_none _))
      (fun _ _ _ given => absurd given (Option.not_mem_none _))
      fun _ _ _ given => absurd given (Option.not_mem_none _)
    rooted := inside
    root := fun name _ found => by
      cases (s.scopes.add_lookupLocal? none name).symm.trans found
    hidden := fun _ none => none.elim
    memo := memo
    target := (Recording.frame_beginRoutine begun).later.target.trans target
    types := (Recording.frame_beginRoutine begun).later.types.trans types
    flat := fun _ => rfl }

/-- What is lowered in a function of its own binds nothing in the scopes that were there before. -/
theorem Scopes.Grow.of_entry {known1 : Known} {code1 : Recording}
    {adds : ScopeId → String → Binding → Prop} (scope : σ'.context.scope = ⟨s.scopes.all.size⟩)
    (root : σ'.context.functionScope = ⟨s.scopes.all.size⟩)
    (grown : Scopes.Grow (σ'.Adds Γ known1 code1) (s.scopes.add none).2 scopes) :
    Scopes.Grow adds s.scopes scopes := by
  have nowhere : ∀ x ∈ (none : Option ScopeId), x.index < s.scopes.all.size :=
    nofun
  refine (Scopes.Grow.trans (.add nowhere) grown).mono ?_
  intro x name binding old allowed
  have apart : ¬x = ⟨s.scopes.all.size⟩ := fun same => Nat.lt_irrefl _ (same ▸ old)
  obtain ⟨place | place, _⟩ | ⟨_, place, _⟩ := allowed
  · exact absurd (place.trans scope) apart
  · exact absurd (place.trans root) apart
  · exact absurd (place.trans scope) apart

/-! ## The function of a closure -/

/-- A computation goes on under another context, possibly with a new scope. -/
theorem Ends.enter {α : Type} (σ' : Setting) {act rest : Lower α}
    {post : Known → LowerState → α → Prop}
    (enters : s.context = σ.context → act Γ.env s = rest Γ.env { s with scopes := scopes, context := σ'.context })
    (grows : Ready Γ σ known s → ∀ adds, Scopes.Grow adds s.scopes scopes)
    (within : σ'.Within σ s.scopes.all.size)
    (ready : Ready Γ σ known s → Ready Γ σ' known { s with scopes := scopes, context := σ'.context })
    (ends : Ends Γ σ' effect known { s with scopes := scopes, context := σ'.context } rest post) :
    Ends Γ σ effect known s act post := by
  intro before a s' ran
  rw [enters before.context] at ran
  obtain ⟨known', lowers, holds⟩ := ends (ready before) a s' ran
  have lowers' : Lowers Γ σ' effect known s known' s' :=
    ⟨lowers.builds, lowers.dispatches, (grows before _).trans lowers.scopes, lowers.memo⟩
  exact ⟨known', lowers'.within within, holds⟩

theorem Setting.nexting_activation (σ : Setting) : σ.nexting.context.activation =
      ⟨Context.handed σ.context.yieldTarget, σ.context.breakJoin, some σ.frames⟩ := by
  rw [Context.activation_eq]
  rfl

/-- The setting with a captured `self`. -/
def Setting.withSelf (σ : Setting) (value : ValueId) (ty : Ty) : Setting :=
  { σ with context := { σ.context with selfTy := ty, selfBinding := some (.value value ty) } }

/-- The setting with another scope. -/
def Setting.inside (σ : Setting) (scope : ScopeId) : Setting :=
  { σ with context := { σ.context with scope := scope } }

theorem Ready.withSelf {value : ValueId} {ty : Ty} (ready : Ready Γ σ known s)
    (avail : Γ.Avail σ known s value) :
    Ready Γ (σ.withSelf value ty) known { s with context := (σ.withSelf value ty).context } where
  context := rfl
  __ := ready
  contexts := by
    obtain ⟨rooted, inside, readable, _, scope, breaks, nexts, handed, callers⟩ := ready.contexts
    refine ⟨rooted, inside, readable, fun _ same => ?_, scope, breaks, nexts, handed, callers⟩
    cases same
    exact avail

theorem Ready.inside (ready : Ready Γ σ known s) (unhidden : σ.hidden = ∅) :
    Ready Γ (σ.inside ⟨s.scopes.all.size⟩) known
      { s with
        scopes := (s.scopes.add (some σ.context.scope)).2
        context := (σ.inside ⟨s.scopes.all.size⟩).context } := by
  obtain ⟨_, inside, _⟩ := ready.contexts
  have older : ∀ x ∈ some σ.context.scope, x.index < s.scopes.all.size := by
    intro x same
    cases same
    exact inside
  obtain ⟨rooted, _, readable, self, scope, breaks, nexts, handed, callers⟩ :=
    ready.contexts.add ready.ordered older
  refine ready.inScope older rfl rfl rfl rfl unhidden rfl ?_
  refine .intro rooted (Nat.lt_succ_self _ |>.trans_eq (Array.size_push _).symm)
    (fun name binding found => ?_) self scope breaks nexts handed callers
  exact readable name binding ((Scopes.add_lookup?_some ready.ordered inside).symm.trans found)

namespace Lower

variable {inner : Expr → Lower ValueId} {meaning : Activation → Nat → Expr → Effect} {block : Block}
  {captures : List Capture} {values : List ValueId} {loc : Location} {recordType : MachineType}
  {index : Nat} {self : Option (ValueId × Ty)} {name : String}

theorem bindCaptures_does {data : ValueId} (entering : σ.entering = true)
    (avail : Γ.Avail σ known s data) :
    Does Γ σ 1 known s (bindCaptures recordType data index captures) fun _ _ _ => True := by
  induction captures generalizing index known s with
  | nil => exact .pure trivial
  | cons capture captures ih =>
    refine .silently (.emit rfl (.cons avail .nil)) fun later1 fieldAvail => ?_
    refine .silently (.emit rfl (.cons fieldAvail .nil)) fun later2 ptrAvail => ?_
    refine .silently (.declareEntering entering ptrAvail) fun later3 _ => ?_
    exact ih (avail.mono (later1.trans (later2.trans later3)))

theorem bindBlockParams_does {params : List BlockParam} (entering : σ.entering = true)
    (avail : AllAvail Γ σ known s values) :
    Does Γ σ 1 known s (bindBlockParams loc params values) fun _ _ _ => True := by
  induction params generalizing values known s with
  | nil =>
    unfold bindBlockParams
    exact .pure trivial
  | cons param params ih =>
    cases values with
    | nil => exact .pure trivial
    | cons value values =>
      refine .silently (bindParam_does entering avail.head) fun later _ => ?_
      exact ih (avail.tail.mono later)

section

variable (handles : Handles Γ inner meaning) (layered : ¬Γ.flat) (source : block.body ∈ Γ.sources)
  (returns : σ.region.ret = Γ.env.program.types.returnType block.body.ty)

include handles layered source returns

/-- The body of a closure ends with its return. -/
theorem closureBody_ends (settled : σ.entering = false) :
    Ends Γ σ ((meaning σ.nexting.context.activation (σ.frames + 1) block.body).framed σ.frames *
        .halt) known s (closureBody inner block) fun _ s' _ => s'.code.isTerminated = true := by
  unfold closureBody
  refine .joinNext handles layered settled source fun _ _ result _ avail shut => ?_
  cases result with
  | some value => exact emitReturn_does (avail value rfl) returns
  | none => exact .dead (shut rfl) (.pure (shut rfl))

variable (entering : σ.entering = true) (unhidden : σ.hidden = ∅)
  (avail : AllAvail Γ σ known s values)

include entering unhidden avail

/-- The parameters of a block are bound in a scope inside that of the captured variables. -/
theorem closureScope_ends :
    Ends Γ σ ((meaning σ.nexting.context.activation (σ.frames + 1) block.body).framed σ.frames *
        .halt) known s (do
          let scope ← newScope (some (← context).scope)
          setContext fun context => { context with scope := scope }
          bindBlockParams block.body.loc block.params values
          closureBody inner block) fun _ s' _ => s'.code.isTerminated = true := by
  let σ' := σ.inside ⟨s.scopes.all.size⟩
  have activation : σ'.settled.nexting.context.activation = σ.nexting.context.activation := by
    rw [nexting_activation, nexting_activation]
    rfl
  have ends : Ends Γ σ'
      ((meaning σ.nexting.context.activation (σ.frames + 1) block.body).framed σ.frames * .halt) known
      { s with scopes := (s.scopes.add (some σ.context.scope)).2, context := σ'.context }
      (bindBlockParams block.body.loc block.params values >>= fun _ => closureBody inner block)
      fun _ s' _ => s'.code.isTerminated = true := by
    refine .silently (bindBlockParams_does entering avail) fun _ _ => .settled ?_
    rw [← activation]
    exact closureBody_ends handles layered source returns rfl
  refine .enter σ' (fun same => ?_) (fun ready _ => .add fun _ same => ?_)
    ⟨rfl, rfl, Nat.le_refl _, .inr (Nat.le_refl _)⟩ (fun ready => ready.inside unhidden) ends
  · dsimp only [σ', inside]
    rw [← same]
    rfl
  · cases same
    obtain ⟨_, inside, _⟩ := ready.contexts
    exact inside

theorem closureFunction_ends :
    Ends Γ σ ((meaning σ.nexting.context.activation (σ.frames + 1) block.body).framed σ.frames *
        .halt) known s (closureFunction inner name block recordType captures self values)
      fun _ s' _ => s'.code.isTerminated = true := by
  unfold closureFunction
  cases values with
  | nil => exact Does.ends .throw
  | cons data values =>
    refine .silently (bindCaptures_does entering (avail data List.mem_cons_self)) ?_
    intro known1 s1 _ later _
    have dataAvail := (avail data List.mem_cons_self).mono later
    have avail : AllAvail Γ σ known1 s1 values :=
      AllAvail.mono (List.forall_mem_cons.mp avail).2 later
    rcases self with _ | ⟨_, ty⟩
    · exact closureScope_ends handles layered source returns entering unhidden avail
    · simp only [bindSelf, bind_assoc]
      refine .silently (.emit rfl (.cons dataAvail .nil)) fun later1 fieldAvail => ?_
      refine .types_bind (.silently (.emit rfl (.cons fieldAvail .nil)) ?_)
      intro known3 s3 value later2 valueAvail
      let σ' := σ.withSelf value ty
      have activation : σ'.nexting.context.activation = σ.nexting.context.activation := by
        rw [nexting_activation, nexting_activation]
        rfl
      have avail : AllAvail Γ σ known3 s3 values := avail.mono (later1.trans later2)
      have ends : Ends Γ σ' _ known3 { s3 with context := σ'.context } _ _ :=
        closureScope_ends handles layered source returns entering unhidden avail
      rw [activation] at ends
      refine .enter σ' (fun same => ?_) (fun _ _ => .refl _ _)
        ⟨rfl, rfl, Nat.le_refl _, .inl ⟨rfl, id⟩⟩ (fun ready => ready.withSelf valueAvail) ends
      dsimp only [σ', withSelf]
      rw [← same]
      rfl

end

variable {decl : FnDecl} {record : ValueId}

theorem declareFn_ok {env : Env} (ran : declareFn decl env s = .ok func s') :
    func = (s.code.declare decl).1 ∧ s' = { s with code := (s.code.declare decl).2 } := by
  obtain ⟨_, recorded, rfl⟩ := record_ok ran
  cases recorded
  exact ⟨rfl, rfl⟩

/-- The function of a closure is lowered on its own; then the enclosing body goes on. -/
theorem closure_bind {β : Type} (handles : Handles Γ inner meaning) {rest : FuncId → Lower β}
    {post : Known → LowerState → β → Prop} (layered : ¬Γ.flat) (named : IsClosureName decl.name)
    (returns : decl.ret = Γ.env.program.types.returnType block.body.ty)
    (source : block.body ∈ Γ.sources)
    (next : ∀ func s1, Later known s known s1 → Does Γ σ effect known s1 (rest func) post) :
    Does Γ σ effect known s (do
      let func ← declareFn decl
      let resume ← cursor
      let values ← beginRoutine func
      let context ← freshContext name
      returningTo resume
        (withContext context (closureFunction inner name block recordType captures self values))
      rest func) post := by
  intro ready b s' ran
  obtain ⟨_, _, declared, ran0⟩ := bind_ok ran
  obtain ⟨rfl, rfl⟩ := declareFn_ok declared
  obtain ⟨resume, _, here, ran1⟩ := bind_ok ran0
  cases here
  obtain ⟨values, _, began, ran2⟩ := bind_ok ran1
  obtain ⟨code, begun, rfl⟩ := record_ok began
  obtain ⟨context, _, fresh, ran3⟩ := bind_ok ran2
  cases fresh
  obtain ⟨_, _, returned, ran4⟩ := bind_ok ran3
  obtain ⟨c, _, atBlock, _⟩ := ready.valid.placed
  have resume : (s.code.declare decl).2.cursor = some c := Recording.declare_cursor.trans atBlock
  dsimp only at returned
  rw [resume] at returned
  obtain ⟨_, lowered, rfl⟩ := returningTo_ok returned
  obtain ⟨t, body_ran, rfl⟩ := withContext_ok lowered
  -- the function of the closure is lowered in a setting of its own
  let σ' := entry (s.code.declare decl).1 name Γ.env.program.file ⟨s.scopes.all.size⟩ .program
    none s.joins.size σ.seen decl.ret
  have entered : Ready Γ σ' ∅
      { s with code := code, scopes := (s.scopes.add none).2, context := σ'.context } := by
    let declared : LowerState := { s with code := (s.code.declare decl).2 }
    exact @Ready.entry Γ declared _ values code _ _ _ none _ decl.ret ((ready.valid.declare decl).enter begun)
      ready.ordered ready.memo ((Recording.extends_declare decl).target.trans ready.target)
      ((Recording.extends_declare decl).types.trans ready.types) ready.seen begun
      nofun
  have params : AllAvail Γ σ' ∅
      { s with code := code, scopes := (s.scopes.add none).2, context := σ'.context } values :=
    fun v member _ => .inr (.of_params begun v member)
  obtain ⟨_, lowers, ended⟩ :=
    closureFunction_ends handles layered source returns rfl rfl params entered _ t body_ran
  have whole : Lowers Γ σ 1 known s known
      { t with code := t.code.position c, context := s.context } :=
    ⟨.closure layered named rfl begun atBlock lowers.builds fun _ => ended, lowers.dispatches,
      .of_entry rfl rfl lowers.scopes, lowers.memo⟩
  obtain ⟨known', lowers', context', holds⟩ :=
    next _ _ (whole.toLater ready) (ready.after whole rfl) b s' ran4
  have both := whole.trans lowers' ready.valid
  rw [one_mul] at both
  exact ⟨known', both, context', holds⟩

/-! ## Closures -/

theorem nextClosure_does : Does Γ σ 1 known s nextClosure fun _ _ _ => True :=
  .of_run rfl rfl rfl rfl rfl rfl id trivial

theorem capture_does (shown : Γ.strict → ¬IsHidden name) :
    Does Γ σ 1 known s (capture loc name) fun known' s' captured =>
      Γ.Avail σ known' s' captured.ptr := by
  unfold capture
  refine .lookup_bind fun _ visible => .orFault_bind fun binding bound => ?_
  have usable : Γ.Avail σ known s binding.ref :=
    fun strict => visible binding bound (.inr (.inl (shown strict))) strict
  cases binding with
  | slot ptr ty => exact .pure usable
  | value v ty =>
    refine .silently (spill_does usable) fun _ stored => ?_
    exact .pure stored.avail

theorem captures_does {names : List String} (shown : Γ.strict → ∀ name ∈ names, ¬IsHidden name) :
    Does Γ σ 1 known s (names.mapM (capture loc)) fun known' s' captures =>
      ∀ captured ∈ captures, Γ.Avail σ known' s' captured.ptr := by
  induction names generalizing known s with
  | nil => exact .pure nofun
  | cons name names ih =>
    rw [List.mapM_cons]
    refine .silently (capture_does fun strict => shown strict name List.mem_cons_self) ?_
    intro _ _ captured _ avail
    refine .silently (ih fun strict name member => shown strict name (List.mem_cons_of_mem _ member)) ?_
    intro _ _ captures later avails
    refine .pure fun found member => ?_
    obtain rfl | member := List.mem_cons.mp member
    · exact avail.mono later
    · exact avails found member

theorem captureSelf_does : Does Γ σ 1 known s captureSelf fun known' s' self =>
      ∀ found ∈ self, Γ.Avail σ known' s' found.1 := by
  unfold captureSelf
  refine .ready fun ready => .context_bind ?_
  obtain ⟨_, _, _, self, _⟩ := ready.contexts
  cases bound : σ.context.selfBinding with
  | none => exact .pure nofun
  | some binding =>
    refine .ite (fun _ => ?_) fun _ => .pure nofun
    refine .silently (readBinding_does (self binding bound)) fun _ avail => ?_
    refine .pure fun _ same => ?_
    cases same
    exact avail

/-- A value is stored into a field of a record. -/
theorem storeField_does {v : ValueId} (stored : Γ.Avail σ known s record)
    (avail : Γ.Avail σ known s v) :
    Does Γ σ 1 known s (do
      let field ← emit (.fieldPtr recordType record index)
      emitEffect (.store v field)) fun _ _ _ => True := by
  refine .silently (.emit rfl (.cons stored .nil)) fun later fieldAvail => ?_
  exact .emitEffect rfl (.cons (avail.mono later) (.cons fieldAvail .nil))

theorem storeCaptures_does (stored : Γ.Avail σ known s record)
    (avail : ∀ captured ∈ captures, Γ.Avail σ known s captured.ptr) :
    Does Γ σ 1 known s (storeCaptures recordType record index captures) fun _ _ _ => True := by
  induction captures generalizing index known s with
  | nil => exact .pure trivial
  | cons captured captures ih =>
    unfold storeCaptures
    rw [← bind_assoc]
    refine .silently (storeField_does stored (avail captured List.mem_cons_self)) ?_
    intro _ _ _ later _
    exact ih (stored.mono later) fun captured member =>
      (avail captured (List.mem_cons_of_mem _ member)).mono later

theorem closureData_does (avail : ∀ captured ∈ captures, Γ.Avail σ known s captured.ptr)
    (selfAvail : ∀ found ∈ self, Γ.Avail σ known s found.1) :
    Does Γ σ 1 known s (closureData recordType captures self) (Γ.Avail σ) := by
  unfold closureData
  refine .ite (fun _ => .constant) fun _ => ?_
  refine .silently .alloca fun later1 stored => ?_
  refine .silently (storeCaptures_does stored.avail fun captured member =>
    (avail captured member).mono later1) fun later2 _ => ?_
  have stored := stored.mono later2
  rcases self with _ | ⟨value, ty⟩
  · exact .pure stored.avail
  · dsimp only
    rw [← bind_assoc]
    refine .silently (storeField_does stored.avail
      ((selfAvail _ rfl).mono (later1.trans later2))) fun later _ => ?_
    exact .pure (stored.mono later).avail

/-- Compiling a block into a function has no effect in terms of direct evaluation. -/
theorem materialize_does (handles : Handles Γ inner meaning) (layered : ¬Γ.flat)
    (blockReady : Γ.BlockReady block) :
    Does Γ σ 1 known s (materialize inner block) (Γ.Avail σ) := by
  unfold materialize
  refine .context_bind (.silently nextClosure_does @fun _ _ number _ _ => ?_)
  refine .silently (captures_does blockReady.captures) fun _ avail => ?_
  refine .silently captureSelf_does fun later selfAvail => .types_bind ?_
  refine .silently (closureData_does (fun captured member => (avail captured member).mono later)
    selfAvail) fun _ dataAvail => .types_bind ?_
  have named : IsClosureName (σ.context.fnName ++ "$block" ++ toString number) := ⟨_, _, rfl⟩
  refine closure_bind handles layered named rfl blockReady.body fun _ _ later1 => ?_
  refine .silently .report fun later2 _ => .emit rfl ?_
  exact .cons (dataAvail.mono (later1.trans later2)) .nil

end Lower

end CallLowering
