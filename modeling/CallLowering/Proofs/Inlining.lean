import CallLowering.Proofs.Joining

/-!
# Inlined callees and blocks

A callee with a block is lowered in place, in a context with a scope of its own, and so is the block
where the callee yields. Both contexts are ready because a new scope binds nothing yet
(`Ready.inScope`), so that what is lowered there does what direct evaluation does
(`lowerInlined_does`, `lowerYield_does`). A body with a handler is lowered in the context at hand
(`lowerRescue_does`).
-/

namespace CallLowering

open Evaluation Context

variable {context : Context} {code : Recording} {root : ScopeId} {r : Region}

section Scopes

variable {α : Type} {Γ : Scenario} {σ σ' : Setting} {effect : Effect} {known : Known}
  {s : LowerState} {parent : Option ScopeId} {scopes : Scopes}

/-- Old scopes bind the same after a scope was added. -/
theorem Scopes.lookup?_of_add (ordered : scopes.Ordered)
    (older : ∀ x ∈ parent, x.index < scopes.all.size) {x : ScopeId}
    (inside : x.index < scopes.all.size) {name : String} {binding : Binding}
    (found : (scopes.add parent).2.lookup? x name = some binding) :
    scopes.lookup? x name = some binding := by
  have grown : Grow (fun _ _ _ => False) scopes (scopes.add parent).2 := .add older
  obtain old | ⟨_, never⟩ := grown.lookup? ordered inside found
  · exact old
  · exact never.elim

theorem ContextReady.add (ready : ContextReady Γ r root known code scopes context)
    (ordered : scopes.Ordered) (older : ∀ x ∈ parent, x.index < scopes.all.size) :
    ContextReady Γ r root known code (scopes.add parent).2 context :=
  ready.mono (Set.Subset.refl _) (.refl _) (by simp [Scopes.add])
    fun _ _ _ inside found _ => .inl (Scopes.lookup?_of_add ordered older inside found)

/-- A context with a new scope is ready in the state with that scope. -/
theorem Ready.inScope (ready : Ready Γ σ known s)
    (older : ∀ x ∈ parent, x.index < s.scopes.all.size) (region : σ'.region = σ.region)
    (root : σ'.context.functionScope = σ.context.functionScope)
    (handlers : σ'.context.handlers = σ.context.handlers) (frames : σ'.frames = σ.frames)
    (hidden : σ'.hidden = ∅) (seen : σ'.seen = σ.seen)
    (contexts : ContextReady Γ σ.region σ.context.functionScope known s.code (s.scopes.add parent).2 σ'.context) :
    Ready Γ σ' known { s with scopes := (s.scopes.add parent).2, context := σ'.context } where
  context := rfl
  handlers := by rw [handlers, region, ready.handlers]
  valid := region ▸ ready.valid
  frames := frames ▸ ready.frames
  seen := seen ▸ ready.seen
  ordered := by
    have grown : Scopes.Grow (fun _ _ _ => False) s.scopes (s.scopes.add parent).2 := .add older
    exact grown.ordered ready.ordered
  contexts := by
    rw [region, root]
    exact contexts
  rooted := by
    rw [root]
    exact Nat.lt_of_lt_of_le ready.rooted (by simp [Scopes.add])
  root name binding found slot := by
    have grown : Scopes.Grow (fun _ _ _ => False) s.scopes (s.scopes.add parent).2 := .add older
    rw [root] at found
    rw [region]
    obtain old | never := grown.lookupLocal? ready.rooted found
    · exact ready.root name binding old slot
    · exact never.elim
  hidden name member := by
    rw [hidden] at member
    exact member.elim
  memo := ready.memo
  target := ready.target
  types := ready.types
  flat := by
    rw [region]
    exact ready.flat

/-- A computation runs under a context with a new scope. -/
theorem Does.inScope (σ' : Setting) (parent : Option ScopeId) {enter act : Lower α}
    {post final : Known → LowerState → α → Prop}
    (enters : s.context = σ.context → enter Γ.env s =
      Lower.withContext σ'.context act Γ.env { s with scopes := (s.scopes.add parent).2 })
    (older : Ready Γ σ known s → ∀ x ∈ parent, x.index < s.scopes.all.size)
    (within : σ'.Within σ s.scopes.all.size)
    (ready : Ready Γ σ known s →
      Ready Γ σ' known { s with scopes := (s.scopes.add parent).2, context := σ'.context })
    (body : Ends Γ σ' effect known
      { s with scopes := (s.scopes.add parent).2, context := σ'.context } act post)
    (kept : ∀ known' t a, post known' t a → final known' { t with context := s.context } a) :
    Does Γ σ effect known s enter final := by
  intro before a s' ran
  rw [enters before.context] at ran
  obtain ⟨t, inner, rfl⟩ := Lower.withContext_ok ran
  obtain ⟨known', lowers, holds⟩ := body (ready before) a t inner
  have lowers' : Lowers Γ σ' effect known s known' { t with context := s.context } :=
    ⟨lowers.builds, lowers.dispatches, Scopes.Grow.trans (.add (older before)) lowers.scopes,
      lowers.memo⟩
  exact ⟨known', lowers'.within within, rfl, kept known' t a holds⟩

end Scopes

/-! ## Inlined callees -/

/-- The setting of a callee that is inlined with its block. -/
def Setting.called (σ : Setting) (file : String) (scope : ScopeId) (defn : Definition)
    (block : Block) (receiver : Option (ValueId × Ty)) (join : Nat) : Setting :=
  { σ with
    context := { initial σ.context.fnName file scope with
      needsValue := σ.context.needsValue
      handlers := σ.context.handlers
      selfTy := defn.owner
      functionScope := σ.context.functionScope
      yieldTarget := some (block, σ.context, join)
      selfBinding := receiver.map fun found => .value found.1 found.2 }
    hidden := ∅
    entering := true }

theorem Setting.called_activation (σ : Setting) (file : String) (scope : ScopeId)
    (defn : Definition) (block : Block) (receiver : Option (ValueId × Ty)) (join : Nat) :
    (σ.called file scope defn block receiver join).context.activation =
      ⟨some (block, σ.context.activation, join), none, none⟩ := by
  rw [activation_eq]
  rfl

variable {known : Known} {s : LowerState} {Γ : Scenario} {σ : Setting} {block : Block}
  {loc : Location}

/-- Nothing is bound in an inlined callee but the receiver. -/
theorem Ready.called {file : String} {defn : Definition} {receiver : Option (ValueId × Ty)}
    {join : Nat} (ready : Ready Γ σ known s) (inside : σ.region.base ≤ join)
    (blockReady : Γ.BlockReady block) (given : ∀ found ∈ receiver, Γ.Avail σ known s found.1) :
    Ready Γ (σ.called file ⟨s.scopes.all.size⟩ defn block receiver join) known
      { s with
        scopes := (s.scopes.add none).2
        context := (σ.called file ⟨s.scopes.all.size⟩ defn block receiver join).context } := by
  have nowhere : ∀ x ∈ (none : Option ScopeId), x.index < s.scopes.all.size :=
    nofun
  refine ready.inScope nowhere rfl rfl rfl rfl rfl rfl ?_
  refine .intro rfl (Nat.lt_succ_self _ |>.trans_eq (Array.size_push _).symm)
    (fun name binding found _ => ?_) (fun _ bound => ?_) nofun
    nofun nofun (fun block' caller join' same => ?_)
    fun _ _ _ same => ?_
  · cases (s.scopes.add_lookup?_none name).symm.trans found
  · obtain ⟨found, present, rfl⟩ := Option.map_eq_some_iff.mp bound
    exact given found present
  · cases same
    exact ⟨inside, blockReady⟩
  · cases same
    exact ready.contexts.add ready.ordered nowhere

namespace Lower

variable {Γ : Scenario} {σ : Setting} {known : Known} {s : LowerState}
  {inner : Expr → Lower ValueId} {meaning : Activation → Nat → Expr → Effect} {call : Call}
  {defn : Definition} {block : Block} {body : Expr} {receiver : Option (ValueId × Ty)}
  (handles : Handles Γ inner meaning)

include handles

variable {values : List ValueId} {join : Nat}

/-- An inlined body ends in the join point of the call. -/
theorem inlinedBody_does (layered : ¬Γ.flat) (entering : σ.entering = true)
    (inside : σ.region.base ≤ join) (source : body ∈ Γ.sources)
    (avail : AllAvail Γ σ known s values) :
    Does Γ σ (meaning σ.context.activation σ.frames body * .leave join) known s
      (inlinedBody inner call defn body values join) fun _ s' _ =>
        Γ.sealed → s'.code.isTerminated = true := by
  unfold inlinedBody
  refine .silently (bindArguments_does entering avail) fun _ _ => ?_
  exact handles.joined layered inside source

/-- An inlined callee runs its body in the frame of the call. -/
theorem callee_does (layered : ¬Γ.flat) (inside : σ.region.base ≤ join) (source : body ∈ Γ.sources)
    (blockReady : Γ.BlockReady block) (avail : AllAvail Γ σ known s values)
    (given : ∀ found ∈ receiver, Γ.Avail σ known s found.1) :
    Does Γ σ (meaning ⟨some (block, σ.context.activation, join), none, none⟩ σ.frames body *
        .leave join) known s
      (do
        let callee ← calleeContext defn block receiver join
        withContext callee (inlinedBody inner call defn body values join)) fun _ s' _ =>
          Γ.sealed → s'.code.isTerminated = true := by
  let σ' := σ.called Γ.env.program.file ⟨s.scopes.all.size⟩ defn block receiver join
  have lowered : Does Γ σ' _ known
      { s with scopes := (s.scopes.add none).2, context := σ'.context }
      (inlinedBody inner call defn body values join) fun _ s' _ =>
        Γ.sealed → s'.code.isTerminated = true :=
    inlinedBody_does handles layered rfl inside source avail
  rw [σ.called_activation] at lowered
  refine .inScope σ' none (fun same => ?_) nofun
    ⟨rfl, rfl, Nat.le_refl _, .inr (Nat.le_refl _)⟩ (fun ready => ready.called inside blockReady given)
    lowered.ends fun _ _ _ ended => ended
  dsimp only [σ', Setting.called]
  rw [← same]
  rfl

/-- A call with an inlined block evaluates its operands and then the callee. -/
theorem lowerInlined_does (settled : σ.entering = false) (ready : Γ.CallReady σ call defn)
    (given : call.block = some block) (bodied : defn.body = some body) :
    Does Γ σ (operands meaning σ.context.activation σ.frames call defn *
        (meaning ⟨some (block, σ.context.activation, σ.frames), none, none⟩ (σ.frames + 1)
          body).framed σ.frames) known s (lowerInlined inner call defn) (Γ.Returned σ defn) := by
  have layered : ¬Γ.flat := by
    intro flat
    rw [ready.flat flat] at given
    cases given
  have source : body ∈ Γ.sources := ready.body (by rw [given]; rfl) body bodied
  have returns : Γ.sealed → ¬defn.ret.isNoReturn = true := by
    intro isSealed never
    rw [(ready.noReturn isSealed never).2] at given
    cases given
  unfold lowerInlined
  rw [given, bodied]
  refine .ite (fun _ => .fault) fun _ => .silently .report fun _ _ => ?_
  have passesBlock : call.block.isSome = true := by rw [given]; rfl
  refine .bind (uniformArgs_does handles ready (.inr passesBlock)) ?_
  intro _ _ args _ ⟨avail, self, _⟩
  refine .ready fun before => ?_
  refine .joinOrNil layered settled (fun _ _ => ?_) (fun _ => (bind_assoc _ _ _).symm)
    fun _ _ _ _ avail => .isTerminated_bind ?_
  · refine callee_does handles layered ?_ source (ready.block block given) ?_ self
    · exact before.frames ▸ before.valid.based
    · split
      · exact avail.tail
      · exact avail
  · split
    · rename_i ended
      exact .pure ⟨avail, fun _ _ => ended, fun _ _ _ => ended, fun flat => absurd flat layered,
        fun flat => absurd flat layered⟩
    · refine .pure ⟨avail, fun isSealed never => absurd never (returns isSealed), ?_,
        fun flat => absurd flat layered, fun flat => absurd flat layered⟩
      intro isSealed proper never
      rw [Ty.merge_isNoReturn proper (returns isSealed)] at never
      cases never

end Lower

/-! ## Yielded blocks -/

/-- The setting of a block that was yielded to, with the context it was written in. -/
def Setting.yielded (σ : Setting) (caller : Context) (scope : ScopeId) (withScope : Option Binding)
    (breakJoin : Nat) : Setting :=
  { σ with
    context := { caller with
      scope := scope
      handlers := σ.context.handlers
      needsValue := σ.context.needsValue
      breakJoin := some breakJoin
      withScope := withScope.or caller.withScope }
    hidden := ∅
    entering := false }

theorem Setting.yielded_activation (σ : Setting) (caller : Context) (scope : ScopeId)
    (withScope : Option Binding) (breakJoin : Nat) :
    (σ.yielded caller scope withScope breakJoin).nexting.context.activation =
      ⟨caller.activation.handed, some breakJoin, some σ.frames⟩ := by
  rw [activation_eq, activation_eq]
  rfl

/-- A block sees what was bound where it was written. -/
theorem Ready.yielded {caller : Context} {withScope : Option Binding} {breakJoin : Nat}
    (ready : Ready Γ σ known s) (target : σ.context.yieldTarget = some (block, caller, breakJoin))
    (given : ∀ binding ∈ withScope, Γ.Avail σ known s binding.ref) :
    Ready Γ (σ.yielded caller ⟨s.scopes.all.size⟩ withScope breakJoin) known
      { s with
        scopes := (s.scopes.add (some caller.scope)).2
        context := (σ.yielded caller ⟨s.scopes.all.size⟩ withScope breakJoin).context } := by
  obtain ⟨_, _, _, _, _, _, _, handed, callers⟩ := ready.contexts
  have written := callers block caller breakJoin target
  obtain ⟨rooted, inside, _⟩ := id written
  have older : ∀ x ∈ some caller.scope, x.index < s.scopes.all.size := by
    intro x same
    cases same
    exact inside
  obtain ⟨_, _, readable, self, scope, _, nexts, handed', callers'⟩ :=
    written.add ready.ordered older
  refine ready.inScope older rfl rooted rfl rfl rfl rfl ?_
  refine .intro rooted (Nat.lt_succ_self _ |>.trans_eq (Array.size_push _).symm)
    (fun name binding found => ?_) self (fun binding bound => ?_) (fun _ same => ?_) nexts
    handed' callers'
  · exact readable name binding ((Scopes.add_lookup?_some ready.ordered inside).symm.trans found)
  · obtain new | ⟨_, old⟩ := Option.or_eq_some_iff.mp bound
    · exact given binding new
    · exact scope binding old
  · cases same
    exact (handed block caller breakJoin target).1

namespace Lower

variable {Γ : Scenario} {σ : Setting} {known : Known} {s : LowerState}
  {inner : Expr → Lower ValueId} {meaning : Activation → Nat → Expr → Effect} {block : Block}

theorem bindYielded_does {params : List BlockParam} {args : List (ValueId × Ty)}
    (avail : ∀ arg ∈ args, Γ.Avail σ known s arg.1) :
    Does Γ σ 1 known s (bindYielded params args) fun _ _ _ => True := by
  induction params generalizing args known s with
  | nil => exact .pure trivial
  | cons param params ih =>
    have bound : ∀ {known s} value ty, Γ.Avail σ known s value →
        (∀ arg ∈ args, Γ.Avail σ known s arg.1) → Does Γ σ 1 known s (do
          let value ← coerce value ty param.ty
          let slot ← spill value param.ty param.name
          declare param.name (.slot slot param.ty)
          bindYielded params args.tail) fun _ _ _ => True := by
      intro known s value ty given avail
      refine .silently (coerce_does given) fun later1 given => ?_
      refine .silently (spill_does given.1) fun later2 stored => ?_
      refine .silently (.declareSlot stored) fun later3 _ => ih fun arg member => ?_
      exact (avail arg (List.mem_of_mem_tail member)).mono (later1.trans (later2.trans later3))
    unfold bindYielded
    cases head : args.head? with
    | some arg => exact bound arg.1 arg.2 (avail arg (List.mem_of_mem_head? head)) avail
    | none =>
      refine .silently .nilValue @fun _ _ value later given => ?_
      exact bound value .nil given fun arg member => (avail arg member).mono later

section

variable (handles : Handles Γ inner meaning)

include handles

/-- A yielded block runs its body in a frame that `next` leaves. -/
theorem yieldedBody_ends {args : List (ValueId × Ty)} (layered : ¬Γ.flat)
    (settled : σ.entering = false) (source : block.body ∈ Γ.sources)
    (avail : ∀ arg ∈ args, Γ.Avail σ known s arg.1) :
    Ends Γ σ ((meaning σ.nexting.context.activation (σ.frames + 1) block.body).framed σ.frames)
      known s (yieldedBody inner block args) fun known' s' outcome =>
        Γ.Avail σ known' s' outcome.value := by
  unfold yieldedBody
  refine .silently (bindYielded_does avail) fun _ _ => ?_
  rw [← mul_one (Effect.framed _ _)]
  refine .joinNext handles layered settled source fun _ _ result _ avail _ => ?_
  cases result with
  | some value => exact .pure (avail value rfl)
  | none =>
    refine .silently .nilValue fun _ avail => ?_
    exact .pure avail

variable {args : List Expr} {scope : Option Expr}

theorem usedArgs_does (sources : ∀ arg ∈ args, arg ∈ Γ.sources) :
    Does Γ σ (all meaning σ.context.activation σ.frames args) known s
      (args.mapM fun arg => return (← lowerUsed inner arg, arg.ty)) fun known' s' values =>
        ∀ value ∈ values, Γ.Avail σ known' s' value.1 := by
  induction args generalizing known s with
  | nil => exact .pure nofun
  | cons arg args ih =>
    rw [List.mapM_cons, all, bind_assoc]
    refine .bind (handles.used (.inl (sources arg List.mem_cons_self))) fun _ result => ?_
    rw [pure_bind]
    refine .finally (ih (List.forall_mem_cons.mp sources).2) ?_
    intro _ _ values later avail
    refine .pure fun found member => ?_
    obtain rfl | member := List.mem_cons.mp member
    · exact result.1.mono later
    · exact avail found member

theorem yieldScope_does (sources : ∀ expr ∈ scope, expr ∈ Γ.sources) :
    Does Γ σ (all meaning σ.context.activation σ.frames scope.toList) known s
      (yieldScope inner scope) fun known' s' found =>
        ∀ binding ∈ found, Γ.Avail σ known' s' binding.ref := by
  unfold yieldScope
  cases scope with
  | none => exact .pure nofun
  | some expr =>
    rw [Option.toList_some, all_singleton]
    refine .finally (handles.used (.inl (sources expr rfl))) fun _ result => ?_
    refine .pure fun _ same => ?_
    cases same
    exact result.1

/-- A `yield` evaluates its arguments and its scope, and then the block where it was written. -/
theorem lowerYield_does (layered : ¬Γ.flat)
    (sources : ∀ expr ∈ args ++ scope.toList, expr ∈ Γ.sources) :
    Does Γ σ (ofYield meaning σ.context.activation σ.frames args scope) known s
      (lowerYield inner args scope loc) fun known' s' outcome =>
        Γ.Avail σ known' s' outcome.value := by
  unfold lowerYield
  refine .ready fun before => .context_bind (.orFault_bind fun ⟨block, caller, breakJoin⟩ target => ?_)
  obtain ⟨_, _, _, _, _, _, _, handed, callers⟩ := before.contexts
  have source := (handed block caller breakJoin target).2.body
  obtain ⟨rooted, _⟩ := callers block caller breakJoin target
  have activation : σ.context.activation.handed = some (block, caller.activation, breakJoin) := by
    rw [activation_eq, target]
    rfl
  rw [ofYield, activation]
  dsimp only
  rw [all_append, mul_assoc]
  refine .bind (usedArgs_does handles (List.forall_mem_append.mp sources).1) @fun _ _ values later avail => ?_
  refine .bind (yieldScope_does handles fun expr member =>
    sources expr (List.mem_append_right _ (Option.mem_toList.mpr member)))
    @fun known' s' withScope later given => ?_
  have avail : ∀ arg ∈ values, Γ.Avail σ known' s' arg.1 :=
    fun arg member => (avail arg member).mono later
  let σ' := σ.yielded caller ⟨s'.scopes.all.size⟩ withScope breakJoin
  have lowered : Ends Γ σ' _ known'
      { s' with scopes := (s'.scopes.add (some caller.scope)).2, context := σ'.context }
      (yieldedBody inner block values) _ :=
    yieldedBody_ends handles layered rfl source avail
  rw [σ.yielded_activation] at lowered
  refine .inScope σ' (some caller.scope) (fun same => ?_) (fun ready _ same => ?_)
    ⟨rfl, ?_, Nat.le_refl _, .inr (Nat.le_refl _)⟩ (fun ready => ready.yielded target given)
    lowered fun _ _ _ avail => avail
  · dsimp only [σ', Setting.yielded]
    rw [← same]
    rfl
  · cases same
    obtain ⟨_, _, _, _, _, _, _, _, callers⟩ := ready.contexts
    obtain ⟨_, inside, _⟩ := callers block caller breakJoin target
    exact inside
  · exact rooted

end

/-! ## Jumps -/

/-- A jump evaluates its value and leaves the frame of its join point. -/
theorem lowerJump_does (handles : Handles Γ inner meaning) {join : Option Nat} {value : Option Expr}
    {keyword : String} (layered : ¬Γ.flat) (inside : ∀ j ∈ join, σ.region.base ≤ j)
    (sources : ∀ expr ∈ value, expr ∈ Γ.sources) :
    Does Γ σ (ofJump meaning σ.context.activation σ.frames join value) known s
      (lowerJump inner join value keyword loc) fun known' s' v =>
        Γ.Avail σ known' s' v ∧ (Γ.sealed → s'.code.isTerminated = true) := by
  unfold lowerJump ofJump
  refine .orFault_bind fun j target => ?_
  rw [target]
  dsimp only
  have placeholder : ∀ {known s}, (Γ.sealed → s.code.isTerminated = true) →
      Does Γ σ 1 known s nilValue fun known' s' v =>
        Γ.Avail σ known' s' v ∧ (Γ.sealed → s'.code.isTerminated = true) := by
    intro known s ended
    exact Does.nilKept.mono fun _ ⟨avail, kept⟩ => ⟨avail, fun isSealed => kept (ended isSealed)⟩
  cases value with
  | some expr =>
    rw [Option.toList_some, all_singleton]
    refine .bind (handles.used (.inl (sources expr rfl))) fun _ result => ?_
    refine .finally (.addToJoin layered (inside j target) result.1 fun isSealed never => ?_)
      fun _ => placeholder
    exact result.2 isSealed (Γ.leaves isSealed expr (sources expr rfl) never)
  | none =>
    refine .bind .nilValue fun _ avail => ?_
    exact .finally (.addToJoin layered (inside j target) avail fun _ never => nomatch never)
      fun _ => placeholder

end Lower

/-! ## Handlers -/

/-- The setting of a body with a handler. -/
def Setting.guarded (σ : Setting) (handler : BlockId) : Setting :=
  { σ with
    region := { σ.region with handlers := handler :: σ.region.handlers }
    context := { σ.context with handlers := handler :: σ.context.handlers } }

theorem Setting.guarded_activation (σ : Setting) (handler : BlockId) :
    (σ.guarded handler).context.activation = σ.context.activation := by
  rw [activation_eq, activation_eq]
  rfl

theorem ContextReady.withHandlers {scopes : Scopes} {handlers : List BlockId}
    (ready : ContextReady Γ r root known code scopes context) :
    ContextReady Γ { r with handlers := handlers } root known code scopes context := by
  induction ready with
  | intro rooted inside readable self scope breaks nexts handed _ ih =>
    exact .intro rooted inside readable self scope breaks nexts handed ih

/-- A body with a new block as its handler is lowered under that handler. -/
theorem Ready.guarded (ready : Ready Γ σ known s) (layered : ¬Γ.flat) :
    Ready Γ (σ.guarded ⟨s.code.blocks.size⟩) known
      { s with
        code := (s.code.appendBlock σ.region.func "rescue").2
        context := (σ.guarded ⟨s.code.blocks.size⟩).context } := by
  have valid := ready.valid.handling
  have ready := ready.withCode (Recording.extends_appendBlock _ _) (ready.valid.appendBlock "rescue")
  exact {
    context := rfl
    handlers := congrArg _ ready.handlers
    valid := valid
    __ := ready
    contexts := by
      obtain ⟨rooted, inside, readable, self, scope, breaks, nexts, handed, callers⟩ :=
        ready.contexts.withHandlers
      exact ⟨rooted, inside, readable, self, scope, breaks, nexts, handed, callers⟩
    flat := fun flat => absurd flat layered }

namespace Lower

variable {Γ : Scenario} {σ : Setting} {known : Known} {s : LowerState}
  {inner : Expr → Lower ValueId} {meaning : Activation → Nat → Expr → Effect}
  {body handler : Expr} {ty : Ty}

/-- Lowers a body with a handler, up to where the handler starts. -/
def lowerGuarded (inner : Expr → Lower ValueId) (body : Expr) (join : Nat) : Lower Unit := do
  let rescue ← newBlock "rescue"
  let value ← withHandler rescue (inner body)
  addToJoin join value body.ty
  position rescue
  discard (emit .landingPad)

theorem lowerRescue_ok {env : Env} {v : ValueId} {s' : LowerState}
    (ran : lowerRescue inner body handler ty env s = .ok v s') : (openJoin ty >>= fun join =>
      (lowerGuarded inner body join >>= fun _ =>
        inner handler >>= fun value => addToJoin join value handler.ty) >>= fun _ =>
      closeJoinOrNil join >>= pure) env s = .ok v s' := by
  unfold lowerRescue at ran
  obtain ⟨rescue, _, made, ran1⟩ := bind_ok ran
  obtain ⟨_, _, opened, ran2⟩ := bind_ok ran1
  obtain ⟨code, recorded, rfl⟩ := record_ok made
  cases opened
  obtain ⟨value, s3, lowered, ran3⟩ := bind_ok ran2
  obtain ⟨_, s4, added, ran4⟩ := bind_ok ran3
  obtain ⟨_, s5, moved, ran5⟩ := bind_ok ran4
  obtain ⟨_, s6, landed, ran6⟩ := bind_ok ran5
  obtain ⟨value', s7, handled, ran7⟩ := bind_ok ran6
  obtain ⟨_, s8, added', closed⟩ := bind_ok ran7
  have opens : openJoin ty env s = .ok _ _ := rfl
  rw [bind_of_ok opens]
  refine (bind_of_ok (a := ()) (t := s8) ?_).trans ?_
  · refine (bind_of_ok (a := ()) (t := s6) ?_).trans ((bind_of_ok handled).trans added')
    refine (bind_of_ok (a := rescue) (record_of_ok (by exact recorded))).trans ?_
    exact (bind_of_ok lowered).trans ((bind_of_ok added).trans ((bind_of_ok moved).trans landed))
  · rw [bind_pure]
    exact closed

/-- A body with a handler ends in the join point; what follows starts at the handler. -/
theorem lowerGuarded_does (handles : Handles Γ inner meaning) {join : Nat} (layered : ¬Γ.flat)
    (settled : σ.entering = false) (inside : σ.region.base ≤ join) (source : body ∈ Γ.sources) :
    Does Γ σ (meaning σ.context.activation σ.frames body * .leave join) known s
      (lowerGuarded inner body join) fun _ _ _ => True := by
  intro ready u s' ran
  obtain ⟨_, _, made, ran1⟩ := bind_ok ran
  obtain ⟨rfl, rfl⟩ := newBlock_ok ready.valid made
  obtain ⟨value, _, lowered, ran2⟩ := bind_ok ran1
  obtain ⟨_, _, added, ran3⟩ := bind_ok ran2
  obtain ⟨_, _, moved, ran4⟩ := bind_ok ran3
  obtain ⟨t, inner_ran, rfl⟩ := around_ok lowered
  cases moved
  obtain ⟨_, landed⟩ := discard_ok ran4
  obtain ⟨_, atBlock', _, _, rfl⟩ := emit_ok landed
  cases atBlock'
  rw [ready.context] at inner_ran
  -- the body and its end in the join point are lowered under the handler
  have guarded := ready.guarded layered
  obtain ⟨_, lowers1, same, value_avail, ends⟩ :=
    handles (σ.guarded ⟨s.code.blocks.size⟩) known _ body (.inl source) guarded value t inner_ran
  rw [σ.guarded_activation] at lowers1
  obtain ⟨_, lowers2, context2, ended⟩ := Lowers.addToJoin added layered
    (lowers1.builds.valid guarded.valid) inside value_avail
    fun isSealed never => ends isSealed (Γ.leaves isSealed body source never)
  -- the body has put back what it pushed, so that the handler is on top
  have popped : { t.context with handlers := t.context.handlers.tail } = s.context := by
    rw [same, ready.context, Setting.guarded]
    cases σ.context
    rfl
  have lowers := lowers1.trans ⟨lowers2.builds, lowers2.dispatches, lowers2.scopes, lowers2.memo⟩
    guarded.valid
  refine ⟨known, ⟨.handle layered lowers.builds ended, lowers.dispatches, ?_, lowers.memo⟩,
    context2.trans popped, trivial⟩
  refine lowers.scopes.mono fun _ _ _ _ allowed => ?_
  exact (Setting.Adds.of_settled settled allowed).mono (Set.Subset.refl _)
    ((Recording.extends_position _).trans (Recording.extends_written _ _))

/-- A body with a handler leaves at its end what it does itself. -/
theorem lowerRescue_does (handles : Handles Γ inner meaning) (layered : ¬Γ.flat)
    (settled : σ.entering = false) (bodySource : body ∈ Γ.sources)
    (handlerSource : handler ∈ Γ.sources) :
    Does Γ σ ((meaning σ.context.activation (σ.frames + 1) body).framed σ.frames) known s
      (lowerRescue inner body handler ty) (Γ.Avail σ) := by
  intro ready v s' ran
  have inside : σ.region.base ≤ σ.frames := ready.frames ▸ ready.valid.based
  refine Does.joinOrNil layered settled (fun _ _ => ?_) (fun _ => rfl)
    (fun _ _ _ _ avail => .pure avail) ready v s' (lowerRescue_ok ran)
  change Does Γ σ.deeper (_ * Effect.leave σ.frames) _ _ _ _
  rw [← Effect.leave_mul σ.frames (meaning σ.context.activation (σ.frames + 1) handler *
    .leave σ.frames), ← mul_assoc]
  refine .bind (lowerGuarded_does handles layered settled inside bodySource) fun _ _ => ?_
  exact handles.joined layered inside handlerSource

end Lower

end CallLowering
