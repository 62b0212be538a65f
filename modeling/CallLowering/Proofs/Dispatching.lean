import CallLowering.Proofs.Closures
import CallLowering.Proofs.Convention

/-!
# Calls

A call of one definition does what direct evaluation does (`lowerSingle_does`). A call of several
candidates hides its operands in variables that carry the number of the dispatch, which no later
dispatch uses again; so every candidate finds them (`Ready.hide`), and its branch is code like that
of any call (`lowerDispatch_does`).
-/

namespace CallLowering

open Recording Evaluation ExprKind

variable {Γ : Scenario} {σ : Setting} {effect : Effect} {known : Known} {s : LowerState}
  {inner : Expr → Lower ValueId} {meaning : Activation → Nat → Expr → Effect} {call : Call}
  {defn : Definition} {expr : Expr} {name : String} {β : Type}

/-! ## Calls of one definition -/

namespace Scenario

variable (source : expr ∈ Γ.sources) (kind : expr.kind = .call call)

include source kind

theorem blockReady_of_call {block : Block} (given : call.block = some block) : Γ.BlockReady block where
  body := Γ.child expr source block.body <| by
    rw [kind, children, given]
    exact List.mem_append_right _ (List.mem_singleton_self _)
  captures strict name member := Γ.hygienic strict expr source name <| by
    rw [kind, reads, given]
    exact member

/-- A call of the program is lowered with every definition it may run. -/
theorem callReady (candidate : Candidate Γ.env Γ.sources call defn) : Γ.CallReady σ call defn where
  member := by
    obtain ⟨_, _, _, target⟩ := candidate
    exact Program.target?_mem target
  obj obj given := .inl <| Γ.child expr source obj <| by
    rw [kind, children, given]
    exact List.mem_append_left _ (List.mem_append_left _ (List.mem_singleton_self _))
  args arg member := .inl <| Γ.child expr source arg <| by
    rw [kind, children]
    exact List.mem_append_left _ (List.mem_append_right _ member)
  default := Γ.default call defn candidate
  block block given := Γ.blockReady_of_call source kind given
  body := Γ.body call defn candidate
  noReturn isSealed never := Γ.noReturn isSealed call defn candidate never
  flat flat := by
    have simple := Γ.simple flat expr source
    rw [kind, isFlat, Bool.and_eq_true, Option.isNone_iff_eq_none] at simple
    exact simple.1

end Scenario

namespace Lower

section

variable (handles : Handles Γ inner meaning)

include handles

theorem blockArgument_does (ready : Γ.CallReady σ call defn) :
    Does Γ σ 1 known s (blockArgument inner call defn) (AllAvail Γ σ) := by
  unfold blockArgument
  refine .ite (fun _ => ?_) fun _ => .pure .nil
  cases given : call.block with
  | none =>
    refine .silently .nilValue fun _ avail => ?_
    exact .pure (.cons avail .nil)
  | some block =>
    have layered : ¬Γ.flat := fun flat => by
      rw [ready.flat flat] at given
      cases given
    refine .silently (materialize_does handles layered (ready.block block given)) ?_
    intro _ _ _ _ avail
    exact .pure (.cons avail .nil)

/-- A call inside the program evaluates its operands and performs the call, unless the body of its
target is substituted. -/
theorem lowerUniform_does (domestic : defn.foreign = none) (ready : Γ.CallReady σ call defn) :
    Does Γ σ (operands meaning σ.context.activation σ.frames call defn *
        if defn.isSubstituted then 1 else Effect.call defn.name * Effect.after defn.ret) known s
      (lowerUniform inner call defn) (Γ.Returned σ defn) := by
  unfold lowerUniform
  refine .bind (uniformArgs_does handles ready (.inl domestic)).ran ?_
  intro _ _ args _ ⟨⟨avail, self, taken⟩, built⟩
  refine .silently (substitute_does self taken) @fun _ _ found later ⟨value, substituted⟩ => ?_
  rw [← substituted]
  cases found with
  | some v =>
    have returns : Γ.sealed → ¬defn.ret.isNoReturn = true := by
      intro isSealed never
      rw [(ready.noReturn isSealed never).1] at substituted
      cases substituted
    exact .pure ⟨value v rfl, fun isSealed never => absurd never (returns isSealed),
      fun isSealed _ never => absurd never (returns isSealed), fun _ _ => rfl,
      fun _ called => absurd (substituted.trans called) Bool.noConfusion⟩
  | none =>
    refine .silently (blockArgument_does handles ready).ran @fun _ _ block later1 passed => ?_
    obtain ⟨blockAvail, passed⟩ := passed
    have callable : Γ.Callable (prototype Γ.env.program.types defn) none (args.values ++ block) :=
      ⟨Γ.listed _ (.definition ready.member domestic),
        .of_length rfl (arguments_length built passed Γ.env.program.types)⟩
    refine .silently (declareDefinition_does ready.member domestic) fun later2 named => ?_
    refine .silently .report fun later3 _ => ?_
    have avail := (((avail.mono later).mono later1).append blockAvail).mono (later2.trans later3)
    refine .bind (callOrInvoke_does callable (named.later later3.code) avail) fun _ avail => ?_
    exact uniformReturn_does avail

/-- A call of one definition does what direct evaluation does. -/
theorem lowerSingle_does (settled : σ.entering = false) (ready : Γ.CallReady σ call defn) :
    Does Γ σ (single meaning σ.context.activation σ.frames call defn) known s
      (lowerSingle inner call defn) (Γ.Returned σ defn) := by
  unfold lowerSingle single
  split
  · cases given : call.block with
    | none =>
      unfold lowerInlined
      rw [given]
      exact .fault
    | some block =>
      cases bodied : defn.body with
      | none =>
        unfold lowerInlined
        rw [given, bodied]
        exact .fault
      | some body => exact lowerInlined_does handles settled ready given bodied
  · cases foreign : defn.foreign with
    | some spec =>
      have isForeign : defn.isForeign = true := by rw [Definition.isForeign, foreign]; rfl
      rw [if_pos isForeign]
      exact lowerForeign_does handles foreign ready
    | none =>
      have domestic : ¬defn.isForeign = true := by
        rw [Definition.isForeign, foreign]
        exact Bool.false_ne_true
      rw [if_neg domestic]
      exact .ite (fun _ => .fault) fun _ => lowerUniform_does handles foreign ready

end

theorem definition_bind {loc : Location} {cont : Definition → Lower β}
    {post : Known → LowerState → β → Prop} (next : ∀ defn, Γ.env.program.target? name = some defn →
      Does Γ σ effect known s (cont defn) post) :
    Does Γ σ effect known s (definition name loc >>= cont) post := by
  unfold definition
  rw [bind_assoc]
  exact .program_bind (.orFault_bind next)

end Lower

/-! ## Hidden operands -/

/-- The setting in which hidden variables up to those of a dispatch may be read. -/
def Setting.hiding (σ : Setting) (names : Set String) (number : Nat) : Setting :=
  { σ with hidden := names, seen := number }

variable {number : Nat} {names : Set String} {α : Type}

/-- A dispatch has a number that nobody has used before. -/
theorem Ready.hiding (ready : Ready Γ σ known s) (later : σ.seen < number)
    (counted : number ≤ s.dispatches) : Ready Γ (σ.hiding σ.hidden number) known s where
  __ := ready
  seen := counted
  hidden name member := (ready.hidden name member).imp (fun old fresh => old (fresh.mono later.le)) fun usable => usable

/-- An operand may be bound to a hidden variable, which can then be read. -/
theorem Ready.hide {v : ValueId} (ready : Ready Γ (σ.hiding names number) known s) (ty : Ty)
    (avail : Γ.Avail σ known s v) (isHidden : IsHidden name) (old : ¬Fresh number name) :
    Ready Γ (σ.hiding (insert name names) number) known
      { s with scopes := s.scopes.declare σ.context.scope name (.value v ty) } := by
  have grown : Scopes.Grow (fun _ n binding => n = name ∧ binding = .value v ty) s.scopes
      (s.scopes.declare σ.context.scope name (.value v ty)) := .declare ⟨rfl, rfl⟩
  obtain ⟨_, inside, _⟩ := ready.contexts
  exact {
    __ := ready
    ordered := grown.ordered ready.ordered
    contexts := ready.contexts.mono (Set.Subset.refl _) (.refl _) grown.size <| by
      intro x n binding within found readable
      obtain before | ⟨_, rfl, rfl⟩ := grown.lookup? ready.ordered within found
      · exact .inl before
      · obtain slot | shown := readable
        · cases slot
        · exact absurd isHidden shown
    rooted := Nat.lt_of_lt_of_le ready.rooted grown.size
    root := fun n binding found slot => by
      obtain before | ⟨rfl, rfl⟩ := grown.lookupLocal? ready.rooted found
      · exact ready.root n binding before slot
      · cases slot
    hidden := fun n member => by
      by_cases same : n = name
      · subst same
        refine ⟨old, fun binding found => ?_⟩
        cases (Scopes.declare_lookup? inside).symm.trans found
        exact avail
      · obtain ⟨old, usable⟩ := ready.hidden n (member.resolve_left same)
        refine ⟨old, fun binding found => ?_⟩
        obtain before | ⟨_, rfl, rfl⟩ := grown.lookup? ready.ordered inside found
        · exact usable binding before
        · exact absurd rfl same
    flat := ready.flat }

/-- What is done while hidden variables can be read keeps them readable. -/
theorem Does.hiding {act : Lower α} {post : Known → LowerState → α → Prop} (later : σ.seen < number)
    (ready : Ready Γ (σ.hiding names number) known s)
    (does : Does Γ (σ.hiding names number) effect known s act post) :
    Does Γ σ effect known s act fun known' s' a =>
      post known' s' a ∧ Ready Γ (σ.hiding names number) known' s' := by
  intro _ a s' ran
  obtain ⟨known', lowers, context, holds⟩ := does ready a s' ran
  exact ⟨known', lowers.within ⟨rfl, rfl, later.le, .inl ⟨rfl, fun entering => entering⟩⟩, context, holds,
    ready.after lowers context⟩

/-- A candidate can read an operand of a dispatch: it is in a hidden variable, or the candidate
evaluates it itself. -/
structure DispatchArg.Readable (arg : DispatchArg) (Γ : Scenario) (σ : Setting) (known : Known)
    (s : LowerState) : Prop where
  expr : (∃ name ∈ σ.hidden, arg.expr.kind = .var name) ∨ arg.tag = none ∧ arg.expr ∈ Γ.sources
  tag : ∀ tag ∈ arg.tag, s.code.Tag σ.region.func known tag

/-- A candidate can read the receiver of a dispatch. -/
structure DispatchReceiver.Readable (receiver : DispatchReceiver) (σ : Setting) (known : Known)
    (s : LowerState) : Prop where
  name : receiver.name ∈ σ.hidden
  tag : ∀ tag ∈ receiver.tag, s.code.Tag σ.region.func known tag

variable {known' : Known} {s' : LowerState} {env : Env}

theorem DispatchArg.Readable.mono {arg : DispatchArg} (readable : arg.Readable Γ σ known s)
    (σ' : Setting) (region : σ'.region = σ.region) (more : σ.hidden ⊆ σ'.hidden)
    (later : Later known s known' s') : arg.Readable Γ σ' known' s' where
  expr := readable.expr.imp (fun ⟨name, member, kind⟩ => ⟨name, more member, kind⟩) id
  tag tag given := region ▸ (readable.tag tag given).mono later.known later.code

theorem DispatchReceiver.Readable.mono {receiver : DispatchReceiver}
    (readable : receiver.Readable σ known s) (σ' : Setting) (region : σ'.region = σ.region)
    (more : σ.hidden ⊆ σ'.hidden) (later : Later known s known' s') :
    receiver.Readable σ' known' s' where
  name := more readable.name
  tag tag given := region ▸ (readable.tag tag given).mono later.known later.code

namespace Lower

variable {names : Set String} {number index : Nat} {ty : Ty} {v : ValueId}

/-- A test is recorded where direct evaluation is of no interest. -/
theorem test_does (op : Operation) (several : ¬Γ.traced) (straight : op.isStraight = true)
    (test : op.isTest = true) (usable : AllAvail Γ σ known s op.operands)
    (guarded : s.code.Guarded σ.region.func known op) :
    Does Γ σ 1 known s (emit op) fun known' s' v =>
      v ∈ known' ∧ s'.code.Produces σ.region.func v op := by
  have kind : op.callee? = none ∧ ∀ value, op ≠ .ret value := by
    cases op with
    | typeId | matchTypeTag | and | condBr => exact ⟨rfl, fun _ => Operation.noConfusion⟩
    | _ => cases test
  obtain ⟨uncalled, unreturned⟩ := kind
  refine .ready fun ready => .untraced several ((Does.write op straight
    ⟨(absurd · several), usable, guarded⟩ ?_ fun value same => absurd same (unreturned value)).mono ?_)
  · rw [uncalled]
    exact nofun
  · rintro _ _ _ _ ⟨passed, _, atBlock, result, after⟩
    obtain ⟨_, present, owned⟩ := ready.valid.placed_at atBlock
    exact ⟨passed, after ▸ .written present owned result⟩

/-- A tag is compared. -/
theorem match_does {tag : ValueId} {candidate : Ty} (several : ¬Γ.traced)
    (isTag : s.code.Tag σ.region.func known tag) :
    Does Γ σ 1 known s (emit (.matchTypeTag ty candidate tag)) fun known' s' v =>
      s'.code.Condition σ.region.func known' v :=
  Does.mono (test_does _ several rfl rfl (.cons (fun _ => .inl isTag.1) .nil) isTag)
    fun _ holds => .test holds.1 holds.2

theorem hide_does (ready : Ready Γ (σ.hiding names number) known s) (fresh : Fresh σ.seen name)
    (old : ¬Fresh number name) (avail : Γ.Avail σ known s v) :
    Does Γ σ 1 known s (declare name (.value v ty)) fun known' s' _ =>
      Γ.Avail σ known' s' v ∧ Ready Γ (σ.hiding (insert name names) number) known' s' := by
  intro before u s' ran
  have hidden := ready.hide ty avail fresh.isHidden old
  rw [← before.context] at hidden
  cases ran
  have place := congrArg Context.scope before.context
  exact ⟨known, ⟨.refl, Nat.le_refl _, .declare (.inl ⟨.inl place, .inr ⟨rfl, fresh⟩⟩), id⟩, rfl, avail,
    hidden⟩

section

variable (several : ¬Γ.traced) (later : σ.seen < number)
  (ready : Ready Γ (σ.hiding names number) known s) (avail : Γ.Avail σ known s v)

include several later ready avail

/-- The tag of a hidden operand is read. -/
theorem tag_does :
    Does Γ σ 1 known s (emit (.typeId v ty)) fun known' s' tag =>
      s'.code.Tag σ.region.func known' tag ∧ Ready Γ (σ.hiding names number) known' s' :=
  .hiding later ready (Does.mono (test_does _ several rfl rfl (.cons avail .nil) trivial)
    fun _ holds => ⟨holds.1, _, _, holds.2⟩)

theorem hideReceiver_does :
    Does Γ σ 1 known s (hideReceiver number v ty) fun known' s' receiver =>
      Ready Γ (σ.hiding (insert (hiddenReceiver number) names) number) known' s' ∧
        receiver.Readable (σ.hiding (insert (hiddenReceiver number) names) number) known' s' := by
  unfold hideReceiver
  refine .silently (hide_does ready ⟨number, later, .inl rfl⟩ (not_fresh_receiver number) avail) ?_
  intro _ _ _ _ ⟨avail, ready⟩
  refine .ite (fun _ => ?_) fun _ => .pure ⟨ready, Set.mem_insert _ _, nofun⟩
  refine .silently (tag_does several later ready avail) ?_
  intro _ _ tag _ ⟨tagAvail, ready⟩
  refine .pure ⟨ready, Set.mem_insert _ _, fun _ same => ?_⟩
  cases same
  exact tagAvail

end

theorem dispatchSelf_does : Does Γ σ 1 known s (dispatchSelf call) fun known' s' binding =>
      Γ.Avail σ known' s' binding.ref := by
  unfold dispatchSelf
  refine .ready fun ready => .context_bind (.orFault fun binding bound => ?_)
  obtain ⟨_, _, _, self, scope, _⟩ := ready.contexts
  split at bound
  · exact scope binding bound
  · exact self binding bound

variable {defns : List Definition} {args : List DispatchArg} {receiver : Option DispatchReceiver}

section

variable (handles : Handles Γ inner meaning) (several : ¬Γ.traced) (later : σ.seen < number)
  (ready : Ready Γ (σ.hiding names number) known s)

include handles several later ready

/-- The receiver of a dispatch is evaluated and hidden. -/
theorem dispatchReceiver_does (source : ∀ obj ∈ call.obj, obj ∈ Γ.sources) :
    Does Γ σ 1 known s (dispatchReceiver inner call defns number) fun known' s' receiver =>
      ∃ names', names ⊆ names' ∧ Ready Γ (σ.hiding names' number) known' s' ∧
        ∀ found ∈ receiver, found.Readable (σ.hiding names' number) known' s' := by
  have hidden : ∀ {known s v ty}, Ready Γ (σ.hiding names number) known s → Γ.Avail σ known s v →
      Does Γ σ 1 known s (do return some (← hideReceiver number v ty)) fun known' s' receiver =>
        ∃ names', names ⊆ names' ∧ Ready Γ (σ.hiding names' number) known' s' ∧
          ∀ found ∈ receiver, found.Readable (σ.hiding names' number) known' s' := by
    intro known s v ty ready avail
    refine .silently (hideReceiver_does several later ready avail) fun _ ⟨ready, readable⟩ => ?_
    refine .pure ⟨_, Set.subset_insert _ _, ready, fun _ same => ?_⟩
    cases same
    exact readable
  unfold dispatchReceiver
  cases given : call.obj with
  | some obj =>
    refine .silently (.untraced several (.hiding later ready
      (handles.used (.inl (source obj given))))) @fun _ _ v _ ⟨result, ready⟩ => ?_
    exact hidden ready result.1
  | none =>
    refine .ite (fun _ => ?_) fun _ =>
      .pure ⟨names, Set.Subset.refl _, ready, nofun⟩
    refine .silently (.hiding later ready dispatchSelf_does) ?_
    intro _ _ binding _ ⟨avail, ready⟩
    refine .silently (.hiding later ready (readBinding_does avail)) ?_
    intro _ _ v _ ⟨avail, ready⟩
    exact hidden ready avail

/-- An argument of a dispatch is evaluated and hidden, or left to the candidate. -/
theorem dispatchArg_does {arg : Expr} (source : arg ∈ Γ.sources) :
    Does Γ σ 1 known s (dispatchArg inner number index arg) fun known' s' hidden =>
      ∃ names', names ⊆ names' ∧ Ready Γ (σ.hiding names' number) known' s' ∧
        hidden.Readable Γ (σ.hiding names' number) known' s' := by
  unfold dispatchArg
  refine .ite (fun _ => ?_) fun _ => ?_
  · exact .pure ⟨names, Set.Subset.refl _, ready, .inr ⟨rfl, source⟩, nofun⟩
  · refine .silently (.untraced several (.hiding later ready
      (handles.used (.inl source)))) fun _ ⟨result, ready⟩ => ?_
    refine .silently (hide_does ready ⟨number, later, .inr ⟨index, rfl⟩⟩
      (not_fresh_argument number index) result.1) fun _ ⟨avail, ready⟩ => ?_
    have bound : hiddenArgument number index ∈ insert (hiddenArgument number index) names :=
      Set.mem_insert _ _
    refine .ite (fun _ => ?_) fun _ => ?_
    · exact .pure ⟨_, Set.subset_insert _ _, ready, .inl ⟨_, bound, rfl⟩, nofun⟩
    · refine .silently (tag_does several later ready avail) ?_
      intro _ _ tag _ ⟨tagAvail, ready⟩
      refine .pure ⟨_, Set.subset_insert _ _, ready, .inl ⟨_, bound, rfl⟩, fun _ same => ?_⟩
      cases same
      exact tagAvail

theorem dispatchArgs_does {args : List Expr} (sources : ∀ arg ∈ args, arg ∈ Γ.sources) :
    Does Γ σ 1 known s (dispatchArgs inner number index args) fun known' s' hidden =>
      hidden.length = args.length ∧
        ∃ names', names ⊆ names' ∧ Ready Γ (σ.hiding names' number) known' s' ∧
          ∀ arg ∈ hidden, arg.Readable Γ (σ.hiding names' number) known' s' := by
  induction args generalizing index names known s with
  | nil => exact .pure ⟨rfl, names, Set.Subset.refl _, ready, nofun⟩
  | cons arg args ih =>
    refine .silently (dispatchArg_does handles several later ready (sources arg List.mem_cons_self)) ?_
    intro _ _ hidden _ ⟨names1, more1, ready₁, readable⟩
    refine .silently (ih ready₁ (List.forall_mem_cons.mp sources).2) ?_
    intro _ _ rest later ⟨sized, names2, more2, ready₂, readables⟩
    refine .pure ⟨congrArg (· + 1) sized, names2, more1.trans more2, ready₂, fun found member => ?_⟩
    obtain rfl | member := List.mem_cons.mp member
    · exact readable.mono (σ.hiding names2 number) rfl more2 later
    · exact readables found member

end

/-! ## Guards -/

theorem receiverTest_does (several : ¬Γ.traced)
    (readable : ∀ found ∈ receiver, found.Readable σ known s) :
    Does Γ σ 1 known s (receiverTest call receiver defn) fun known' s' cond =>
      ∀ v ∈ cond, s'.code.Condition σ.region.func known' v := by
  unfold receiverTest
  split
  · refine .ite (fun _ => .pure nofun) fun _ => ?_
    refine .silently (match_does several ((readable _ rfl).tag _ rfl)) ?_
    refine fun _ condition => .pure fun _ same => ?_
    cases same
    exact condition
  · exact .pure nofun

theorem argTests_does {cond : Option ValueId} (several : ¬Γ.traced)
    (tags : ∀ arg ∈ args, ∀ tag ∈ arg.tag, s.code.Tag σ.region.func known tag)
    (holds : ∀ v ∈ cond, s.code.Condition σ.region.func known v) :
    Does Γ σ 1 known s (argTests call defn index args cond) fun known' s' cond =>
      ∀ v ∈ cond, s'.code.Condition σ.region.func known' v := by
  induction args generalizing index cond known s with
  | nil => exact .pure holds
  | cons arg args ih =>
    unfold argTests
    cases tagged : arg.tag with
    | none => exact ih (List.forall_mem_cons.mp tags).2 holds
    | some tag =>
      refine .orFault_bind fun _ _ => ?_
      refine .silently (match_does several (tags arg List.mem_cons_self tag tagged)) ?_
      intro _ s1 _ later test
      have tags : ∀ arg ∈ args, ∀ tag ∈ arg.tag, s1.code.Tag σ.region.func _ tag :=
        fun arg member tag given =>
          (tags arg (List.mem_cons_of_mem _ member) tag given).mono later.known later.code
      cases cond with
      | none =>
        refine ih tags fun _ same => ?_
        cases same
        exact test
      | some before =>
        have first := (holds before rfl).mono later.known later.code
        refine .silently (test_does _ several rfl rfl
          (.cons (first.usable _) (.cons (test.usable _) .nil)) ⟨first, test⟩) ?_
        intro _ _ _ later2 both
        refine ih (fun arg member tag given =>
          (tags arg member tag given).mono later2.known later2.code) fun _ same => ?_
        cases same
        exact .and both.1 both.2 (first.mono later2.known later2.code)
          (test.mono later2.known later2.code)

/-! ## Candidates -/

theorem rebindArgs_length (args : List DispatchArg) (params : List Param) :
    (rebindArgs args params).length = args.length := by
  induction args generalizing params with
  | nil => rfl
  | cons arg args ih => cases params <;> exact congrArg (· + 1) (ih _)

theorem rebindArgs_lowerable {params : List Param}
    (readable : ∀ arg ∈ args, arg.Readable Γ σ known s) :
    ∀ expr ∈ rebindArgs args params, Γ.Lowerable σ expr := by
  induction args generalizing params with
  | nil => exact nofun
  | cons arg args ih =>
    have rest := fun params => @ih params (List.forall_mem_cons.mp readable).2
    obtain ⟨lowerable, _⟩ := readable arg List.mem_cons_self
    have first : Γ.Lowerable σ arg.expr := lowerable.symm.imp (·.2) id
    intro expr member
    cases params with
    | nil =>
      obtain rfl | member := List.mem_cons.mp member
      · exact first
      · exact rest [] expr member
    | cons param params =>
      obtain rfl | member := List.mem_cons.mp member
      · split
        · rename_i tagged
          obtain hidden | ⟨untagged, _⟩ := lowerable
          · exact .inr hidden
          · cases tagged.symm.trans untagged
        · exact first
      · exact rest params expr member

/-- The branch of a candidate starts in a new block of the function. -/
theorem branch_ok {r : Region} {cond : ValueId} {rest : BlockId → BlockId → Lower α} {a : α}
    (valid : Site.Valid r ⟨s.code, s.joins⟩) (ran : (do
      let current ← newBlock "current_def"
      let next ← newBlock "next_def"
      emitEffect (.condBr cond current next)
      position current
      rest current next) env s = .ok a s') :
    ∃ block, s.code.cursor = some block ∧ s.code.terminator? block = none ∧
      rest ⟨s.code.blocks.size⟩ ⟨s.code.blocks.size + 1⟩ env
        { s with code := s.code.branched r.func block cond } = .ok a s' := by
  obtain ⟨_, _, made, ran1⟩ := bind_ok ran
  obtain ⟨rfl, rfl⟩ := newBlock_ok valid made
  obtain ⟨_, _, made', ran2⟩ := bind_ok ran1
  obtain ⟨rfl, rfl⟩ := newBlock_ok (valid.appendBlock _) made'
  obtain ⟨_, _, branched, ran3⟩ := bind_ok ran2
  obtain ⟨_, recorded3, rfl⟩ := record_ok branched
  obtain ⟨block, atBlock, running, rfl⟩ := Emit.effect_ok recorded3
  obtain ⟨_, _, moved, ran4⟩ := bind_ok ran3
  cases moved
  rw [appendBlock_blocks_size] at ran4
  refine ⟨block, atBlock, ?_, ran4⟩
  exact appendBlock_terminator?.symm.trans
    (appendBlock_terminator?.symm.trans running)

variable {loc : Location}

/-- The definitions that the names at a call site mean. -/
theorem definitions_ok {names : List String}
    (ran : (names.mapM fun name => definition name loc) env s = .ok defns s') :
    s' = s ∧ names.map env.program.target? = defns.map some := by
  induction names generalizing defns with
  | nil =>
    cases ran
    exact ⟨rfl, rfl⟩
  | cons name names ih =>
    rw [List.mapM_cons] at ran
    obtain ⟨_, _, found, ran1⟩ := bind_ok ran
    obtain ⟨present, rfl⟩ := orFault_ok found
    obtain ⟨_, _, others, ran2⟩ := bind_ok ran1
    cases ran2
    obtain ⟨rfl, targets⟩ := ih others
    exact ⟨rfl, by rw [List.map_cons, List.map_cons, targets, present]⟩

theorem definitions_bind {names : List String} {cont : List Definition → Lower β}
    {post : Known → LowerState → β → Prop}
    (next : ∀ defns, (∀ defn ∈ defns, ∃ name ∈ names, Γ.env.program.target? name = some defn) → Does Γ σ effect known s (cont defns) post) :
    Does Γ σ effect known s ((names.mapM fun name => definition name loc) >>= cont) post := by
  intro ready b s' ran
  obtain ⟨defns, _, found, ran1⟩ := bind_ok ran
  obtain ⟨rfl, targets⟩ := definitions_ok found
  refine next defns (fun defn member => ?_) ready b s' ran1
  have member : some defn ∈ names.map Γ.env.program.target? := targets ▸ List.mem_map_of_mem member
  exact List.mem_map.mp member

theorem nextDispatch_does :
    Does Γ σ 1 known s nextDispatch fun _ s' number => number = s'.dispatches ∧ σ.seen < number := by
  intro ready number s' ran
  cases ran
  exact ⟨known, ⟨.refl, Nat.le_succ _, .refl _ _, id⟩, rfl, rfl, Nat.lt_succ_of_le ready.seen⟩

section

variable (receiverReadable : ∀ found ∈ receiver, found.Readable σ known s)
  (readable : ∀ arg ∈ args, arg.Readable Γ σ known s)

include receiverReadable readable

/-- A candidate is called like the definition of a call of the program. -/
theorem candidateCall_ready (ready : Γ.CallReady σ call defn)
    (sized : args.length = call.args.length) :
    Γ.CallReady σ (candidateCall call receiver args defn) defn where
  __ := ready
  obj obj given := by
    obtain ⟨found, present, rfl⟩ := Option.map_eq_some_iff.mp given
    exact .inr ⟨found.name, (receiverReadable found present).name, rfl⟩
  args := rebindArgs_lowerable readable
  default evaluates value omitted := ready.default evaluates value <| by
    rwa [← sized, ← rebindArgs_length args defn.params]

variable (several : ¬Γ.traced)

include several

theorem guardOf_does : Does Γ σ 1 known s (guardOf call receiver args defn) fun known' s' v =>
      s'.code.Condition σ.region.func known' v := by
  unfold guardOf
  refine .silently (receiverTest_does several receiverReadable) @fun _ _ cond later holds => ?_
  refine .silently (argTests_does several (fun arg member tag given =>
    ((readable arg member).tag tag given).mono later.known later.code) holds) ?_
  intro _ _ found _ holds
  cases found with
  | some cond => exact .pure (holds cond rfl)
  | none => exact Does.number.mono fun _ => .constant

variable (handles : Handles Γ inner meaning) (layered : ¬Γ.flat) (settled : σ.entering = false)

include handles layered settled

variable {join : Nat}

/-- Trying a candidate leaves what is known as it was before. -/
theorem tryCandidate_does (inside : σ.region.base ≤ join)
    (ready : Γ.CallReady σ (candidateCall call receiver args defn) defn)
    (proper : Γ.sealed → defn.ret.Proper) :
    Does Γ σ 1 known s (tryCandidate inner call receiver args join defn) fun _ _ _ => True := by
  unfold tryCandidate
  refine .silently (guardOf_does receiverReadable readable several) ?_
  intro known1 s1 cond _ holds before u s' ran
  obtain ⟨block, atBlock, running, ran1⟩ := branch_ok before.valid ran
  have branched : Ready Γ σ known1 { s1 with code := s1.code.branched σ.region.func block cond } :=
    before.withCode (frame_branched atBlock running).later
      (before.valid.branched atBlock running)
  obtain ⟨outcome, s2, called, ran2⟩ := bind_ok ran1
  obtain ⟨_, lowers2, context2, returned⟩ :=
    lowerSingle_does handles settled ready branched outcome s2 called
  obtain ⟨_, _, added, ran3⟩ := bind_ok ran2
  cases ran3
  obtain ⟨_, lowers3, context3, ended⟩ := Lowers.addToJoin added layered
    (lowers2.builds.valid branched.valid) inside returned.avail
    fun isSealed => returned.proper isSealed (proper isSealed)
  have lowers := lowers2.trans lowers3 branched.valid
  refine ⟨known1, ⟨.branch layered
    ⟨(absurd · several), List.forall_mem_singleton.mpr (holds.usable _), holds⟩ atBlock running
    lowers.builds ended, lowers.dispatches, ?_, lowers.memo⟩, context3.trans context2, trivial⟩
  refine lowers.scopes.mono fun _ _ _ _ allowed => ?_
  exact (Setting.Adds.of_settled settled allowed).mono (Set.Subset.refl _)
    (extends_position _)

theorem tryCandidates_does (inside : σ.region.base ≤ join)
    (ready : ∀ defn ∈ defns, Γ.CallReady σ call defn) (sized : args.length = call.args.length)
    (proper : ∀ defn ∈ defns, Γ.sealed → defn.ret.Proper) :
    Does Γ σ 1 known s (defns.forM (tryCandidate inner call receiver args join))
      fun _ _ _ => True := by
  induction defns generalizing known s with
  | nil => exact .pure trivial
  | cons defn defns ih =>
    have called := candidateCall_ready receiverReadable readable (ready defn List.mem_cons_self) sized
    refine .silently (tryCandidate_does receiverReadable readable several handles layered settled inside
      called (proper defn List.mem_cons_self)) fun later _ => ?_
    exact ih (fun found given => (receiverReadable found given).mono σ rfl subset_rfl later)
      (fun arg member => (readable arg member).mono σ rfl subset_rfl later)
      (List.forall_mem_cons.mp ready).2
      (List.forall_mem_cons.mp proper).2

/-- The candidates are tried one after the other and meet in a join point. -/
theorem joinedCandidates_does (source : expr ∈ Γ.sources) (kind : expr.kind = .call call)
    (many : call.targets.length ≠ 1)
    (candidates : ∀ defn ∈ defns, Candidate Γ.env Γ.sources call defn)
    (sized : args.length = call.args.length) : Does Γ σ effect known s (do
      let join ← openJoin ty
      defns.forM (tryCandidate inner call receiver args join)
      emitEffect .unreachable
      return ⟨← closeJoinOrNil join, ty⟩) fun known' s' outcome =>
        Γ.Avail σ known' s' (CallOutcome.value outcome) := by
  refine .ready fun ready => ?_
  have tried : ∀ machineType needsValue, Does Γ σ.deeper .halt known
      { s with joins := s.joins.push (.fresh ty machineType needsValue) }
      (defns.forM (tryCandidate inner call receiver args σ.frames) >>= fun _ =>
        emitEffect .unreachable) fun _ t _ => Γ.sealed → t.code.isTerminated = true := by
    intro machineType needsValue
    refine .silently (tryCandidates_does (σ := σ.deeper) ?_ ?_ several handles layered settled
      (ready.frames ▸ ready.valid.based)
      (fun defn member => Γ.callReady source kind (candidates defn member)) sized
      fun defn member isSealed => Γ.proper isSealed call defn (candidates defn member) many) ?_
    · exact fun found given => ⟨(receiverReadable found given).name, (receiverReadable found given).tag⟩
    · exact fun arg member => ⟨(readable arg member).expr, (readable arg member).tag⟩
    · intro _ _ _ _ _
      exact Does.unreachable.mono fun _ ended _ => ended
  exact .untraced several (.joinOrNil layered settled tried (fun _ => (bind_assoc _ _ _).symm)
    fun _ _ _ _ avail => .pure avail)

end

variable (handles : Handles Γ inner meaning)

include handles

/-- A call of several candidates evaluates its operands once and then tries the candidates. -/
theorem lowerDispatch_does (several : ¬Γ.traced) (layered : ¬Γ.flat) (settled : σ.entering = false)
    (source : expr ∈ Γ.sources) (kind : expr.kind = .call call) (many : call.targets.length ≠ 1) :
    Does Γ σ effect known s (lowerDispatch inner call) fun known' s' outcome =>
      Γ.Avail σ known' s' outcome.value := by
  refine .untraced several (?_ : Does Γ σ 1 known s _ _)
  unfold lowerDispatch
  refine definitions_bind fun defns targets => ?_
  have candidates : ∀ defn ∈ defns, Candidate Γ.env Γ.sources call defn :=
    fun defn member => ⟨⟨expr, source, kind⟩, targets defn member⟩
  have child : ∀ operand ∈ call.obj.toList ++ call.args, operand ∈ Γ.sources := fun operand member =>
    Γ.child expr source operand (by rw [kind]; exact List.mem_append_left _ member)
  refine .silently .report fun _ _ => ?_
  refine .silently nextDispatch_does @fun _ _ number _ ⟨counted, later⟩ => .ready fun ready => ?_
  have ready := ready.hiding later (Nat.le_of_eq counted)
  refine .silently (dispatchReceiver_does handles several later ready fun obj given =>
    child obj (List.mem_append_left _ (Option.mem_toList.mpr given))) ?_
  intro _ _ receiver _ ⟨names, _, ready, receiverReadable⟩
  refine .silently (dispatchArgs_does handles several later ready (List.forall_mem_append.mp child).2) ?_
  intro _ _ args later' ⟨sized, names', more, ready, readable⟩
  have receiverReadable := fun found given =>
    (receiverReadable found given).mono (σ.hiding names' number) rfl more later'
  refine (Does.hiding later ready ?_).mono fun _ holds => holds.1
  exact joinedCandidates_does receiverReadable readable several handles layered settled source kind
    many candidates sized

/-- A call does what direct evaluation does. -/
theorem lowerCallWith_does (settled : σ.entering = false) (source : expr ∈ Γ.sources)
    (kind : expr.kind = .call call) :
    Does Γ σ (ofCall Γ.env.program meaning σ.context.activation σ.frames call) known s
      (lowerCallWith inner call) fun known' s' outcome => Γ.Avail σ known' s' outcome.value ∧
          (Γ.sealed → expr.leaves Γ.env.program = true → s'.code.isTerminated = true) := by
  unfold lowerCallWith ofCall
  rcases targets : call.targets with _ | ⟨name, _ | ⟨name', names⟩⟩
  · exact .fault
  · refine definition_bind fun defn target => ?_
    dsimp only
    rw [target]
    have candidate : Candidate Γ.env Γ.sources call defn :=
      ⟨⟨expr, source, kind⟩, name, by rw [targets]; exact List.mem_singleton_self _, target⟩
    refine (lowerSingle_does handles settled (Γ.callReady source kind candidate)).mono ?_
    intro _ _ outcome _ returned
    refine ⟨returned.avail, fun isSealed leaves => returned.never isSealed ?_⟩
    obtain ⟨_, _, targets', target', never⟩ := Expr.leaves_call kind leaves
    cases targets.symm.trans targets'
    cases target.symm.trans target'
    exact never
  · have many : call.targets.length ≠ 1 := by
      rw [targets]
      exact nofun
    have several : ¬Γ.traced := fun traced => many (Γ.single traced expr source call kind)
    have layered : ¬Γ.flat := by
      intro flat
      have simple := Γ.simple flat expr source
      rw [kind, isFlat, Bool.and_eq_true, beq_iff_eq] at simple
      exact many simple.2
    refine (lowerDispatch_does handles several layered settled source kind many).mono ?_
    intro _ _ outcome _ avail
    refine ⟨avail, fun _ leaves => ?_⟩
    obtain ⟨_, _, targets', _⟩ := Expr.leaves_call kind leaves
    cases targets.symm.trans targets'

end Lower

end CallLowering
