import CallLowering.Proofs.Scenario

/-!
# Reasoning about computations

`Does Γ σ effect known s act post` says of a computation that starts in a setting: whenever it
succeeds, the change it makes to the state is one of lowering with the given effect, and the
postcondition holds of what it answers. There is one rule for every way to put computations
together and one for every primitive, so that what a function of lowering does is shown along its
text.

`Ends` is the same without the demand that the context is left as it was; it is for computations
that run under a context of their own.
-/

namespace CallLowering

open Lower

namespace Operation

/-- Whether the operation only computes or moves data. -/
def isPlain : Operation → Bool
  | alloca .. | load .. | store .. | copy .. | fieldPtr .. | extractValue .. | cast .. => true
  | convert .. | makeClosure .. => true
  | _ => false

variable {op : Operation}

theorem of_isPlain (plain : op.isPlain = true) (code : Recording) :
    op.isStraight = true ∧ op.isTest = false ∧ op.callee? = none ∧ op.effect code = 1 ∧
      ∀ value, op ≠ .ret value := by
  cases op <;> first | exact ⟨rfl, rfl, rfl, rfl, fun _ => Operation.noConfusion⟩ | cases plain

theorem of_isTerminator (straight : op.isStraight = true) (terminator : op.isTerminator = true)
    (code : Recording) : op.isTest = false ∧ op.callee? = none ∧ op.effect code = .halt := by
  cases op with
  | unreachable | ret => exact ⟨rfl, rfl, rfl⟩
  | invoke | br | condBr => cases straight
  | _ => cases terminator

end Operation

variable {block : BlockId} {op : Operation} {code : Recording} {r : Region}

theorem Recording.isTerminated_written {data : BasicBlock} (atBlock : code.cursor = some block)
    (present : code.block? block = some data) (terminator : op.isTerminator = true) :
    (code.written block op).isTerminated = true := by
  rw [isTerminated, written_cursor, atBlock]
  simp [terminator?, written_block?_self present, BasicBlock.terminator?, terminator]

/-- The block at the cursor has ended with the operation. -/
def Recording.EndsWith (code : Recording) (op : Operation) : Prop :=
  ∃ block, code.cursor = some block ∧ code.terminator? block = some op

theorem Site.Valid.isTerminated_written {joins : Array JoinPoint} (valid : Valid r ⟨code, joins⟩)
    (atBlock : code.cursor = some block) (terminator : op.isTerminator = true) :
    (code.written block op).isTerminated = true := by
  obtain ⟨_, present, _⟩ := valid.placed_at atBlock
  exact Recording.isTerminated_written atBlock present terminator

/-- Whenever the computation succeeds, it lowers with the effect and the postcondition holds. -/
def Ends {α : Type} (Γ : Scenario) (σ : Setting) (effect : Effect) (known : Known)
    (s : LowerState) (act : Lower α) (post : Known → LowerState → α → Prop) : Prop :=
  Ready Γ σ known s → ∀ a s', act Γ.env s = .ok a s' →
    ∃ known', Lowers Γ σ effect known s known' s' ∧ post known' s' a

/-- Whenever the computation succeeds, it lowers with the effect, the context is what it was and
the postcondition holds. -/
def Does {α : Type} (Γ : Scenario) (σ : Setting) (effect : Effect) (known : Known)
    (s : LowerState) (act : Lower α) (post : Known → LowerState → α → Prop) : Prop :=
  Ends Γ σ effect known s act fun known' s' a => s'.context = s.context ∧ post known' s' a

/-- What is known at one point of lowering is known at a later one. -/
structure Later (known : Known) (s : LowerState) (known' : Known) (s' : LowerState) : Prop where
  known : known ⊆ known'
  code : s.code.Extends s'.code

/-- A value may be used in a setting. -/
def Scenario.Avail (Γ : Scenario) (σ : Setting) (known : Known) (s : LowerState) (v : ValueId) :
    Prop :=
  Γ.Usable σ.region.func known s.code v

/-- The values of a list may be used in a setting. -/
def AllAvail (Γ : Scenario) (σ : Setting) (known : Known) (s : LowerState)
    (values : List ValueId) : Prop :=
  ∀ v ∈ values, Γ.Avail σ known s v

/-- A value is storage of the function. -/
def Stored (σ : Setting) (_known : Known) (s : LowerState) (v : ValueId) : Prop :=
  s.code.Ambient σ.region.func v

/-- A prototype is called with the given convention and arguments. -/
structure Scenario.Callable (Γ : Scenario) (decl : FnDecl) (conv : Option CallConv)
    (args : List ValueId) : Prop where
  listed : Γ.declares decl
  accepts : decl.Accepts conv args

section Rules

variable {α β : Type} {Γ : Scenario} {σ σ' : Setting} {effect effect' : Effect}
  {known known' : Known} {s s' : LowerState} {act : Lower α} {cont : α → Lower β}
  {post post' : Known → LowerState → α → Prop} {post2 : Known → LowerState → β → Prop}
  {v : ValueId} {values : List ValueId}

theorem Later.trans {known1 : Known} {s1 : LowerState} (first : Later known s known1 s1)
    (second : Later known1 s1 known' s') : Later known s known' s' :=
  ⟨first.known.trans second.known, first.code.trans second.code⟩

theorem Scenario.Avail.mono (usable : Γ.Avail σ known s v) (later : Later known s known' s') :
    Γ.Avail σ known' s' v :=
  Rules.Usable.mono usable later.known later.code

theorem AllAvail.nil : AllAvail Γ σ known s [] := nofun

theorem AllAvail.cons (first : Γ.Avail σ known s v) (avail : AllAvail Γ σ known s values) :
    AllAvail Γ σ known s (v :: values) :=
  fun w member => (List.mem_cons.mp member).elim (fun same => same ▸ first) (avail w)

section

variable (avail : AllAvail Γ σ known s values)

include avail

theorem AllAvail.mono (later : Later known s known' s') : AllAvail Γ σ known' s' values :=
  fun v member => (avail v member).mono later

theorem AllAvail.append {values' : List ValueId} (avail' : AllAvail Γ σ known s values') :
    AllAvail Γ σ known s (values ++ values') :=
  fun v member => (List.mem_append.mp member).elim (avail v) (avail' v)

theorem AllAvail.tail : AllAvail Γ σ known s values.tail :=
  fun v member => avail v (List.mem_of_mem_tail member)

theorem AllAvail.head : ∀ v ∈ values.head?, Γ.Avail σ known s v :=
  fun v member => avail v (List.mem_of_mem_head? member)

end

theorem AllAvail.of_option {found : Option ValueId} (avail : ∀ v ∈ found, Γ.Avail σ known s v) :
    AllAvail Γ σ known s found.toList :=
  fun v member => avail v (Option.mem_toList.mp member)

theorem Stored.mono (stored : Stored σ known s v) (later : Later known s known' s') :
    Stored σ known' s' v :=
  Recording.Ambient.mono stored later.code

theorem Stored.avail (stored : Stored σ known s v) : Γ.Avail σ known s v :=
  fun _ => .inr stored

variable {binding : Binding} {needsValue : Bool} {cause : Fault} {loc : Location} {op : Operation}
  {code : Recording} {name : String} {decl : FnDecl} {func : FuncId}
  {final : Known → LowerState → α → Prop} {value : Option α} {a : α}

theorem Scenario.Callable.calls {args : List ValueId} {conv : Option CallConv}
    (callable : Γ.Callable decl conv args) (named : s.code.Names func decl.name) :
    Γ.Calls s.code func conv args := by
  obtain ⟨routine, declared, name⟩ := named
  exact ⟨routine, decl, declared, callable.listed, name, callable.accepts⟩

theorem Lowers.toLater (lowers : Lowers Γ σ effect known s known' s') (ready : Ready Γ σ known s) :
    Later known s known' s' :=
  ⟨lowers.builds.known_subset, lowers.later ready.valid⟩

theorem Lowers.refl (Γ : Scenario) (σ : Setting) (known : Known) (s : LowerState) :
    Lowers Γ σ 1 known s known s :=
  ⟨.refl, Nat.le_refl _, .refl _ _, id⟩

/-! ## Putting computations together -/

theorem Ends.mono (ends : Ends Γ σ effect known s act post)
    (weaker : ∀ {known' s' a}, Later known s known' s' → post known' s' a → post' known' s' a) :
    Ends Γ σ effect known s act post' := by
  intro ready a s' ran
  obtain ⟨known', lowers, holds⟩ := ends ready a s' ran
  exact ⟨known', lowers, weaker (lowers.toLater ready) holds⟩

theorem Does.pure (holds : post known s a) : Does Γ σ 1 known s (pure a) post := by
  intro _ a' s' ran
  cases ran
  exact ⟨known, .refl Γ σ known s, rfl, holds⟩

section

variable (first : Does Γ σ effect known s act post)

include first

theorem Ends.bind (next : ∀ {known1 s1 a}, Later known s known1 s1 → post known1 s1 a →
      Ends Γ σ effect' known1 s1 (cont a) post2) :
    Ends Γ σ (effect * effect') known s (act >>= cont) post2 := by
  intro ready b s' ran
  obtain ⟨a, s1, ran1, ran2⟩ := bind_ok ran
  obtain ⟨known1, lowers1, context1, holds1⟩ := first ready a s1 ran1
  obtain ⟨known', lowers2, holds2⟩ :=
    next (lowers1.toLater ready) holds1 (ready.after lowers1 context1) b s' ran2
  exact ⟨known', lowers1.trans lowers2 ready.valid, holds2⟩

theorem Does.bind (next : ∀ {known1 s1 a}, Later known s known1 s1 → post known1 s1 a →
      Does Γ σ effect' known1 s1 (cont a) post2) :
    Does Γ σ (effect * effect') known s (act >>= cont) post2 := by
  intro ready b s' ran
  obtain ⟨a, s1, ran1, ran2⟩ := bind_ok ran
  obtain ⟨known1, lowers1, context1, holds1⟩ := first ready a s1 ran1
  obtain ⟨known', lowers2, context2, holds2⟩ :=
    next (lowers1.toLater ready) holds1 (ready.after lowers1 context1) b s' ran2
  exact ⟨known', lowers1.trans lowers2 ready.valid, context2.trans context1, holds2⟩

/-- A computation without effect comes last. -/
theorem Does.finally (next : ∀ {known1 s1 a}, Later known s known1 s1 → post known1 s1 a →
      Does Γ σ 1 known1 s1 (cont a) post2) : Does Γ σ effect known s (act >>= cont) post2 := by
  rw [← mul_one effect]
  exact .bind first next

end

/-- A computation without effect comes first. -/
theorem Ends.silently (first : Does Γ σ 1 known s act post)
    (next : ∀ {known1 s1 a}, Later known s known1 s1 → post known1 s1 a →
      Ends Γ σ effect known1 s1 (cont a) post2) : Ends Γ σ effect known s (act >>= cont) post2 := by
  rw [← one_mul effect]
  exact .bind first next

/-- A computation without effect comes first. -/
theorem Does.silently (first : Does Γ σ 1 known s act post)
    (next : ∀ {known1 s1 a}, Later known s known1 s1 → post known1 s1 a →
      Does Γ σ effect known1 s1 (cont a) post2) : Does Γ σ effect known s (act >>= cont) post2 := by
  rw [← one_mul effect]
  exact .bind first next

/-- The state may be taken to be ready. -/
theorem Does.ready (does : Ready Γ σ known s → Does Γ σ effect known s act post) :
    Does Γ σ effect known s act post :=
  fun ready => does ready ready

theorem Does.fault : Does Γ σ effect known s (fault cause loc) post := by
  intro _ a s' ran
  cases ran

theorem Does.throw {error : LowerError} : Does Γ σ effect known s (throw error : Lower α) post := by
  intro _ a s' ran
  cases ran

theorem Does.orFault (holds : ∀ a, value = some a → post known s a) :
    Does Γ σ 1 known s (orFault value cause loc) post := by
  cases value with
  | none => exact .fault
  | some a => exact .pure (holds a rfl)

theorem Does.orFault_bind (next : ∀ a, value = some a → Does Γ σ effect known s (cont a) post2) :
    Does Γ σ effect known s (Lower.orFault value cause loc >>= cont) post2 := by
  intro ready b s' ran
  obtain ⟨a, _, found, ran2⟩ := bind_ok ran
  obtain ⟨present, rfl⟩ := Lower.orFault_ok found
  exact next a present ready b s' ran2

theorem Does.ite {condition : Prop} [Decidable condition] {act' : Lower α}
    (yes : condition → Does Γ σ effect known s act post)
    (no : ¬condition → Does Γ σ effect known s act' post) :
    Does Γ σ effect known s (if condition then act else act') post := by
  split
  · exact yes ‹_›
  · exact no ‹_›

section

variable (does : Does Γ σ effect known s act post)

include does

theorem Does.ends : Ends Γ σ effect known s act post := by
  intro ready a s' ran
  obtain ⟨known', lowers, _, holds⟩ := does ready a s' ran
  exact ⟨known', lowers, holds⟩

theorem Does.mono
    (weaker : ∀ {known' s' a}, Later known s known' s' → post known' s' a → post' known' s' a) :
    Does Γ σ effect known s act post' :=
  Ends.mono does fun later holds => ⟨holds.1, weaker later holds.2⟩

/-- What a computation answers is what its run answers. -/
theorem Does.ran :
    Does Γ σ effect known s act fun known' s' a => post known' s' a ∧ act Γ.env s = .ok a s' := by
  intro ready a s' ran
  obtain ⟨known', lowers, context, holds⟩ := does ready a s' ran
  exact ⟨known', lowers, context, holds, ran⟩

theorem Does.discard : Does Γ σ effect known s (discard act) fun _ _ _ => True := by
  intro ready u s' ran
  obtain ⟨a, ran⟩ := discard_ok ran
  obtain ⟨known', lowers, context, _⟩ := does ready a s' ran
  exact ⟨known', lowers, context, trivial⟩

end

/-- Control does not get to a computation in a block that has ended, so its effect is of no
account. -/
theorem Does.dead (ended : s.code.isTerminated = true) (does : Does Γ σ 1 known s act post) :
    Does Γ σ effect known s act post := by
  intro ready a s' ran
  obtain ⟨known', lowers, context, holds⟩ := does ready a s' ran
  refine ⟨known', { lowers with builds := ?_ }, context, holds⟩
  rw [← mul_one effect]
  exact .trans (.dead ended) lowers.builds

theorem Does.untraced (several : ¬Γ.traced) (does : Does Γ σ effect known s act post) :
    Does Γ σ effect' known s act post := by
  intro ready a s' ran
  obtain ⟨known', lowers, context, holds⟩ := does ready a s' ran
  exact ⟨known', { lowers with builds := .untraced (absurd · several) lowers.builds }, context, holds⟩

/-! ## Reading -/

theorem Ends.types_bind {cont : TypeTable → Lower β}
    (next : Ends Γ σ effect known s (cont Γ.env.program.types) post2) :
    Ends Γ σ effect known s (types >>= cont) post2 := next

theorem Does.types_bind {cont : TypeTable → Lower β}
    (next : Does Γ σ effect known s (cont Γ.env.program.types) post2) :
    Does Γ σ effect known s (types >>= cont) post2 := next

theorem Does.program_bind {cont : Program → Lower β}
    (next : Does Γ σ effect known s (cont Γ.env.program) post2) :
    Does Γ σ effect known s (program >>= cont) post2 := next

theorem Does.get_bind {cont : LowerState → Lower β}
    (next : Does Γ σ effect known s (cont s) post2) :
    Does Γ σ effect known s (get >>= cont) post2 := next

theorem Does.isTerminated_bind {cont : Bool → Lower β}
    (next : Does Γ σ effect known s (cont s.code.isTerminated) post2) :
    Does Γ σ effect known s (isTerminated >>= cont) post2 := next

theorem Does.context_bind {cont : Context → Lower β}
    (next : Does Γ σ effect known s (cont σ.context) post2) :
    Does Γ σ effect known s (context >>= cont) post2 := by
  intro ready b s' ran
  refine next ready b s' ?_
  rw [← ready.context]
  exact ran

theorem Does.lookup_bind {cont : Option Binding → Lower β}
    (next : ∀ found, (∀ binding, found = some binding → binding.isSlot = true ∨ ¬IsHidden name ∨ name ∈ σ.hidden → Γ.Avail σ known s binding.ref) → Does Γ σ effect known s (cont found) post2) :
    Does Γ σ effect known s (lookup? name >>= cont) post2 := by
  intro ready b s' ran
  refine next (s.scopes.lookup? σ.context.scope name) ?_ ready b s' ?_
  · intro binding found readable
    obtain ⟨_, _, visible, _⟩ := ready.contexts
    obtain slot | shown | hidden := readable
    · exact visible name binding found (.inl slot)
    · exact visible name binding found (.inr shown)
    · exact (ready.hidden name hidden).2 binding found
  · rw [← ready.context]
    exact ran

/-! ## Recording -/

/-- Only the code changes. -/
theorem Lowers.of_code
    (builds : Builds Γ.toRules σ.region effect known ⟨s.code, s.joins⟩ known' ⟨code, s.joins⟩) :
    Lowers Γ σ effect known s known' { s with code := code } :=
  ⟨builds, Nat.le_refl _, .refl _ _, id⟩

theorem Does.number {value : Constant} : Does Γ σ 1 known s (constant value) fun _ s' v =>
    s'.code.value? v = some (.const value) := by
  intro _ v s' ran
  obtain ⟨_, recorded, rfl⟩ := record_ok ran
  cases recorded
  exact ⟨known, .of_code (.constant value), rfl, Array.getElem?_push_size⟩

theorem Does.constant {value : Constant} : Does Γ σ 1 known s (constant value) (Γ.Avail σ) :=
  Does.number.mono fun _ source _ => .inr (.constant source)

theorem Does.nilValue : Does Γ σ 1 known s nilValue (Γ.Avail σ) := .constant

/-- The placeholder leaves a block that has ended as it is. -/
theorem Does.nilKept : Does Γ σ 1 known s Lower.nilValue fun known' s' v =>
      Γ.Avail σ known' s' v ∧ (s.code.isTerminated = true → s'.code.isTerminated = true) := by
  intro ready v s' ran
  obtain ⟨known', lowers, context, avail⟩ := Does.nilValue ready v s' ran
  cases ran
  exact ⟨known', lowers, context, avail, id⟩

theorem Does.global : Does Γ σ 1 known s (record (Emit.global name)) (Γ.Avail σ) := by
  intro ready v s' ran
  obtain ⟨_, recorded, rfl⟩ := record_ok ran
  cases recorded
  exact ⟨known, .of_code (.global name), rfl, fun _ => .inr (.global
    (ready.valid.proper.indexed.value?_addGlobal.mpr rfl))⟩

theorem Does.declareFn (listed : Γ.declares decl) :
    Does Γ σ 1 known s (declareFn decl) fun _ s' func => s'.code.Names func decl.name := by
  intro ready func s' ran
  obtain ⟨_, recorded, rfl⟩ := record_ok ran
  cases recorded
  exact ⟨known, .of_code (.declare decl listed), rfl, ready.valid.proper.indexed.names_declare decl⟩

section

variable (op : Operation) (straight : op.isStraight = true)
  (allowed : Γ.Allows σ.region.func known s.code op)
  (called : ∀ func ∈ op.callee?, Γ.Calls s.code func op.conv? op.operands)
  (returned : ∀ value, op = .ret value → (value = none ↔ σ.region.ret = .void))

include straight allowed called returned

/-- A straight operation is put at the cursor. -/
theorem Does.write : Does Γ σ (op.effect s.code) known s (emit op) fun known' s' v =>
    v ∈ known' ∧ ∃ block, s.code.cursor = some block ∧ s.code.resultOf op = some v ∧
      s'.code = s.code.written block op := by
  intro _ v s' ran
  obtain ⟨block, atBlock, running, result, rfl⟩ := emit_ok ran
  refine ⟨_, .of_code (.write straight allowed called atBlock running returned), rfl, ?_⟩
  exact ⟨.inr result, block, atBlock, result, rfl⟩

/-- A straight operation is put at the cursor for its effect. -/
theorem Does.writeEffect : Does Γ σ (op.effect s.code) known s (emitEffect op) fun _ s' _ =>
      ∃ block, s.code.cursor = some block ∧ s'.code = s.code.written block op := by
  intro _ v s' ran
  obtain ⟨_, recorded, rfl⟩ := record_ok ran
  obtain ⟨block, atBlock, running, rfl⟩ := Emit.effect_ok recorded
  refine ⟨_, .of_code (.write straight allowed called atBlock running returned), rfl, ?_⟩
  exact ⟨block, atBlock, rfl⟩

end

/-- An operation that computes or moves data is recorded without effect. -/
theorem Does.emit (plain : op.isPlain = true) (usable : AllAvail Γ σ known s op.operands) :
    Does Γ σ 1 known s (emit op) (Γ.Avail σ) := by
  obtain ⟨straight, untested, callee, effect, stays⟩ := Operation.of_isPlain plain s.code
  rw [← effect]
  refine (Does.write op straight (.plain untested usable) ?_ fun value same =>
    absurd same (stays value)).mono fun _ holds _ => .inl holds.1
  rw [callee]
  exact nofun

theorem Does.emitEffect (plain : op.isPlain = true) (usable : AllAvail Γ σ known s op.operands) :
    Does Γ σ 1 known s (emitEffect op) fun _ _ _ => True := by
  obtain ⟨straight, untested, callee, effect, stays⟩ := Operation.of_isPlain plain s.code
  rw [← effect]
  refine (Does.writeEffect op straight (.plain untested usable) ?_ fun value same =>
    absurd same (stays value)).mono fun _ _ => trivial
  rw [callee]
  exact nofun

/-- An operation that ends the function ends the block. -/
theorem Does.stop (straight : op.isStraight = true) (terminator : op.isTerminator = true)
    (usable : AllAvail Γ σ known s op.operands)
    (returned : ∀ value, op = .ret value → (value = none ↔ σ.region.ret = .void)) :
    Does Γ σ .halt known s (Lower.emitEffect op) fun _ s' _ => s'.code.isTerminated = true := by
  obtain ⟨untested, callee, effect⟩ := Operation.of_isTerminator straight terminator s.code
  rw [← effect]
  refine .ready fun ready => (Does.writeEffect op straight (.plain untested usable) ?_
    returned).mono ?_
  · rw [callee]
    exact nofun
  · rintro _ s' _ _ ⟨block, atBlock, after⟩
    rw [after]
    exact ready.valid.isTerminated_written atBlock terminator

theorem Does.unreachable : Does Γ σ .halt known s (Lower.emitEffect .unreachable) fun _ s' _ =>
      s'.code.isTerminated = true :=
  .stop rfl rfl .nil fun _ => Operation.noConfusion

/-- New storage belongs to the function. -/
theorem Does.alloca {ty : MachineType} :
    Does Γ σ 1 known s (Lower.emit (.alloca ty name)) (Stored σ) := by
  intro ready v s' ran
  obtain ⟨block, atBlock, running, result, rfl⟩ := Lower.emit_ok ran
  obtain ⟨data, present, owned⟩ := ready.valid.placed_at atBlock
  have builds := @Builds.write Γ.toRules σ.region known s.code s.joins block (.alloca ty name) rfl
    (.plain rfl (List.forall_mem_nil _)) nofun atBlock running
    fun _ => Operation.noConfusion
  exact ⟨_, .of_code builds, rfl, .storage (.written present owned result)⟩

/-! ## State besides the code -/

/-- A computation that records nothing and binds nothing. -/
theorem Does.of_run (ran : act Γ.env s = .ok a s') (code : s'.code = s.code)
    (joins : s'.joins = s.joins) (scopes : s'.scopes = s.scopes) (context : s'.context = s.context)
    (dispatches : s'.dispatches = s.dispatches)
    (memo : s.Remembers Γ.env → s'.Remembers Γ.env) (holds : post known s' a) :
    Does Γ σ 1 known s act post := by
  intro _ a' s'' ran'
  rw [ran] at ran'
  cases ran'
  refine ⟨known, ⟨?_, Nat.le_of_eq dispatches.symm, ?_, memo⟩, context, holds⟩
  · rw [code, joins]
    exact .refl
  · rw [scopes]
    exact .refl _ _

theorem Does.modify {change : LowerState → LowerState} (code : (change s).code = s.code)
    (joins : (change s).joins = s.joins) (scopes : (change s).scopes = s.scopes)
    (context : (change s).context = s.context) (dispatches : (change s).dispatches = s.dispatches)
    (memo : s.Remembers Γ.env → (change s).Remembers Γ.env) :
    Does Γ σ 1 known s (modify change) fun _ _ _ => True :=
  .of_run rfl code joins scopes context dispatches memo trivial

theorem Does.report {event : Event} : Does Γ σ 1 known s (report event) fun _ _ _ => True :=
  .modify rfl rfl rfl rfl rfl id

/-- A binding may be added where the setting allows it. -/
theorem Does.declareIn {x : ScopeId} (allowed : σ.Adds Γ known s.code x name binding) :
    Does Γ σ 1 known s (declareIn x name binding) fun _ _ _ => True := by
  intro _ u s' ran
  cases ran
  exact ⟨known, ⟨.refl, Nat.le_refl _, .declare allowed, id⟩, rfl, trivial⟩

theorem Does.declare (allowed : σ.Adds Γ known s.code σ.context.scope name binding) :
    Does Γ σ 1 known s (declare name binding) fun _ _ _ => True :=
  .context_bind (.declareIn allowed)

/-- Storage of the function may be bound to a name. -/
theorem Does.declareSlot {ptr : ValueId} {ty : Ty} (stored : Stored σ known s ptr) :
    Does Γ σ 1 known s (Lower.declare name (.slot ptr ty)) fun _ _ _ => True :=
  .declare (.inl ⟨.inl rfl, .inl ⟨rfl, stored⟩⟩)

/-- While the current scope is being filled, anything available may be bound there. -/
theorem Does.declareEntering (entering : σ.entering = true) (usable : Γ.Avail σ known s binding.ref) :
    Does Γ σ 1 known s (Lower.declare name binding) fun _ _ _ => True :=
  .declare (.inr ⟨entering, rfl, usable⟩)

/-- More code leaves the state ready. -/
theorem Ready.withCode (ready : Ready Γ σ known s) (later : s.code.Extends code)
    (valid : Site.Valid σ.region ⟨code, s.joins⟩) : Ready Γ σ known { s with code := code } where
  __ := ready
  target := later.target.trans ready.target
  types := later.types.trans ready.types
  valid := valid
  contexts := ready.contexts.mono (Set.Subset.refl _) later (Nat.le_refl _)
    fun _ _ _ _ found _ => .inl found
  root name binding found slot := (ready.root name binding found slot).mono (Set.Subset.refl _) later
  hidden name member := (ready.hidden name member).imp id fun usable binding found =>
    (usable binding found).mono (Set.Subset.refl _) later

/-! ## Contexts -/

/-- A setting inside another: in the same region, with a scope that is the same one or new. -/
structure Setting.Within (σ' σ : Setting) (size : Nat) : Prop where
  region : σ'.region = σ.region
  root : σ'.context.functionScope = σ.context.functionScope
  seen : σ.seen ≤ σ'.seen
  scope : σ'.context.scope = σ.context.scope ∧ (σ'.entering = true → σ.entering = true) ∨
    size ≤ σ'.context.scope.index

/-- What is done inside a setting is done in it. -/
theorem Lowers.within (lowers : Lowers Γ σ' effect known s known' s')
    (within : σ'.Within σ s.scopes.all.size) : Lowers Γ σ effect known s known' s' where
  builds := within.region ▸ lowers.builds
  dispatches := lowers.dispatches
  scopes := by
    refine lowers.scopes.mono fun x _ _ old allowed => ?_
    have apart : s.scopes.all.size ≤ σ'.context.scope.index → x ≠ σ'.context.scope :=
      fun new same => Nat.not_lt.mpr new (same ▸ old)
    obtain ⟨place, what⟩ | ⟨entering, place, usable⟩ := allowed
    · refine .inl ⟨?_, what.imp (fun stored => ⟨stored.1, within.region ▸ stored.2⟩)
        fun hidden => ⟨hidden.1, hidden.2.mono within.seen⟩⟩
      obtain place | place := place
      · obtain ⟨scope, _⟩ | new := within.scope
        · exact .inl (place.trans scope)
        · exact absurd place (apart new)
      · exact .inr (place.trans within.root)
    · obtain ⟨scope, both⟩ | new := within.scope
      · exact .inr ⟨both entering, place.trans scope, within.region ▸ usable⟩
      · exact absurd place (apart new)
  memo := lowers.memo

/-- The setting where the value of an expression is used, or is not. -/
def Setting.using (σ : Setting) (needsValue : Bool) : Setting :=
  { σ with context := { σ.context with needsValue := needsValue } }

theorem Setting.using_activation (σ : Setting) (needsValue : Bool) :
    (σ.using needsValue).context.activation = σ.context.activation := by
  rw [Context.activation_eq, Context.activation_eq]
  rfl

theorem ContextReady.using {root : ScopeId} {scopes : Scopes} {context : Context}
    (ready : ContextReady Γ r root known code scopes context) :
    ContextReady Γ r root known code scopes { context with needsValue := needsValue } := by
  obtain ⟨rooted, inside, readable, self, scope, breaks, nexts, handed, callers⟩ := ready
  exact ⟨rooted, inside, readable, self, scope, breaks, nexts, handed, callers⟩

theorem Ready.using (ready : Ready Γ σ known s) :
    Ready Γ (σ.using needsValue) known { s with context := (σ.using needsValue).context } where
  context := rfl
  __ := ready
  contexts := ready.contexts.using

/-- The body leaves the context as it is, so that putting one field back restores it. -/
theorem Does.withNeedsValue
    (body : Does Γ (σ.using needsValue) effect known
      { s with context := (σ.using needsValue).context } act post)
    (kept : ∀ known' t a, post known' t a → final known' { t with context := s.context } a) :
    Does Γ σ effect known s (withNeedsValue needsValue act) final := by
  refine .context_bind fun ready a s' ran => ?_
  obtain ⟨t, inner, rfl⟩ := around_ok ran
  rw [ready.context] at inner
  obtain ⟨known', lowers, same, holds⟩ := body ready.using a t inner
  have restored : { t.context with needsValue := σ.context.needsValue } = s.context := by
    rw [same, ready.context, Setting.using]
    cases σ.context
    rfl
  rw [restored]
  have lowers' : Lowers Γ (σ.using needsValue) effect known s known' { t with context := s.context } :=
    ⟨lowers.builds, lowers.dispatches, lowers.scopes, lowers.memo⟩
  exact ⟨known', lowers'.within ⟨rfl, rfl, Nat.le_refl _, .inl ⟨rfl, id⟩⟩, rfl, kept known' t a holds⟩

/-- The setting when the current scope has been filled. -/
def Setting.settled (σ : Setting) : Setting := { σ with entering := false }

theorem Ready.settled (ready : Ready Γ σ known s) : Ready Γ σ.settled known s where
  __ := ready

theorem Ends.settled (ends : Ends Γ σ.settled effect known s act post) :
    Ends Γ σ effect known s act post := by
  intro ready a s' ran
  obtain ⟨known', lowers, holds⟩ := ends ready.settled a s' ran
  exact ⟨known', lowers.within ⟨rfl, rfl, Nat.le_refl _, .inl ⟨rfl, nofun⟩⟩, holds⟩

theorem Does.settled (does : Does Γ σ.settled effect known s act post) :
    Does Γ σ effect known s act post :=
  Ends.settled does

/-! ## Nested expressions -/

/-- An expression that is lowered in a setting: one of the program, or the read of a hidden
variable. -/
def Scenario.Lowerable (Γ : Scenario) (σ : Setting) (expr : Expr) : Prop :=
  expr ∈ Γ.sources ∨ ∃ name ∈ σ.hidden, expr.kind = .var name

/-- What lowering an expression answers: an available value. An expression that is seen to leave
has ended the block. -/
def Scenario.Result (Γ : Scenario) (σ : Setting) (expr : Expr) (known : Known) (s : LowerState)
    (v : ValueId) : Prop :=
  Γ.Avail σ known s v ∧
    (Γ.sealed → expr.leaves Γ.env.program = true → s.code.isTerminated = true)

/-- A function lowers expressions with the given meanings. -/
def Handles (Γ : Scenario) (inner : Expr → Lower ValueId)
    (meaning : Activation → Nat → Expr → Effect) : Prop :=
  ∀ σ known s expr, Γ.Lowerable σ expr →
    Does Γ σ (meaning σ.context.activation σ.frames expr) known s (inner expr) (Γ.Result σ expr)

/-- A call that is lowered in a setting, with the definition it runs. -/
structure Scenario.CallReady (Γ : Scenario) (σ : Setting) (call : Call) (defn : Definition) :
    Prop where
  member : defn ∈ Γ.env.program.defs
  obj : ∀ obj ∈ call.obj, Γ.Lowerable σ obj
  args : ∀ arg ∈ call.args, Γ.Lowerable σ arg
  default : defn.evaluatesDefaults call → ∀ value ∈ defn.omitted call.args.length, value ∈ Γ.sources
  block : ∀ block ∈ call.block, Γ.BlockReady block
  body : call.block.isSome → ∀ body ∈ defn.body, body ∈ Γ.sources
  noReturn : Γ.sealed → defn.ret.isNoReturn → defn.isSubstituted = false ∧ call.block = none
  flat : Γ.flat → call.block = none

variable {inner : Expr → Lower ValueId} {meaning : Activation → Nat → Expr → Effect} {expr : Expr}
  (handles : Handles Γ inner meaning) (lowerable : Γ.Lowerable σ expr)

include handles lowerable

theorem Handles.used :
    Does Γ σ (meaning σ.context.activation σ.frames expr) known s (lowerUsed inner expr)
      (Γ.Result σ expr) := by
  refine .withNeedsValue ?_ fun _ _ _ holds => holds
  rw [← σ.using_activation true]
  exact handles (σ.using true) known _ expr lowerable

theorem Handles.unused :
    Does Γ σ (meaning σ.context.activation σ.frames expr) known s (lowerUnused inner expr)
      (Γ.Result σ expr) := by
  refine .withNeedsValue ?_ fun _ _ _ holds => holds
  rw [← σ.using_activation false]
  exact handles (σ.using false) known _ expr lowerable

end Rules

end CallLowering
