import CallLowering.Proofs.Running
import CallLowering.Proofs.Scoping
import CallLowering.Proofs.Shape

/-!
# Where lowering stands

A `Scenario` is a program with the expressions of it that get lowered and what is promised about
them. A `Setting` says where in the program lowering stands, and `Ready` what the state then looks
like: the context is that of the setting, the recording is in good shape, and every value that can
be read through a variable, `self` or the scope of a block is available.

`Lowers` is what a successful computation of lowering does to the state. It leaves the state ready
for what comes next (`Ready.after`).
-/

namespace CallLowering

/-! ## Scenarios -/

/-- Whether lowering an expression of this kind stays in the block at the cursor, as far as the
expression itself is concerned. -/
def ExprKind.isFlat : ExprKind → Bool
  | .yield .. | .breakWith _ | .nextWith _ | .procLiteral _ | .rescue .. => false
  | .call site => site.block.isNone && site.targets.length == 1
  | _ => true

/-- Whether a call of the definition evaluates the defaults of the omitted arguments: a foreign
function has to be passed all of them. -/
def Definition.evaluatesDefaults (defn : Definition) (call : Call) : Prop :=
  defn.foreign = none ∨ call.block.isSome = true

/-- A definition may be run by a call among the given expressions. -/
def Candidate (env : Env) (sources : Set Expr) (call : Call) (defn : Definition) : Prop :=
  (∃ expr ∈ sources, expr.kind = .call call) ∧
    ∃ name ∈ call.targets, env.program.target? name = some defn

/-- The prototypes with which a program may declare functions that are called by name: those of its
definitions and of constant initializers. -/
inductive Program.Declares (program : Program) : FnDecl → Prop where
  | definition {defn : Definition} (member : defn ∈ program.defs) (domestic : defn.foreign = none) :
      Declares program (Lower.prototype program.types defn)
  | foreign {defn : Definition} {spec : ForeignSpec} (member : defn ∈ program.defs)
      (foreign : defn.foreign = some spec) (classification : Classification) :
      Declares program (Lower.foreignPrototype defn spec classification)
  | initializer (name : String) : Declares program ⟨"~" ++ name ++ ":init", [], .void, none, false⟩

/-- The prototypes that a program declares for a target. That of a foreign function is the one for its
parameters, whatever else a call passes. -/
inductive Program.Announces (program : Program) (target : Target) : FnDecl → Prop where
  | definition {defn : Definition} (member : defn ∈ program.defs) (domestic : defn.foreign = none) :
      Announces program target (Lower.prototype program.types defn)
  | foreign {defn : Definition} {spec : ForeignSpec} (member : defn ∈ program.defs)
      (foreign : defn.foreign = some spec) : Announces program target (Lower.foreignPrototype defn spec
        (Signature.classify target program.types ⟨defn.params.map (·.ty), defn.ret⟩))
  | initializer (name : String) :
      Announces program target ⟨"~" ++ name ++ ":init", [], .void, none, false⟩

theorem Program.Announces.declares {program : Program} {target : Target} {decl : FnDecl}
    (announced : program.Announces target decl) : program.Declares decl := by
  cases announced with
  | definition member domestic => exact .definition member domestic
  | foreign member foreign => exact .foreign member foreign _
  | initializer name => exact .initializer name

/-- A program, the expressions of it that are lowered, and what is promised about them. -/
structure Scenario extends Rules where
  env : Env
  listed : ∀ decl, env.program.Announces env.options.target decl → declares decl
  sources : Set Expr
  child : ∀ expr ∈ sources, ∀ inner ∈ expr.kind.children, inner ∈ sources
  default : ∀ call defn, Candidate env sources call defn → defn.evaluatesDefaults call →
    ∀ value ∈ defn.omitted call.args.length, value ∈ sources
  body : ∀ call defn, Candidate env sources call defn → call.block.isSome →
    ∀ body ∈ defn.body, body ∈ sources
  leaves : sealed → ∀ expr ∈ sources, expr.ty.isNoReturn → expr.leaves env.program
  noReturn : sealed → ∀ call defn, Candidate env sources call defn → defn.ret.isNoReturn →
    defn.isSubstituted = false ∧ call.block = none
  proper : sealed → ∀ call defn, Candidate env sources call defn → call.targets.length ≠ 1 →
    defn.ret.Proper
  single : traced → ∀ expr ∈ sources, ∀ call, expr.kind = .call call → call.targets.length = 1
  hygienic : strict → ∀ expr ∈ sources, ∀ name ∈ expr.kind.reads, ¬IsHidden name
  simple : flat → ∀ expr ∈ sources, expr.kind.isFlat

/-- A block of the program that may be run or compiled. -/
structure Scenario.BlockReady (Γ : Scenario) (block : Block) : Prop where
  body : block.body ∈ Γ.sources
  captures : Γ.strict → ∀ name ∈ block.captures, ¬IsHidden name

/-! ## Contexts -/

mutual

/-- What the jumps of a context refer to, with join points as frames. -/
def Context.activation : Context → Activation
  | ⟨_, _, _, _, _, _, _, _, _, yieldTarget, breakJoin, nextJoin⟩ =>
    ⟨Context.handed yieldTarget, breakJoin, nextJoin⟩

/-- What a `yield` refers to, with the join point of the call as its frame. -/
def Context.handed : Option (Block × Context × Nat) → Option (Block × Activation × Nat)
  | none => none
  | some ⟨block, caller, join⟩ => some (block, caller.activation, join)

end

theorem Context.activation_eq (context : Context) : context.activation =
      ⟨Context.handed context.yieldTarget, context.breakJoin, context.nextJoin⟩ := by
  cases context
  rfl

theorem Context.activation_breakTo (context : Context) :
    context.activation.breakTo = context.breakJoin := by
  rw [activation_eq]

theorem Context.activation_nextTo (context : Context) :
    context.activation.nextTo = context.nextJoin := by
  rw [activation_eq]

/-- In a context everything that can be read is available, and jumps lead to join points of the
function. The same holds of the contexts that blocks were written in. -/
inductive ContextReady (Γ : Scenario) (r : Region) (root : ScopeId) (known : Known)
    (code : Recording) (scopes : Scopes) : Context → Prop where
  | intro {context : Context} (rooted : context.functionScope = root)
      (inside : context.scope.index < scopes.all.size)
      (readable : ∀ name binding, scopes.lookup? context.scope name = some binding →
        binding.isSlot = true ∨ ¬IsHidden name → Γ.Usable r.func known code binding.ref)
      (self : ∀ binding ∈ context.selfBinding, Γ.Usable r.func known code binding.ref)
      (scope : ∀ binding ∈ context.withScope, Γ.Usable r.func known code binding.ref)
      (breaks : ∀ join ∈ context.breakJoin, r.base ≤ join)
      (nexts : ∀ join ∈ context.nextJoin, r.base ≤ join)
      (handed : ∀ block caller join, context.yieldTarget = some (block, caller, join) →
        r.base ≤ join ∧ Γ.BlockReady block)
      (callers : ∀ block caller join, context.yieldTarget = some (block, caller, join) →
        ContextReady Γ r root known code scopes caller) :
      ContextReady Γ r root known code scopes context

/-- Where lowering stands in a program. -/
structure Setting where
  region : Region
  context : Context
  /-- The number of open join points. -/
  frames : Nat
  /-- The hidden variables that may be read. -/
  hidden : Set String
  /-- The number of dispatches up to the one that bound those variables. -/
  seen : Nat
  /-- Whether the current scope is still being filled. -/
  entering : Bool

/-- What the state looks like in a setting. -/
structure Ready (Γ : Scenario) (σ : Setting) (known : Known) (s : LowerState) : Prop where
  context : s.context = σ.context
  handlers : σ.context.handlers = σ.region.handlers
  valid : Site.Valid σ.region ⟨s.code, s.joins⟩
  frames : s.joins.size = σ.frames
  seen : σ.seen ≤ s.dispatches
  ordered : s.scopes.Ordered
  contexts : ContextReady Γ σ.region σ.context.functionScope known s.code s.scopes σ.context
  rooted : σ.context.functionScope.index < s.scopes.all.size
  root : ∀ name binding, s.scopes.lookupLocal? σ.context.functionScope name = some binding →
    binding.isSlot = true → Γ.Usable σ.region.func known s.code binding.ref
  hidden : ∀ name ∈ σ.hidden, ¬Fresh σ.seen name ∧ ∀ binding,
    s.scopes.lookup? σ.context.scope name = some binding →
      Γ.Usable σ.region.func known s.code binding.ref
  memo : s.Remembers Γ.env
  target : s.code.target = Γ.env.options.target
  types : s.code.types = Γ.env.program.types
  flat : Γ.flat → σ.region.handlers = []

/-- A binding that lowering in a setting may add: storage of the function or a hidden variable of a
later dispatch, in the current scope or the outermost one of the function; while the current scope
is being filled, also anything available there. -/
def Setting.Adds (Γ : Scenario) (σ : Setting) (known : Known) (code : Recording) (x : ScopeId)
    (name : String) (binding : Binding) : Prop :=
  (x = σ.context.scope ∨ x = σ.context.functionScope) ∧
      (binding.isSlot = true ∧ code.Ambient σ.region.func binding.ref ∨
        binding.isSlot = false ∧ Fresh σ.seen name) ∨
    σ.entering = true ∧ x = σ.context.scope ∧ Γ.Usable σ.region.func known code binding.ref

/-- What a successful computation does to the state. -/
structure Lowers (Γ : Scenario) (σ : Setting) (effect : Effect) (known : Known) (s : LowerState)
    (known' : Known) (s' : LowerState) : Prop where
  builds : Builds Γ.toRules σ.region effect known ⟨s.code, s.joins⟩ known' ⟨s'.code, s'.joins⟩
  dispatches : s.dispatches ≤ s'.dispatches
  scopes : Scopes.Grow (σ.Adds Γ known' s'.code) s.scopes s'.scopes
  memo : s.Remembers Γ.env → s'.Remembers Γ.env

/-! ## What stays as it is -/

variable {effect : Effect} {known known' : Known} {rules : Rules} {r : Region} {func : FuncId}

theorem Builds.known_subset {site site' : Site}
    (built : Builds rules r effect known site known' site') : known ⊆ known' := by
  induction built with
  | trans _ _ ihFirst ihSecond => exact ihFirst.trans ihSecond
  | untraced _ _ ih => exact ih
  | write => exact Set.subset_union_left
  | invoke => exact Set.subset_insert _ _
  | reached => exact Set.subset_union_left
  | _ => exact Set.Subset.refl _

theorem Rules.Usable.mono {code code' : Recording} {v : ValueId}
    (usable : rules.Usable func known code v) (more : known ⊆ known') (later : code.Extends code') :
    rules.Usable func known' code' v :=
  fun strict => (usable strict).imp (fun member => more member) fun ambient => ambient.mono later

theorem Rules.Allows.mono {code code' : Recording} {op : Operation}
    (allowed : rules.Allows func known code op) (more : known ⊆ known') (later : code.Extends code') :
    rules.Allows func known' code' op where
  untested := allowed.untested
  usable v read := (allowed.usable v read).mono more later
  guarded := allowed.guarded.mono more later

namespace Setting.Adds

variable {Γ : Scenario} {σ : Setting} {known known' : Known} {code code' : Recording} {x : ScopeId}
  {name : String} {binding : Binding} (allowed : σ.Adds Γ known code x name binding)

include allowed

theorem mono (more : known ⊆ known') (later : code.Extends code') :
    σ.Adds Γ known' code' x name binding := by
  obtain ⟨place, stored | hidden⟩ | ⟨entering, place, usable⟩ := allowed
  · exact .inl ⟨place, .inl ⟨stored.1, stored.2.mono later⟩⟩
  · exact .inl ⟨place, .inr hidden⟩
  · exact .inr ⟨entering, place, usable.mono more later⟩

/-- What has been added is available to everybody who may read it. -/
theorem usable (readable : binding.isSlot = true ∨ ¬Fresh σ.seen name) :
    Γ.Usable σ.region.func known code binding.ref := by
  obtain ⟨_, stored | ⟨valued, fresh⟩⟩ | ⟨_, _, usable⟩ := allowed
  · exact fun _ => .inr stored.2
  · obtain stored | old := readable
    · exact absurd (stored.symm.trans valued) Bool.noConfusion
    · exact absurd fresh old
  · exact usable

end Setting.Adds

namespace Lowers

variable {Γ : Scenario} {σ : Setting} {effect effect' : Effect} {known known1 known' : Known}
  {s s1 s' : LowerState}

theorem later (lowers : Lowers Γ σ effect known s known' s')
    (valid : Site.Valid σ.region ⟨s.code, s.joins⟩) : s.code.Extends s'.code :=
  (lowers.builds.advance valid.based).code.later

theorem trans (first : Lowers Γ σ effect known s known1 s1)
    (second : Lowers Γ σ effect' known1 s1 known' s')
    (valid : Site.Valid σ.region ⟨s.code, s.joins⟩) :
    Lowers Γ σ (effect * effect') known s known' s' where
  builds := first.builds.trans second.builds
  dispatches := Nat.le_trans first.dispatches second.dispatches
  scopes := by
    have valid1 := first.builds.valid valid
    refine Scopes.Grow.trans (first.scopes.mono fun _ _ _ _ allowed => ?_) second.scopes
    exact allowed.mono second.builds.known_subset (second.later valid1)
  memo := second.memo ∘ first.memo

end Lowers

/-- A context stays ready while code and scopes only get more, as long as what is newly found in
scopes is available. -/
theorem ContextReady.mono {Γ : Scenario} {root : ScopeId} {code code' : Recording}
    {scopes scopes' : Scopes} {context : Context}
    (ready : ContextReady Γ r root known code scopes context) (more : known ⊆ known')
    (later : code.Extends code') (size : scopes.all.size ≤ scopes'.all.size)
    (found : ∀ x name binding, x.index < scopes.all.size →
      scopes'.lookup? x name = some binding → binding.isSlot = true ∨ ¬IsHidden name →
      scopes.lookup? x name = some binding ∨ Γ.Usable r.func known' code' binding.ref) :
    ContextReady Γ r root known' code' scopes' context := by
  induction ready with
  | intro rooted inside readable self scope breaks nexts handed _ ih =>
    refine .intro rooted (Nat.lt_of_lt_of_le inside size) ?_ ?_ ?_ breaks nexts handed ih
    · intro name binding present allowed
      obtain old | usable := found _ name binding inside present allowed
      · exact (readable name binding old allowed).mono more later
      · exact usable
    · exact fun binding bound => (self binding bound).mono more later
    · exact fun binding bound => (scope binding bound).mono more later

/-- What a computation leaves behind is ready for the next one. -/
theorem Ready.after {Γ : Scenario} {σ : Setting} {s s' : LowerState} (ready : Ready Γ σ known s)
    (lowers : Lowers Γ σ effect known s known' s') (context : s'.context = s.context) :
    Ready Γ σ known' s' := by
  have later := lowers.later ready.valid
  have more := lowers.builds.known_subset
  have advance := lowers.builds.advance ready.valid.based
  have found : ∀ x name binding, x.index < s.scopes.all.size →
      s'.scopes.lookup? x name = some binding → binding.isSlot = true ∨ ¬Fresh σ.seen name →
      s.scopes.lookup? x name = some binding ∨
        Γ.Usable σ.region.func known' s'.code binding.ref := by
    intro x name binding inside present readable
    obtain old | ⟨_, added⟩ := lowers.scopes.lookup? ready.ordered inside present
    · exact .inl old
    · exact .inr (added.usable readable)
  obtain ⟨_, inside, _⟩ := ready.contexts
  exact {
    context := context.trans ready.context
    handlers := ready.handlers
    valid := lowers.builds.valid ready.valid
    frames := advance.joins.size.trans ready.frames
    seen := Nat.le_trans ready.seen lowers.dispatches
    ordered := lowers.scopes.ordered ready.ordered
    contexts := ready.contexts.mono more later lowers.scopes.size
      fun x name binding inside present readable => found x name binding inside present
        (readable.imp id fun visible fresh => visible fresh.isHidden)
    rooted := Nat.lt_of_lt_of_le ready.rooted lowers.scopes.size
    root := fun name binding present slot => by
      obtain old | added := lowers.scopes.lookupLocal? ready.rooted present
      · exact (ready.root name binding old slot).mono more later
      · exact added.usable (.inl slot)
    hidden := fun name member => by
      obtain ⟨old, usable⟩ := ready.hidden name member
      refine ⟨old, fun binding present => ?_⟩
      obtain before | usable' := found _ name binding inside present (.inr old)
      · exact (usable binding before).mono more later
      · exact usable'
    memo := lowers.memo ready.memo
    target := later.target.trans ready.target
    types := later.types.trans ready.types
    flat := ready.flat }

end CallLowering
