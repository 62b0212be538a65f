import CallLowering.Proofs.Renaming
import CallLowering.Proofs.Running
import CallLowering.Proofs.Scoping
import Mathlib.Order.Basic

/-!
# Two runs of lowering

A `Coupling` sets two runs of lowering side by side. It says which numbers of the one run stand for
which numbers of the other; the more the runs have recorded, the more numbers correspond. `Runs`
relates two computations that are started in corresponding states: both succeed with corresponding
answers or both fail, and the states they reach correspond again. There is one rule for every way to
put computations together and one for every primitive of lowering.

What is asked of the recorded code, of join points and of the classifications of foreign prototypes
differs from coupling to coupling (`Coupling.Sound`); what is asked of scopes, contexts and names is
said here.
-/

namespace CallLowering

open Emit

/-! ## Variables -/

/-- The variables that an expression of this kind may bind itself. -/
def ExprKind.binds : ExprKind → List String
  | .assign target _ => [target]
  | .out ⟨.var name, _, _⟩ => [name]
  | .call site => (site.block.map fun block => block.params.map (·.name) ++ block.captures).getD []
  | .procLiteral block => block.params.map (·.name) ++ block.captures
  | _ => []

/-- The variables that an expression of this kind names itself. -/
def ExprKind.mentions : ExprKind → List String
  | .var name => [name]
  | kind => kind.binds

/-- The variables that an expression names. -/
def Expr.variables (expr : Expr) : List String := expr.parts.flatMap (·.kind.mentions)

/-- The variables that a block names. -/
def Block.variables (block : Block) : List String :=
  block.params.map (·.name) ++ block.captures ++ block.body.variables

/-- The variables that a definition names. -/
def Definition.variables (defn : Definition) : List String :=
  defn.params.map (·.name) ++ defn.specialVars.map (·.name) ++ defn.parts.flatMap (·.kind.mentions)

/-- The variables that a program names. -/
def Program.variables (program : Program) : List String := program.defs.flatMap Definition.variables

theorem Expr.mentions_subset (expr : Expr) : expr.kind.mentions ⊆ expr.variables := fun _ member =>
  List.mem_flatMap.mpr ⟨expr, expr.mem_parts_self, member⟩

theorem Expr.child_variables_subset {expr child : Expr} (member : child ∈ expr.kind.children) :
    child.variables ⊆ expr.variables := by
  intro name named
  obtain ⟨part, inside, mentioned⟩ := List.mem_flatMap.mp named
  exact List.mem_flatMap.mpr
    ⟨part, expr.kind_parts_subset (ExprKind.child_parts_subset member inside), mentioned⟩

/-! ## Couplings -/

/-- Two runs of lowering, and what of the one corresponds to what of the other. The numbers that
correspond at one point of the runs are given by an element of `W`. -/
structure Coupling (W : Type) [Preorder W] where
  left : Env
  right : Env
  /-- Whether failures are the same. -/
  exact : Prop
  needs : Bool → Bool → Prop
  value : W → ValueId → ValueId → Prop
  block : W → BlockId → BlockId → Prop
  /-- Functions of a name correspond. -/
  func : W → String → FuncId → FuncId → Prop
  site : W → Site → Site → Prop
  memory : Memory → Memory → Prop
  events : Array Event → Array Event → Prop
  /-- The names of the functions that are lowered. -/
  own : String → Prop
  /-- The definitions that are lowered and called. -/
  calls : Definition → Prop
  /-- The prototypes that are declared. -/
  declares : FnDecl → Prop
  /-- The numbers of scopes before the first ones that correspond. -/
  scopes : Nat × Nat
  /-- The numbers of dispatches before the first ones that correspond. -/
  dispatches : Nat × Nat
  value_mono : ∀ {w w' v1 v2}, w ≤ w' → value w v1 v2 → value w' v1 v2
  block_mono : ∀ {w w' b1 b2}, w ≤ w' → block w b1 b2 → block w' b1 b2
  func_mono : ∀ {w w' name f1 f2}, w ≤ w' → func w name f1 f2 → func w' name f1 f2

/-- Two results agree: both are successes that are related, or both are failures that leave related
states, and are the same if they have to be. -/
def Coupled {ε σ α β : Type} (exact : Prop) (done : α → σ → β → σ → Prop) (failed : σ → σ → Prop) :
    EStateM.Result ε σ α → EStateM.Result ε σ β → Prop
  | .ok a s1, .ok b s2 => done a s1 b s2
  | .error e1 s1, .error e2 s2 => (exact → e1 = e2) ∧ failed s1 s2
  | _, _ => False

section

variable {ε σ α β : Type} {exact : Prop} {done : α → σ → β → σ → Prop} {failed : σ → σ → Prop}
  {r1 : EStateM.Result ε σ α} {r2 : EStateM.Result ε σ β} (coupled : Coupled exact done failed r1 r2)

include coupled

/-- Results that agree are two successes or two failures. -/
@[elab_as_elim]
theorem Coupled.both {motive : EStateM.Result ε σ α → EStateM.Result ε σ β → Prop}
    (succeed : ∀ a s1 b s2, done a s1 b s2 → motive (.ok a s1) (.ok b s2))
    (fail : ∀ e1 s1 e2 s2, (exact → e1 = e2) → failed s1 s2 → motive (.error e1 s1) (.error e2 s2)) :
    motive r1 r2 := by
  cases r1 <;> cases r2
  · exact succeed _ _ _ _ coupled
  · exact coupled.elim
  · exact coupled.elim
  · exact fail _ _ _ _ coupled.1 coupled.2

theorem Coupled.mono {done' : α → σ → β → σ → Prop} {failed' : σ → σ → Prop}
    (succeeds : ∀ a s1 b s2, done a s1 b s2 → done' a s1 b s2)
    (fails : ∀ s1 s2, failed s1 s2 → failed' s1 s2) : Coupled exact done' failed' r1 r2 :=
  coupled.both succeeds fun _ s1 _ s2 same known => ⟨same, fails s1 s2 known⟩

end

/-- The numbers that correspond at one point of two runs: those of `W`, and those of so many
scopes. -/
abbrev Stage (W : Type) := W × Nat

namespace Coupling

variable {W : Type} [Preorder W] (C : Coupling W)

/-- Values that correspond. -/
def Value (w : Stage W) (v1 v2 : ValueId) : Prop := C.value w.1 v1 v2

/-- Rows of values that correspond. -/
def Values (w : Stage W) (vs1 vs2 : List ValueId) : Prop := List.Forall₂ (C.Value w) vs1 vs2

/-- Blocks that correspond. -/
def Block (w : Stage W) (b1 b2 : BlockId) : Prop := C.block w.1 b1 b2

/-- Functions that correspond. -/
def Func (w : Stage W) (name : String) (f1 f2 : FuncId) : Prop := C.func w.1 name f1 f2

/-- Scopes that correspond. -/
def Scope (w : Stage W) (x1 x2 : ScopeId) : Prop :=
  ∃ k < w.2, x1.index = C.scopes.1 + k ∧ x2.index = C.scopes.2 + k

/-- Bindings that correspond. -/
inductive SameBinding (w : Stage W) : Binding → Binding → Prop where
  | slot {p1 p2 : ValueId} {ty : Ty} (same : C.Value w p1 p2) :
      SameBinding w (.slot p1 ty) (.slot p2 ty)
  | value {v1 v2 : ValueId} {ty : Ty} (same : C.Value w v1 v2) :
      SameBinding w (.value v1 ty) (.value v2 ty)

/-- The names are none of hidden variables, unless hidden variables have the same names in both
runs. -/
def Clean (names : List String) : Prop :=
  C.dispatches.1 = C.dispatches.2 ∨ ∀ name ∈ names, ¬IsHidden name

/-- Variables that correspond: the same one, or hidden ones of corresponding dispatches. -/
inductive SameName : String → String → Prop where
  | shown {name : String} (clean : C.Clean [name]) : SameName name name
  | receiver (k : Nat) : SameName (hiddenReceiver (C.dispatches.1 + (k + 1)))
      (hiddenReceiver (C.dispatches.2 + (k + 1)))
  | argument (k i : Nat) : SameName (hiddenArgument (C.dispatches.1 + (k + 1)) i)
      (hiddenArgument (C.dispatches.2 + (k + 1)) i)

/-- Expressions that correspond: the same one, or reads of corresponding variables. -/
inductive SameExpr : Expr → Expr → Prop where
  | same {expr : Expr} (clean : C.Clean expr.variables) : SameExpr expr expr
  | read {n1 n2 : String} {ty : Ty} {loc : Location} (named : C.SameName n1 n2) :
      SameExpr ⟨.var n1, ty, loc⟩ ⟨.var n2, ty, loc⟩

/-- Calls that correspond: they differ in the expressions they pass, and those correspond. -/
inductive SameCall : Call → Call → Prop where
  | intro {call : Call} {obj : Option Expr} {args : List Expr}
      (receiver : Option.Rel C.SameExpr call.obj obj)
      (passed : List.Forall₂ C.SameExpr call.args args)
      (clean : ∀ block ∈ call.block, C.Clean block.variables) :
      SameCall call { call with obj := obj, args := args }

/-- The numbers that correspond, as a renaming. -/
def numbers (w : W) : Renaming where
  value := C.value w
  block := C.block w
  func f1 f2 := ∃ name, C.func w name f1 f2

/-- Operations that correspond. -/
abbrev SameOp (w : W) : Operation → Operation → Prop := Operation.Renamed (C.numbers w)

/-- Blocks that were handed to corresponding calls, with the join points of the calls. -/
structure SameHanded (target1 target2 : CallLowering.Block × Context × Nat) : Prop where
  block : target1.1 = target2.1
  clean : C.Clean target1.1.variables
  join : target1.2.2 = target2.2.2

/-- Contexts that correspond, those that blocks were written in apart. -/
structure SameFrame (w : Stage W) (c1 c2 : Context) : Prop where
  fnName : c1.fnName = c2.fnName
  own : C.own c1.fnName
  file : c1.file = c2.file
  scope : C.Scope w c1.scope c2.scope
  functionScope : C.Scope w c1.functionScope c2.functionScope
  self : Option.Rel (C.SameBinding w) c1.selfBinding c2.selfBinding
  selfTy : c1.selfTy = c2.selfTy
  withScope : Option.Rel (C.SameBinding w) c1.withScope c2.withScope
  needs : C.needs c1.needsValue c2.needsValue
  handlers : List.Forall₂ (C.Block w) c1.handlers c2.handlers
  handed : Option.Rel C.SameHanded c1.yieldTarget c2.yieldTarget
  breakJoin : c1.breakJoin = c2.breakJoin
  nextJoin : c1.nextJoin = c2.nextJoin

/-- Contexts that correspond, and so do the contexts that blocks were written in. -/
inductive SameContext (w : Stage W) : Context → Context → Prop where
  | intro {c1 c2 : Context} (here : C.SameFrame w c1 c2)
      (callers : ∀ target1 target2, c1.yieldTarget = some target1 → c2.yieldTarget = some target2 →
        SameContext w target1.2.1 target2.2.1) : SameContext w c1 c2

/-- Scopes number `k` of the two runs that bind corresponding variables and lie inside corresponding
older scopes. -/
structure SameScope (w : Stage W) (k : Nat) (d1 d2 : CallLowering.Scope) : Prop where
  bindings : List.Forall₂ (fun b1 b2 => C.SameName b1.1 b2.1 ∧ C.SameBinding w b1.2 b2.2)
    d1.bindings d2.bindings
  parent : Option.Rel (C.Scope (w.1, k)) d1.parent d2.parent

/-- Tables of scopes that correspond. -/
structure SameScopes (w : Stage W) (t1 t2 : Scopes) : Prop where
  left : t1.all.size = C.scopes.1 + w.2
  right : t2.all.size = C.scopes.2 + w.2
  scope : ∀ k < w.2, ∃ d1 d2, t1.get? ⟨C.scopes.1 + k⟩ = some d1 ∧
    t2.get? ⟨C.scopes.2 + k⟩ = some d2 ∧ C.SameScope w k d1 d2

/-- States that correspond between two functions. -/
structure Core (w : Stage W) (s1 s2 : LowerState) : Prop where
  site : C.site w.1 ⟨s1.code, s1.joins⟩ ⟨s2.code, s2.joins⟩
  scopes : C.SameScopes w s1.scopes s2.scopes
  dispatches : ∃ k, s1.dispatches = C.dispatches.1 + k ∧ s2.dispatches = C.dispatches.2 + k
  memory : C.memory s1.memory s2.memory
  events : C.events s1.events s2.events

/-- States that correspond inside a function. -/
structure States (w : Stage W) (s1 s2 : LowerState) : Prop extends C.Core w s1 s2 where
  context : C.SameContext w s1.context s2.context
  closures : s1.closures = s2.closures

/-- Two computations that are started in corresponding states agree, and reach corresponding
states. -/
def Runs {α β : Type} (w : Stage W) (act1 : Lower α) (act2 : Lower β)
    (post : Stage W → α → β → Prop) : Prop :=
  ∀ s1 s2, C.States w s1 s2 → Coupled C.exact
    (fun a s1' b s2' => ∃ w', w ≤ w' ∧ C.States w' s1' s2' ∧ post w' a b)
    (fun s1' s2' => ∃ w', w ≤ w' ∧ C.States w' s1' s2') (act1 C.left s1) (act2 C.right s2)

/-- Two ways to record code agree on corresponding code. -/
def Records {α β : Type} (w : W) (joins1 joins2 : Array JoinPoint) (post : W → α → β → Prop) :
    EStateM.Result RecordError Recording α → EStateM.Result RecordError Recording β → Prop :=
  Coupled C.exact
    (fun a c1 b c2 => ∃ w', w ≤ w' ∧ C.site w' ⟨c1, joins1⟩ ⟨c2, joins2⟩ ∧ post w' a b)
    (fun c1 c2 => ∃ w', w ≤ w' ∧ C.site w' ⟨c1, joins1⟩ ⟨c2, joins2⟩)

/-- What is asked of a coupling: the programs give the same answers, and every primitive of lowering
keeps code, join points and memory in correspondence. -/
structure Sound : Prop where
  types : C.left.program.types = C.right.program.types
  file : C.left.program.file = C.right.program.file
  target : ∀ name, C.left.program.target? name = C.right.program.target? name
  nesting : ∀ expr, C.left.program.nestingBound expr = C.right.program.nestingBound expr
  callable : ∀ {name defn}, C.left.program.target? name = some defn → C.calls defn
  clean : ∀ {defn}, C.calls defn → C.Clean defn.variables
  aligned : C.exact → C.dispatches.1 = C.dispatches.2
  needs : ∀ needed, C.needs needed needed
  report : ∀ {e1 e2} event, C.events e1 e2 → C.events (e1.push event) (e2.push event)
  closure : ∀ {name} (number : Nat), C.own name → C.own (name ++ "$block" ++ toString number)
  definition : ∀ {defn}, C.calls defn → defn.foreign = none →
    C.declares (Lower.prototype C.left.program.types defn)
  initializer : ∀ name, C.declares ⟨"~" ++ name ++ ":init", [], .void, none, false⟩
  closureDeclared : ∀ {name} (number : Nat) block, C.own name →
    C.declares (Lower.blockPrototype C.left.program.types (name ++ "$block" ++ toString number) block)
  frames : ∀ {w x1 x2}, C.site w x1 x2 → x1.joins.size = x2.joins.size
  cursor : ∀ {w x1 x2}, C.site w x1 x2 → Option.Rel (C.block w) x1.code.cursor x2.code.cursor
  isTerminated : ∀ {w x1 x2}, C.site w x1 x2 → x1.code.isTerminated = x2.code.isTerminated
  constant : ∀ {w c1 c2 j1 j2} constant, C.site w ⟨c1, j1⟩ ⟨c2, j2⟩ →
    C.Records w j1 j2 C.value (Emit.constant constant c1) (Emit.constant constant c2)
  global : ∀ {w c1 c2 j1 j2} name, C.site w ⟨c1, j1⟩ ⟨c2, j2⟩ →
    C.Records w j1 j2 C.value (global name c1) (global name c2)
  declare : ∀ {w c1 c2 j1 j2 decl}, C.site w ⟨c1, j1⟩ ⟨c2, j2⟩ → C.declares decl →
    C.Records w j1 j2 (fun w => C.func w decl.name) (declare decl c1) (declare decl c2)
  beginRoutine : ∀ {w c1 c2 j1 j2 name f1 f2}, C.site w ⟨c1, j1⟩ ⟨c2, j2⟩ → C.own name →
    C.func w name f1 f2 → C.Records w j1 j2 (fun w => List.Forall₂ (C.value w))
      (beginRoutine f1 c1) (beginRoutine f2 c2)
  newBlock : ∀ {w c1 c2 j1 j2} label, C.site w ⟨c1, j1⟩ ⟨c2, j2⟩ →
    C.Records w j1 j2 C.block (newBlock label c1) (newBlock label c2)
  position : ∀ {w c1 c2 j1 j2 b1 b2}, C.site w ⟨c1, j1⟩ ⟨c2, j2⟩ → C.block w b1 b2 →
    C.site w ⟨c1.position b1, j1⟩ ⟨c2.position b2, j2⟩
  emit : ∀ {w c1 c2 j1 j2 op1 op2}, C.site w ⟨c1, j1⟩ ⟨c2, j2⟩ → C.SameOp w op1 op2 →
    C.Records w j1 j2 C.value (Emit.value op1 c1) (Emit.value op2 c2)
  effect : ∀ {w c1 c2 j1 j2 op1 op2}, C.site w ⟨c1, j1⟩ ⟨c2, j2⟩ → C.SameOp w op1 op2 →
    C.Records w j1 j2 (fun _ _ _ => True) (effect op1 c1) (effect op2 c2)
  openJoin : ∀ {w c1 c2 j1 j2 needed1 needed2} ty machineType, C.site w ⟨c1, j1⟩ ⟨c2, j2⟩ →
    C.needs needed1 needed2 → C.site w ⟨c1, j1.push (.fresh ty machineType needed1)⟩
      ⟨c2, j2.push (.fresh ty machineType needed2)⟩
  add : ∀ {w c1 c2 j1 j2 v1 v2 join1 join2} {index : Nat} ty, C.site w ⟨c1, j1⟩ ⟨c2, j2⟩ →
    C.value w v1 v2 → j1[index]? = some join1 → j2[index]? = some join2 →
    Coupled C.exact
      (fun join1' c1' join2' c2' => ∃ w', w ≤ w' ∧ C.site w'
        ⟨c1', j1.setIfInBounds index join1'⟩ ⟨c2', j2.setIfInBounds index join2'⟩)
      (fun c1' c2' => ∃ w', w ≤ w' ∧ C.site w' ⟨c1', j1⟩ ⟨c2', j2⟩)
      (join1.add v1 ty c1) (join2.add v2 ty c2)
  close : ∀ {w c1 c2 j1 j2 join1 join2}, C.site w ⟨c1, j1.push join1⟩ ⟨c2, j2.push join2⟩ →
    C.Records w j1 j2 (fun w => Option.Rel (C.value w)) (join1.close c1) (join2.close c2)
  classification : ∀ {w defn} tail loc, C.calls defn →
    C.Runs w (Lower.classification defn tail loc) (Lower.classification defn tail loc)
      fun _ known1 known2 => known1 = known2 ∧
        ∀ spec ∈ defn.foreign, C.declares (Lower.foreignPrototype defn spec known1)

/-! ## Names -/

variable {C} {names : List String} {n1 n2 name : String}

theorem Clean.mono {names' : List String} (clean : C.Clean names) (fewer : names' ⊆ names) :
    C.Clean names' :=
  clean.imp_right fun shown name member => shown name (fewer member)

theorem Clean.shown (clean : C.Clean names) (member : name ∈ names) : C.SameName name name :=
  .shown (clean.mono (List.cons_subset.mpr ⟨member, List.nil_subset _⟩))

theorem SameName.eq_of_aligned (same : C.SameName n1 n2) (aligned : C.dispatches.1 = C.dispatches.2) : n1 = n2 := by
  cases same with
  | shown => rfl
  | receiver | argument => rw [aligned]

theorem isHidden_receiver (id : Nat) (k : Nat) : IsHidden (hiddenReceiver (id + (k + 1))) :=
  ⟨_, Nat.succ_pos (id + k), .inl rfl⟩

theorem isHidden_argument (id k i : Nat) : IsHidden (hiddenArgument (id + (k + 1)) i) :=
  ⟨_, Nat.succ_pos (id + k), .inr ⟨i, rfl⟩⟩

theorem hiddenArgument_eq_iff {m n i k : Nat} :
    hiddenArgument m i = hiddenArgument n k ↔ m = n ∧ i = k := by
  refine ⟨fun same => ?_, fun ⟨number, index⟩ => by rw [number, index]⟩
  obtain rfl := hiddenArgument_injective same
  have lists := congrArg String.toList same
  rw [toList_hiddenArgument, toList_hiddenArgument] at lists
  have digits := List.append_cancel_left (List.append_cancel_left lists)
  exact ⟨rfl, toDigits_injective (List.cons.inj digits).2⟩

/-- What is one variable in the first run is one in the second. -/
theorem SameName.eq_iff {m1 m2 : String} (first : C.SameName m1 m2) (second : C.SameName n1 n2) :
    m1 = n1 ↔ m2 = n2 := by
  by_cases aligned : C.dispatches.1 = C.dispatches.2
  · rw [first.eq_of_aligned aligned, second.eq_of_aligned aligned]
  have shown : ∀ {name hidden1 hidden2 : String}, C.Clean [name] → IsHidden hidden1 →
      IsHidden hidden2 → (name = hidden1 ↔ name = hidden2) := by
    intro name hidden1 hidden2 clean isHidden1 isHidden2
    have plain := clean.resolve_left aligned name List.mem_cons_self
    exact iff_of_false (fun same => plain (same ▸ isHidden1)) fun same => plain (same ▸ isHidden2)
  cases first with
  | shown clean =>
    cases second with
    | shown => rfl
    | receiver => exact shown clean (isHidden_receiver _ _) (isHidden_receiver _ _)
    | argument => exact shown clean (isHidden_argument _ _ _) (isHidden_argument _ _ _)
  | receiver k =>
    cases second with
    | shown clean =>
      rw [eq_comm, shown clean (isHidden_receiver _ _) (isHidden_receiver _ _), eq_comm]
    | receiver k' =>
      constructor
      · intro same
        obtain rfl : k = k' := by have := hiddenReceiver_injective same; omega
        rfl
      · intro same
        obtain rfl : k = k' := by have := hiddenReceiver_injective same; omega
        rfl
    | argument => exact iff_of_false hiddenReceiver_ne_hiddenArgument hiddenReceiver_ne_hiddenArgument
  | argument k i =>
    cases second with
    | shown clean =>
      rw [eq_comm, shown clean (isHidden_argument _ _ _) (isHidden_argument _ _ _), eq_comm]
    | receiver =>
      exact iff_of_false hiddenReceiver_ne_hiddenArgument.symm hiddenReceiver_ne_hiddenArgument.symm
    | argument => simp [hiddenArgument_eq_iff]

/-! ## Growing correspondence -/

theorem rel_imp {α β : Type} {R S : α → β → Prop} {x : Option α} {y : Option β}
    (same : Option.Rel R x y) (weaker : ∀ a b, R a b → S a b) : Option.Rel S x y := by
  cases same with
  | none => exact .none
  | some same => exact .some (weaker _ _ same)

variable {w w' : Stage W} {c1 c2 : Context}

theorem Scope.mono {x1 x2 : ScopeId} (same : C.Scope w x1 x2) (later : w ≤ w') : C.Scope w' x1 x2 := by
  obtain ⟨k, inside, left, right⟩ := same
  exact ⟨k, Nat.lt_of_lt_of_le inside later.2, left, right⟩

section Mono

variable (later : w ≤ w')

include later

theorem Value.mono {v1 v2 : ValueId} (same : C.Value w v1 v2) : C.Value w' v1 v2 :=
  C.value_mono later.1 same

theorem Values.mono {vs1 vs2 : List ValueId} (same : C.Values w vs1 vs2) : C.Values w' vs1 vs2 :=
  List.Forall₂.imp (fun _ _ => .mono later) same

theorem Block.mono {b1 b2 : BlockId} (same : C.Block w b1 b2) : C.Block w' b1 b2 :=
  C.block_mono later.1 same

theorem Func.mono {f1 f2 : FuncId} (same : C.Func w name f1 f2) : C.Func w' name f1 f2 :=
  C.func_mono later.1 same

theorem SameBinding.mono {b1 b2 : Binding} (same : C.SameBinding w b1 b2) :
    C.SameBinding w' b1 b2 := by
  cases same with
  | slot same => exact .slot (same.mono later)
  | value same => exact .value (same.mono later)

theorem SameFrame.mono (same : C.SameFrame w c1 c2) : C.SameFrame w' c1 c2 where
  __ := same
  scope := same.scope.mono later
  functionScope := same.functionScope.mono later
  self := rel_imp same.self fun _ _ => .mono later
  withScope := rel_imp same.withScope fun _ _ => .mono later
  handlers := same.handlers.imp fun _ _ => .mono later

theorem SameContext.mono (same : C.SameContext w c1 c2) : C.SameContext w' c1 c2 := by
  induction same with
  | intro here _ callers => exact .intro (here.mono later) callers

end Mono

theorem SameScope.mono {k : Nat} {d1 d2 : CallLowering.Scope} (same : C.SameScope w k d1 d2)
    (later : w ≤ w') : C.SameScope w' k d1 d2 where
  bindings := same.bindings.imp fun _ _ binding => ⟨binding.1, binding.2.mono later⟩
  parent := rel_imp same.parent fun _ _ parent => parent.mono ⟨later.1, Nat.le_refl _⟩

theorem SameContext.here : C.SameContext w c1 c2 → C.SameFrame w c1 c2
  | .intro here _ => here

theorem SameContext.callers {target1 target2 : CallLowering.Block × Context × Nat}
    (same : C.SameContext w c1 c2) (handed1 : c1.yieldTarget = some target1)
    (handed2 : c2.yieldTarget = some target2) : C.SameContext w target1.2.1 target2.2.1 := by
  obtain ⟨_, callers⟩ := same
  exact callers _ _ handed1 handed2

/-- Contexts that were handed the same blocks as corresponding ones correspond if they do
themselves. -/
theorem SameContext.ofFrame {c1' c2' : Context} (same : C.SameContext w c1 c2)
    (here : C.SameFrame w c1' c2') (handed1 : c1'.yieldTarget = c1.yieldTarget)
    (handed2 : c2'.yieldTarget = c2.yieldTarget) : C.SameContext w c1' c2' :=
  .intro here fun _ _ found1 found2 => same.callers (handed1 ▸ found1) (handed2 ▸ found2)

/-! ## Scopes -/

section Scopes

variable {w : Stage W} {t1 t2 : Scopes} {x1 x2 : ScopeId} {n1 n2 : String}

/-- Corresponding variables are bound to corresponding bindings of corresponding scopes. -/
theorem lookup_bindings {bs1 bs2 : List (String × Binding)} (named : C.SameName n1 n2)
    (same : List.Forall₂ (fun b1 b2 => C.SameName b1.1 b2.1 ∧ C.SameBinding w b1.2 b2.2) bs1 bs2) :
    Option.Rel (C.SameBinding w) (bs1.lookup n1) (bs2.lookup n2) := by
  induction same with
  | nil => exact .none
  | @cons b1 b2 bs1 bs2 binding _ ih =>
    obtain ⟨m1, _⟩ := b1
    obtain ⟨m2, _⟩ := b2
    have agree : (n1 == m1) = (n2 == m2) := by
      rw [Bool.eq_iff_iff, beq_iff_eq, beq_iff_eq]
      exact named.eq_iff binding.1
    rw [List.lookup_cons, List.lookup_cons, agree]
    split
    · exact .some binding.2
    · exact ih

section

variable (same : C.SameScopes w t1 t2) (scope : C.Scope w x1 x2)

include same scope

theorem SameScopes.get? :
    ∃ k d1 d2, x1.index = C.scopes.1 + k ∧ x2.index = C.scopes.2 + k ∧ k < w.2 ∧
      t1.get? x1 = some d1 ∧ t2.get? x2 = some d2 ∧ C.SameScope w k d1 d2 := by
  obtain ⟨_⟩ := x1
  obtain ⟨_⟩ := x2
  obtain ⟨k, inside, rfl, rfl⟩ := scope
  obtain ⟨d1, d2, found1, found2, level⟩ := same.scope k inside
  exact ⟨k, d1, d2, rfl, rfl, inside, found1, found2, level⟩

variable (named : C.SameName n1 n2)

include named

theorem SameScopes.lookupLocal? :
    Option.Rel (C.SameBinding w) (t1.lookupLocal? x1 n1) (t2.lookupLocal? x2 n2) := by
  obtain ⟨_, _, _, _, _, _, found1, found2, level⟩ := same.get? scope
  rw [Scopes.lookupLocal?, Scopes.lookupLocal?, found1, found2]
  exact lookup_bindings named level.bindings

/-- Corresponding variables have corresponding bindings. -/
theorem SameScopes.lookup? :
    Option.Rel (C.SameBinding w) (t1.lookup? x1 n1) (t2.lookup? x2 n2) := by
  -- the scopes outside number `k` have smaller numbers, so more than `k` levels are always enough
  have within : ∀ k levels1 levels2 x1 x2, C.Scope (w.1, k + 1) x1 x2 → k < w.2 → k < levels1 →
      k < levels2 → Option.Rel (C.SameBinding w) (t1.lookupWithin? levels1 x1 n1)
        (t2.lookupWithin? levels2 x2 n2) := by
    intro k
    induction k using Nat.strong_induction_on with
    | _ k ih =>
      intro levels1 levels2 x1 x2 inner inside enough1 enough2
      obtain ⟨levels1, rfl⟩ := Nat.exists_eq_succ_of_ne_zero (Nat.ne_zero_of_lt enough1)
      obtain ⟨levels2, rfl⟩ := Nat.exists_eq_succ_of_ne_zero (Nat.ne_zero_of_lt enough2)
      have scope : C.Scope w x1 x2 := inner.mono ⟨le_refl _, inside⟩
      have here := same.lookupLocal? scope named
      obtain ⟨m, d1, d2, index1, index2, _, found1, found2, level⟩ := same.get? scope
      rw [Scopes.lookupWithin?, Scopes.lookupWithin?]
      revert here
      generalize t1.lookupLocal? x1 n1 = binding1
      generalize t2.lookupLocal? x2 n2 = binding2
      rintro (binding | _)
      · exact .some binding
      · rw [Scopes.parent?, Scopes.parent?, found1, found2, Option.bind_some, Option.bind_some]
        have parent := level.parent
        revert parent
        generalize d1.parent = p1
        generalize d2.parent = p2
        rintro (parent | _)
        · obtain ⟨p, older, parent1, parent2⟩ := parent
          have before : p < k := by
            obtain ⟨k', bound, _, _⟩ := inner
            have older : p < m := older
            have bound : k' < k + 1 := bound
            omega
          exact ih p before levels1 levels2 _ _ ⟨p, Nat.lt_succ_self p, parent1, parent2⟩
            (by omega) (by omega) (by omega)
        · exact .none
  obtain ⟨k, inside, index1, index2⟩ := scope
  exact within k _ _ _ _ ⟨k, Nat.lt_succ_self k, index1, index2⟩ inside (by omega) (by omega)

/-- A binding is added to corresponding scopes. -/
theorem SameScopes.declare {b1 b2 : Binding} (binding : C.SameBinding w b1 b2) :
    C.SameScopes w (t1.declare x1 n1 b1) (t2.declare x2 n2 b2) := by
  refine ⟨?_, ?_, fun k inside => ?_⟩
  · rw [Scopes.declare, Array.size_modify, same.left]
  · rw [Scopes.declare, Array.size_modify, same.right]
  · obtain ⟨_, _, index1, index2⟩ := scope
    obtain ⟨d1, d2, found1, found2, level⟩ := same.scope k inside
    simp only [Scopes.get?, Scopes.declare, Array.getElem?_modify, index1, index2,
      Nat.add_left_cancel_iff] at found1 found2 ⊢
    split
    · exact ⟨_, _, congrArg _ found1, congrArg _ found2,
        .cons ⟨named, binding⟩ level.bindings, level.parent⟩
    · exact ⟨d1, d2, found1, found2, level⟩

end

/-- Scopes are added inside corresponding scopes. -/
theorem SameScopes.add {p1 p2 : Option ScopeId} (same : C.SameScopes w t1 t2)
    (parent : Option.Rel (C.Scope w) p1 p2) :
    C.SameScopes (w.1, w.2 + 1) (t1.add p1).2 (t2.add p2).2 ∧
      C.Scope (w.1, w.2 + 1) (t1.add p1).1 (t2.add p2).1 := by
  refine ⟨⟨?_, ?_, fun k inside => ?_⟩, w.2, Nat.lt_succ_self _, same.left, same.right⟩
  · simp [Scopes.add, same.left, Nat.add_assoc]
  · simp [Scopes.add, same.right, Nat.add_assoc]
  · have later : w ≤ (w.1, w.2 + 1) := ⟨le_refl _, Nat.le_succ _⟩
    simp only [Scopes.get?, Scopes.add, Array.getElem?_push, same.left, same.right,
      Nat.add_left_cancel_iff]
    split
    · rename_i last
      subst last
      exact ⟨_, _, rfl, rfl, .nil, parent⟩
    · rename_i old
      obtain ⟨d1, d2, found1, found2, level⟩ :=
        same.scope k (Nat.lt_of_le_of_ne (Nat.le_of_lt_succ inside) old)
      exact ⟨d1, d2, found1, found2, level.mono later⟩

/-- Scopes correspond while other numbers come to correspond. -/
theorem SameScopes.mono {w' : W} (same : C.SameScopes w t1 t2) (later : w.1 ≤ w') :
    C.SameScopes (w', w.2) t1 t2 where
  left := same.left
  right := same.right
  scope k inside := by
    obtain ⟨d1, d2, found1, found2, level⟩ := same.scope k inside
    exact ⟨d1, d2, found1, found2, level.mono ⟨later, Nat.le_refl _⟩⟩

end Scopes

end Coupling

end CallLowering
