import CallLowering.Lowering.Dispatch
import CallLowering.Proofs.Evaluation

/-!
# What a body unfolds to

Lowering goes through a body from left to right, into inlined callees, into the blocks that they
yield to and into the blocks that become closures. `Unfolds` follows such paths over the text of the
program alone and lists the calls on them, each with the rescues that are active there.

A rescue is active while its body is gone through, wherever that leads: a callee that is inlined in
the body is inside the rescue, and so is a block that the callee yields to. Conversely, a block is
inside the rescues that its callee puts around the `yield`. The handler of a rescue is outside of
it, and a closure, which is a function of its own, starts outside of all.
-/

namespace CallLowering

open Task

/-- Something that is recorded on the way. -/
inductive Mark where
  /-- A call of a definition, under the active rescues, innermost first. -/
  | call (defn : Definition) (rescues : List BlockId)
  /-- A call of the initializer of a constant. -/
  | initializer (name : String)
  /-- The start of a handler. -/
  | handler (rescue : BlockId)

/-- Something that is to be gone through. -/
inductive Task where
  | expr (expr : Expr)
  /-- A definition is to be called, with its operands evaluated. -/
  | perform (defn : Definition) (block : Option Block)
  | call (defn : Definition)
  | initializer (name : String)
  /-- A handler starts. -/
  | land (rescue : BlockId)
  /-- Code in which `yield` runs the first of the given blocks. -/
  | inside (handed : List Block) (tasks : List Task)
  /-- Code whose raising calls go to a handler. -/
  | guarded (rescue : BlockId) (tasks : List Task)
  /-- A block that becomes a function of its own. -/
  | closure (block : Block)

/-- Expressions are gone through one after the other, as far as they have effects. -/
def Task.each (exprs : List Expr) : List Task :=
  (exprs.filter fun expr => !expr.kind.isSideEffectFree).map .expr

namespace Call

/-- The operands of a call of one definition: the receiver, the arguments and the defaults of the
omitted ones. -/
def operands (call : Call) (defn : Definition) : List Expr :=
  call.obj.toList ++ (call.args ++ defn.omitted call.args.length)

/-- The operands of a call of several candidates that are evaluated before the first is tried. -/
def sharedOperands (call : Call) : List Expr :=
  call.obj.toList ++ call.args.filter fun arg => !Lower.isEvaluatedByCallee arg

/-- The operands of a call of several candidates that are evaluated once a candidate is chosen. -/
def ownOperands (call : Call) (defn : Definition) : List Expr :=
  call.args.filter Lower.isEvaluatedByCallee ++ defn.omitted call.args.length

end Call

/-- A block that is passed as a value becomes a function. -/
def Definition.blockTasks (defn : Definition) (block : Option Block) : List Task :=
  if defn.blockArg && !defn.isForeign then block.toList.map Task.closure else []

/-- What a call of the definition comes to, once its operands are evaluated. A callee that takes its
block by `yield` is inlined. The enclosing code may yield to the blocks `handed`. -/
def Definition.performed (defn : Definition) (handed : List Block) (block : Option Block) :
    List Task :=
  if block.isSome && !defn.blockArg then
    defn.body.toList.map fun body => .inside (block.toList ++ handed) [.expr body]
  else [.perform defn block]

/-- A candidate is tried: its operands are evaluated and it is called. -/
def Call.branch (call : Call) (handed : List Block) (defn : Definition) : List Task :=
  Task.each (call.ownOperands defn) ++ defn.performed handed call.block

/-- What an expression comes to where control gets to it. -/
inductive Expr.Expands (program : Program) (handed : List Block) : Expr → List Task → Prop where
  | quiet {expr : Expr} (free : expr.kind.isSideEffectFree = true) : Expands program handed expr []
  | field {name : String} {ty : Ty} {loc : Location} :
      Expands program handed ⟨.field name, ty, loc⟩ []
  | assign {target : String} {value : Expr} {ty : Ty} {loc : Location} :
      Expands program handed ⟨.assign target value, ty, loc⟩ (Task.each [value])
  | metaclass {name owner : String} {initializer : Bool} {loc : Location} :
      Expands program handed ⟨.const name initializer, .metaclass owner, loc⟩ []
  | initialized {name : String} {ty : Ty} {loc : Location}
      (ordinary : ∀ owner, ty ≠ .metaclass owner) :
      Expands program handed ⟨.const name true, ty, loc⟩ [.initializer name]
  | single {call : Call} {name : String} {defn : Definition} {ty : Ty} {loc : Location}
      (targets : call.targets = [name]) (target : program.target? name = some defn) :
      Expands program handed ⟨.call call, ty, loc⟩
        (Task.each (call.operands defn) ++ defn.performed handed call.block)
  | several {call : Call} {defns : List Definition} {ty : Ty} {loc : Location}
      (several : 2 ≤ call.targets.length)
      (targets : call.targets.map program.target? = defns.map some) :
      Expands program handed ⟨.call call, ty, loc⟩
        (Task.each call.sharedOperands ++ defns.flatMap (call.branch handed))
  | yield {block : Block} {outer : List Block} {args : List Expr} {scope : Option Expr} {ty : Ty}
      {loc : Location} (given : handed = block :: outer) :
      Expands program handed ⟨.yield args scope, ty, loc⟩
        (Task.each (args ++ scope.toList) ++ [.inside outer [.expr block.body]])
  | breaks {value : Option Expr} {ty : Ty} {loc : Location} :
      Expands program handed ⟨.breakWith value, ty, loc⟩ (Task.each value.toList)
  | nexts {value : Option Expr} {ty : Ty} {loc : Location} :
      Expands program handed ⟨.nextWith value, ty, loc⟩ (Task.each value.toList)
  | literal {block : Block} {ty : Ty} {loc : Location} :
      Expands program handed ⟨.procLiteral block, ty, loc⟩ [.closure block]
  | seq {exprs : List Expr} {ty : Ty} {loc : Location} :
      Expands program handed ⟨.seq exprs, ty, loc⟩ (Task.each exprs)
  | rescue {rescue : BlockId} {body handler : Expr} {ty : Ty} {loc : Location} :
      Expands program handed ⟨.rescue body handler, ty, loc⟩
        [.guarded rescue [.expr body], .land rescue, .expr handler]

/-- Going through tasks under rescues leaves marks. -/
inductive Unfolds (program : Program) :
    List BlockId → List Block → List Task → List Mark → Prop where
  | nil {rescues : List BlockId} {handed : List Block} : Unfolds program rescues handed [] []
  | append {rescues : List BlockId} {handed : List Block} {tasks tasks' : List Task}
      {marks marks' : List Mark} (first : Unfolds program rescues handed tasks marks)
      (second : Unfolds program rescues handed tasks' marks') :
      Unfolds program rescues handed (tasks ++ tasks') (marks ++ marks')
  /-- Code that control does not get to is dropped. -/
  | dropped {rescues : List BlockId} {handed : List Block} {expr : Expr} :
      Unfolds program rescues handed [.expr expr] []
  | expr {rescues : List BlockId} {handed : List Block} {expr : Expr} {tasks : List Task}
      {marks : List Mark} (expands : expr.Expands program handed tasks)
      (unfolds : Unfolds program rescues handed tasks marks) :
      Unfolds program rescues handed [.expr expr] marks
  /-- The value of a trivial body takes the place of the call. -/
  | substituted {rescues : List BlockId} {handed : List Block} {defn : Definition}
      {block : Option Block} (trivial : defn.isSubstituted = true) :
      Unfolds program rescues handed [.perform defn block] []
  | performed {rescues : List BlockId} {handed : List Block} {defn : Definition}
      {block : Option Block} {marks : List Mark}
      (unfolds : Unfolds program rescues handed (defn.blockTasks block ++ [.call defn]) marks) :
      Unfolds program rescues handed [.perform defn block] marks
  | call {rescues : List BlockId} {handed : List Block} {defn : Definition} :
      Unfolds program rescues handed [.call defn] [.call defn rescues]
  | initializer {rescues : List BlockId} {handed : List Block} {name : String} :
      Unfolds program rescues handed [.initializer name] [.initializer name]
  | land {rescues : List BlockId} {handed : List Block} {rescue : BlockId} :
      Unfolds program rescues handed [.land rescue] [.handler rescue]
  /-- The code of a callee or a block stays inside the rescues. -/
  | inside {rescues : List BlockId} {handed handed' : List Block} {tasks : List Task}
      {marks : List Mark} (unfolds : Unfolds program rescues handed' tasks marks) :
      Unfolds program rescues handed [.inside handed' tasks] marks
  | guarded {rescues : List BlockId} {handed : List Block} {rescue : BlockId} {tasks : List Task}
      {marks : List Mark} (unfolds : Unfolds program (rescue :: rescues) handed tasks marks) :
      Unfolds program rescues handed [.guarded rescue tasks] marks
  /-- The code of another function is outside of all rescues and yields to no block. -/
  | closure {rescues : List BlockId} {handed : List Block} {block : Block} {marks : List Mark}
      (unfolds : Unfolds program [] [] [.expr block.body] marks) :
      Unfolds program rescues handed [.closure block] marks

section

variable {program : Program} {rescues : List BlockId} {handed : List Block} {expr : Expr}
  {tasks : List Task} {marks : List Mark}

theorem Expr.Expands.of_free (expands : expr.Expands program handed tasks)
    (free : expr.kind.isSideEffectFree = true) : tasks = [] := by
  cases expands with
  | quiet | field | metaclass => rfl
  | _ => cases free

/-- Nothing comes of expressions without effects. -/
theorem Unfolds.of_free (unfolds : Unfolds program rescues handed tasks marks)
    (free : ∀ task ∈ tasks, ∃ expr : Expr, task = .expr expr ∧
      expr.kind.isSideEffectFree = true) : marks = [] := by
  induction unfolds with
  | nil | dropped => rfl
  | append _ _ ih1 ih2 =>
    rw [ih1 (List.forall_mem_append.mp free).1,
      ih2 (List.forall_mem_append.mp free).2, List.append_nil]
  | expr expands _ ih =>
    obtain ⟨_, same, free⟩ := free _ (List.mem_singleton_self _)
    cases same
    obtain rfl := expands.of_free free
    exact ih (List.forall_mem_nil _)
  | _ =>
    obtain ⟨_, same, _⟩ := free _ (List.mem_singleton_self _)
    cases same

/-- An expression without effects may be left out. -/
theorem Unfolds.each (unfolds : Unfolds program rescues handed [.expr expr] marks) :
    Unfolds program rescues handed (Task.each [expr]) marks := by
  cases free : expr.kind.isSideEffectFree with
  | true =>
    rw [unfolds.of_free fun _ member => ⟨expr, List.mem_singleton.mp member, free⟩, Task.each,
      List.filter_cons_of_neg (by simp [free])]
    exact .nil
  | false =>
    rw [Task.each, List.filter_cons_of_pos (by simp [free])]
    exact unfolds

/-- Expressions of which nothing is lowered. -/
theorem Unfolds.dropping (exprs : List Expr) :
    Unfolds program rescues handed (Task.each exprs) [] := by
  unfold Task.each
  induction exprs.filter fun expr => !expr.kind.isSideEffectFree with
  | nil => exact .nil
  | cons expr exprs ih => exact .append .dropped ih

theorem Task.each_append (exprs exprs' : List Expr) :
    each (exprs ++ exprs') = each exprs ++ each exprs' := by
  rw [each, List.filter_append, List.map_append]
  rfl

theorem Task.each_cons (expr : Expr) (exprs : List Expr) :
    each (expr :: exprs) = each [expr] ++ each exprs := each_append [expr] exprs

theorem Task.flatMap_each (exprs : List Expr) :
    (exprs.flatMap fun expr => each [expr]) = each exprs := by
  induction exprs with
  | nil => rfl
  | cons expr exprs ih => rw [List.flatMap_cons, ih, ← each_cons]

end

end CallLowering
