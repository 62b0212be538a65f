import CallLowering.Proofs.Trail

/-!
# Computations that leave no mark

Most of lowering neither calls nor makes closures: values are read, converted and stored, join points
are opened and closed, names are bound. Such computations are `Silent`. Silence is a class, so that
it is found along the text of a computation.
-/

namespace CallLowering

open Lower

namespace LowerState

/-- The recording is in order, and the exits of the open join points are there. -/
structure Orderly (s : LowerState) (program : Program) : Prop where
  code : s.code.Orderly program
  exits : ∀ join ∈ s.joins, ∀ exit ∈ join.exit, s.code.Has exit

/-- A piece of lowering leads from one state to another: what it changes of the context has nothing
to do with rescues and `yield`. -/
structure Onward (program : Program) (s : LowerState) (marks : List Mark) (s' : LowerState) :
    Prop where
  code : s.code.Onward program marks s'.code
  exits : ∀ join ∈ s'.joins, ∀ exit ∈ join.exit, s'.code.Has exit
  handlers : s'.context.handlers = s.context.handlers
  yieldTarget : s'.context.yieldTarget = s.context.yieldTarget

variable {program : Program} {s s1 s' : LowerState} {marks marks' : List Mark}

theorem Onward.orderly (onward : s.Onward program marks s') : s'.Orderly program :=
  ⟨onward.code.orderly, onward.exits⟩

theorem Onward.trans (first : s.Onward program marks s1) (second : s1.Onward program marks' s') :
    s.Onward program (marks ++ marks') s' where
  code := first.code.trans second.code
  exits := second.exits
  handlers := second.handlers.trans first.handlers
  yieldTarget := second.yieldTarget.trans first.yieldTarget

theorem Onward.of_code {code : Recording} (orderly : s.Orderly program)
    (onward : s.code.Onward program marks code) :
    s.Onward program marks { s with code := code } where
  code := onward
  exits join member exit here := (orderly.exits join member exit here).later onward.later
  handlers := rfl
  yieldTarget := rfl

/-- Nothing that matters changes. -/
theorem Onward.of_same (orderly : s.Orderly program) (code : s'.code = s.code)
    (joins : s'.joins = s.joins) (handlers : s'.context.handlers = s.context.handlers)
    (yieldTarget : s'.context.yieldTarget = s.context.yieldTarget) : s.Onward program [] s' where
  code := code.symm ▸ .refl orderly.code
  exits := by
    rw [joins, code]
    exact orderly.exits
  handlers := handlers
  yieldTarget := yieldTarget

end LowerState

/-! ## Silence -/

variable {α β : Type}

/-- The operation has nothing to do with functions. -/
class Operation.Ordinary (op : Operation) : Prop where
  ordinary : op.isOrdinary = true

/-- The operation has a result, and nothing to do with functions. -/
class Operation.Valued (op : Operation) : Prop extends op.Ordinary where
  hasResult : op.hasResult = true

/-- What is recorded leaves no mark, and the cursor where it is. -/
class Emit.Plain (act : Emit α) : Prop where
  quiet : act.Quiet
  onward : ∀ {program : Program} {code code' : Recording} {a : α}, code.Orderly program →
    act code = .ok a code' → code.Onward program [] code'

/-- The computation leaves no mark. -/
class Lower.Silent (act : Lower α) : Prop where
  onward : ∀ {program : Program} {env : Env} {s s' : LowerState} {a : α}, s.Orderly program →
    act env s = .ok a s' → s.Onward program [] s'

/-- The computation reads, records and takes notes. It opens nothing, moves nothing and binds
nothing, and if it fails it is not because it has lost track. -/
class inductive Lower.Plain : {α : Type} → Lower α → Prop where
  | returns {α : Type} (a : α) : Plain (pure a)
  | bind {α β : Type} {act : Lower α} {next : α → Lower β} (first : Plain act)
      (rest : ∀ a, Plain (next a)) : Plain (act >>= next)
  | throws {α : Type} {error : LowerError} (harmless : error.isInconsistency = false) :
      Plain (throw error : Lower α)
  | reads : Plain read
  | gets : Plain get
  | records {α : Type} {act : Emit α} (plain : act.Plain) : Plain (record act)
  | notes {α : Type} {act : Lower α}
      (noted : act.Notes) : Plain act

namespace Operation

variable {ty : MachineType} {name : String} {v w : ValueId} {i j : Nat} {source dest : Ty}
  {yes no : BlockId}

theorem Valued.of {op : Operation} (ordinary : op.isOrdinary = true) (hasResult : op.hasResult = true) :
    op.Valued := { ordinary, hasResult }

instance : (alloca ty name).Valued := .of rfl rfl
instance : (load ty v).Valued := .of rfl rfl
instance : (fieldPtr ty v i).Valued := .of rfl rfl
instance {kind : CastKind} : (cast kind v ty).Valued := .of rfl rfl
instance : (extractValue ty v i).Valued := .of rfl rfl
instance : (convert v source dest).Valued := .of rfl rfl
instance : (typeId v source).Valued := .of rfl rfl
instance : (matchTypeTag source dest v).Valued := .of rfl rfl
instance : (and v w).Valued := .of rfl rfl
instance {arms : List (ValueId × BlockId)} : (phi ty arms).Valued := .of rfl rfl
instance : (store v w).Ordinary := ⟨rfl⟩
instance : (copy v w i j).Ordinary := ⟨rfl⟩
instance : (condBr v yes no).Ordinary := ⟨rfl⟩
instance : unreachable.Ordinary := ⟨rfl⟩
instance {value : Option ValueId} : (ret value).Ordinary := ⟨rfl⟩

end Operation

namespace Emit.Plain

variable {act : Emit α} {next : α → Emit β} {op : Operation}

instance (a : α) : Plain (pure a : Emit α) where
  quiet := .pure a
  onward orderly ran := by
    cases ran
    exact .refl orderly

instance [first : act.Plain] [rest : ∀ a, (next a).Plain] : (act >>= next).Plain where
  quiet := first.quiet.bind fun a => (rest a).quiet
  onward orderly ran := by
    obtain ⟨a, code1, ran1, ran2⟩ := bind_ok ran
    have before := onward orderly ran1
    exact before.trans (onward before.orderly ran2)

instance {c : Prop} [Decidable c] {yes no : Emit α} [yes.Plain] [no.Plain] :
    (if c then yes else no).Plain := by
  split <;> infer_instance

instance [op.Ordinary] : (Emit.effect op).Plain where
  quiet := .effect op
  onward orderly ran := by
    obtain ⟨block, here, _, rfl⟩ := effect_ok ran
    exact .ordinary _ orderly (orderly.placed block here) Operation.Ordinary.ordinary

instance [op.Valued] : (Emit.value op).Plain where
  quiet := .value Operation.Valued.hasResult
  onward orderly ran := by
    obtain ⟨block, here, _, _, rfl⟩ := value_ok ran
    exact .ordinary _ orderly (orderly.placed block here) Operation.Ordinary.ordinary

instance {value : Constant} : (Emit.constant value).Plain where
  quiet := .constant value
  onward orderly ran := by
    cases ran
    exact .constant orderly value

instance {name : String} : (Emit.global name).Plain where
  quiet := .global name
  onward orderly ran := by
    cases ran
    exact .global orderly name

instance {label : String} : (Emit.newBlock label).Plain where
  quiet := .newBlock label
  onward orderly ran := by
    obtain ⟨_, data, _, present, _, rfl⟩ := newBlock_ok ran
    exact .appendBlock orderly (orderly.homed _ data present) _

instance : Emit.isTerminated.Plain where
  quiet := .isTerminated
  onward orderly ran := by
    cases ran
    exact .refl orderly

end Emit.Plain

namespace JoinPoint

variable {join join' : JoinPoint} {code code' : Recording} {v : ValueId} {ty : Ty}
  {program : Program} (orderly : code.Orderly program) (exits : ∀ exit ∈ join.exit, code.Has exit)

include orderly exits

/-- A path that ends in a join point leaves no mark, and the exit of the join point is there. -/
theorem add_onward (ran : join.add v ty code = .ok join' code') :
    code.Onward program [] code' ∧ ∀ exit ∈ join'.exit, code'.Has exit := by
  rcases add_ok ran with ⟨_, rfl, rfl⟩ | ⟨_, block, v', code1, here, _, converted, exited⟩
  · exact ⟨.refl orderly, exits⟩
  · have has := orderly.placed block here
    have before : code.Onward program [] code1 := by
      rcases converted with ⟨_, rfl⟩ | ⟨_, rfl⟩
      · exact .refl orderly
      · exact .ordinary _ orderly has rfl
    have has1 := has.later before.later
    rcases exited with ⟨exit, old, rfl, rfl⟩ | ⟨_, data, present, rfl, rfl⟩
    · have branched := before.trans (.ordinary (.br exit) before.orderly has1 rfl)
      refine ⟨branched, fun x reached => ?_⟩
      cases reached
      exact (exits exit old).later branched.later
    · have opened := Recording.Onward.appendBlock before.orderly
        (before.orderly.homed block data present) "merge"
      have branched := Recording.Onward.ordinary (.br ⟨code1.blocks.size⟩) opened.orderly
        (has1.later opened.later) rfl
      refine ⟨before.trans (opened.trans branched), fun _ reached => ?_⟩
      cases reached
      exact Recording.Has.later ⟨_, Recording.appendBlock_block?_new⟩ branched.later

theorem close_onward {result : Option ValueId} (ran : join.close code = .ok result code') :
    code.Onward program [] code' := by
  unfold close at ran
  cases exit : join.exit with
  | none =>
    rw [exit] at ran
    have plain : Emit.Plain (do
        if ← Emit.isTerminated then return (none : Option ValueId)
        else
          Emit.effect .unreachable
          return none) := inferInstance
    exact plain.onward orderly ran
  | some block =>
    rw [exit] at ran
    obtain ⟨_, _, same, rest⟩ := Emit.bind_ok ran
    cases same
    have before := Recording.Onward.position orderly (exits block exit)
    exact before.trans (Emit.Plain.onward before.orderly rest)

end JoinPoint

/-- The error does not report an inconsistency. -/
class LowerError.Harmless (error : LowerError) : Prop where
  harmless : error.isInconsistency = false

namespace LowerError

variable {name : String} {ty : Ty} {loc : Location}

instance : (internal (.noRuntimeTag ty) loc).Harmless := ⟨rfl⟩
instance : (internal (.noField ty name) loc).Harmless := ⟨rfl⟩
instance : (internal (.undefinedVariable name) loc).Harmless := ⟨rfl⟩
instance : (internal (.unhandledReturn ty) loc).Harmless := ⟨rfl⟩
instance : (internal .noSelf loc).Harmless := ⟨rfl⟩
instance : (internal (.unknownMagic name) loc).Harmless := ⟨rfl⟩
instance : (internal .noWithScope loc).Harmless := ⟨rfl⟩
instance : (internal (.noReceiver name) loc).Harmless := ⟨rfl⟩
instance {index : Nat} : (internal (.noParameter name index) loc).Harmless := ⟨rfl⟩

end LowerError

namespace Lower

variable {act : Lower α} {next : α → Lower β} {op : Operation} {loc : Location} {cause : Fault}
  {value : Option α}

/-! ## Plain computations -/

namespace Plain

instance (a : α) : Plain (pure a : Lower α) := .returns a

instance [first : act.Plain] [rest : ∀ a, (next a).Plain] : (act >>= next).Plain := .bind first rest

theorem andThen [act.Plain] (rest : ∀ a, (next a).Plain) : (act >>= next).Plain := inferInstance

instance {c : Prop} [Decidable c] {yes no : Lower α} [yes.Plain] [no.Plain] :
    (if c then yes else no).Plain := by
  split <;> infer_instance

instance [(LowerError.internal cause loc).Harmless] : Plain (fault cause loc : Lower α) :=
  .throws LowerError.Harmless.harmless

instance [(LowerError.internal cause loc).Harmless] : (orFault value cause loc).Plain := by
  unfold orFault
  split <;> infer_instance

instance : Plain (read : Lower Env) := .reads
instance : Plain (get : Lower LowerState) := .gets
instance {act : Emit α} [plain : act.Plain] : (record act).Plain := .records plain
instance [op.Valued] : (emit op).Plain := by unfold emit; infer_instance
instance [op.Ordinary] : (emitEffect op).Plain := by unfold emitEffect; infer_instance
instance {value : Constant} : (constant value).Plain := by
  unfold constant; infer_instance
instance : nilValue.Plain := by unfold nilValue; infer_instance
instance {label : String} : (newBlock label).Plain := by unfold newBlock; infer_instance
instance : isTerminated.Plain := by unfold isTerminated; infer_instance
instance : program.Plain := by unfold program; infer_instance
instance : types.Plain := by unfold types; infer_instance
instance : context.Plain := by unfold context; infer_instance
instance {name : String} : (lookup? name).Plain := by unfold lookup?; infer_instance

instance {event : Event} : (report event).Plain := .notes fun _ _ => ⟨rfl, rfl, rfl, rfl, rfl, id⟩

instance : nextClosure.Plain := .notes fun _ _ => ⟨rfl, rfl, rfl, rfl, rfl, id⟩

end Plain

/-! ## Silent computations -/

namespace Silent

/-- A computation that touches neither the code nor the join points nor the context. -/
theorem still (still : ∀ {env : Env} {s s' : LowerState} {a : α}, act env s = .ok a s' →
    s'.code = s.code ∧ s'.joins = s.joins ∧ s'.context = s.context) : act.Silent where
  onward orderly ran := by
    obtain ⟨code, joins, context⟩ := still ran
    exact .of_same orderly code joins (congrArg _ context) (congrArg _ context)

theorem setContext (change : Context → Context) (handlers : ∀ c, (change c).handlers = c.handlers)
    (yieldTarget : ∀ c, (change c).yieldTarget = c.yieldTarget) : (setContext change).Silent where
  onward orderly ran := by
    cases ran
    exact .of_same orderly rfl rfl (handlers _) (yieldTarget _)

@[instance] theorem of_plain [plain : act.Plain] : act.Silent := by
  induction plain with
  | returns a =>
    exact still fun ran => by
      cases ran
      exact ⟨rfl, rfl, rfl⟩
  | bind _ _ ihFirst ihRest =>
    refine ⟨fun orderly ran => ?_⟩
    obtain ⟨a, s1, first, second⟩ := bind_ok ran
    have before := ihFirst.onward orderly first
    exact before.trans ((ihRest a).onward before.orderly second)
  | throws => exact ⟨fun _ ran => by cases ran⟩
  | reads | gets =>
    exact still fun ran => by
      cases ran
      exact ⟨rfl, rfl, rfl⟩
  | records =>
    refine ⟨fun orderly ran => ?_⟩
    obtain ⟨code, recorded, rfl⟩ := record_ok ran
    exact .of_code orderly (Emit.Plain.onward orderly.code recorded)
  | notes noted =>
    refine still fun {env s s' a} ran => ?_
    have alike := noted env s
    rw [ran] at alike
    exact ⟨alike.code, alike.joins, alike.context⟩

instance {parent : Option ScopeId} : (newScope parent).Silent := still fun ran => by
  cases ran
  exact ⟨rfl, rfl, rfl⟩

instance {scope : ScopeId} {name : String} {binding : Binding} :
    (declareIn scope name binding).Silent := still fun ran => by
  cases ran
  exact ⟨rfl, rfl, rfl⟩

instance : nextDispatch.Silent := still fun ran => by
  cases ran
  exact ⟨rfl, rfl, rfl⟩

instance {ty : Ty} : (openJoin ty).Silent where
  onward {program env s s' a} orderly ran := by
    cases ran
    refine ⟨.refl orderly.code, fun join member exit here => ?_, rfl, rfl⟩
    rcases Array.mem_push.mp member with old | rfl
    · exact orderly.exits join old exit here
    · cases here

instance {join : Nat} {value : ValueId} {ty : Ty} : (addToJoin join value ty).Silent where
  onward {program env s s' a} orderly ran := by
    obtain ⟨point, point', code, opened, added, rfl⟩ := addToJoin_ok ran
    obtain ⟨onward, exits⟩ := point.add_onward orderly.code
      (orderly.exits point (Array.mem_of_getElem? opened)) added
    refine ⟨onward, fun x member exit here => ?_, rfl, rfl⟩
    rcases Array.mem_or_eq_of_mem_setIfInBounds member with old | rfl
    · exact (orderly.exits x old exit here).later onward.later
    · exact exits exit here

instance {join : Nat} : (closeJoin join).Silent where
  onward {program env s s' a} orderly ran := by
    obtain ⟨point, joins, code, all, _, closed, rfl⟩ := closeJoin_ok ran
    have known : ∀ x ∈ joins.push point, ∀ exit ∈ x.exit, s.code.Has exit :=
      all ▸ orderly.exits
    have onward := point.close_onward orderly.code (known point Array.mem_push_self) closed
    refine ⟨onward, fun x member exit here => ?_, rfl, rfl⟩
    exact (known x (Array.mem_push_of_mem _ member) exit here).later onward.later

end Silent

/-! ## Functions that leave no mark -/

section

variable {ty source dest owner ret : Ty} {v ptr : ValueId} {name : String} {loc : Location}
  {call : Call} {defn : Definition} {param : Param} {cls : ArgClass} {recordType : MachineType}

instance {value : Int64} : (intConstant ty value).Plain := by
  unfold intConstant
  split <;> infer_instance

instance {value : Float} : (floatConstant ty value).Plain := by
  unfold floatConstant
  split <;> infer_instance

instance : (tagConstant ty loc).Plain := by unfold tagConstant; infer_instance
instance : (coerce v source dest).Plain := by unfold coerce; infer_instance
instance : (loadSlot ptr ty).Plain := by unfold loadSlot; infer_instance
instance : (storeSlot v ptr ty).Plain := by unfold storeSlot; infer_instance
instance : (spill v ty name).Plain := by unfold spill; infer_instance

instance {binding : Binding} : (readBinding binding).Plain := by
  cases binding <;> unfold readBinding <;> infer_instance

instance : (fieldAddress owner ptr name loc).Plain := by unfold fieldAddress; infer_instance
instance : (loadField owner ptr name loc).Plain := by unfold loadField; infer_instance
instance : (selfInstance loc).Plain := by unfold selfInstance; infer_instance
instance : (emitReturn v source ret).Plain := by unfold emitReturn; infer_instance
instance : (implicitReceiver call).Plain := by unfold implicitReceiver; infer_instance

instance : (magicConstant name call ty).Plain := by
  unfold magicConstant
  split <;> infer_instance

instance : (passArgument defn param v ty).Plain := by unfold passArgument; infer_instance

instance : neverReturns.Plain := by unfold neverReturns; infer_instance
instance : (uniformReturn defn v).Plain := by unfold uniformReturn; infer_instance

instance {body : Expr} {receiver : Option (ValueId × Ty)} :
    (trivialBody ret body receiver).Plain := by
  have literals : ∀ {literal}, literalValue? body.kind body.ty = some literal → literal.Plain := by
    unfold literalValue?
    intro literal found
    split at found <;> cases found <;> infer_instance
  unfold trivialBody
  split
  · infer_instance
  · split
    · rename_i found
      have := literals found
      infer_instance
    · split <;> infer_instance

instance {args : CallArgs} : (substitute? defn args).Plain := by
  unfold substitute?
  split
  · infer_instance
  · split
    · infer_instance
    · exact .andThen fun _ => by split <;> infer_instance

theorem classifyAfresh_outcome {env : Env} {s : LowerState} {signature : Signature} :
    Outcome (fun _ s' => ∃ classified scripted, s' = { s with
        classified := classified, scripted := scripted })
      (fun error s' => error.isInconsistency = false ∧ ∃ scripted, s' = { s with
        scripted := scripted }) (classifyAfresh defn signature loc env s) := by
  have answer : Outcome (fun _ s' => ∃ scripted, s' = { s with scripted := scripted })
      (fun error s' => error.isInconsistency = false ∧ ∃ scripted, s' = { s with
        scripted := scripted }) (classify signature env s) := by
    unfold classify
    rw [bind_of_ok (get_run env s)]
    cases scripted : s.scripted with
    | nil => exact ⟨s.scripted, rfl⟩
    | cons answer rest =>
      cases answer with
      | ok => exact ⟨rest, rfl⟩
      | error => exact ⟨rfl, rest, rfl⟩
  unfold classifyAfresh
  refine answer.bind ?_ fun _ _ => id
  rintro classification _ ⟨scripted, rfl⟩
  dsimp only
  split
  · exact ⟨rfl, scripted, rfl⟩
  · change Outcome _ _ ((if env.options.memoizeAbi then _ else _ : Lower Classification) env _)
    split
    · exact ⟨_, scripted, rfl⟩
    · exact ⟨s.classified, scripted, rfl⟩

instance {tail : List Ty} : (classification defn tail loc).Plain := by
  refine .notes fun env s => ?_
  by_cases faithful : s.Faithful
  · obtain ⟨classified, events, ran, faithful'⟩ := classification_run env defn tail loc faithful rfl rfl
    exact .of_ok ran ⟨rfl, rfl, rfl, rfl, rfl, fun _ => faithful'⟩
  · have afresh : ∀ signature, Outcome (fun _ => s.Alike)
        (fun error s' => error.isInconsistency = false ∧ s.Alike s')
        (classifyAfresh defn signature loc env s) := by
      intro signature
      refine classifyAfresh_outcome.mono ?_ ?_
      · rintro _ _ ⟨classified, scripted, rfl⟩
        exact ⟨rfl, rfl, rfl, rfl, rfl, fun here => absurd here faithful⟩
      · rintro _ _ ⟨harmless, scripted, rfl⟩
        exact ⟨harmless, rfl, rfl, rfl, rfl, rfl, fun here => absurd here faithful⟩
    unfold classification
    change Outcome _ _ ((if env.options.memoizeAbi then _ else _ : Lower Classification) env s)
    split
    · rw [bind_of_ok (get_run env s)]
      cases s.classified.lookup (⟨defn.params.map (·.ty) ++ tail, defn.ret⟩ : Signature) with
      | some => exact ⟨rfl, rfl, rfl, rfl, rfl, id⟩
      | none => exact afresh _
    · exact afresh _

instance {buffer : ValueId} : (fillBuffer buffer v ty cls).Plain := by
  unfold fillBuffer; infer_instance

instance : (passByClass v ty cls).Plain := by
  unfold passByClass
  split <;> try infer_instance
  split <;> infer_instance

instance : (returnSlot cls).Plain := by unfold returnSlot; infer_instance

instance : captureSelf.Plain := by
  unfold captureSelf
  exact .andThen fun _ => by split <;> infer_instance

instance {index : Nat} {captures : List Capture} :
    (storeCaptures recordType ptr index captures).Plain := by
  induction captures generalizing index <;> unfold storeCaptures <;> infer_instance

instance {captures : List Capture} {self : Option (ValueId × Ty)} :
    (closureData recordType captures self).Plain := by
  unfold closureData
  split
  · infer_instance
  · exact .andThen fun _ => .andThen fun _ => by split <;> infer_instance

instance {receiver : Option DispatchReceiver} : (receiverTest call receiver defn).Plain := by
  unfold receiverTest
  split <;> infer_instance

instance {index : Nat} {args : List DispatchArg} {cond : Option ValueId} :
    (argTests call defn index args cond).Plain := by
  induction args generalizing index cond <;> unfold argTests
  · infer_instance
  · split
    · infer_instance
    · exact .andThen fun _ => .andThen fun _ => by split <;> infer_instance

instance {receiver : Option DispatchReceiver} {args : List DispatchArg} :
    (guardOf call receiver args defn).Plain := by
  unfold guardOf
  exact .andThen fun _ => .andThen fun _ => by split <;> infer_instance

instance : (lowerVar name ty loc).Plain := by unfold lowerVar; infer_instance
instance : (lowerField name ty loc).Plain := by unfold lowerField; infer_instance

end

end Lower

end CallLowering
