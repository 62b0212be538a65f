import CallLowering.Lowering.Function
import CallLowering.Proofs.Attempting

/-!
# Successful runs

What is known when a computation of lowering has succeeded: a sequence has succeeded step by step
(`Lower.bind_ok`), and each primitive has made its one change to the state. Proofs about lowering
take successful runs apart with these lemmas and do not look at how computations are represented.

A faithful memory (`Memory.Faithful`) answers what classifying a foreign prototype afresh answers
(`Lower.classification_run`).
-/

namespace CallLowering

open Emit

variable {result : Option ValueId} {block : BlockId} {loc : Location}

/-! ## Recording -/

namespace Emit

variable {α β : Type} {code code' : Recording} {op : Operation}

theorem bind_ok {act : Emit α} {next : α → Emit β} {b : β}
    (ran : (act >>= next) code = .ok b code') :
    ∃ a mid, act code = .ok a mid ∧ next a mid = .ok b code' := by
  change EStateM.bind act next code = _ at ran
  unfold EStateM.bind at ran
  cases found : act code with
  | ok a mid =>
    rw [found] at ran
    exact ⟨a, mid, rfl, ran⟩
  | error error mid =>
    rw [found] at ran
    cases ran

theorem value_ok {v : ValueId} (ran : value op code = .ok v code') :
    ∃ block, code.cursor = some block ∧ code.terminator? block = none ∧
      code.resultOf op = some v ∧ code' = code.written block op := by
  obtain ⟨block, atBlock, running, there⟩ | ⟨_, _, _, refused⟩ := value_cases op code
  · rw [there] at ran
    split at ran
    · rename_i has
      cases ran
      exact ⟨block, atBlock, running, if_pos has, rfl⟩
    · cases ran
  · cases refused.symm.trans ran

theorem effect_ok {u : Unit} (ran : effect op code = .ok u code') :
    ∃ block, code.cursor = some block ∧ code.terminator? block = none ∧
      code' = code.written block op := by
  obtain ⟨block, atBlock, running, there⟩ | ⟨_, _, _, refused⟩ := effect_cases op code
  · cases there.symm.trans ran
    exact ⟨block, atBlock, running, rfl⟩
  · cases refused.symm.trans ran

/-- A new block belongs to the function of the block at the cursor. -/
theorem newBlock_ok {label : String} (ran : newBlock label code = .ok block code') :
    ∃ at_ data, code.cursor = some at_ ∧ code.block? at_ = some data ∧
      block = ⟨code.blocks.size⟩ ∧ code' = (code.appendBlock data.func label).2 := by
  cases found : code.cursor.bind code.block? with
  | none => cases (newBlock_of_absent found).symm.trans ran
  | some data =>
    obtain ⟨at_, atBlock, present⟩ := Option.bind_eq_some_iff.mp found
    cases (newBlock_of_present atBlock present).symm.trans ran
    exact ⟨at_, data, atBlock, present, rfl, rfl⟩

end Emit

namespace JoinPoint

variable {join join' : JoinPoint} {code code' : Recording} {v : ValueId} {ty : Ty}

/-- A path that ends in a join point: it contributes nothing if it has already left its block or
produces no value, and otherwise branches to the exit, which is new for the first path. -/
theorem add_ok (ran : join.add v ty code = .ok join' code') :
    ((code.isTerminated = true ∨ ty.isNoReturn = true) ∧ join' = join ∧ code' = code) ∨
      (code.isTerminated = false ∧ ty.isNoReturn = false) ∧ ∃ block v' code1,
        code.cursor = some block ∧ code.terminator? block = none ∧ (v' = v ∧ code1 = code ∨
          v' = ⟨code.values.size⟩ ∧ code1 = code.written block (.convert v ty join.ty)) ∧
        ((∃ exit, join.exit = some exit ∧ code' = code1.written block (.br exit) ∧
            join' = join.reached exit (v', block)) ∨
          join.exit = none ∧ ∃ data, code1.block? block = some data ∧
            code' = (code1.appendBlock data.func "merge").2.written block
              (.br ⟨code1.blocks.size⟩) ∧
            join' = join.reached ⟨code1.blocks.size⟩ (v', block)) := by
  by_cases left : code.isTerminated = true ∨ ty.isNoReturn = true
  · rw [add_of_left left] at ran
    cases ran
    exact .inl ⟨left, rfl, rfl⟩
  · obtain ⟨running, returns⟩ := not_or.mp left
    replace returns := Bool.eq_false_iff.mpr returns
    refine .inr ⟨⟨Bool.eq_false_iff.mpr running, returns⟩, ?_⟩
    cases atBlock : code.cursor with
    | none =>
      rw [add_of_nowhere atBlock returns] at ran
      cases ran
    | some block =>
      have still : code.terminator? block = none := by
        rw [Recording.isTerminated, atBlock] at running
        exact Option.not_isSome_iff_eq_none.mp running
      rw [add_run atBlock still returns] at ran
      obtain ⟨⟨exit, _⟩, _, opened, ran⟩ := bind_ok ran
      obtain ⟨_, _, branched, ran⟩ := bind_ok ran
      cases ran
      obtain ⟨_, there, _, rfl⟩ := effect_ok branched
      refine ⟨block, _, _, rfl, still, (join.handed_cases code block v ty).imp Prod.ext_iff.mp
        Prod.ext_iff.mp, ?_⟩
      have here := (join.handed_cursor code block v ty).trans atBlock
      unfold openExit at opened
      rw [taking_exit] at opened
      cases exits : join.exit with
      | some exit' =>
        rw [exits] at opened
        cases opened
        obtain rfl := Option.mem_unique here there
        refine .inl ⟨exit, rfl, rfl, ?_⟩
        rw [← taking_reached, ← exits, ← taking_exit]
      | none =>
        rw [exits] at opened
        obtain ⟨_, _, made, opened⟩ := bind_ok opened
        cases opened
        obtain ⟨_, data, before, present, rfl, rfl⟩ := newBlock_ok made
        obtain rfl := Option.mem_unique here before
        obtain rfl := Option.mem_unique here there
        exact .inr ⟨rfl, data, present, rfl, taking_reached _ _⟩

/-- A join point that is closed: without exit, control ends here; at the exit, the value is a phi
over the paths or the `nil` placeholder. -/
theorem close_ok (ran : join.close code = .ok result code') :
    (join.exit = none ∧ result = none ∧ (code.isTerminated = true ∧ code' = code ∨
        ∃ block, code.cursor = some block ∧ code.terminator? block = none ∧
          code' = code.written block .unreachable)) ∨
      ∃ exit, join.exit = some exit ∧ result = some ⟨code.values.size⟩ ∧
        (join.materializes = true ∧ code' = join.entered code exit ∨
          join.materializes = false ∧ code' = ((join.entered code exit).addConstant .nil).2) := by
  unfold close at ran
  cases exits : join.exit with
  | none =>
    rw [exits] at ran
    obtain ⟨_, mid, here, ran⟩ := bind_ok ran
    cases here
    split at ran
    · rename_i ended
      cases ran
      exact .inl ⟨rfl, rfl, .inl ⟨ended, rfl⟩⟩
    · obtain ⟨_, mid, stopped, ran⟩ := bind_ok ran
      cases ran
      obtain ⟨block, atBlock, running, rfl⟩ := effect_ok stopped
      exact .inl ⟨rfl, rfl, .inr ⟨block, atBlock, running, rfl⟩⟩
  | some exit =>
    rw [exits] at ran
    obtain ⟨_, mid, moved, ran⟩ := bind_ok ran
    cases moved
    refine .inr ⟨exit, rfl, ?_⟩
    split at ran
    · rename_i materializes
      obtain ⟨v, mid, phi, ran⟩ := bind_ok ran
      cases ran
      obtain ⟨_, atBlock, _, result, rfl⟩ := value_ok phi
      cases atBlock
      refine ⟨result.symm, .inl ⟨materializes, ?_⟩⟩
      rw [entered, if_pos materializes]
    · rename_i unneeded
      obtain ⟨_, _, nil, ran⟩ := bind_ok ran
      cases nil
      cases ran
      refine ⟨rfl, .inr ⟨Bool.eq_false_iff.mpr unneeded, ?_⟩⟩
      rw [entered, if_neg unneeded]
      rfl

end JoinPoint

/-! ## Lowering -/

namespace Lower

variable {α β : Type} {env : Env} {s s' : LowerState} {act : Lower α} {a : α}

theorem bind_ok {next : α → Lower β} {b : β} (ran : (act >>= next) env s = .ok b s') :
    ∃ a mid, act env s = .ok a mid ∧ next a env mid = .ok b s' := by
  change EStateM.bind (act env) (fun a => next a env) s = _ at ran
  unfold EStateM.bind at ran
  cases found : act env s with
  | ok a mid =>
    rw [found] at ran
    exact ⟨a, mid, rfl, ran⟩
  | error error mid =>
    rw [found] at ran
    cases ran

variable {index : Nat} {u : Unit}

theorem discard_ok (ran : discard act env s = .ok u s') : ∃ a, act env s = .ok a s' := by
  change EStateM.map _ (act env) s = _ at ran
  unfold EStateM.map at ran
  cases found : act env s with
  | ok a mid =>
    rw [found] at ran
    cases ran
    exact ⟨a, rfl⟩
  | error error mid =>
    rw [found] at ran
    cases ran

theorem orFault_ok {value : Option α} {cause : Fault}
    (ran : orFault value cause loc env s = .ok a s') : value = some a ∧ s' = s := by
  cases value with
  | none => cases ran
  | some value =>
    cases ran
    exact ⟨rfl, rfl⟩

theorem record_ok {act : Emit α} (ran : record act env s = .ok a s') :
    ∃ code, act s.code = .ok a code ∧ s' = { s with code := code } := by
  unfold record at ran
  split at ran
  · rename_i recorded
    cases ran
    exact ⟨_, recorded, rfl⟩
  · cases ran

theorem emit_ok {op : Operation} {v : ValueId} (ran : emit op env s = .ok v s') :
    ∃ block, s.code.cursor = some block ∧ s.code.terminator? block = none ∧
      s.code.resultOf op = some v ∧ s' = { s with code := s.code.written block op } := by
  obtain ⟨_, recorded, rfl⟩ := record_ok ran
  obtain ⟨block, atBlock, running, result, rfl⟩ := value_ok recorded
  exact ⟨block, atBlock, running, result, rfl⟩

theorem record_of_ok {act : Emit α} {code : Recording} (recorded : act s.code = .ok a code) :
    record act env s = .ok a { s with code := code } := by
  unfold record
  rw [recorded]

theorem around_ok {enter leave : Context → Context} (ran : around enter leave act env s = .ok a s') :
    ∃ mid, act env { s with context := enter s.context } = .ok a mid ∧
      s' = { mid with context := leave mid.context } := by
  unfold around at ran
  split at ran
  · rename_i succeeded
    cases ran
    exact ⟨_, succeeded, rfl⟩
  · cases ran

theorem withContext_run {inner : Context} : withContext inner act env s =
    around (fun _ => inner) (fun _ => s.context) act env s := rfl

theorem withContext_ok {inner : Context} (ran : withContext inner act env s = .ok a s') :
    ∃ mid, act env { s with context := inner } = .ok a mid ∧
      s' = { mid with context := s.context } := by
  rw [withContext_run] at ran
  exact around_ok ran

theorem returningTo_ok (ran : returningTo (some block) act env s = .ok a s') :
    ∃ mid, act env s = .ok a mid ∧ s' = { mid with code := mid.code.position block } := by
  unfold returningTo at ran
  dsimp only at ran
  split at ran
  · rename_i succeeded
    cases ran
    exact ⟨_, succeeded, rfl⟩
  · cases ran

/-- A callee is called. One that raises under a handler is invoked, and control goes on in a new block. -/
theorem callOrInvoke_ok {func : FuncId} {args : List ValueId} {defn : Definition}
    {conv : Option CallConv} {v : ValueId} (ran : callOrInvoke func args defn conv env s = .ok v s') :
    ((if defn.raises then s.context.handlers.head? else none) = none ∧
        emit (.call func args conv) env s = .ok v s') ∨
      ∃ handler normal s1 s2, (if defn.raises then s.context.handlers.head? else none) = some handler ∧
        newBlock "invoke_out" env s = .ok normal s1 ∧
        emit (.invoke func args normal handler conv) env s1 = .ok v s2 ∧
        s' = { s2 with code := s2.code.position normal } := by
  unfold callOrInvoke at ran
  obtain ⟨_, _, here, ran⟩ := bind_ok ran
  cases here
  cases handled : s.context.handlers.head? with
  | none =>
    rw [handled] at ran
    exact .inl ⟨ite_self _, ran⟩
  | some handler =>
    rw [handled] at ran
    dsimp only at ran
    split at ran
    · rename_i raises
      obtain ⟨normal, s1, opened, ran⟩ := bind_ok ran
      obtain ⟨_, s2, invoked, ran⟩ := bind_ok ran
      obtain ⟨_, _, moved, ran⟩ := bind_ok ran
      cases moved
      cases ran
      exact .inr ⟨handler, normal, s1, s2, if_pos raises, opened, invoked, rfl⟩
    · exact .inl ⟨if_neg ‹_›, ran⟩

theorem addToJoin_ok {value : ValueId} {ty : Ty} (ran : addToJoin index value ty env s = .ok u s') :
    ∃ join join' code, s.joins[index]? = some join ∧
      join.add value ty s.code = .ok join' code ∧
      s' = { s with code := code, joins := s.joins.setIfInBounds index join' } := by
  unfold addToJoin at ran
  obtain ⟨_, mid, here, ran⟩ := bind_ok ran
  cases here
  cases opened : s.joins[index]? with
  | none =>
    rw [opened] at ran
    cases ran
  | some join =>
    rw [opened] at ran
    obtain ⟨join', _, recorded, ran⟩ := bind_ok ran
    obtain ⟨code, added, rfl⟩ := record_ok recorded
    cases ran
    exact ⟨join, join', code, rfl, added, rfl⟩

theorem closeJoin_ok (ran : closeJoin index env s = .ok result s') :
    ∃ join joins code, s.joins = joins.push join ∧ index = joins.size ∧
      join.close s.code = .ok result code ∧ s' = { s with code := code, joins := joins } := by
  unfold closeJoin at ran
  obtain ⟨state, mid, here, ran⟩ := bind_ok ran
  cases here
  split at ran
  · cases ran
  · rename_i last
    obtain ⟨_, mid, here, ran⟩ := bind_ok ran
    cases here
    cases back : s.joins.back? with
    | none =>
      rw [back] at ran
      cases ran
    | some join =>
      rw [back] at ran
      obtain ⟨_, _, popped, ran⟩ := bind_ok ran
      cases popped
      obtain ⟨code, closed, rfl⟩ := record_ok ran
      obtain ⟨joins, pushed⟩ := Array.back?_eq_some_iff.mp back
      rw [pushed, Array.size_push, ne_eq, Nat.add_right_cancel_iff, Decidable.not_not] at last
      obtain rfl : joins = s.joins.pop := by rw [pushed, Array.pop_push]
      exact ⟨join, s.joins.pop, code, pushed, last, closed, rfl⟩

end Lower

/-! ## Classifications -/

/-- What is remembered about foreign prototypes, and the answers that stand in for
classifications. -/
structure Memory where
  classified : List (Signature × Classification)
  scripted : List (Except String Classification)

/-- What a state remembers. -/
def LowerState.memory (s : LowerState) : Memory := ⟨s.classified, s.scripted⟩

/-- No answers stand in for classifications, and those remembered are the ones of their
prototypes. -/
structure Memory.Faithful (target : Target) (types : TypeTable) (memory : Memory) : Prop where
  unscripted : memory.scripted = []
  known : ∀ entry ∈ memory.classified, entry.2 = entry.1.classify target types

/-- What a state remembers is what an environment answers. -/
abbrev LowerState.Remembers (s : LowerState) (env : Env) : Prop :=
  s.memory.Faithful env.options.target env.program.types

theorem Signature.length_classify (signature : Signature) (target : Target) (types : TypeTable) :
    (signature.classify target types).args.length = signature.params.length :=
  List.length_map _

namespace Lower

variable {α β : Type} {env : Env} {s t : LowerState} {act : Lower α} {a : α} {error : LowerError}
  {signature : Signature}

theorem bind_of_ok {next : α → Lower β} (ran : act env s = .ok a t) :
    (act >>= next) env s = next a env t := by
  change EStateM.bind (act env) _ s = _
  unfold EStateM.bind
  rw [ran]

theorem bind_of_error {next : α → Lower β} (ran : act env s = .error error t) :
    (act >>= next) env s = .error error t := by
  change EStateM.bind (act env) _ s = _
  unfold EStateM.bind
  rw [ran]

theorem get_run (env : Env) (s : LowerState) : (get : Lower LowerState) env s = .ok s s := rfl

theorem classify_run (unscripted : s.scripted = []) :
    classify signature env s = .ok (s.code.classify signature) s := by
  refine (bind_of_ok (get_run env s)).trans ?_
  rw [unscripted]
  rfl

theorem classifyAfresh_run {defn : Definition} (unscripted : s.scripted = []) :
    classifyAfresh defn signature loc env s = .ok (s.code.classify signature)
      (if env.options.memoizeAbi then
        { s with classified := (signature, s.code.classify signature) :: s.classified }
      else s) := by
  refine (bind_of_ok (classify_run unscripted)).trans ?_
  have counted : (s.code.classify signature).args.length = signature.params.length :=
    signature.length_classify _ _
  rw [if_neg (not_not.mpr counted)]
  change (if env.options.memoizeAbi then _ else _ : Lower Classification) env s = _
  split <;> rfl

/-- A faithful memory answers the classification of the prototype, and stays faithful. -/
theorem classification_run {target : Target} {types : TypeTable} (env : Env) (defn : Definition)
    (tail : List Ty) (loc : Location) (faithful : s.memory.Faithful target types) (atTarget : s.code.target = target)
    (ofTypes : s.code.types = types) :
    ∃ classified events, classification defn tail loc env s =
        .ok (Signature.classify target types ⟨defn.params.map (·.ty) ++ tail, defn.ret⟩)
          { s with classified := classified, events := events } ∧
      Memory.Faithful target types ⟨classified, s.scripted⟩ := by
  have afresh : ∀ signature, ∃ classified events, classifyAfresh defn signature loc env s =
      .ok (signature.classify target types) { s with classified := classified, events := events } ∧
      Memory.Faithful target types ⟨classified, s.scripted⟩ := by
    intro signature
    rw [classifyAfresh_run faithful.unscripted, Recording.classify, atTarget, ofTypes]
    split
    · refine ⟨_, s.events, rfl, faithful.unscripted, ?_⟩
      exact List.forall_mem_cons.mpr ⟨rfl, faithful.known⟩
    · exact ⟨s.classified, s.events, rfl, faithful⟩
  unfold classification
  change ∃ classified events, (if env.options.memoizeAbi then _ else _ : Lower Classification) env s =
    _ ∧ _
  split
  · rw [bind_of_ok (get_run env s)]
    cases found : s.classified.lookup (⟨defn.params.map (·.ty) ++ tail, defn.ret⟩ : Signature) with
    | some known =>
      obtain ⟨before, _, split, _⟩ := List.lookup_eq_some_iff.mp found
      have member : (_, known) ∈ s.classified := split ▸ List.mem_append_right before List.mem_cons_self
      refine ⟨s.classified, s.events.push (.memoHit defn.name), ?_, faithful⟩
      rw [← faithful.known _ member]
      rfl
    | none => exact afresh _
  · exact afresh _

end Lower

end CallLowering
