import CallLowering.Proofs.Operands

/-!
# Trying candidates

The candidates of a call are tried one after the other. A walk goes through the guards up to that of
the first candidate that passes its tests, calls this one and leaves the dispatch
(`tryCandidates_reaches`); where there is none it comes to an end (`lowerDispatch_reaches`).
-/

namespace CallLowering

open Recording Evaluation

/-! ## What trying comes to -/

namespace Observed

variable (types : TypeTable) (observed : Observed)

/-- What trying candidates comes to: the chosen one is called, and control then leaves the frame of
the dispatch, unless the candidate does not return. -/
def trial (frame : Nat) (candidates : List Definition) : Run :=
  match observed.chosen? types candidates with
  | some candidate =>
    ⟨[candidate.symbol], if candidate.ret.isNoReturn then .halts else .leaves frame⟩
  | none => ⟨[], .continues⟩

/-- What a dispatch comes to: the chosen candidate is called, and control goes on if it returns. -/
def decision (candidates : List Definition) : Run :=
  match observed.chosen? types candidates with
  | some candidate => ⟨[candidate.symbol], exitOf candidate⟩
  | none => ⟨[], .halts⟩

variable {types observed} {frame : Nat} {candidate : Definition} {candidates : List Definition}

theorem decision_calls : (observed.decision types candidates).calls =
      (observed.chosen? types candidates).toList.map Definition.symbol := by
  unfold decision
  cases observed.chosen? types candidates <;> rfl

theorem trial_of_accepts (accepted : observed.accepts types candidate = true) :
    observed.trial types frame (candidate :: candidates) = ⟨[candidate.symbol],
      if candidate.ret.isNoReturn then .halts else .leaves frame⟩ := by
  rw [trial, chosen?, List.find?_cons_of_pos accepted]

theorem trial_of_rejects (rejected : observed.accepts types candidate = false) :
    observed.trial types frame (candidate :: candidates) = observed.trial types frame candidates := by
  rw [trial, chosen?, List.find?_cons_of_neg (Bool.not_eq_true _ ▸ rejected)]
  rfl

end Observed

/-- A place where the trial of candidates has ended up: where it halts, control cannot get on. -/
def Site.StopsAt (site : Site) (fin : Recording) : Exit → Spot → Prop
  | .halts, spot => ∃ result, fin.instructionAt? spot = some ⟨result, .unreachable⟩
  | exit, spot => site.ExitAt fin exit spot

variable {code : Recording} {spot : Spot} {fin : Recording} {site site' : Site} {walk : Walk}
  {known' : Known}

/-- Exits that are kept are still reached. -/
theorem Site.StopsAt.keeps {exit : Exit} (stops : site.StopsAt fin exit spot)
    (leaves : exit ≠ .continues) (kept : KeepsExits (fun _ => False) site.joins site'.joins) :
    site'.StopsAt fin exit spot := by
  cases exit with
  | continues => exact absurd rfl leaves
  | halts => exact stops
  | leaves frame =>
    obtain ⟨start, point, opened, out⟩ := stops
    exact ⟨start, kept frame point _ id opened out⟩

/-- A walk from a place gets to where a run ends up, makes the calls of the run and some tests, and
enters a limited number of blocks. -/
inductive Walk.Reaches (walk : Walk) (code fin : Recording) (spot : Spot) (site : Site) (run : Run)
    (tests : List (Ty × Bool)) (limit : Nat) : Prop where
  | intro {spot' : Spot} {walk' : Walk} {entered : List BlockId}
      (stops : site.StopsAt fin run.exit spot') (stretch : Stretch fin spot walk entered spot' walk')
      (since : Walk.Since code run.calls tests walk walk') (bound : entered.length ≤ limit)

/-- Code of one block stays where the cursor is. -/
theorem Builds.cursor_of_flat {rules : Rules} {r : Region} {effect : Effect} {known : Known}
    (built : Builds rules r effect known site known' site') (flat : rules.flat) :
    site'.code.cursor = site.code.cursor := by
  induction built with
  | refl | dead | constant | write => rfl
  | trans _ _ ihFirst ihSecond => exact ihSecond.trans ihFirst
  | untraced _ _ ih => exact ih
  | global => exact addGlobal_cursor
  | declare => exact declare_cursor
  | invoke layered | land layered | arrive layered | unreached layered | reached layered
  | handle layered | branch layered | closure layered => exact absurd flat layered

theorem Stretch.block_eq {spot' : Spot} {walk' : Walk}
    (stretch : Stretch code spot walk [] spot' walk') : spot'.block = spot.block := by
  generalize none : ([] : List BlockId) = entered at stretch
  induction stretch with
  | refl => rfl
  | next _ _ _ ih => exact ih none
  | goto => cases none

/-- A terminator found in a block that had ended is the one it had ended with. -/
theorem Recording.Proper.op_eq (proper : fin.Proper) (later : code.Extends fin) {op : Operation}
    {instruction : Instruction} (ends : code.terminator? spot.block = some op)
    (ended : op.isTerminator = true) (found : fin.instructionAt? spot = some instruction)
    (terminator : instruction.op.isTerminator = true) : instruction.op = op := by
  obtain ⟨_, member, rfl⟩ := exists_of_terminator? ends
  have last := proper.terminator?_of_mem ((later.instructionsOf _).subset member) ended
  exact Option.some.inj
    ((proper.terminator?_of_mem (List.mem_of_getElem? found) terminator).symm.trans last)

namespace Lower

variable {env : Env} {fin : Recording} {σ : Setting} {known : Known} {s s' : LowerState}
  {depth : Nat} {spot : Spot} {call : Call} {defn : Definition} {receiver : Option DispatchReceiver}
  {args : List DispatchArg} {join : Nat} {calls : List (List String)} {defns : List Definition}
  {observed : Observed} {program : Program} {u : Unit} {v : ValueId} {walk : Walk}
  {outcome : CallOutcome} {concretes : List (Option Ty)} {s1 : LowerState} {found : Option Ty}
  {code' : Recording}

/-- A path that ends in a join point leads to its exit. -/
theorem addToJoin_stretch {ty : Ty} (ran : addToJoin join v ty env s = .ok u s')
    (opened : s.code.OpenAt spot) (returns : ty.isNoReturn = false) (later : s'.code.Extends fin)
    (walk : Walk) : ∃ exit, Stretch fin spot walk [exit] ⟨exit, 0⟩ walk ∧
      Site.ExitAt ⟨code', s'.joins⟩ fin (.leaves join) ⟨exit, 0⟩ := by
  obtain ⟨_, _, _, found, added, rfl⟩ := addToJoin_ok ran
  have small := (Array.getElem?_eq_some_iff.mp found).1
  obtain ⟨skipped, _⟩ | ⟨_, _, _, code1, atBlock, _, converted, branched⟩ :=
    JoinPoint.add_ok added
  · rw [opened.isTerminated, returns] at skipped
    simp at skipped
  · obtain rfl := Option.mem_unique atBlock opened.cursor
    have convert : code1.Extends fin → ∃ i, code1.OpenAt ⟨spot.block, i⟩ ∧
        Stretch fin spot walk [] ⟨spot.block, i⟩ walk := by
      intro later1
      obtain ⟨rfl, rfl⟩ | ⟨rfl, rfl⟩ := converted
      · exact ⟨spot.index, opened, .refl⟩
      · exact ⟨_, opened.written rfl, .next (opened.found later1) rfl .refl⟩
    obtain ⟨exit, _, rfl, rfl⟩ | ⟨_, _, _, rfl, rfl⟩ := branched
    · obtain ⟨i, opened1, stretch⟩ := convert ((extends_written _ _).trans later)
      exact ⟨exit, stretch.trans (.goto (opened1.found later) rfl .refl), rfl, _,
        Array.getElem?_setIfInBounds_self_of_lt small, rfl⟩
    · obtain ⟨_, opened1, stretch⟩ := convert
        ((extends_appendBlock _ _).trans ((extends_written _ _).trans later))
      exact ⟨_, stretch.trans (.goto (opened1.appendBlock.found later) rfl .refl), rfl, _,
        Array.getElem?_setIfInBounds_self_of_lt small, rfl⟩

/-- A walk that starts in the branch of a candidate calls the candidate and leaves the dispatch. -/
theorem called_reaches {candidate : Call} (settled : σ.entering = false)
    (ready : Ready (.ofOperands env True) σ known s)
    (callReady : (Scenario.ofOperands env True).CallReady σ candidate defn)
    (unsubstituted : defn.isSubstituted = false)
    (makes : (single (within env.program depth) σ.context.activation σ.frames candidate defn).AtMost ⟨[defn.symbol], exitOf defn⟩)
    (called : lowerSingle (lowerExprWithin depth) candidate defn env s = .ok outcome s1)
    (added : addToJoin join outcome.value outcome.ty env s1 = .ok u s') (proper : fin.Proper)
    (later1 : s1.code.Extends fin) (later : s'.code.Extends fin) (opened : s.code.OpenAt spot)
    (walk : Walk) :
    walk.Reaches s.code fin spot ⟨code', s'.joins⟩ ⟨[defn.symbol],
      if defn.ret.isNoReturn then .halts else .leaves join⟩ [] 1 := by
  obtain ⟨_, lowers, _, returned⟩ :=
    lowerSingle_does (lowerExprWithin_handles (.ofOperands env True) depth) settled callReady ready
      outcome s1 called
  obtain ⟨run, spot1, _, evaluated, exits, straight, stretch⟩ :=
    lowers.builds.simulates trivial (absurd trivial) ready.valid later1 opened
  obtain rfl := makes run evaluated
  obtain rfl := straight trivial
  unfold exitOf at exits
  split at exits
  · rename_i never
    -- the block was ended after the call
    obtain ⟨instruction, found, terminator, _⟩ := exits
    obtain ⟨_, here, ends⟩ := returned.stops trivial unsubstituted never
    have cursor : s1.code.cursor = s.code.cursor := lowers.builds.cursor_of_flat trivial
    have same : spot1.block = spot.block := (stretch walk).block_eq
    rw [cursor, opened.cursor, ← same] at here
    cases here
    have unreachable := proper.op_eq later1 ends rfl found terminator
    rw [if_pos never]
    have stops : fin.instructionAt? spot1 = some ⟨instruction.result, .unreachable⟩ := by
      rw [found, ← unreachable]
    exact .intro ⟨_, stops⟩ (stretch walk) (.calling _) (Nat.zero_le _)
  · rename_i returns
    rw [if_neg returns]
    have returns := Bool.eq_false_iff.mpr returns
    obtain ⟨_, leaves, exits'⟩ := addToJoin_stretch added exits
      ((returned.ty trivial returns).symm ▸ returns) later (walk.calling [defn.symbol])
    exact .intro exits' ((stretch walk).trans leaves) (.calling _) (Nat.le_refl _)

theorem rebindArgs_free {params : List Param} (reads : ∀ arg ∈ args, ∃ name, arg.expr.kind = .var name) :
    ∀ expr ∈ rebindArgs args params, expr.kind.isSideEffectFree = true := by
  have free : ∀ {expr : Expr}, (∃ name, expr.kind = .var name) → expr.kind.isSideEffectFree = true := by
    rintro expr ⟨name, kind⟩
    rw [kind]
    rfl
  induction args generalizing params with
  | nil => exact List.forall_mem_nil _
  | cons arg args ih =>
    obtain ⟨first, rest⟩ := List.forall_mem_cons.mp reads
    cases params with
    | nil => exact List.forall_mem_cons.mpr ⟨free first, ih rest⟩
    | cons param params =>
      refine List.forall_mem_cons.mpr ⟨?_, ih rest⟩
      split
      · exact free first
      · exact free first

/-- The operands of a dispatch are in hidden variables. -/
structure Hidden (env : Env) (σ : Setting) (known : Known) (s : LowerState) (call : Call)
    (receiver : Option DispatchReceiver) (args : List DispatchArg) : Prop where
  received : ∀ found ∈ receiver, found.Readable σ known s
  passed : ∀ arg ∈ args, arg.Readable (.ofOperands env False) σ known s
  reads : ∀ arg ∈ args, ∃ name, arg.expr.kind = .var name
  sized : args.length = call.args.length
  blockless : call.block = none

/-- A candidate is called with a function of its own, and its defaults are read at once. -/
structure Suitable (program : Program) (call : Call) (defn : Definition) : Prop where
  member : defn ∈ program.defs
  called : defn.isSubstituted = false
  defaults : ∀ value ∈ defn.omitted call.args.length, value.kind.isSideEffectFree = true

variable {single : Prop}

section

variable (hidden : Hidden env σ known s call receiver args)

include hidden

theorem Hidden.later (later : Later known s known' s') :
    Hidden env σ known' s' call receiver args where
  __ := hidden
  received found given := (hidden.received found given).mono σ rfl subset_rfl later
  passed arg member := (hidden.passed arg member).mono σ rfl subset_rfl later

variable (suitable : Suitable env.program call defn)

include suitable

/-- The call of a candidate reads hidden variables only. -/
theorem Hidden.callReady :
    (Scenario.ofOperands env single).CallReady σ (candidateCall call receiver args defn) defn where
  member := suitable.member
  obj obj given := by
    obtain ⟨found, present, rfl⟩ := Option.map_eq_some_iff.mp given
    exact .inr ⟨found.name, (hidden.received found present).name, rfl⟩
  args := rebindArgs_lowerable fun arg member =>
    ⟨(hidden.passed arg member).expr, (hidden.passed arg member).tag⟩
  default _ value omitted := by
    rw [candidateCall, rebindArgs_length, hidden.sized] at omitted
    exact ⟨[], .read (suitable.defaults value omitted)⟩
  block block given := by
    cases hidden.blockless.symm.trans given
  body passes := by
    rw [candidateCall, hidden.blockless] at passes
    cases passes
  noReturn isSealed := isSealed.elim
  flat _ := hidden.blockless

/-- The call of a candidate is the call of its function alone. -/
theorem Hidden.makes {activation : Activation} {frames : Nat} :
    (Evaluation.single (within env.program depth) activation frames
      (candidateCall call receiver args defn) defn).AtMost
      ⟨[defn.symbol], exitOf defn⟩ := by
  refine single_of_free hidden.blockless suitable.called ?_ ?_ ?_
  · intro obj given
    obtain ⟨_, _, rfl⟩ := Option.map_eq_some_iff.mp given
    rfl
  · exact rebindArgs_free hidden.reads
  · rw [candidateCall, rebindArgs_length, hidden.sized]
    exact suitable.defaults

end

theorem Hidden.tries (hidden : Hidden env σ known s call receiver args) (settled : σ.entering = false)
    (inside : σ.region.base ≤ join) (suitable : ∀ defn ∈ defns, Suitable env.program call defn) :
    Does (.ofOperands env False) σ 1 known s
      (defns.forM (tryCandidate (lowerExprWithin depth) call receiver args join))
      fun _ _ _ => True := by
  induction defns generalizing known s with
  | nil => exact .pure trivial
  | cons defn defns ih =>
    obtain ⟨fits, others⟩ := List.forall_mem_cons.mp suitable
    refine .silently (tryCandidate_does hidden.received hidden.passed id
      (lowerExprWithin_handles _ depth) id settled inside (hidden.callReady fits) False.elim) ?_
    intro _ _ _ later _
    exact ih (hidden.later later) others

section

variable (outermost : Outermost σ) (settled : σ.entering = false) (inside : σ.region.base ≤ join)
  (ready : Ready (.ofOperands env False) σ known s)
  (hidden : Hidden env σ known s call receiver args) (proper : fin.Proper)
  (opened : s.code.OpenAt spot) (receiverFinds : walk.Finds s.code (receiver.bind (·.tag)) found)
  (finds : walk.FindsArgs s.code args concretes)
  (isObserved : observed = ⟨if call.isSuper then none else found, concretes⟩)

include outermost settled inside ready hidden proper opened receiverFinds finds isObserved

theorem tryCandidate_reaches (suitable : Suitable env.program call defn)
    (ran : tryCandidate (lowerExprWithin depth) call receiver args join defn env s = .ok u s')
    (later : s'.code.Extends fin) :
    (observed.accepts s.code.types defn = true →
      walk.Reaches s.code fin spot ⟨s'.code, s'.joins⟩ ⟨[defn.symbol],
        if defn.ret.isNoReturn then .halts else .leaves join⟩
        (observed.tests s.code.types defn) 2) ∧
      (observed.accepts s.code.types defn = false →
        walk.Reaches s.code fin spot ⟨s'.code, s'.joins⟩ ⟨[], .continues⟩
          (observed.tests s.code.types defn) 1) := by
  unfold tryCandidate at ran
  obtain ⟨cond, s1, guarded, ran1⟩ := bind_ok ran
  obtain ⟨walk1, passes, decided⟩ :=
    guardOf_passes guarded receiverFinds finds observed isObserved
  have guards : Does (.ofOperands env False) σ 1 known s (guardOf call receiver args defn) _ :=
    guardOf_does hidden.received hidden.passed id
  obtain ⟨known1, lowers1, context1, _⟩ := guards ready cond s1 guarded
  have ready₁ := ready.after lowers1 context1
  obtain ⟨block, atBlock, running, ran2⟩ := branch_ok ready₁.valid ran1
  have branched : Ready (.ofOperands env False) σ known1
      { s1 with code := s1.code.branched σ.region.func block cond } :=
    ready₁.withCode (frame_branched atBlock running).later
      (ready₁.valid.branched atBlock running)
  obtain ⟨outcome, s2, called, ran3⟩ := bind_ok ran2
  obtain ⟨_, s3, added, ran4⟩ := bind_ok ran3
  cases ran4
  obtain ⟨_, lowers2, _, returned⟩ :=
    lowerSingle_does (lowerExprWithin_handles (.ofOperands env False) depth) settled
      (hidden.callReady suitable) branched outcome s2 called
  obtain ⟨_, lowers3, _⟩ := Lowers.addToJoin added id (lowers2.builds.valid branched.valid)
    inside returned.avail False.elim
  have advance := (lowers2.builds.trans lowers3.builds).advance branched.valid.based
  have later3 : s3.code.Extends fin := (extends_position _).trans later
  have later2 : s2.code.Extends fin :=
    (lowers3.later (lowers2.builds.valid branched.valid)).trans later3
  have later1 : (s1.code.branched σ.region.func block cond).Extends fin :=
    (lowers2.later branched.valid).trans later2
  -- the walk goes through the guard and on to the branch
  obtain ⟨spot1, opened1, stretch1⟩ := passes.stretch fin
    ((frame_branched atBlock running).later.trans later1) spot opened
  obtain rfl := Option.mem_unique atBlock opened1.cursor
  have found := opened1.appendBlock.appendBlock.found ((extends_position _).trans later1)
  have decided := decided fin ((frame_branched atBlock running).later.trans later1)
  constructor
  · intro accepted
    rw [accepted] at decided
    have current : (s1.code.branched σ.region.func spot1.block cond).OpenAt
        ⟨⟨s1.code.blocks.size⟩, 0⟩ := .of_empty rfl (ready₁.valid.branched_current atBlock)
    obtain ⟨stops, stretch, since, bound⟩ := called_reaches settled
      (outermost.ready True branched) (hidden.callReady suitable) suitable.called
      (hidden.makes suitable) called added proper later2 later3 current walk1
    have since := passes.since.trans
      (passes.later.trans (frame_branched atBlock running).later) since
    rw [List.nil_append, List.append_nil] at since
    exact .intro stops (stretch1.trans (.goto found (Walk.step_condBr decided) stretch)) since
      (Nat.succ_le_succ bound)
  · intro rejected
    rw [rejected] at decided
    have next := ready₁.valid.next_block? atBlock advance
    exact .intro (OpenAt.of_empty rfl next)
      (stretch1.trans (.goto found (Walk.step_condBr decided) .refl)) passes.since (Nat.le_refl _)

/-- A walk tries the candidates in order up to the chosen one. -/
theorem tryCandidates_reaches (suitable : ∀ defn ∈ defns, Suitable env.program call defn)
    (ran : defns.forM (tryCandidate (lowerExprWithin depth) call receiver args join) env s = .ok u s')
    (later : s'.code.Extends fin) :
    walk.Reaches s.code fin spot ⟨s'.code, s'.joins⟩ (observed.trial s.code.types join defns)
      ((observed.tried s.code.types defns).flatMap (observed.tests s.code.types))
      (defns.length + 1) := by
  induction defns generalizing known s spot walk with
  | nil =>
    cases ran
    exact .intro opened .refl .refl (Nat.zero_le _)
  | cons defn defns ih =>
    obtain ⟨fits, others⟩ := List.forall_mem_cons.mp suitable
    obtain ⟨_, s1, tried, ran1⟩ := bind_ok ran
    have tries : Does (.ofOperands env False) σ 1 known s
        (tryCandidate (lowerExprWithin depth) call receiver args join defn) _ :=
      tryCandidate_does hidden.received hidden.passed id (lowerExprWithin_handles _ depth) id settled
        inside (hidden.callReady fits) False.elim
    obtain ⟨_, lowers1, context1, _⟩ := tries ready _ s1 tried
    have ready₁ := ready.after lowers1 context1
    have later1 := lowers1.later ready.valid
    have hidden1 := hidden.later ⟨lowers1.builds.known_subset, later1⟩
    obtain ⟨_, lowers', _⟩ := hidden1.tries settled inside others ready₁ _ s' ran1
    have advance := lowers'.builds.advance ready₁.valid.based
    obtain ⟨accepts, rejects⟩ := tryCandidate_reaches outermost settled inside ready hidden
      proper opened receiverFinds finds isObserved fits tried (advance.code.later.trans later)
    cases verdict : observed.accepts s.code.types defn with
    | true =>
      obtain ⟨stops, stretch, since, _⟩ := accepts verdict
      rw [Observed.trial_of_accepts verdict, Observed.tried, if_pos verdict, List.flatMap_singleton]
      refine .intro (stops.keeps ?_ advance.joins.keepsExits) stretch since
        (by rw [List.length_cons]; omega)
      dsimp only
      split <;> nofun
    | false =>
      obtain ⟨opened1, stretch1, since1, _⟩ := rejects verdict
      have rejected : ¬observed.accepts s.code.types defn = true := Bool.eq_false_iff.mp verdict
      rw [Observed.trial_of_rejects verdict, Observed.tried, if_neg rejected, List.flatMap_cons]
      obtain ⟨stops, stretch', since', _⟩ := ih ready₁ hidden1 opened1
        (receiverFinds.since later1 since1) (finds.since later1 since1) others ran1
      rw [later1.types] at stops since'
      refine .intro stops (stretch1.trans stretch') (since1.trans later1 since') ?_
      rw [List.length_append, List.length_cons]
      omega

end

/-- A join point that is closed is entered where a path has reached it. -/
theorem closeJoinOrNil_ok (ran : closeJoinOrNil join env s = .ok v s') :
    ∃ (point : JoinPoint) (joins : Array JoinPoint), s.joins = joins.push point ∧
      join = joins.size ∧ s.code.Extends s'.code ∧
      ∀ exit, point.exit = some exit → s'.code = point.entered s.code exit ∨
        s'.code = ((point.entered s.code exit).addConstant .nil).2 := by
  unfold closeJoinOrNil at ran
  obtain ⟨_, _, closed, ran1⟩ := bind_ok ran
  obtain ⟨point, joins, code, pushed, size, closing, rfl⟩ := closeJoin_ok closed
  refine ⟨point, joins, pushed, size, ?_⟩
  obtain ⟨unreached, rfl, ended⟩ | ⟨exit, reached, rfl, entered⟩ := JoinPoint.close_ok closing
  · cases ran1
    have later : s.code.Extends code := by
      obtain ⟨_, rfl⟩ | ⟨_, _, _, rfl⟩ := ended
      · exact .refl _
      · exact extends_written _ _
    refine ⟨later.trans (extends_addConstant _), fun exit reached => ?_⟩
    cases unreached.symm.trans reached
  · cases ran1
    have later := point.extends_entered s.code exit
    obtain ⟨_, rfl⟩ | ⟨_, rfl⟩ := entered
    · refine ⟨later, fun exit' reached' => .inl ?_⟩
      rw [Option.mem_unique reached reached']
    · refine ⟨later.trans (extends_addConstant _), fun _ reached' => .inr ?_⟩
      rw [Option.mem_unique reached reached']

theorem candidates_eq (targets : call.targets.map program.target? = defns.map some) :
    program.candidates call = defns := by
  have same : ((call.targets.map program.target?).filterMap id) = (defns.map some).filterMap id :=
    congrArg _ targets
  rwa [List.filterMap_map, List.filterMap_map, Function.id_comp, Function.id_comp,
    List.filterMap_some] at same

/-- The operands of a call are its receiver and its arguments. -/
theorem operands_split
    (operands : List.Forall₂ program.Operand (call.obj.toList ++ call.args) calls) :
    ∃ receiverCalls argCalls, (∀ obj ∈ call.obj, program.Operand obj receiverCalls) ∧
      (call.obj = none → receiverCalls = []) ∧ List.Forall₂ program.Operand call.args argCalls ∧
      calls.flatten = receiverCalls ++ argCalls.flatten := by
  cases given : call.obj with
  | none =>
    rw [given] at operands
    exact ⟨[], calls, fun obj present => absurd present (Option.not_mem_none obj), fun _ => rfl,
      operands, rfl⟩
  | some obj =>
    rw [given] at operands
    obtain ⟨receiverCalls, argCalls, receives, passes, rfl⟩ := List.forall₂_cons_left_iff.mp operands
    refine ⟨receiverCalls, argCalls, fun _ same => ?_, fun absent => ?_, passes, rfl⟩
    · cases same
      exact receives
    · cases absent

theorem operand_of_mem {exprs : List Expr} (operands : List.Forall₂ program.Operand exprs calls) :
    ∀ expr ∈ exprs, ∃ calls', program.Operand expr calls' := by
  induction operands with
  | nil => exact List.forall_mem_nil _
  | cons operand _ ih => exact List.forall_mem_cons.mpr ⟨⟨_, operand⟩, ih⟩

/-- After the candidates, control cannot get on, and the chosen one goes on behind the dispatch. -/
theorem joinedCandidates_reaches {types : TypeTable} {tests : List (Ty × Bool)} {limit : Nat}
    (valid : Site.Valid σ.region ⟨s.code, s.joins⟩) (inside : σ.region.base ≤ join)
    (stopped : emitEffect .unreachable env s = .ok u s1)
    (closed : closeJoinOrNil join env s1 = .ok v s') (later : s'.code.Extends fin)
    (reaches : walk.Reaches code fin spot ⟨s.code, s.joins⟩ (observed.trial types join defns) tests limit) :
    walk.Reaches code fin spot ⟨s'.code, s'.joins⟩ (observed.decision types defns) tests limit := by
  obtain ⟨_, recorded, rfl⟩ := record_ok stopped
  obtain ⟨block, atBlock, running, rfl⟩ := Emit.effect_ok recorded
  obtain ⟨point, joins, pushed, rfl, later1, entered⟩ := closeJoinOrNil_ok closed
  dsimp only at pushed later1 entered
  obtain @⟨⟨x, i⟩, walk1, entries, stops, stretch, since, bound⟩ := reaches
  unfold Observed.trial at stops since
  unfold Observed.decision
  cases chosen : observed.chosen? types defns with
  | none =>
    rw [chosen] at stops since
    have opened : s.code.OpenAt ⟨x, i⟩ := stops
    obtain rfl := Option.mem_unique atBlock opened.cursor
    exact .intro ⟨_, opened.found (later1.trans later)⟩ stretch since bound
  | some candidate =>
    rw [chosen] at stops since
    dsimp only at stops since ⊢
    unfold exitOf
    by_cases never : candidate.ret.isNoReturn = true
    · rw [if_pos never] at stops ⊢
      exact .intro stops stretch since bound
    · rw [if_neg never] at stops ⊢
      obtain ⟨rfl, _, found, out⟩ := stops
      rw [pushed, Array.getElem?_push_size, Option.some.injEq] at found
      subst found
      have valid1 : Site.Valid σ.region ⟨s.code.written block .unreachable, s.joins⟩ :=
        valid.written atBlock running (List.forall_mem_nil _)
      rw [pushed] at valid1
      obtain ⟨goesOn, opens⟩ : (point.entered (s.code.written block .unreachable) x).Extends s'.code ∧
          ∀ spot', (point.entered (s.code.written block .unreachable) x).OpenAt spot' →
            s'.code.OpenAt spot' := by
        obtain same | same := entered x out
        · rw [same]
          exact ⟨.refl _, fun _ opened => opened⟩
        · rw [same]
          exact ⟨extends_addConstant _, fun _ opened => opened.of_block? rfl rfl⟩
      have enters : Simulates (Scenario.ofOperands env True).toRules fin 1 ⟨x, 0⟩
          ⟨point.entered (s.code.written block .unreachable) x, joins⟩ :=
        .entered valid1 inside out (goesOn.trans later)
      obtain ⟨_, spot', _, evaluated, exits, straight, stretch'⟩ := enters
      cases evaluated
      obtain rfl := straight trivial
      have behind := stretch' walk1
      rw [Walk.calling_nil] at behind
      refine .intro (opens spot' exits) (stretch.trans behind) since ?_
      rwa [List.append_nil]

/-- A walk through a dispatch evaluates the operands and makes the decision. -/
theorem lowerDispatch_reaches {self : Ty} (outermost : Outermost σ) (settled : σ.entering = false)
    (ready : Ready (.ofOperands env False) σ known s) (scopeless : σ.context.withScope = none)
    (isSelf : ∀ binding ∈ σ.context.selfBinding, binding.ty = self) (blockless : call.block = none)
    (operands : List.Forall₂ env.program.Operand (call.obj.toList ++ call.args) calls)
    (suitable : ∀ defn ∈ env.program.candidates call, Suitable env.program call defn)
    (ran : lowerDispatch (lowerExprWithin depth) call env s = .ok outcome s') (proper : fin.Proper)
    (later : s'.code.Extends fin) (opened : s.code.OpenAt spot)
    (isObserved : observed = call.observed self (env.program.candidates call) walk.assumed) :
    s.code.Extends s'.code ∧ walk.Reaches s.code fin spot ⟨s'.code, s'.joins⟩
      ⟨calls.flatten ++ (observed.decision s.code.types (env.program.candidates call)).calls,
        (observed.decision s.code.types (env.program.candidates call)).exit⟩
      ((observed.tried s.code.types (env.program.candidates call)).flatMap
        (observed.tests s.code.types)) ((env.program.candidates call).length + 1) := by
  obtain ⟨_, _, receives, receiverless, passes, flattened⟩ :=
    operands_split operands
  unfold lowerDispatch at ran
  obtain ⟨_, _, found, ran1⟩ := bind_ok ran
  obtain ⟨still, targets⟩ := definitions_ok found
  obtain rfl := candidates_eq targets
  rw [still] at ran1
  obtain ⟨_, s1, reported, ran2⟩ := bind_ok ran1
  obtain ⟨number, s2, numbered, ran3⟩ := bind_ok ran2
  obtain ⟨_, lowers1, context1, _⟩ := Does.report ready _ s1 reported
  have ready₁ := ready.after lowers1 context1
  obtain ⟨_, lowers2, context2, counted, new⟩ := nextDispatch_does ready₁ number s2 numbered
  have ready₂ := ready₁.after lowers2 context2
  have concealed2 := ready₂.hiding new (Nat.le_of_eq counted)
  have same : s2.code = s.code := by
    cases reported
    cases numbered
    rfl
  obtain ⟨receiver, s3, received, ran4⟩ := bind_ok ran3
  obtain ⟨walk1, passes1, receiverFinds, assumed1⟩ := dispatchReceiver_passes receives receiverless
    (outermost.ready True ready₂) scopeless isSelf received walk
  obtain ⟨_, lowers3, context3, _, _, concealed3, receiverReadable⟩ :=
    dispatchReceiver_does (lowerExprWithin_handles (.ofOperands env False) depth) id new concealed2
      (fun obj given => ⟨_, receives obj given⟩) ready₂ receiver s3 received
  have ready3 := ready₂.after lowers3 context3
  obtain ⟨args, s4, passed, ran5⟩ := bind_ok ran4
  obtain ⟨_, passes2, finds, reads⟩ :=
    dispatchArgs_passes passes outermost ready3 new concealed3 passed walk1
  obtain ⟨known4, lowers4, _, sized, names', more, concealed4, readable⟩ :=
    dispatchArgs_does (lowerExprWithin_handles (.ofOperands env False) depth) id new concealed3
      (operand_of_mem passes) ready3 args s4 passed
  obtain ⟨join, s5, joined, ran6⟩ := bind_ok ran5
  obtain ⟨rfl, ty, machineType, needsValue, rfl⟩ : join = s4.joins.size ∧
      ∃ ty machineType needsValue,
        s5 = { s4 with joins := s4.joins.push (.fresh ty machineType needsValue) } := by
    cases joined
    exact ⟨rfl, _, _, _, rfl⟩
  obtain ⟨_, s6, tried, ran7⟩ := bind_ok ran6
  obtain ⟨_, _, stopped, ran8⟩ := bind_ok ran7
  obtain ⟨_, _, closed, ran9⟩ := bind_ok ran8
  cases ran9
  have ready5 : Ready (.ofOperands env False) (σ.hiding names' number).deeper known4
      { s4 with joins := s4.joins.push (.fresh ty machineType needsValue) } := concealed4.deeper
  have hidden : Hidden env (σ.hiding names' number).deeper known4
      { s4 with joins := s4.joins.push (.fresh ty machineType needsValue) } call receiver args :=
    ⟨fun found given => (receiverReadable found given).mono _ rfl more
      ⟨lowers4.builds.known_subset, lowers4.later ready3.valid⟩,
      fun arg member => ⟨(readable arg member).expr, (readable arg member).tag⟩, reads, sized,
      blockless⟩
  have inside : σ.region.base ≤ s4.joins.size := concealed4.valid.based
  rw [Call.observed_eq, ← assumed1] at isObserved
  -- the operands are evaluated in the block of the dispatch
  have operates := passes1.trans passes2
  rw [same, ← flattened] at operates
  have types : s4.code.types = s.code.types := operates.later.types
  obtain ⟨_, lowers6, _⟩ := hidden.tries settled inside suitable ready5 _ s6 tried
  have later6 : s6.code.Extends s'.code := by
    obtain ⟨_, recorded, rfl⟩ := record_ok stopped
    obtain ⟨_, _, _, rfl⟩ := Emit.effect_ok recorded
    obtain ⟨_, _, _, _, later7, _⟩ := closeJoinOrNil_ok closed
    exact (extends_written _ _).trans later7
  have later4 : s4.code.Extends s'.code := (lowers6.later ready5.valid).trans later6
  obtain ⟨_, opened4, stretch⟩ := operates.stretch fin (later4.trans later) spot opened
  have outermost5 : Outermost (σ.hiding names' number).deeper :=
    ⟨outermost.unhanded, outermost.unhandled⟩
  have reaches := tryCandidates_reaches outermost5 settled inside ready5 hidden proper opened4
    (receiverFinds.since passes2.later passes2.since) finds isObserved suitable tried
    (later6.trans later)
  dsimp only at reaches
  rw [types] at reaches
  obtain ⟨stops, stretch', since, bound⟩ := joinedCandidates_reaches
    (lowers6.builds.valid ready5.valid) inside stopped closed later reaches
  exact ⟨operates.later.trans later4,
    .intro stops (stretch.trans stretch') (operates.since.trans operates.later since) bound⟩

end Lower

end CallLowering
