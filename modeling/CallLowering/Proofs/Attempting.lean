import CallLowering.Proofs.Building

/-!
# Recording that may be refused

When recording succeeds and when it is refused. An operation is refused without a cursor and behind
a terminator (`Emit.effect_cases`, `Emit.value_cases`). A path ends in a join point unless there is
no cursor (`JoinPoint.add_of_exit`, `JoinPoint.add_of_unreached`, `JoinPoint.add_of_nowhere`), and a
join point with an open exit is always closed (`JoinPoint.close_of_exit`).
-/

namespace CallLowering

open Recording
open Emit hiding isTerminated

variable {code' : Recording}

namespace Emit

variable {α β : Type} {code : Recording} {op : Operation} {act : Emit α} {error : RecordError}
  {mid : Recording} {change : Recording → Except RecordError (α × Recording)} {a : α}
  {next : α → Emit β}

theorem cursor_run (code : Recording) : cursor code = .ok code.cursor code := rfl

theorem insertionPoint_cases (op : Operation) (code : Recording) :
    (∃ block, code.cursor = some block ∧ code.terminator? block = none ∧
        insertionPoint op code = .ok block code) ∨
      (∀ block ∈ code.cursor, (code.terminator? block).isSome) ∧
        ∃ error, error ≠ .noResult ∧ insertionPoint op code = .error error code := by
  unfold insertionPoint
  rw [get_bind]
  cases code.cursor with
  | none => exact .inr ⟨nofun, .noInsertionPoint, nofun, rfl⟩
  | some block =>
    cases ended : code.terminator? block with
    | none => exact .inl ⟨block, rfl, ended, by dsimp only; rw [ended]; rfl⟩
    | some terminator =>
      refine .inr ⟨?_, .afterTerminator op terminator (code.label block), nofun, ?_⟩
      · rintro _ ⟨⟩
        rw [ended]
        rfl
      · dsimp only
        rw [ended]
        rfl

/-- An operation is recorded at the end of the block at the cursor, or refused. -/
theorem push_cases (op : Operation) (code : Recording) :
    (∃ block, code.cursor = some block ∧ code.terminator? block = none ∧
        push op code = .ok (code.resultOf op) (code.written block op)) ∨
      (∀ block ∈ code.cursor, (code.terminator? block).isSome) ∧
        ∃ error, error ≠ .noResult ∧ push op code = .error error code := by
  unfold push
  obtain ⟨block, atBlock, running, found⟩ | ⟨closed, error, harmless, refused⟩ :=
    insertionPoint_cases op code
  · refine .inl ⟨block, atBlock, running, ?_⟩
    rw [bind_of_ok found]
    unfold resultOf written resultOf
    cases op.hasResult <;> rfl
  · exact .inr ⟨closed, error, harmless, bind_of_error refused⟩

theorem effect_cases (op : Operation) (code : Recording) :
    (∃ block, code.cursor = some block ∧ code.terminator? block = none ∧
        effect op code = .ok () (code.written block op)) ∨
      (∀ block ∈ code.cursor, (code.terminator? block).isSome) ∧
        ∃ error, error ≠ .noResult ∧ effect op code = .error error code := by
  have ran : effect op code = EStateM.map (fun _ => ()) (push op) code := rfl
  rw [ran, EStateM.map]
  obtain ⟨block, atBlock, running, pushed⟩ | ⟨closed, error, harmless, refused⟩ := push_cases op code
  · exact .inl ⟨block, atBlock, running, by rw [pushed]⟩
  · exact .inr ⟨closed, error, harmless, by rw [refused]⟩

/-- An operation that answers a value is recorded at the end of the block at the cursor, or refused;
one without a result is always refused. -/
theorem value_cases (op : Operation) (code : Recording) :
    (∃ block, code.cursor = some block ∧ code.terminator? block = none ∧
        value op code = if op.hasResult then .ok ⟨code.values.size⟩ (code.written block op)
          else .error .noResult code) ∨
      (∀ block ∈ code.cursor, (code.terminator? block).isSome) ∧
        ∃ error, error ≠ .noResult ∧ value op code = .error error code := by
  unfold value
  obtain ⟨block, atBlock, running, found⟩ | ⟨closed, error, harmless, refused⟩ :=
    insertionPoint_cases op code
  · refine .inl ⟨block, atBlock, running, ?_⟩
    rw [bind_of_ok found]
    unfold written resultOf
    cases op.hasResult <;> rfl
  · exact .inr ⟨closed, error, harmless, bind_of_error refused⟩

variable {block : BlockId} {label : String}

section

variable (atBlock : code.cursor = some block) (running : code.terminator? block = none)

include atBlock running

theorem not_closed : ¬∀ block ∈ code.cursor, (code.terminator? block).isSome := fun closed =>
  absurd (closed block atBlock) (by rw [running]; exact Bool.false_ne_true)

theorem effect_of_open : effect op code = .ok () (code.written block op) := by
  obtain ⟨_, atBlock', _, ran⟩ | ⟨closed, _⟩ := effect_cases op code
  · obtain rfl := Option.mem_unique atBlock atBlock'
    exact ran
  · exact absurd closed (not_closed atBlock running)

theorem value_at_open : value op code =
    if op.hasResult then .ok ⟨code.values.size⟩ (code.written block op)
      else .error .noResult code := by
  obtain ⟨_, atBlock', _, ran⟩ | ⟨closed, _⟩ := value_cases op code
  · obtain rfl := Option.mem_unique atBlock atBlock'
    exact ran
  · exact absurd closed (not_closed atBlock running)

theorem value_of_open (has : op.hasResult = true) :
    value op code = .ok ⟨code.values.size⟩ (code.written block op) := by
  rw [value_at_open atBlock running, if_pos has]

end

section

variable (op : Operation) (closed : ∀ block ∈ code.cursor, (code.terminator? block).isSome)

include closed

theorem effect_of_closed : ∃ error, effect op code = .error error code := by
  obtain ⟨_, atBlock, running, _⟩ | ⟨_, error, _, refused⟩ := effect_cases op code
  · exact absurd closed (not_closed atBlock running)
  · exact ⟨error, refused⟩

theorem value_of_closed : ∃ error, value op code = .error error code := by
  obtain ⟨_, atBlock, running, _⟩ | ⟨_, error, _, refused⟩ := value_cases op code
  · exact absurd closed (not_closed atBlock running)
  · exact ⟨error, refused⟩

end

theorem newBlock_of_present {data : BasicBlock} (atBlock : code.cursor = some block)
    (present : code.block? block = some data) :
    newBlock label code = .ok ⟨code.blocks.size⟩ (code.appendBlock data.func label).2 := by
  unfold newBlock
  rw [get_bind, atBlock, Option.bind_some, present]
  rfl

theorem newBlock_of_absent (absent : code.cursor.bind code.block? = none) :
    newBlock label code = .error .noInsertionPoint code := by
  unfold newBlock
  rw [get_bind, absent]
  rfl

variable (nowhere : code.cursor = none)

include nowhere

theorem insertionPoint_of_nowhere : insertionPoint op code = .error .noInsertionPoint code := by
  unfold insertionPoint
  rw [get_bind, nowhere]
  rfl

theorem effect_of_nowhere : effect op code = .error .noInsertionPoint code := by
  have ran : effect op code = EStateM.map (fun _ => ()) (push op) code := rfl
  rw [ran, EStateM.map, push, bind_of_error (insertionPoint_of_nowhere nowhere)]

theorem value_of_nowhere : value op code = .error .noInsertionPoint code := by
  rw [value, bind_of_error (insertionPoint_of_nowhere nowhere)]

theorem newBlock_of_nowhere : newBlock label code = .error .noInsertionPoint code :=
  newBlock_of_absent (by rw [nowhere]; rfl)

end Emit

namespace JoinPoint

variable {join : JoinPoint} {v : ValueId} {ty : Ty} {code : Recording} {block : BlockId}
  {data : BasicBlock}

/-- The value that the path at the end of a block hands to a join point, with the code after it was
converted. -/
def handed (join : JoinPoint) (code : Recording) (block : BlockId) (v : ValueId) (ty : Ty) :
    ValueId × Recording :=
  if join.materializes && !(ty == join.ty) then
    (⟨code.values.size⟩, code.written block (.convert v ty join.ty))
  else (v, code)

theorem handed_cases (join : JoinPoint) (code : Recording) (block : BlockId) (v : ValueId) (ty : Ty) :
    join.handed code block v ty = (v, code) ∨ join.handed code block v ty =
      (⟨code.values.size⟩, code.written block (.convert v ty join.ty)) := by
  unfold handed
  split
  · exact .inr rfl
  · exact .inl rfl

theorem handed_cursor (join : JoinPoint) (code : Recording) (block : BlockId) (v : ValueId) (ty : Ty) :
    (join.handed code block v ty).2.cursor = code.cursor := by
  obtain same | converted := join.handed_cases code block v ty
  · rw [same]
  · rw [converted, written_cursor]

/-- The join point after a path has handed over its value. -/
def taking (join : JoinPoint) (arm : ValueId × BlockId) : JoinPoint :=
  if join.materializes then { join with incoming := join.incoming ++ [arm] } else join

theorem taking_exit (arm : ValueId × BlockId) : (join.taking arm).exit = join.exit := by
  unfold taking
  split <;> rfl

theorem taking_reached (arm : ValueId × BlockId) (exit : BlockId) :
    { join.taking arm with exit := some exit } = join.reached exit arm := by
  unfold taking reached
  split <;> rfl

/-- A path contributes nothing if it has already left its block, or never produces a value. -/
theorem add_of_left (left : code.isTerminated = true ∨ ty.isNoReturn = true) :
    join.add v ty code = .ok join code := by
  change (if code.isTerminated then pure join
    else if ty.isNoReturn then pure join else _ : Emit JoinPoint) code = _
  split
  · rfl
  · rename_i running
    rw [if_pos (left.resolve_left running)]
    rfl

theorem add_of_running (running : code.isTerminated = false) (returns : ty.isNoReturn = false) :
    join.add v ty code = (join.receive v ty >>= fun join => join.openExit >>= fun opened =>
      effect (.br opened.1) >>= fun _ => pure opened.2) code := by
  change (if code.isTerminated then pure join
    else if ty.isNoReturn then pure join else _ : Emit JoinPoint) code = _
  rw [running, if_neg Bool.false_ne_true, returns, if_neg Bool.false_ne_true]

variable {exit : BlockId}

section

variable (atBlock : code.cursor = some block) (running : code.terminator? block = none)

include atBlock running

theorem handed_open (join : JoinPoint) (v : ValueId) (ty : Ty)
    (present : code.block? block = some data) :
    (join.handed code block v ty).2.cursor = some block ∧
      (∃ data', (join.handed code block v ty).2.block? block = some data' ∧
        data'.func = data.func) ∧ (join.handed code block v ty).2.terminator? block = none := by
  obtain same | converted := join.handed_cases code block v ty
  · rw [same]
    exact ⟨atBlock, ⟨data, present, rfl⟩, running⟩
  · rw [converted]
    exact ⟨atBlock, ⟨_, written_block?_self present, rfl⟩,
      terminator?_written present rfl⟩

theorem receive_of_open : join.receive v ty code =
    .ok (join.taking ((join.handed code block v ty).1, block)) (join.handed code block v ty).2 := by
  unfold receive handed taking
  cases join.materializes with
  | false => rfl
  | true =>
    cases ty == join.ty with
    | true =>
      simp only [↓reduceIte, pure_bind]
      refine (bind_of_ok (cursor_run code)).trans ?_
      rw [atBlock]
      rfl
    | false =>
      refine (bind_of_ok (value_of_open atBlock running rfl)).trans ?_
      refine (bind_of_ok (cursor_run _)).trans ?_
      rw [written_cursor, atBlock]
      rfl

theorem isTerminated_of_open : code.isTerminated = false := by
  rw [isTerminated, atBlock]
  dsimp only
  rw [running]
  rfl

/-- A path that has not ended hands over its value and branches to the exit. -/
theorem add_run (returns : ty.isNoReturn = false) : join.add v ty code =
    ((join.taking ((join.handed code block v ty).1, block)).openExit >>= fun opened =>
      effect (.br opened.1) >>= fun _ => pure opened.2) (join.handed code block v ty).2 :=
  (add_of_running (isTerminated_of_open atBlock running) returns).trans
    (bind_of_ok (receive_of_open atBlock running))

theorem add_of_open (returns : ty.isNoReturn = false)
    (opened : (join.taking ((join.handed code block v ty).1, block)).openExit (join.handed code block v ty).2 = .ok (exit, join.reached exit ((join.handed code block v ty).1, block)) code')
    (still : code'.cursor = some block ∧ code'.terminator? block = none) :
    join.add v ty code = .ok (join.reached exit ((join.handed code block v ty).1, block))
      (code'.written block (.br exit)) := by
  rw [add_run atBlock running returns, bind_of_ok opened]
  exact bind_of_ok (effect_of_open still.1 still.2)

/-- A path that ends in a join point others have reached. -/
theorem add_of_exit (present : code.block? block = some data) (returns : ty.isNoReturn = false)
    (exits : join.exit = some exit) :
    join.add v ty code = .ok (join.reached exit ((join.handed code block v ty).1, block))
      ((join.handed code block v ty).2.written block (.br exit)) := by
  obtain ⟨atBlock1, _, running1⟩ := handed_open atBlock running join v ty present
  refine add_of_open atBlock running returns ?_ ⟨atBlock1, running1⟩
  have exits := (join.taking_exit ((join.handed code block v ty).1, block)).trans exits
  rw [openExit, exits, ← taking_reached]
  dsimp only
  rw [← exits]
  rfl

/-- A path that is the first to end in a join point. -/
theorem add_of_unreached (present : code.block? block = some data)
    (returns : ty.isNoReturn = false) (exits : join.exit = none) : join.add v ty code =
      .ok (join.reached ⟨code.blocks.size⟩ ((join.handed code block v ty).1, block))
      (((join.handed code block v ty).2.appendBlock data.func "merge").2.written block
        (.br ⟨code.blocks.size⟩)) := by
  obtain ⟨atBlock1, ⟨_, present1, func⟩, running1⟩ := handed_open atBlock running join v ty present
  have size : (join.handed code block v ty).2.blocks.size = code.blocks.size := by
    obtain same | converted := join.handed_cases code block v ty
    · rw [same]
    · rw [converted, written_blocks_size]
  refine add_of_open atBlock running returns ?_
    ⟨atBlock1, appendBlock_terminator?.trans running1⟩
  rw [openExit, (join.taking_exit _).trans exits, ← taking_reached, ← size, ← func]
  exact bind_of_ok (newBlock_of_present atBlock1 present1)

/-- A join point that no path has reached ends the block at the cursor. -/
theorem close_of_open (exits : join.exit = none) :
    join.close code = .ok none (code.written block .unreachable) := by
  unfold close
  rw [exits]
  change (if code.isTerminated then pure none else _ : Emit (Option ValueId)) code = _
  rw [isTerminated_of_open atBlock running, if_neg Bool.false_ne_true]
  exact bind_of_ok (effect_of_open atBlock running)

end

/-- A path cannot end in a join point where there is no cursor. -/
theorem add_of_nowhere (nowhere : code.cursor = none) (returns : ty.isNoReturn = false) :
    join.add v ty code = .error .noInsertionPoint code := by
  have running : code.isTerminated = false := by rw [isTerminated, nowhere]
  refine (add_of_running running returns).trans ?_
  unfold receive
  cases join.materializes with
  | true =>
    refine bind_of_error ?_
    cases ty == join.ty with
    | true =>
      simp only [↓reduceIte, pure_bind]
      refine (bind_of_ok (cursor_run code)).trans ?_
      rw [nowhere]
      rfl
    | false => exact bind_of_error (value_of_nowhere nowhere)
  | false =>
    refine (bind_of_ok rfl).trans ?_
    unfold openExit
    cases join.exit with
    | none => exact bind_of_error (bind_of_error (newBlock_of_nowhere nowhere))
    | some exit => exact (bind_of_ok rfl).trans (bind_of_error (effect_of_nowhere nowhere))

/-- A join point with an open exit is closed there. -/
theorem close_of_exit (exits : join.exit = some exit) (running : code.terminator? exit = none) :
    join.close code = .ok (some ⟨code.values.size⟩)
      (if join.materializes then join.entered code exit
        else ((join.entered code exit).addConstant .nil).2) := by
  unfold close entered
  rw [exits]
  refine (bind_of_ok rfl).trans ?_
  cases join.materializes with
  | true => exact bind_of_ok (value_of_open rfl running rfl)
  | false => exact bind_of_ok rfl

/-- A join point that no path has reached is closed behind a terminator. -/
theorem close_of_ended (exits : join.exit = none) (ended : code.isTerminated = true) :
    join.close code = .ok none code := by
  unfold close
  rw [exits]
  change (if code.isTerminated then pure none else _ : Emit (Option ValueId)) code = _
  rw [if_pos ended]
  rfl

/-- A join point that no path has reached cannot be closed where there is no cursor. -/
theorem close_of_nowhere (exits : join.exit = none) (nowhere : code.cursor = none) :
    join.close code = .error .noInsertionPoint code := by
  have running : code.isTerminated = false := by rw [isTerminated, nowhere]
  unfold close
  rw [exits]
  change (if code.isTerminated then pure none else _ : Emit (Option ValueId)) code = _
  rw [running, if_neg Bool.false_ne_true]
  exact bind_of_error (effect_of_nowhere nowhere)

end JoinPoint

end CallLowering
