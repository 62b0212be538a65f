import CallLowering.Proofs.Functions

/-!
# Every block ends

While a function is lowered some of its blocks are unfinished: the one at the cursor, the exits of
its open join points, and those that were set aside before by somebody else. No piece of lowering
leaves others behind (`Builds.unfinished`), as long as what is annotated not to return does not. So
every block of a compiled program ends, and a walk never runs off the end of a block.
-/

namespace CallLowering

open Recording

variable {func : FuncId} {label : String} {data : BasicBlock}

namespace Recording

variable {code code' : Recording} {b block : BlockId} {op : Operation}

/-- A block that is there and has not ended. -/
def Unfinished (code : Recording) (b : BlockId) : Prop :=
  b.index < code.blocks.size ∧ code.terminator? b = none

theorem Unfinished.of_block? (unfinished : code'.Unfinished b)
    (same : code'.block? b = code.block? b) : code.Unfinished b := by
  obtain ⟨inside, running⟩ := unfinished
  obtain ⟨_, present⟩ := block?_isSome_of_lt inside
  exact ⟨block?_eq_some_lt (same.symm.trans present),
    (terminator?_of_block? same).symm.trans running⟩

theorem Unfinished.of_written (unfinished : (code.written block op).Unfinished b)
    (apart : b ≠ block) : code.Unfinished b :=
  unfinished.of_block? (written_block?_other apart)

/-- A block that was added is unfinished, and otherwise nothing has changed. -/
theorem Unfinished.of_appendBlock (unfinished : (code.appendBlock func label).2.Unfinished b)
    (apart : b ≠ ⟨code.blocks.size⟩) : code.Unfinished b :=
  unfinished.of_block? (appendBlock_block?_old fun same => apart (by
    cases b
    cases same
    rfl))

theorem not_unfinished_of_isTerminated (shut : code.isTerminated = true)
    (here : code.cursor = some b) : ¬code.Unfinished b := by
  intro unfinished
  rw [isTerminated, here] at shut
  simp [unfinished.2] at shut

/-- A new function body adds one unfinished block. -/
theorem Unfinished.of_beginRoutine {params : List ValueId}
    (begun : Emit.beginRoutine func code = .ok params code') (unfinished : code'.Unfinished b)
    (apart : b ≠ ⟨code.blocks.size⟩) : code.Unfinished b := by
  refine unfinished.of_block? (beginRoutine_block?_old begun ?_)
  have inside := unfinished.1
  rw [(beginRoutine_entry begun).2.2] at inside
  refine Nat.lt_of_le_of_ne (Nat.le_of_lt_succ inside) fun same => apart ?_
  cases b
  cases same
  rfl

end Recording

variable {b : BlockId} {code : Recording} {r : Region}

theorem Site.Valid.not_unfinished_written {joins : Array JoinPoint} {block : BlockId}
    {op : Operation} (valid : Valid r ⟨code, joins⟩) (atBlock : code.cursor = some block)
    (terminator : op.isTerminator = true) : ¬(code.written block op).Unfinished block :=
  not_unfinished_of_isTerminated (valid.isTerminated_written atBlock terminator) atBlock

theorem JoinPoint.unfinished_of_entered {join : JoinPoint} {exit : BlockId}
    (unfinished : (join.entered code exit).Unfinished b) (apart : b ≠ exit) :
    code.Unfinished b := by
  unfold entered at unfinished
  split at unfinished
  · exact unfinished.of_written apart
  · exact unfinished

/-- The unfinished blocks that a piece of lowering may leave behind. -/
inductive Pending (r : Region) (site site' : Site) (b : BlockId) : Prop where
  | cursor (here : site'.code.cursor = some b)
  | exit {i : Nat} {join : JoinPoint} (inside : r.base ≤ i) (opened : site'.joins[i]? = some join)
      (exits : join.exit = some b)
  | aside (unfinished : site.code.Unfinished b) (apart : site.code.cursor ≠ some b)

/-- What was unfinished before is at the cursor or was set aside. -/
theorem Pending.of_unfinished {site site' : Site} (unfinished : site.code.Unfinished b)
    (stays : site'.code.cursor = site.code.cursor) : Pending r site site' b := by
  by_cases here : site.code.cursor = some b
  · exact .cursor (stays.trans here)
  · exact .aside unfinished here

/-- A piece of lowering leaves no unfinished blocks behind but the one at the cursor and the exits of
open join points. -/
theorem Builds.unfinished {rules : Rules} {effect : Effect} {known known' : Known}
    {site site' : Site} (built : Builds rules r effect known site known' site')
    (isSealed : rules.sealed) (valid : site.Valid r) (unfinished : site'.code.Unfinished b) :
    Pending r site site' b := by
  induction built generalizing b with
  | refl | dead | constant => exact .of_unfinished unfinished rfl
  | global name =>
    refine .of_unfinished (unfinished.of_block? ?_) addGlobal_cursor
    rw [block?, block?, addGlobal_blocks]
  | declare decl =>
    exact .of_unfinished (unfinished.of_block? declare_block?) declare_cursor
  | untraced _ _ ih => exact ih valid unfinished
  | trans first second ihFirst ihSecond =>
    have valid1 := first.valid valid
    obtain here | ⟨inside, opened, exits⟩ | ⟨before, apart⟩ := ihSecond valid1 unfinished
    · exact .cursor here
    · exact .exit inside opened exits
    · obtain here | ⟨inside, opened, exits⟩ | ⟨before, apart⟩ := ihFirst valid before
      · exact absurd here apart
      · obtain ⟨_, opened', kept, _⟩ := (second.advance valid1.based).joins.exits _ _ opened
        exact .exit inside opened' (kept _ exits)
      · exact .aside before apart
  | @write _ _ _ _ block _ _ _ _ atBlock _ _ =>
    by_cases here : b = block
    · exact .cursor (here ▸ atBlock)
    · exact .of_unfinished (unfinished.of_written here) rfl
  | @invoke _ _ code _ block _ _ _ _ _ _ _ atBlock _ _ =>
    by_cases new : b = ⟨code.blocks.size⟩
    · exact .cursor (new ▸ rfl)
    · have apart : b ≠ block := by
        rintro rfl
        exact (valid.appendBlock "invoke_out").not_unfinished_written atBlock rfl unfinished
      exact .aside ((unfinished.of_written apart).of_appendBlock new)
        fun here => apart (Option.mem_unique here atBlock)
  | @land _ _ _ _ block _ _ _ _ _ _ _ _ atBlock _ _ =>
    by_cases here : b = block
    · exact .cursor (here ▸ atBlock)
    · exact .of_unfinished (unfinished.of_written here) rfl
  | @arrive _ _ code joins block i join _ _ inside opened _ atBlock _ _ =>
    by_cases new : b = ⟨code.blocks.size⟩
    · exact .exit inside (Array.getElem?_setIfInBounds_self_of_lt
        (Array.getElem?_eq_some_iff.mp opened).1) (new ▸ rfl)
    · by_cases here : b = block
      · exact .cursor (here ▸ atBlock)
      · exact .of_unfinished ((unfinished.of_written here).of_appendBlock new) rfl
  | @unreached _ _ _ _ _ _ _ joins1 _ _ _ join _ body exits _ ih =>
    obtain here | @⟨i, found, inside, opened, exits'⟩ | ⟨before, apart⟩ := ih valid.push unfinished
    · exact .cursor here
    · obtain ⟨_, rfl⟩ | opened := getElem?_push_cases opened
      · exact absurd (exits'.symm.trans exits) (Option.some_ne_none _)
      · exact .exit inside opened exits'
    · exact .aside before apart
  | @reached _ _ _ _ _ _ _ _ _ _ _ join exit _ body exits shut ih =>
    by_cases here : b = exit
    · subst here
      exact .cursor (join.entered_cursor _ _)
    · have before := JoinPoint.unfinished_of_entered unfinished here
      obtain here' | @⟨i, found, inside, opened, exits'⟩ | ⟨older, apart⟩ := ih valid.push before
      · exact (not_unfinished_of_isTerminated (shut isSealed) here' before).elim
      · obtain ⟨_, rfl⟩ | opened := getElem?_push_cases opened
        · exact absurd (Option.mem_unique exits' exits) here
        · exact .exit inside opened exits'
      · exact .aside older apart
  | @handle _ _ _ _ code _ _ _ _ body shut ih =>
    by_cases new : b = ⟨code.blocks.size⟩
    · exact .cursor (new ▸ rfl)
    · have before := unfinished.of_written new
      obtain here | ⟨inside, opened, exits⟩ | ⟨older, apart⟩ := ih valid.handling before
      · exact (not_unfinished_of_isTerminated (shut isSealed) here before).elim
      · exact .exit inside opened exits
      · exact .aside (older.of_appendBlock new) apart
  | @branch r _ _ _ _ code _ _ _ block _ _ _ atBlock running body shut ih =>
    by_cases next : b = ⟨code.blocks.size + 1⟩
    · exact .cursor (next ▸ rfl)
    · obtain here | ⟨inside, opened, exits⟩ | ⟨older, apart⟩ :=
        ih (valid.branched atBlock running) unfinished
      · exact (not_unfinished_of_isTerminated (shut isSealed) here unfinished).elim
      · exact .exit inside opened exits
      · have ended : b ≠ block := by
          rintro rfl
          exact ((valid.appendBlock "current_def").appendBlock "next_def").not_unfinished_written
            atBlock rfl older
        have current : b ≠ ⟨code.blocks.size⟩ := fun same => apart (same ▸ rfl)
        have size : (code.appendBlock r.func "current_def").2.blocks.size = code.blocks.size + 1 :=
          appendBlock_blocks_size
        exact .aside (((older.of_written ended).of_appendBlock (size ▸ next)).of_appendBlock current)
          fun here => ended (Option.mem_unique here atBlock)
  | @closure _ _ _ _ code _ _ joins _ decl _ _ block _ _ _ begun atBlock body shut ih =>
    replace valid := valid.declare decl
    by_cases here : b = block
    · exact .cursor (here ▸ rfl)
    · obtain here' | ⟨inside, opened, _⟩ | ⟨older, apart⟩ :=
        ih (valid.enter begun) unfinished
      · exact (not_unfinished_of_isTerminated (shut isSealed) here' unfinished).elim
      · have size := (body.advance (Nat.le_refl _)).joins.size
        exact absurd (Array.getElem?_eq_some_iff.mp opened).1 (Nat.not_lt.mpr (size ▸ inside))
      · obtain ⟨_, atEntry, _⟩ := valid.proper.beginRoutine begun
        have older := older.of_beginRoutine begun fun new => apart (new ▸ atEntry)
        refine .aside (older.of_block? declare_block?) ?_
        exact fun here' => here (Option.mem_unique here' atBlock)

/-- A function leaves no unfinished block behind. -/
theorem Gains.not_unfinished {Γ : Scenario} {defn : Definition} {code' : Recording}
    (gains : Gains Γ defn func code code') (isSealed : Γ.sealed) (proper : code.Proper)
    (finished : ∀ b, ¬code.Unfinished b) : ∀ b, ¬code'.Unfinished b := by
  obtain @⟨_, decl, _, _, _, _, _, _, _, begun, builds, ended⟩ := gains
  intro b unfinished
  obtain here | ⟨_, opened, _⟩ | ⟨before, apart⟩ :=
    builds.unfinished isSealed (.entry proper begun) unfinished
  · exact not_unfinished_of_isTerminated ended here unfinished
  · exact nomatch opened
  · obtain ⟨_, atEntry, _⟩ := (proper.declare decl).beginRoutine begun
    have older := before.of_beginRoutine begun fun new => apart (new ▸ atEntry)
    exact finished b (older.of_block? declare_block?)

/-! ## Walks through finished blocks -/

namespace Walk

variable {code : Recording} {walk : Walk} {instruction : Instruction}
  {instructions : List Instruction}

/-- What a walk through instructions of one block may come to. Control stays in the block until a
terminator, and a terminator leads to one of its successors or ends the walk. -/
def Comes (instructions : List Instruction) : Except WalkError (Next × Walk) → Prop
  | .error error => ∀ label, error ≠ .fallsOff label
  | .ok (.fallThrough, _) => ∀ instruction ∈ instructions, instruction.op.isTerminator = false
  | .ok (.goto b, _) => ∃ instruction ∈ instructions, b ∈ instruction.op.successors
  | .ok (.halt stop, _) => stop ≠ .stepLimit

theorem truth_ne_fallsOff {v : ValueId} {error : WalkError} (wrong : walk.truth code v = .error error) :
    ∀ label, error ≠ .fallsOff label := by
  unfold truth at wrong
  split at wrong
  · cases wrong
  · split at wrong <;> cases wrong
    nofun

theorem step_comes : Comes [instruction] (walk.step code instruction) := by
  obtain ⟨result, op⟩ := instruction
  have goesOn : op.isTerminator = false → ∀ found ∈ [(⟨result, op⟩ : Instruction)],
      found.op.isTerminator = false := fun same _ member => List.mem_singleton.mp member ▸ same
  cases op with
  | condBr cond yes no =>
    unfold step
    dsimp only
    split
    · exact truth_ne_fallsOff ‹_›
    · rename_i holds _
      refine ⟨_, List.mem_singleton_self _, ?_⟩
      cases holds
      · exact List.mem_cons_of_mem _ (List.mem_singleton_self _)
      · exact List.mem_cons_self
  | invoke | br => exact ⟨_, List.mem_singleton_self _, List.mem_cons_self⟩
  | unreachable | ret => exact nofun
  | matchTypeTag =>
    unfold step
    dsimp only
    split
    · exact goesOn rfl
    · nofun
  | and lhs rhs =>
    unfold step
    dsimp only
    split
    · exact truth_ne_fallsOff ‹_›
    · exact goesOn rfl
    · split
      · exact truth_ne_fallsOff ‹_›
      · exact goesOn rfl
  | _ => exact goesOn rfl

theorem runBlock_comes : Comes instructions (walk.runBlock code instructions) := by
  induction instructions generalizing walk with
  | nil => exact nofun
  | cons instruction instructions ih =>
    have first := @step_comes code walk instruction
    unfold runBlock
    split
    · rename_i walk1 stepped
      rw [stepped] at first
      have rest := @ih walk1
      generalize walk1.runBlock code instructions = left at rest ⊢
      match left with
      | .error _ | .ok (.halt _, _) => exact rest
      | .ok (.fallThrough, _) =>
        exact List.forall_mem_cons.mpr ⟨first _ (List.mem_singleton_self _), rest⟩
      | .ok (.goto _, _) =>
        obtain ⟨found, member, leads⟩ := rest
        exact ⟨found, List.mem_cons_of_mem _ member, leads⟩
    · rename_i left
      generalize walk.step code instruction = next at first left ⊢
      match next with
      | .error _ | .ok (.halt _, _) => exact first
      | .ok (.fallThrough, walk1) => exact absurd rfl (left walk1)
      | .ok (.goto _, _) =>
        obtain ⟨found, member, leads⟩ := first
        exact ⟨found, List.mem_cons.mpr (.inl (List.mem_singleton.mp member)), leads⟩

end Walk

/-- A finished block in good shape ends in its only terminator. -/
theorem Recording.Proper.terminated (proper : code.Proper) (present : code.block? b = some data)
    (finished : ¬code.Unfinished b) :
    ∃ before last, code.instructionsOf b = before ++ [last] ∧ last.op.isTerminator = true ∧
      ∀ instruction ∈ before, instruction.op.isTerminator = false := by
  have ended : code.terminator? b ≠ none := fun running =>
    finished ⟨block?_eq_some_lt present, running⟩
  rw [terminator?, present, Option.bind_some, BasicBlock.terminator?] at ended
  cases back : data.instructions.back? with
  | none => simp [back] at ended
  | some last =>
    have terminator : last.op.isTerminator = true := by
      by_contra goesOn
      simp [back, goesOn] at ended
    obtain ⟨before, split⟩ := Array.back?_eq_some_iff.mp back
    refine ⟨before.toList, last, ?_, terminator, fun _ member => ?_⟩
    · rw [instructionsOf, present]
      dsimp only
      rw [split, Array.toList_push]
    · obtain ⟨i, inside, rfl⟩ := List.getElem_of_mem member
      by_contra early
      rw [Bool.not_eq_false] at early
      rw [Array.length_toList] at inside
      have found : data.instructions[i]? = some (before.toList[i]) := by
        rw [split, Array.getElem?_push_lt inside, Array.getElem_toList]
      have lastOne := proper.last b data i _ present found early
      rw [split, Array.size_push] at lastOne
      omega

/-- A walk through finished blocks does not run off the end of one. -/
theorem Walk.runFrom_ne_fallsOff {steps : Nat} {blocks : Array BlockId} {walk : Walk}
    (proper : code.Proper) (finished : ∀ b, ¬code.Unfinished b)
    (present : code.block? b = some data) :
    walk.runFrom code steps b blocks ≠ .error (.fallsOff label) := by
  induction steps generalizing b data blocks walk with
  | zero =>
    intro same
    cases same
  | succ steps ih =>
    have comes := @runBlock_comes code walk (code.instructionsOf b)
    unfold runFrom
    dsimp only
    split <;> rename_i ran <;> rw [ran] at comes
    · exact fun same => comes label (by cases same; rfl)
    · obtain ⟨_, last, whole, terminator, _⟩ := proper.terminated present (finished b)
      have goesOn := comes last (by
        rw [whole]
        exact List.mem_append_right _ (List.mem_singleton_self _))
      exact absurd (terminator.symm.trans goesOn) Bool.noConfusion
    · obtain ⟨_, member, successor⟩ := comes
      obtain ⟨_, present', _⟩ := proper.target present member successor
      exact ih present'
    · intro same
      cases same

/-- Every block of a compiled program ends in its only terminator, and so no walk runs off the end
of a block. -/
theorem Program.blocks_sealed {program : Program} {options : Options} {code : Recording}
    (compiled : (program.compile options).result = .ok code) (honest : program.Honest)
    (returns : program.ProperReturns) :
    (∀ func, ∀ b ∈ code.blocksOf func, ∃ before last, code.instructionsOf b = before ++ [last] ∧
        last.op.isTerminator = true ∧
        ∀ instruction ∈ before, instruction.op.isTerminator = false) ∧
      ∀ func assumed label, code.walk func assumed ≠ .error (.fallsOff label) := by
  have granted : Rules.Granted ⟨True, False, False, False, program.Declares⟩ program :=
    ⟨fun _ => honest, fun _ => .inr returns, nofun, nofun, id, fun _ => id⟩
  obtain ⟨proper, finished⟩ := compile_induction granted
    (motive := fun code => ∀ b, ¬code.Unfinished b)
    (fun b unfinished => absurd unfinished.1 (Nat.not_lt_zero _))
    (fun _ _ _ _ proper gains => gains.not_unfinished trivial proper) compiled
  refine ⟨fun func b member => ?_, fun func assumed label => ?_⟩
  · obtain ⟨data, present, _⟩ := proper.listed func b member
    exact proper.terminated present (finished b)
  · unfold walk
    split
    · nofun
    · rename_i entry rest blocks
      obtain ⟨data, present, _⟩ := proper.listed func entry (by
        rw [blocks]
        exact List.mem_cons_self)
      exact Walk.runFrom_ne_fallsOff proper finished present

/-- A program with a call of two candidates in a body with a handler that does not return. -/
def Program.rescued : Program where
  file := "rescued"
  types := ((TypeTable.empty.addClass "Animal" none []).addClass "Dog" (some "Animal") []).addClass
    "Cat" (some "Animal") []
  defs := [
    Definition.ofSignature "Dog#speak" (.object "Dog") [] (.int 32 true),
    (Definition.ofSignature "Cat#speak" (.object "Cat") [] (.union [.string, .nil])).raising,
    (Definition.ofSignature "exit" .program [] .noReturn).withSymbol "exit" .c,
    (Definition.ofSignature "main" .program [.required "x" (.object "Animal")] .nil).withBody
      (.ofKind (.rescue
        (.ofCall ((Call.ofTargets "speak" ["Dog#speak", "Cat#speak"]).withReceiver
          (.ofVar "x" (.object "Animal"))) (.union [.int 32 true, .string, .nil]))
        (.ofCall (.ofTargets "exit" ["exit"]) .noReturn)) .nil)]

theorem Program.blocks_sealed_rescued :
    rescued.Honest ∧ rescued.ProperReturns ∧
      ∃ code, (rescued.compile .default).result = .ok code ∧ code.blocks.size = 9 ∧
        (∀ func, ∀ b ∈ code.blocksOf func, ∃ before last,
          code.instructionsOf b = before ++ [last] ∧ last.op.isTerminator = true ∧
          ∀ instruction ∈ before, instruction.op.isTerminator = false) ∧
        ∀ func assumed label, code.walk func assumed ≠ .error (.fallsOff label) := by
  have promised : rescued.Honest ∧ rescued.ProperReturns := by decide +kernel
  obtain ⟨code, compiled, size⟩ : ∃ code, (rescued.compile .default).result = .ok code ∧
      code.blocks.size = 9 := exists_code
  obtain ⟨blocks, walks⟩ := blocks_sealed compiled promised.1 promised.2
  exact ⟨promised.1, promised.2, code, compiled, size, blocks, walks⟩

end CallLowering
