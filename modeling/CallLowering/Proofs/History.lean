import CallLowering.Proofs.Recorded

/-!
# The history of a recording

Values are numbered in the order in which they come to be, so the numbers of results tell in which
order operations were recorded, whatever blocks they are in. `Recording.history` lists the
operations with results in this order. Recording another one adds it at the end
(`Enumerated.history_written`), and nothing else changes the history (`history_of_instructions`).
-/

namespace CallLowering

namespace Recording

variable {code code' : Recording} {block b : BlockId} {op : Operation} {v : ValueId}

/-- The operations that have produced values, in the order in which they were recorded. -/
def history (code : Recording) : List (ValueId × Operation) :=
  ((List.range code.values.size).map ValueId.mk).filterMap fun v =>
    (code.definingOp? v).map fun op => (v, op)

theorem definingOp?_of_result (source : code.value? v = some (.result b)) : code.definingOp? v =
      ((code.instructionsOf b).find? (·.result == some v)).map (·.op) := by
  rw [definingOp?, source]

theorem value?_of_definingOp? (defined : code.definingOp? v = some op) :
    ∃ b, code.value? v = some (.result b) := by
  unfold definingOp? at defined
  split at defined
  · exact ⟨_, ‹_›⟩
  · cases defined

/-- The operation that produced a value is in the block that the value comes from. -/
theorem getElem?_of_definingOp? (defined : code.definingOp? v = some op)
    (source : code.value? v = some (.result b)) :
    ∃ i : Nat, (code.instructionsOf b)[i]? = some ⟨some v, op⟩ := by
  rw [definingOp?_of_result source] at defined
  obtain ⟨⟨result, _⟩, found, rfl⟩ := Option.map_eq_some_iff.mp defined
  have produced := List.find?_some found
  obtain rfl : result = some v := beq_iff_eq.mp produced
  exact List.mem_iff_getElem?.mp (List.mem_of_find?_eq_some found)

variable {data : BasicBlock} {source : ValueSource}

theorem value?_lt (present : code.value? v = some source) : v.index < code.values.size :=
  (Array.getElem?_eq_some_iff.mp present).1

theorem mem_history : (v, op) ∈ code.history ↔ code.definingOp? v = some op := by
  unfold history
  rw [List.mem_filterMap]
  constructor
  · rintro ⟨w, _, found⟩
    obtain ⟨_, defined, same⟩ := Option.map_eq_some_iff.mp found
    cases same
    exact defined
  · intro defined
    obtain ⟨_, present⟩ := value?_of_definingOp? defined
    refine ⟨v, List.mem_map.mpr ⟨v.index, List.mem_range.mpr (value?_lt present), rfl⟩, ?_⟩
    rw [defined, Option.map_some]

section

variable (later : code.Extends code')

include later

/-- An operation goes on to be the one that produced its value. -/
theorem Extends.definingOp? (defined : code.definingOp? v = some op) :
    code'.definingOp? v = some op := by
  obtain ⟨b, present⟩ := value?_of_definingOp? defined
  rw [definingOp?_of_result present] at defined
  rw [definingOp?_of_result (later.value v _ present)]
  obtain ⟨_, longer⟩ := later.instructionsOf b
  obtain ⟨_, found, same⟩ := Option.map_eq_some_iff.mp defined
  rw [← longer, List.find?_append, found, Option.some_or, Option.map_some, same]

/-- The history as far as the values of an earlier recording go. -/
theorem history_eq
    (old : ∀ v : ValueId, v.index < code.values.size → code'.definingOp? v = code.definingOp? v) :
    code'.history = code.history ++
      ((List.range' code.values.size (code'.values.size - code.values.size)).map
        ValueId.mk).filterMap fun v => (code'.definingOp? v).map fun op => (v, op) := by
  have split : List.range code'.values.size = List.range code.values.size ++
      List.range' code.values.size (code'.values.size - code.values.size) := by
    have sum : List.range' 0 code.values.size ++ List.range' (0 + code.values.size)
        (code'.values.size - code.values.size) = _ := List.range'_append_1
    rw [Nat.zero_add, Nat.add_sub_cancel' later.values] at sum
    rw [List.range_eq_range', List.range_eq_range', sum]
  have kept : (((List.range code.values.size).map ValueId.mk).filterMap fun v =>
      (code'.definingOp? v).map fun op => (v, op)) = code.history := by
    apply List.filterMap_congr
    intro v member
    obtain ⟨_, inside, rfl⟩ := List.mem_map.mp member
    rw [old _ (List.mem_range.mp inside)]
  rw [← kept, history, split, List.map_append, List.filterMap_append]

/-- More values without operations leave the history as it is. -/
theorem history_of_instructions (same : ∀ b, code'.instructionsOf b = code.instructionsOf b)
    (quiet : ∀ v b, code'.value? v = some (.result b) → v.index < code.values.size) :
    code'.history = code.history := by
  have old : ∀ v : ValueId, v.index < code.values.size →
      code'.definingOp? v = code.definingOp? v := by
    intro v inside
    have present : code.value? v = some code.values[v.index] := Array.getElem?_eq_getElem inside
    rw [definingOp?, definingOp?, later.value v _ present, present]
    simp [same]
  rw [history_eq later old, List.append_right_eq_self, List.filterMap_eq_nil_iff]
  intro v member
  obtain ⟨_, inside, rfl⟩ := List.mem_map.mp member
  rw [Option.map_eq_none_iff]
  by_contra defined
  obtain ⟨_, defined⟩ := Option.ne_none_iff_exists'.mp defined
  obtain ⟨b, present⟩ := value?_of_definingOp? defined
  exact Nat.not_lt.mpr (List.mem_range'_1.mp inside).1 (quiet _ b present)

end

/-- A new value that is no result leaves the history as it is. -/
theorem history_push (later : code.Extends code') (other : ∀ b, source ≠ .result b)
    (values : code'.values = code.values.push source)
    (same : ∀ b, code'.instructionsOf b = code.instructionsOf b) : code'.history = code.history := by
  refine history_of_instructions later same fun _ b present => ?_
  rw [value?, values] at present
  obtain ⟨_, new⟩ | old := getElem?_push_cases present
  · exact absurd new.symm (other b)
  · exact value?_lt old

theorem history_addConstant (constant : Constant) :
    (code.addConstant constant).2.history = code.history :=
  history_push (extends_addConstant constant)
    (nofun : ∀ b, ValueSource.const constant ≠ .result b) rfl fun _ => rfl

theorem history_addGlobal (name : String) : (code.addGlobal name).2.history = code.history := by
  have later : code.Extends (code.addGlobal name).2 := extends_addGlobal name
  rcases code.addGlobal_snd name with same | ⟨_, added⟩
  · rw [same]
  · rw [added] at later ⊢
    exact history_push later (nofun : ∀ b, ValueSource.global name ≠ .result b) rfl fun _ => rfl

theorem history_appendBlock (func : FuncId) (label : String) :
    (code.appendBlock func label).2.history = code.history :=
  history_of_instructions (extends_appendBlock func label) (fun _ => appendBlock_instructionsOf)
    fun _ _ => value?_lt

/-- Every instruction with a result is found by the value it produces, and is the only one that
produces it. -/
structure Enumerated (code : Recording) : Prop where
  produced : ∀ b, ∀ instruction ∈ code.instructionsOf b,
    instruction.result.isSome = instruction.op.hasResult
  found : ∀ b, ∀ instruction ∈ code.instructionsOf b, ∀ v ∈ instruction.result,
    code.value? v = some (.result b) ∧ code.definingOp? v = some instruction.op
  once : ∀ b (i j : Nat) first second v, (code.instructionsOf b)[i]? = some first →
    (code.instructionsOf b)[j]? = some second → first.result = some v → second.result = some v →
    i = j

theorem Enumerated.empty (target : Target) (types : TypeTable) : (empty target types).Enumerated where
  produced _ _ none := absurd none List.not_mem_nil
  found _ _ none := absurd none List.not_mem_nil
  once _ _ _ _ _ _ none := absurd none (Option.not_mem_none _)

theorem Enumerated.of_instructions (enumerated : code.Enumerated) (later : code.Extends code')
    (same : ∀ b, code'.instructionsOf b = code.instructionsOf b) : code'.Enumerated where
  produced b instruction member := enumerated.produced b instruction (same b ▸ member)
  found b instruction member v result := by
    obtain ⟨source, defined⟩ := enumerated.found b instruction (same b ▸ member) v result
    exact ⟨later.value v _ source, later.definingOp? defined⟩
  once b := by
    rw [same]
    exact enumerated.once b

theorem written_value?_new (has : op.hasResult = true) :
    (code.written block op).value? ⟨code.values.size⟩ = some (.result block) := by
  simp [value?, written, has]

variable (enumerated : code.Enumerated)

include enumerated

/-- An instruction whose operation has a result is in the history. -/
theorem Enumerated.listed {instruction : Instruction} (member : instruction ∈ code.instructionsOf b)
    (has : instruction.op.hasResult = true) :
    ∃ v, instruction.result = some v ∧ (v, instruction.op) ∈ code.history := by
  have produced := enumerated.produced b instruction member
  obtain ⟨v, result⟩ := Option.isSome_iff_exists.mp (produced.trans has)
  obtain ⟨_, defined⟩ := enumerated.found b instruction member v result
  exact ⟨v, result, mem_history.mpr defined⟩

variable (present : code.block? block = some data)

include present

/-- A new operation is found by its value. -/
theorem Enumerated.written_definingOp? (has : op.hasResult = true) :
    (code.written block op).definingOp? ⟨code.values.size⟩ = some op := by
  have fresh : (code.instructionsOf block).find? (·.result == some ⟨code.values.size⟩) = none := by
    rw [List.find?_eq_none]
    intro instruction member same
    obtain ⟨source, _⟩ := enumerated.found block instruction member _ (beq_iff_eq.mp same)
    exact Nat.lt_irrefl _ (value?_lt source)
  rw [definingOp?_of_result (written_value?_new has), written_instructionsOf_self present,
    List.find?_append, fresh, Option.none_or]
  simp [resultOf, has]

theorem Enumerated.written : (code.written block op).Enumerated where
  produced b instruction member := by
    obtain old | ⟨rfl, rfl⟩ := mem_written_instructionsOf member
    · exact enumerated.produced b instruction old
    · unfold resultOf
      cases op.hasResult <;> rfl
  found b instruction member v result := by
    obtain old | ⟨rfl, rfl⟩ := mem_written_instructionsOf member
    · obtain ⟨source, defined⟩ := enumerated.found b instruction old v result
      exact ⟨(extends_written block op).value v _ source, (extends_written block op).definingOp? defined⟩
    · unfold resultOf at result
      split at result
      · rename_i has
        cases result
        exact ⟨written_value?_new has, enumerated.written_definingOp? present has⟩
      · cases result
  once b i j first second v atI atJ result result' := by
    -- the new instruction produces a value that was not there before
    have fresh : ∀ (k : Nat) old, (code.instructionsOf b)[k]? = some old → old.result = some v →
        code.resultOf op ≠ some v := by
      intro k old atK produced same
      obtain ⟨source, _⟩ := enumerated.found b old (List.mem_of_getElem? atK) v produced
      unfold resultOf at same
      split at same
      · cases same
        exact Nat.lt_irrefl _ (value?_lt source)
      · cases same
    rcases written_instructionsOf_getElem? atI with oldI | ⟨_, endI, rfl⟩ <;>
      rcases written_instructionsOf_getElem? atJ with oldJ | ⟨_, endJ, rfl⟩
    · exact enumerated.once b i j first second v oldI oldJ result result'
    · exact absurd result' (fresh i first oldI result)
    · exact absurd result (fresh j second oldJ result')
    · rw [endI, endJ]

/-- An operation with a result is added at the end of the history. -/
theorem Enumerated.history_written :
    (code.written block op).history =
      code.history ++ if op.hasResult then [(⟨code.values.size⟩, op)] else [] := by
  have later : code.Extends (code.written block op) := extends_written block op
  have old : ∀ v : ValueId, v.index < code.values.size →
      (code.written block op).definingOp? v = code.definingOp? v := by
    intro v inside
    have source : code.value? v = some code.values[v.index] := Array.getElem?_eq_getElem inside
    have source' := later.value v _ source
    cases origin : code.values[v.index] with
    | result b =>
      rw [origin] at source source'
      rw [definingOp?_of_result source, definingOp?_of_result source']
      by_cases same : b = block
      · subst same
        rw [written_instructionsOf_self present, List.find?_append]
        have other : [(⟨code.resultOf op, op⟩ : Instruction)].find? (·.result == some v) = none := by
          rw [List.find?_eq_none]
          intro instruction member
          rw [List.mem_singleton.mp member]
          unfold resultOf
          split
          · intro same
            have same := Option.some.inj (beq_iff_eq.mp same)
            rw [← same] at inside
            exact Nat.lt_irrefl _ inside
          · exact Bool.false_ne_true
        rw [other, Option.or_none]
      · rw [written_instructionsOf_other same]
    | _ => rw [definingOp?, definingOp?, source, source', origin]
  rw [history_eq later old, List.append_cancel_left_eq]
  cases has : op.hasResult with
  | true =>
    have size : (code.written block op).values.size - code.values.size = 1 := by
      simp [Recording.written, has]
    rw [size, if_pos rfl]
    simp [enumerated.written_definingOp? present has]
  | false =>
    have size : (code.written block op).values.size - code.values.size = 0 := by
      simp [Recording.written, has]
    rw [size, if_neg Bool.false_ne_true]
    rfl

end Recording

end CallLowering
