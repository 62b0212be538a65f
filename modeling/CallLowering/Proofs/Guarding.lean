import CallLowering.Proofs.Dispatching
import CallLowering.Proofs.Selection
import CallLowering.Proofs.Simulation

/-!
# Walking through guards

The guard of a candidate is code that puts the tags of the operands to the tests of the candidate. A
walk that knows the run-time types behind the tags makes these tests in order, and finds the
condition of the guard to hold if the candidate passes them all (`guardOf_passes`).
-/

namespace CallLowering

open Recording Observed

/-! ## Walks inside a block -/

/-- The walk has gone on: it has called some functions and made some tests, and it still knows what
it knew about the values that were there. -/
structure Walk.Since (code : Recording) (calls : List String) (tests : List (Ty × Bool))
    (walk walk' : Walk) : Prop where
  calls : walk'.calls.toList = walk.calls.toList ++ calls
  guards : walk'.guards.toList = walk.guards.toList ++ tests
  known : ∀ v source, code.value? v = some source → walk'.get? v = walk.get? v

namespace Walk.Since

variable {code code1 : Recording} {calls calls' : List String} {tests tests' : List (Ty × Bool)}
  {walk walk1 walk' : Walk}

theorem refl : Since code [] [] walk walk :=
  ⟨(List.append_nil _).symm, (List.append_nil _).symm, fun _ _ _ => rfl⟩

theorem trans (first : Since code calls tests walk walk1) (later : code.Extends code1)
    (second : Since code1 calls' tests' walk1 walk') :
    Since code (calls ++ calls') (tests ++ tests') walk walk' where
  calls := by rw [second.calls, first.calls, List.append_assoc]
  guards := by rw [second.guards, first.guards, List.append_assoc]
  known v source present :=
    (second.known v source (later.value v source present)).trans (first.known v source present)

theorem calling (calls : List String) : Since code calls [] walk (walk.calling calls) :=
  ⟨Array.toList_appendList, (List.append_nil _).symm, fun _ _ _ => rfl⟩

end Walk.Since

/-- A walk gets from where code goes on to where later code goes on, in the same block. -/
structure Passes (code code' : Recording) (calls : List String) (tests : List (Ty × Bool))
    (walk walk' : Walk) : Prop where
  since : Walk.Since code calls tests walk walk'
  later : code.Extends code'
  stretch : ∀ fin, code'.Extends fin → ∀ spot, code.OpenAt spot →
    ∃ spot', code'.OpenAt spot' ∧ Stretch fin spot walk [] spot' walk'

namespace Passes

variable {code code1 code' : Recording} {calls calls' : List String}
  {tests tests' : List (Ty × Bool)} {walk walk1 walk' : Walk}

theorem refl : Passes code code [] [] walk walk :=
  ⟨.refl, .refl _, fun _ _ spot opened => ⟨spot, opened, .refl⟩⟩

theorem trans (first : Passes code code1 calls tests walk walk1)
    (second : Passes code1 code' calls' tests' walk1 walk') :
    Passes code code' (calls ++ calls') (tests ++ tests') walk walk' := by
  refine ⟨first.since.trans first.later second.since, first.later.trans second.later, ?_⟩
  intro fin later spot opened
  obtain ⟨spot1, opened1, stretch1⟩ := first.stretch fin (second.later.trans later) spot opened
  obtain ⟨spot', opened', stretch'⟩ := second.stretch fin later spot1 opened1
  exact ⟨spot', opened', stretch1.trans stretch'⟩

end Passes

/-- Code that stays in one block makes the calls of direct evaluation. -/
theorem Does.passes {α : Type} {Γ : Scenario} {σ : Setting} {effect : Effect} {known : Known}
    {s s' : LowerState} {act : Lower α} {post : Known → LowerState → α → Prop} {a : α}
    {calls : List String} (does : Does Γ σ effect known s act post) (isTraced : Γ.traced)
    (flat : Γ.flat) (ready : Ready Γ σ known s) (ran : act Γ.env s = .ok a s')
    (atMost : effect.AtMost ⟨calls, .continues⟩) (walk : Walk) :
    Passes s.code s'.code calls [] walk (walk.calling calls) := by
  obtain ⟨_, lowers, _⟩ := does ready a s' ran
  refine ⟨.calling calls, lowers.later ready.valid, fun _ later _ opened => ?_⟩
  obtain ⟨run, spot', _, evaluated, exits, straight, stretch⟩ :=
    lowers.builds.simulates isTraced (fun layered => absurd flat layered) ready.valid later opened
  obtain rfl := atMost run evaluated
  obtain rfl := straight flat
  exact ⟨spot', exits, stretch walk⟩

/-! ## What a walk finds -/

namespace Walk

variable {code code' fin : Recording} {walk walk' : Walk}

/-- The walk knows the run-time type that a tag stands for; no tag stands for none. -/
inductive Finds (walk : Walk) (code : Recording) : Option ValueId → Option Ty → Prop where
  | untagged : Finds walk code none none
  | tagged {tag : ValueId} {ty : Ty} {source : ValueSource} (present : code.value? tag = some source)
      (found : walk.get? tag = some (.tag ty)) : Finds walk code (some tag) (some ty)

variable {tests : List (Ty × Bool)} {calls : List String}

theorem Finds.since {tag : Option ValueId} {concrete : Option Ty}
    (finds : walk.Finds code tag concrete) (later : code.Extends code')
    (since : Since code calls tests walk walk') : walk'.Finds code' tag concrete := by
  cases finds with
  | untagged => exact .untagged
  | tagged present found =>
    exact .tagged (later.value _ _ present) ((since.known _ _ present).trans found)

/-- The walk knows the run-time types that the tags of hidden arguments stand for. -/
def FindsArgs (walk : Walk) (code : Recording) (args : List DispatchArg)
    (concretes : List (Option Ty)) : Prop :=
  List.Forall₂ (fun arg => walk.Finds code arg.tag) args concretes

theorem FindsArgs.since {args : List DispatchArg} {concretes : List (Option Ty)}
    (finds : walk.FindsArgs code args concretes) (later : code.Extends code')
    (since : Since code calls tests walk walk') : walk'.FindsArgs code' args concretes :=
  List.Forall₂.imp (fun _ _ finds => finds.since later since) finds

/-- The walk knows whether a condition holds; no condition always holds. -/
inductive Decides (walk : Walk) (code : Recording) : Option ValueId → Bool → Prop where
  | always : Decides walk code none true
  | tested {cond : ValueId} {holds : Bool} {block : BlockId}
      (present : code.value? cond = some (.result block))
      (found : walk.get? cond = some (.bool holds)) : Decides walk code (some cond) holds

variable {holds : Bool}

theorem Decides.since {cond : Option ValueId} (decides : walk.Decides code cond holds)
    (later : code.Extends code') (since : Since code calls tests walk walk') :
    walk'.Decides code' cond holds := by
  cases decides with
  | always => exact .always
  | tested present found =>
    exact .tested (later.value _ _ present) ((since.known _ _ present).trans found)

theorem Decides.truth {cond : ValueId} (decides : walk.Decides code (some cond) holds)
    (later : code.Extends fin) : walk.truth fin cond = .ok holds := by
  cases decides with
  | tested present found =>
    simp [Walk.truth, constant?, later.value _ _ present, found]

theorem get?_learn_self (walk : Walk) (v : ValueId) (value : RuntimeValue) :
    (walk.learn (some v) value).get? v = some value := by
  rw [get?, learn, List.lookup_cons, beq_self_eq_true]

theorem get?_learn_other {v w : ValueId} (other : w ≠ v) (value : RuntimeValue) :
    (walk.learn (some v) value).get? w = walk.get? w := by
  rw [get?, learn, List.lookup_cons, beq_eq_false_iff_ne.mpr other]
  rfl

variable {result : Option ValueId} {v : ValueId} {ty : Ty}

/-- A tag read finds the next assumed type, or else the static one. -/
theorem step_typeId : walk.step code ⟨result, .typeId v ty⟩ = .ok (.fallThrough,
    learn { walk with assumed := walk.assumed.tail } result (.tag (walk.assumed.headD ty))) := by
  cases assumed : walk.assumed <;>
    simp [step, assumed]

theorem step_matchTypeTag {demanded concrete : Ty} (known : walk.get? v = some (.tag concrete)) :
    walk.step code ⟨result, .matchTypeTag ty demanded v⟩ = .ok (.fallThrough, learn
      { walk with guards := walk.guards.push (test code.types demanded concrete) }
      result (.bool (code.types.isSubtype concrete demanded))) := by
  simp [step, known, test]

theorem step_and {lhs rhs : ValueId} {first second : Bool} (left : walk.truth code lhs = .ok first)
    (right : walk.truth code rhs = .ok second) : walk.step code ⟨result, .and lhs rhs⟩ =
      .ok (.fallThrough, walk.learn result (.bool (first && second))) := by
  cases first <;> simp only [step, left, right, Bool.false_and, Bool.true_and]

theorem step_condBr {yes no : BlockId} (decided : walk.truth code v = .ok holds) :
    walk.step code ⟨result, .condBr v yes no⟩ = .ok (.goto (if holds then yes else no), walk) := by
  simp [step, decided]

end Walk

/-! ## Single tests -/

namespace Recording

variable {code : Recording} {op : Operation} {v : ValueId}

theorem resultOf_eq_some (result : code.resultOf op = some v) :
    op.hasResult = true ∧ v = ⟨code.values.size⟩ := by
  unfold resultOf at result
  split at result
  · exact ⟨‹_›, (Option.some.inj result).symm⟩
  · cases result

theorem written_value?_result {block : BlockId} (result : code.resultOf op = some v) :
    (code.written block op).value? v = some (.result block) := by
  obtain ⟨has, rfl⟩ := resultOf_eq_some result
  rw [value?, written, if_pos has]
  exact Array.getElem?_push_size

end Recording

namespace Lower

variable {env : Env} {s s' : LowerState} {walk walk1 : Walk} {v : ValueId}

/-- A walk learns the result of an instruction, which is a new value. -/
theorem emit_passes {op : Operation} {value : RuntimeValue} {tests : List (Ty × Bool)}
    (goesOn : op.isTerminator = false) (ran : emit op env s = .ok v s')
    (stepped : ∀ fin result, s.code.Extends fin →
      walk.step fin ⟨result, op⟩ = .ok (.fallThrough, walk1.learn result value))
    (calls : walk1.calls = walk.calls) (known : walk1.known = walk.known)
    (guards : walk1.guards.toList = walk.guards.toList ++ tests) :
    ∃ walk' block, Passes s.code s'.code [] tests walk walk' ∧ walk'.assumed = walk1.assumed ∧
      s'.code.value? v = some (.result block) ∧ walk'.get? v = some value := by
  obtain ⟨block, atBlock, _, result, rfl⟩ := emit_ok ran
  have since : Walk.Since s.code [] tests walk (walk1.learn (some v) value) := by
    refine ⟨?_, guards, fun w _ present => ?_⟩
    · rw [List.append_nil]
      exact congrArg Array.toList calls
    · have other : w ≠ v := by
        obtain ⟨_, rfl⟩ := resultOf_eq_some result
        rintro rfl
        exact absurd (Array.getElem?_eq_some_iff.mp present).1 (Nat.lt_irrefl _)
      rw [Walk.get?_learn_other other, Walk.get?, Walk.get?, known]
  refine ⟨_, block, ⟨since, extends_written _ _, fun fin later _ opened => ?_⟩, rfl,
    written_value?_result result, walk1.get?_learn_self v value⟩
  obtain rfl := Option.mem_unique atBlock opened.cursor
  have step := stepped fin (s.code.resultOf op) ((extends_written _ _).trans later)
  rw [result] at step
  exact ⟨_, opened.written goesOn, .next (opened.found later) (result ▸ step) .refl⟩

variable {ty : Ty} {tag : ValueId}

theorem emit_typeId_passes (ran : emit (.typeId v ty) env s = .ok tag s') (walk : Walk) :
    ∃ walk', Passes s.code s'.code [] [] walk walk' ∧ walk'.assumed = walk.assumed.tail ∧
      walk'.Finds s'.code (some tag) (some (walk.assumed.headD ty)) := by
  obtain ⟨walk', _, passes, rest, present, found⟩ :=
    emit_passes rfl ran (fun _ _ _ => Walk.step_typeId) rfl rfl (List.append_nil _).symm
  exact ⟨walk', passes, rest, .tagged present found⟩

/-- A tag is tested. -/
theorem emit_match_passes {demanded concrete : Ty}
    (ran : emit (.matchTypeTag ty demanded tag) env s = .ok v s')
    (finds : walk.Finds s.code (some tag) (some concrete)) :
    ∃ walk', Passes s.code s'.code [] [test s.code.types demanded concrete] walk walk' ∧
      walk'.Decides s'.code (some v) (s.code.types.isSubtype concrete demanded) := by
  cases finds with
  | tagged _ known =>
    have stepped := fun fin result (later : s.code.Extends fin) =>
      later.types ▸ @Walk.step_matchTypeTag fin walk result tag ty demanded concrete known
    obtain ⟨walk', _, passes, _, present, found⟩ :=
      emit_passes rfl ran stepped rfl rfl Array.toList_push
    exact ⟨walk', passes, .tested present found⟩

/-- Two conditions are combined. -/
theorem emit_and_passes {lhs rhs : ValueId} {first second : Bool}
    (ran : emit (.and lhs rhs) env s = .ok v s')
    (left : walk.Decides s.code (some lhs) first) (right : walk.Decides s.code (some rhs) second) :
    ∃ walk', Passes s.code s'.code [] [] walk walk' ∧
      walk'.Decides s'.code (some v) (first && second) := by
  obtain ⟨walk', _, passes, _, present, found⟩ := emit_passes rfl ran
    (fun _ _ later => Walk.step_and (left.truth later) (right.truth later)) rfl rfl (List.append_nil _).symm
  exact ⟨walk', passes, .tested present found⟩

end Lower

/-! ## Guards -/

namespace Observed

variable {types : TypeTable} {concretes : List (Option Ty)}

theorem argTests_untested (params : List Param) :
    argTests types (none :: concretes) params = argTests types concretes params.tail := by
  cases params with
  | nil => rw [List.tail_nil, argTests, argTests, List.zip_nil_right, List.zip_nil_right]
  | cons => rfl

theorem argTests_tested {concrete : Ty} {param : Param} {params : List Param} :
    argTests types (some concrete :: concretes) (param :: params) =
      test types param.ty concrete :: argTests types concretes params := rfl

end Observed

namespace Lower

variable {env : Env} {s s' : LowerState} {walk : Walk} {call : Call} {defn : Definition}
  {cond cond' : Option ValueId} {verdict : Bool} {concretes : List (Option Ty)}
  {args : List DispatchArg} {receiver : Option DispatchReceiver} {found : Option Ty} {v : ValueId}

theorem receiverTest_passes (ran : receiverTest call receiver defn env s = .ok cond s')
    (finds : walk.Finds s.code (receiver.bind (·.tag)) found) :
    ∃ walk' tests, Passes s.code s'.code [] tests walk walk' ∧
      walk'.Decides s'.code cond (tests.all Prod.snd) ∧
      tests = (if call.isSuper then none else found).toList.map
        (test s.code.types defn.owner) := by
  unfold receiverTest at ran
  split at ran
  · rename_i name ty tag
    split at ran
    · rename_i super
      cases ran
      exact ⟨walk, [], .refl, .always, by rw [if_pos super]; rfl⟩
    · rename_i direct
      obtain ⟨_, _, emitted, ran1⟩ := bind_ok ran
      cases ran1
      cases found with
      | none => cases finds
      | some concrete =>
        obtain ⟨walk', passes, _⟩ := emit_match_passes emitted finds
        refine ⟨walk', _, passes, ?_, by rw [if_neg direct]; rfl⟩
        rwa [List.all_cons, List.all_nil, Bool.and_true]
  · rename_i untagged
    cases ran
    have absent : found = none := by
      cases finds' : receiver.bind (·.tag) with
      | none =>
        rw [finds'] at finds
        cases finds
        rfl
      | some tag =>
        obtain ⟨⟨name, ty, _⟩, rfl, rfl⟩ := Option.bind_eq_some_iff.mp finds'
        exact absurd rfl (untagged name ty tag)
    subst absent
    exact ⟨walk, [], .refl, .always, by rw [ite_self]; rfl⟩

/-- A further test is added to a condition. -/
theorem addTest_passes {tag test : ValueId} {ty demanded concrete : Ty} {s1 : LowerState}
    (tested : emit (.matchTypeTag ty demanded tag) env s = .ok test s1)
    (added : cond = none ∧ v = test ∧ s' = s1 ∨ ∃ before, cond = some before ∧ emit (.and before test) env s1 = .ok v s')
    (finds : walk.Finds s.code (some tag) (some concrete))
    (decides : walk.Decides s.code cond verdict) :
    ∃ walk', Passes s.code s'.code [] [Observed.test s.code.types demanded concrete] walk walk' ∧
      walk'.Decides s'.code (some v) (verdict && s.code.types.isSubtype concrete demanded) := by
  obtain ⟨walk1, passes1, decided⟩ := emit_match_passes tested finds
  obtain ⟨rfl, rfl, rfl⟩ | ⟨_, rfl, both⟩ := added
  · cases decides
    exact ⟨walk1, passes1, decided⟩
  · obtain ⟨walk', passes', combined⟩ :=
      emit_and_passes both (decides.since passes1.later passes1.since) decided
    exact ⟨walk', passes1.trans passes', combined⟩

/-- The tests of the arguments are added to a condition. -/
theorem argTests_passes {index : Nat}
    (ran : argTests call defn index args cond env s = .ok cond' s')
    (finds : walk.FindsArgs s.code args concretes) (decides : walk.Decides s.code cond verdict) :
    ∃ walk' tests, Passes s.code s'.code [] tests walk walk' ∧
      walk'.Decides s'.code cond' (verdict && tests.all Prod.snd) ∧
      tests = Observed.argTests s.code.types concretes (defn.params.drop index) := by
  induction args generalizing walk s cond verdict index concretes with
  | nil =>
    cases finds
    cases ran
    refine ⟨walk, [], .refl, ?_, by rw [Observed.argTests, List.zip_nil_left]; rfl⟩
    rwa [List.all_nil, Bool.and_true]
  | cons arg args ih =>
    obtain ⟨concrete, _, first, rest, rfl⟩ := List.forall₂_cons_left_iff.mp finds
    unfold argTests at ran
    cases tagged : arg.tag with
    | none =>
      rw [tagged] at ran first
      cases first
      rw [Observed.argTests_untested, List.tail_drop]
      exact ih ran rest decides
    | some tag =>
      rw [tagged] at ran first
      obtain ⟨_, _, found, ran1⟩ := bind_ok ran
      obtain ⟨present, rfl⟩ := orFault_ok found
      obtain ⟨test, s2, tested, ran2⟩ := bind_ok ran1
      obtain ⟨both, s3, added, ran3⟩ : ∃ both s3, (cond = none ∧ both = test ∧ s3 = s2 ∨
          ∃ before, cond = some before ∧ emit (.and before test) env s2 = .ok both s3) ∧
          argTests call defn (index + 1) args (some both) env s3 = .ok cond' s' := by
        cases cond with
        | none => exact ⟨test, s2, .inl ⟨rfl, rfl, rfl⟩, ran2⟩
        | some before =>
          obtain ⟨both, s3, combined, ran3⟩ := bind_ok ran2
          exact ⟨both, s3, .inr ⟨before, rfl, combined⟩, ran3⟩
      obtain ⟨concrete, rfl⟩ : ∃ ty, concrete = some ty := by
        cases first
        exact ⟨_, rfl⟩
      obtain ⟨_, passes1, decided⟩ := addTest_passes tested added first decides
      obtain ⟨walk', _, passes', _, same⟩ := ih ran3
        (Walk.FindsArgs.since rest passes1.later passes1.since) decided
      refine ⟨walk', _, passes1.trans passes', ?_, ?_⟩
      · rwa [List.singleton_append, List.all_cons, ← Bool.and_assoc]
      · obtain ⟨inside, rfl⟩ := List.getElem?_eq_some_iff.mp present
        rw [same, passes1.later.types, List.drop_eq_getElem_cons inside, Observed.argTests_tested]
        rfl

/-- A walk makes the tests of a candidate and finds its guard to hold if it passes them. -/
theorem guardOf_passes (ran : guardOf call receiver args defn env s = .ok v s')
    (receiverFinds : walk.Finds s.code (receiver.bind (·.tag)) found)
    (finds : walk.FindsArgs s.code args concretes) (observed : Observed)
    (isObserved : observed = ⟨if call.isSuper then none else found, concretes⟩) :
    ∃ walk', Passes s.code s'.code [] (observed.tests s.code.types defn) walk walk' ∧
      ∀ fin, s'.code.Extends fin →
        walk'.truth fin v = .ok (observed.accepts s.code.types defn) := by
  subst isObserved
  unfold guardOf at ran
  obtain ⟨cond, _, tested, ran1⟩ := bind_ok ran
  obtain ⟨cond', s2, tested', ran2⟩ := bind_ok ran1
  obtain ⟨_, tests1, passes1, decides1, same1⟩ := receiverTest_passes tested receiverFinds
  obtain ⟨walk2, tests2, passes2, decides2, same2⟩ := argTests_passes tested'
    (finds.since passes1.later passes1.since) decides1
  rw [passes1.later.types, List.drop_zero] at same2
  rw [← List.all_append] at decides2
  have passes := passes1.trans passes2
  unfold accepts tests
  dsimp only
  rw [← same1, ← same2]
  cases cond' with
  | some cond =>
    cases ran2
    exact ⟨walk2, passes, fun fin later => decides2.truth later⟩
  | none =>
    -- nothing was tested, and the guard is a constant
    obtain ⟨_, recorded, rfl⟩ := record_ok ran2
    cases recorded
    generalize holds : (tests1 ++ tests2).all Prod.snd = verdict at decides2 ⊢
    cases decides2
    have constant : Passes s2.code (s2.code.addConstant (.ofBool true)).2 [] [] walk2 walk2 :=
      ⟨.refl, extends_addConstant _, fun _ _ spot opened =>
        ⟨spot, opened.of_block? rfl rfl, .refl⟩⟩
    have both := passes.trans constant
    simp only [List.append_nil] at both
    refine ⟨walk2, both, fun fin later => ?_⟩
    have source : fin.value? ⟨s2.code.values.size⟩ = some (.const (.ofBool true)) :=
      later.value _ _ Array.getElem?_push_size
    simp only [Walk.truth, constant?, source]
    rfl

end Lower

end CallLowering
