import CallLowering.Proofs.Functions

/-!
# Delivered values

A join point whose value is needed hands on the value of every path that reaches it. However many
paths are gathered (`JoinPoint.Gathers`), each of them that arrives has one entry, with its value
converted to the type of the join point (`JoinPoint.gathers_arrivals`), and closing the join point
answers the phi over these entries: `JoinPoint.delivers_phi`. Where there is no value, or nobody needs
it, a placeholder stands for it. A metaclass counts as a type without values, so that its tag is lost
in a join point. A placeholder is converted like a value: `Lower.placeholder_converted`.
-/

namespace CallLowering

open Recording

/-- The end of a path in a block: the code up to there, and the value that the path hands over. -/
structure Arrival where
  code : Recording
  block : BlockId
  value : ValueId
  ty : Ty
  atBlock : code.cursor = some block
  placed : (code.block? block).isSome = true

namespace Arrival

/-- Whether the path goes on to the join point. -/
def arrives (arrival : Arrival) : Bool := !arrival.code.isTerminated && !arrival.ty.isNoReturn

/-- What a path adds to a phi of a type: its value as it is, or converted at the end of the path. -/
def Delivers (ty : Ty) (path : Arrival × Recording) (arm : ValueId × BlockId) : Prop :=
  arm.2 = path.1.block ∧ if path.1.ty = ty then arm.1 = path.1.value else
    ⟨some arm.1, .convert path.1.value path.1.ty ty⟩ ∈ path.2.instructionsOf path.1.block

end Arrival

namespace JoinPoint

/-- Paths end in a join point one after the other, each with the code after its end. -/
inductive Gathers : JoinPoint → List (Arrival × Recording) → JoinPoint → Prop where
  | nil {join} : Gathers join [] join
  | cons {join mid join' arrival after paths}
      (added : join.add arrival.value arrival.ty arrival.code = .ok mid after)
      (rest : Gathers mid paths join') : Gathers join ((arrival, after) :: paths) join'

/-- The join point with an exit and more entries. -/
def gathered (join : JoinPoint) (exit : Option BlockId) (arms : List (ValueId × BlockId)) :
    JoinPoint :=
  { join with exit := exit, incoming := join.incoming ++ arms }

variable {join : JoinPoint} {arrival : Arrival}

/-- The value that is handed over is of the type of the join point. -/
theorem delivers_handed (materializes : join.materializes = true) {code : Recording}
    (later : (join.handed arrival.code arrival.block arrival.value arrival.ty).2.Extends code) :
    Arrival.Delivers join.ty (arrival, code)
      ((join.handed arrival.code arrival.block arrival.value arrival.ty).1, arrival.block) := by
  refine ⟨rfl, ?_⟩
  unfold handed at later ⊢
  dsimp only
  rw [materializes, Bool.true_and] at later ⊢
  split
  · rename_i same
    rw [same, beq_self_eq_true, Bool.not_true, if_neg Bool.false_ne_true]
  · rename_i other
    have differs : (!(arrival.ty == join.ty)) = true := by simp [other]
    rw [if_pos differs] at later ⊢
    obtain ⟨_, present⟩ := Option.isSome_iff_exists.mp arrival.placed
    obtain ⟨_, longer⟩ := later.instructionsOf arrival.block
    rw [← longer, written_instructionsOf_self present]
    simp [resultOf, Operation.hasResult]

/-- One path: it adds its entry and leads to the exit, or changes nothing. -/
theorem add_arrival (arrival : Arrival) (materializes : join.materializes = true) :
    ∃ join' after, join.add arrival.value arrival.ty arrival.code = .ok join' after ∧
      (arrival.arrives = false ∧ join' = join ∨ arrival.arrives = true ∧
        ∃ arm exit, Arrival.Delivers join.ty (arrival, after) arm ∧
          join' = join.gathered (some exit) [arm]) := by
  obtain ⟨_, present⟩ := Option.isSome_iff_exists.mp arrival.placed
  cases ended : arrival.code.isTerminated with
  | true =>
    exact ⟨join, _, add_of_left (.inl ended), .inl ⟨by rw [Arrival.arrives, ended]; rfl, rfl⟩⟩
  | false =>
    cases never : arrival.ty.isNoReturn with
    | true =>
      refine ⟨join, _, add_of_left (.inr never), .inl ⟨?_, rfl⟩⟩
      rw [Arrival.arrives, never, Bool.not_true, Bool.and_false]
    | false =>
      have running : arrival.code.terminator? arrival.block = none := by
        rw [isTerminated, arrival.atBlock] at ended
        exact Option.not_isSome_iff_eq_none.mp (Bool.eq_false_iff.mp ended)
      have arrives : arrival.arrives = true := by rw [Arrival.arrives, ended, never]; rfl
      have reached : ∀ exit arm, join.reached exit arm = join.gathered (some exit) [arm] := by
        intro exit arm
        rw [reached, if_pos materializes, gathered]
      cases exits : join.exit with
      | some exit =>
        exact ⟨_, _, add_of_exit arrival.atBlock running present never exits, .inr ⟨arrives, _, exit,
          delivers_handed materializes (extends_written _ _), reached _ _⟩⟩
      | none =>
        exact ⟨_, _, add_of_unreached arrival.atBlock running present never exits,
          .inr ⟨arrives, _, _, delivers_handed materializes
            ((extends_appendBlock _ _).trans (extends_written _ _)), reached _ _⟩⟩

/-- Paths can always be gathered, and each of them that arrives has one entry, in their order. -/
theorem gathers_arrivals (arrivals : List Arrival) (materializes : join.materializes = true) :
    ∃ paths exit arms, paths.map (·.1) = arrivals ∧ Gathers join paths (join.gathered exit arms) ∧
      List.Forall₂ (Arrival.Delivers join.ty) (paths.filter (·.1.arrives)) arms ∧
      exit.isSome = (join.exit.isSome || arrivals.any Arrival.arrives) := by
  induction arrivals generalizing join with
  | nil =>
    refine ⟨[], join.exit, [], rfl, ?_, .nil, (Bool.or_false _).symm⟩
    rw [gathered, List.append_nil]
    exact .nil
  | cons arrival arrivals ih =>
    obtain ⟨_, after, added, ⟨left, rfl⟩ | ⟨arrives, arm, exit1, delivers, rfl⟩⟩ :=
      add_arrival arrival materializes
    · obtain ⟨paths, exit, arms, rfl, gathers, delivered, reached⟩ := ih materializes
      refine ⟨(arrival, after) :: paths, exit, arms, rfl, .cons added gathers, ?_, ?_⟩
      · rwa [List.filter_cons_of_neg (by simp [left])]
      · rw [reached, List.any_cons, left, Bool.false_or]
    · obtain ⟨paths, exit, arms, rfl, gathers, delivered, reached⟩ :=
        @ih (join.gathered (some exit1) [arm]) materializes
      refine ⟨(arrival, after) :: paths, exit, arm :: arms, rfl, ?_, ?_, ?_⟩
      · have both : (join.gathered (some exit1) [arm]).gathered exit arms =
            join.gathered exit (arm :: arms) := by simp [gathered]
        exact .cons added (both ▸ gathers)
      · rw [List.filter_cons_of_pos (by exact arrives)]
        exact .cons delivers delivered
      · rw [reached, List.any_cons, arrives, Bool.true_or, Bool.or_true]
        rfl

/-- A join point whose value is needed, of a type that has a value, delivers it. Whatever paths end
there, those that arrive have one entry each, with the value of the path in the type of the join
point, and once one has arrived, closing answers the phi over the entries. -/
theorem delivers_phi {ty : Ty} (machineType : MachineType) (arrivals : List Arrival)
    (valued : ty.hasValue = true) (proper : ty.isNil = false) :
    ∃ paths join, paths.map (·.1) = arrivals ∧ Gathers (fresh ty machineType true) paths join ∧
      List.Forall₂ (Arrival.Delivers ty) (paths.filter (·.1.arrives)) join.incoming ∧
      join.isReached = arrivals.any Arrival.arrives ∧
      ∀ exit ∈ join.exit, ∀ code : Recording, (code.block? exit).isSome = true →
        code.terminator? exit = none → ∃ code', join.close code = .ok (some ⟨code.values.size⟩) code' ∧
          ⟨some ⟨code.values.size⟩, .phi machineType join.incoming⟩ ∈ code'.instructionsOf exit := by
  have materializes : (fresh ty machineType true).materializes = true := by
    rw [materializes, fresh, valued, proper]
    rfl
  obtain ⟨paths, exit, arms, same, gathers, delivered, reached⟩ :=
    gathers_arrivals arrivals materializes
  refine ⟨paths, _, same, gathers, delivered, reached, fun exit' exits code present running => ?_⟩
  refine ⟨_, close_of_exit exits running, ?_⟩
  have materializes : ((fresh ty machineType true).gathered exit arms).materializes = true :=
    materializes
  obtain ⟨data, present⟩ := Option.isSome_iff_exists.mp present
  have present : (code.position exit').block? exit' = some data := present
  rw [if_pos materializes, entered, if_pos materializes, written_instructionsOf_self present]
  exact List.mem_append_right _ (List.mem_singleton_self _)

end JoinPoint

/-- The code at the start of a function. -/
def Recording.started : Recording :=
  ((empty .x86_64 .empty).declare ⟨"main", [], .void, none, false⟩).2.begun ⟨0⟩ 0

/-- A path with a value of the type of the join point. -/
def Arrival.wide : Arrival :=
  ⟨.started, ⟨0⟩, ⟨0⟩, .int 32 true, by decide +kernel, by decide +kernel⟩

/-- A path with a value that is converted. -/
def Arrival.narrow : Arrival := { Arrival.wide with ty := .int 8 true }

theorem JoinPoint.delivers_phi_narrow :
    Ty.hasValue (.int 32 true) = true ∧ Ty.isNil (.int 32 true) = false ∧
      ∃ paths join, paths.map (·.1) = [.wide, .narrow] ∧
        Gathers (fresh (.int 32 true) (.int 32) true) paths join ∧
        List.Forall₂ (Arrival.Delivers (.int 32 true)) (paths.filter (·.1.arrives)) join.incoming ∧
        join.isReached = true := by
  obtain ⟨paths, join, same, gathers, delivered, reached, _⟩ :=
    @delivers_phi (.int 32 true) (.int 32) [.wide, .narrow] rfl rfl
  exact ⟨rfl, rfl, paths, join, same, gathers, delivered, reached.trans (by decide +kernel)⟩

/-! ## Placeholders -/

/-- Whether a value is the placeholder for `nil` and for values that nobody reads. -/
def Recording.isPlaceholder (code : Recording) (v : ValueId) : Bool :=
  match code.constant? v with
  | some .nil => true
  | _ => false

/-- A program whose `main` answers a class, or the same class if that raises. -/
def Program.answering : Program where
  file := "answering"
  types := TypeTable.empty.addClass "Animal" none []
  defs := [(Definition.ofSignature "main" .program [] (.metaclass "Animal")).withBody
    (.ofKind (.rescue (.ofKind (.const "Animal" false) (.metaclass "Animal"))
      (.ofKind (.const "Animal" false) (.metaclass "Animal"))) (.metaclass "Animal"))]

/-- Both paths lead to the last block, which returns a placeholder and not the class. -/
theorem Program.placeholder_returned_answering :
    ∃ code, (answering.compile .default).result = .ok code ∧ ∃ instruction ∈ code.instructionsOf ⟨2⟩,
      ∃ v ∈ instruction.op.operands, code.isPlaceholder v = true :=
  exists_code

namespace Lower

variable {env : Env} {s : LowerState} {b : BlockId} {source : Ty}

/-- A value is converted if it is to be of another type, and the type has values. -/
theorem coerce_of_open (v : ValueId) (dest : Ty) (atBlock : s.code.cursor = some b)
    (running : s.code.terminator? b = none) (returns : source.isNoReturn = false) :
    coerce v source dest env s = if source == dest || !dest.hasValue || dest.isNil then .ok v s
      else .ok ⟨s.code.values.size⟩
        { s with code := s.code.written b (.convert v source dest) } := by
  have still : isTerminated env s = .ok false s := by
    rw [← JoinPoint.isTerminated_of_open atBlock running]
    rfl
  unfold coerce
  by_cases same : source == dest
  · rw [if_pos same, same]
    rfl
  · rw [if_neg same, bind_of_ok still, if_neg Bool.false_ne_true, returns, Bool.false_or,
      Bool.eq_false_iff.mpr same, Bool.false_or]
    split
    · rfl
    · exact record_of_ok (Emit.value_of_open atBlock running rfl)

/-- Where nobody needs the aggregate that a call returns, a placeholder stands for it. It is converted
if the call is annotated with another type that has values, and otherwise nothing reads it. -/
theorem placeholder_converted {defn : Definition} (result : ValueId) (ty : Ty)
    (atBlock : s.code.cursor = some b) (present : (s.code.block? b).isSome = true)
    (running : s.code.terminator? b = none) (unneeded : s.context.needsValue = false)
    (aggregate : defn.ret.passedByValue = true) :
    ∃ v s', (do
        let outcome ← uniformReturn defn result
        coerce outcome.value outcome.ty ty) env s = .ok v s' ∧
      s'.code.isPlaceholder ⟨s.code.values.size⟩ = true ∧
      s'.code.instructionsOf b = s.code.instructionsOf b ++
        if defn.ret == ty || !ty.hasValue || ty.isNil then []
        else [⟨some v, .convert ⟨s.code.values.size⟩ defn.ret ty⟩] := by
  have returns : defn.ret.isNoReturn = false := by
    cases ret : defn.ret with
    | noReturn => rw [ret] at aggregate; cases aggregate
    | _ => rfl
  let t : LowerState := { s with code := (s.code.addConstant .nil).2 }
  have answered : uniformReturn defn result env s = .ok ⟨⟨s.code.values.size⟩, defn.ret⟩ t := by
    unfold uniformReturn
    rw [returns, if_neg Bool.false_ne_true, aggregate, if_pos rfl]
    change (if s.context.needsValue then _ else _ : Lower CallOutcome) env s = _
    rw [unneeded]
    rfl
  have placed : t.code.value? ⟨s.code.values.size⟩ = some (.const .nil) := Array.getElem?_push_size
  obtain ⟨data, present⟩ := Option.isSome_iff_exists.mp present
  have present : t.code.block? b = some data := present
  rw [bind_of_ok answered]
  dsimp only
  rw [coerce_of_open _ ty (show t.code.cursor = some b from atBlock) running returns]
  split
  · refine ⟨_, t, rfl, ?_, (List.append_nil _).symm⟩
    rw [isPlaceholder, constant?, placed]
  · refine ⟨_, _, rfl, ?_, written_instructionsOf_self present⟩
    rw [isPlaceholder, constant?, (extends_written b _).value _ _ placed]

end Lower

/-- The state at the start of a function, where nobody needs a value. -/
def LowerState.started : LowerState :=
  let s := LowerState.initial ⟨⟨"", .empty, []⟩, .default⟩
  { s with code := .started, context := { s.context with needsValue := false } }

theorem Lower.placeholder_converted_point :
    LowerState.started.context.needsValue = false ∧ Ty.passedByValue (.struct "Point") = true ∧
      ∃ (v w : ValueId) (s : LowerState), s.code.isPlaceholder w = true ∧
        ⟨some v, .convert w (.struct "Point") .string⟩ ∈ s.code.instructionsOf ⟨0⟩ := by
  obtain ⟨v, s, _, placed, recorded⟩ := @placeholder_converted ⟨⟨"", .empty, []⟩, .default⟩ .started ⟨0⟩
    (.ofSignature "make" .program [] (.struct "Point")) ⟨0⟩ .string (by decide +kernel)
    (by decide +kernel) (by decide +kernel) rfl rfl
  exact ⟨rfl, rfl, v, _, s, placed, recorded ▸ List.mem_append_right _ (List.mem_singleton_self _)⟩

/-- A program that makes a point where a point or `nil` is wanted, and needs neither. -/
def Program.making : Program where
  file := "making"
  types := TypeTable.empty.addStruct "Point" [⟨"x", .int 32 true⟩]
  defs := [
    Definition.ofSignature "make" .program [] (.struct "Point"),
    (Definition.ofSignature "main" .program [] .nil).withBody (.ofKind (.seq [
      .ofCall (.ofTargets "make" ["make"]) (.union [.struct "Point", .nil]), .ofKind .nil .nil]) .nil)]

/-- The placeholder for the point is read all the same: it is converted. -/
theorem Program.placeholder_read_making :
    ∃ code, (making.compile .default).result = .ok code ∧ ∃ instruction ∈ code.instructionsOf ⟨0⟩,
      ∃ v ∈ instruction.op.operands, code.isPlaceholder v = true :=
  exists_code

end CallLowering
