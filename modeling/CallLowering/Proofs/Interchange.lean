import CallLowering.Proofs.Reordering

/-!
# Lowering one definition in two orders

Each way to record code, and each step at a join point, keeps two runs over definitions in different
orders together.

`Reordering.sound` says that so does all of lowering, while the runs lower one definition.
-/

namespace CallLowering

open Emit

namespace Reordering

variable {R : Reordering} {w : Link}

/-! ## Recording -/

/-- Two ways to record code agree. -/
def Emits (R : Reordering) (w : Link) {α β : Type} (post : Link → α → β → Prop) :
    EStateM.Result RecordError Recording α → EStateM.Result RecordError Recording β → Prop :=
  Coupled False (fun a code1 b code2 => ∃ w', w ≤ w' ∧ R.Codes w' code1 code2 ∧ post w' a b)
    fun code1 code2 => ∃ w', w ≤ w' ∧ R.Codes w' code1 code2

namespace Emits

variable {α β γ δ : Type} {post : Link → α → β → Prop} {post' : Link → γ → δ → Prop}
  {code1 code2 : Recording}

theorem pure (same : R.Codes w code1 code2) {a : α} {b : β} (holds : post w a b) :
    R.Emits w post ((Pure.pure a : Emit α) code1) ((Pure.pure b : Emit β) code2) :=
  ⟨w, le_refl w, same, holds⟩

theorem refused (same : R.Codes w code1 code2) {e1 e2 : RecordError} :
    R.Emits w post (.error e1 code1) (.error e2 code2) :=
  ⟨False.elim, w, le_refl w, same⟩

theorem bind {act1 : Emit α} {act2 : Emit β} {next1 : α → Emit γ} {next2 : β → Emit δ}
    (first : R.Emits w post (act1 code1) (act2 code2))
    (second : ∀ {w' a b code1 code2}, w ≤ w' → R.Codes w' code1 code2 → post w' a b →
      R.Emits w' post' (next1 a code1) (next2 b code2)) :
    R.Emits w post' ((act1 >>= next1) code1) ((act2 >>= next2) code2) := by
  cases ran1 : act1 code1 with
  | ok a mid1 =>
    cases ran2 : act2 code2 with
    | ok b mid2 =>
      rw [ran1, ran2] at first
      obtain ⟨w1, later, same, holds⟩ := first
      rw [bind_of_ok ran1, bind_of_ok ran2]
      refine (second later same holds).mono ?_ ?_
      · rintro _ _ _ _ ⟨w2, further, result⟩
        exact ⟨w2, later.trans further, result⟩
      · rintro _ _ ⟨w2, further, result⟩
        exact ⟨w2, later.trans further, result⟩
    | error e2 mid2 =>
      rw [ran1, ran2] at first
      exact first.elim
  | error e1 mid1 =>
    cases ran2 : act2 code2 with
    | ok b mid2 =>
      rw [ran1, ran2] at first
      exact first.elim
    | error e2 mid2 =>
      rw [ran1, ran2] at first
      rw [bind_of_error ran1, bind_of_error ran2]
      exact first

variable (same : R.Codes w code1 code2)

include same

theorem cursor : R.Emits w (fun w => Option.Rel (R.block w)) (cursor code1) (cursor code2) :=
  ⟨w, le_refl w, same, same.cursor⟩

theorem isTerminated : R.Emits w (fun _ ended1 ended2 => ended1 = ended2) (isTerminated code1)
      (isTerminated code2) :=
  ⟨w, le_refl w, same, same.isTerminated⟩

theorem position {b1 b2 : BlockId} (here : R.block w b1 b2) :
    R.Emits w (fun _ _ _ => True) (position b1 code1) (position b2 code2) :=
  ⟨w, le_refl w, same.position here, trivial⟩

theorem constant (constant : Constant) :
    R.Emits w Link.values (Emit.constant constant code1) (Emit.constant constant code2) :=
  ⟨_, w.le_withValue _ _, same.addValue .const (fun _ => ValueSource.noConfusion)
    fun _ => ValueSource.noConfusion, .inr ⟨rfl, rfl⟩⟩

theorem global (name : String) : R.Emits w Link.values (global name code1) (global name code2) :=
  ⟨_, w.le_withValue _ _, same.addGlobal name, .inr ⟨rfl, rfl⟩⟩

theorem declare {decl : FnDecl}
    (allowed : R.program.Announces R.options.target decl ∨ R.root.HasClosure decl.name) :
    R.Emits w (fun w => w.funcs decl.name) (declare decl code1) (declare decl code2) :=
  ⟨_, w.le_withFunc _ _ _, same.declare allowed, .inr ⟨rfl, rfl, rfl⟩⟩

variable {op1 op2 : Operation}

theorem value (renamed : op1.Renamed (R.numbers w) op2) :
    R.Emits w Link.values (value op1 code1) (value op2 code2) := by
  obtain ⟨_, atBlock1, running1, ran⟩ | ⟨closed, _, _, ran⟩ := value_cases op1 code1
  · obtain ⟨_, here, atBlock2, running2⟩ := same.atOpen atBlock1 running1
    rw [ran, value_at_open atBlock2 running2, ← renamed.hasResult]
    split
    · rename_i has
      exact ⟨_, w.le_withValue _ _, same.writeResult here renamed has, .inr ⟨rfl, rfl⟩⟩
    · exact refused same
  · obtain ⟨_, ran2⟩ := value_of_closed op2 (same.atClosed closed)
    rw [ran, ran2]
    exact refused same

theorem effect (renamed : op1.Renamed (R.numbers w) op2) :
    R.Emits w (fun _ _ _ => True) (effect op1 code1) (effect op2 code2) := by
  obtain ⟨_, atBlock1, running1, ran⟩ | ⟨closed, _, _, ran⟩ := effect_cases op1 code1
  · obtain ⟨_, here, atBlock2, running2⟩ := same.atOpen atBlock1 running1
    obtain ⟨w', later, written⟩ := same.written here renamed
    rw [ran, effect_of_open atBlock2 running2]
    exact ⟨w', later, written, trivial⟩
  · obtain ⟨_, ran2⟩ := effect_of_closed op2 (same.atClosed closed)
    rw [ran, ran2]
    exact refused same

theorem newBlock (label : String) :
    R.Emits w (fun w => R.block w) (newBlock label code1) (newBlock label code2) := by
  have cursor := same.cursor
  generalize atBlock1 : code1.cursor = at1 at cursor
  generalize atBlock2 : code2.cursor = at2 at cursor
  obtain @⟨b1, b2, here⟩ | _ := cursor
  · obtain ⟨_, _, found1, found2, data⟩ := same.blocks.contents b1 b2 here
    obtain ⟨_, own, func⟩ := data.owned
    rw [newBlock_of_present atBlock1 found1, newBlock_of_present atBlock2 found2]
    exact ⟨_, w.le_withBlock, same.appendBlock own func label, same.blocks.next⟩
  · rw [newBlock_of_nowhere atBlock1, newBlock_of_nowhere atBlock2]
    exact refused same

theorem beginRoutine {name : String} {f1 f2 : FuncId} (own : R.root.Owns name)
    (func : w.funcs name f1 f2) :
    R.Emits w (fun w => List.Forall₂ w.values) (beginRoutine f1 code1)
      (beginRoutine f2 code2) := by
  obtain ⟨routine1, routine2, found1, found2, routine⟩ := same.routines.related name f1 f2 func
  have defined : routine1.isDefined = routine2.isDefined := by
    have lengths := (routine.body own).blocks.length_eq
    rw [Array.length_toList, Array.length_toList] at lengths
    rw [Routine.isDefined, Routine.isDefined, Array.isEmpty, Array.isEmpty, lengths]
  cases body : routine1.isDefined with
  | true =>
    rw [beginRoutine_of_defined found1 body, beginRoutine_of_defined found2 (defined ▸ body)]
    exact refused same
  | false =>
    rw [beginRoutine_of_bodiless found1 body, beginRoutine_of_bodiless found2 (defined ▸ body),
      ← routine.decl]
    exact same.begun own func _

end Emits

/-! ## Join points -/

namespace SameJoin

variable {join1 join2 : JoinPoint} {code1 code2 : Recording}

theorem materializes (join : R.SameJoin w join1 join2) :
    join1.materializes = join2.materializes := by
  rw [JoinPoint.materializes, JoinPoint.materializes, join.needsValue, join.ty]

/-- A value of another type is converted before it is taken in. -/
theorem receive_of_other {join : JoinPoint} {ty : Ty} (kept : join.materializes = true)
    (other : (ty == join.ty) = false) (v : ValueId) : join.receive v ty =
      value (.convert v ty join.ty) >>= fun value => join.receive value join.ty := by
  unfold JoinPoint.receive
  simp [kept, other]

variable (join : R.SameJoin w join1 join2) (same : R.Codes w code1 code2)

include join same

variable {v1 v2 : ValueId}

theorem receiveSame (value : w.values v1 v2) :
    R.Emits w R.SameJoin (join1.receive v1 join1.ty code1) (join2.receive v2 join1.ty code2) := by
  unfold JoinPoint.receive
  rw [← join.materializes, beq_self_eq_true, beq_iff_eq.mpr join.ty]
  cases join1.materializes with
  | false => exact .pure same join
  | true =>
    refine .bind (.pure same value) fun later1 same1 value1 => ?_
    refine .bind (.cursor same1) fun later2 same2 here => ?_
    obtain here | _ := here
    · refine .pure same2 ⟨join.ty, join.machineType, join.needsValue,
        cursor_mono (later1.trans later2) join.exit, ?_⟩
      exact List.rel_append (join.mono (later1.trans later2)).incoming
        (.cons ⟨later2.1 value1, here⟩ .nil)
    · exact .refused same2

theorem receive (value : w.values v1 v2) (ty : Ty) :
    R.Emits w R.SameJoin (join1.receive v1 ty code1) (join2.receive v2 ty code2) := by
  cases kept : join1.materializes with
  | false =>
    unfold JoinPoint.receive
    rw [← join.materializes, kept]
    exact .pure same join
  | true =>
    cases other : ty == join1.ty with
    | true =>
      rw [beq_iff_eq.mp other]
      exact join.receiveSame same value
    | false =>
      rw [receive_of_other kept other, receive_of_other (join.materializes ▸ kept) (join.ty ▸ other),
        ← join.ty]
      exact .bind (.value same (.convert value)) fun later1 same1 value1 =>
        (join.mono later1).receiveSame same1 value1

theorem openExit : R.Emits w (fun w opened1 opened2 => R.block w opened1.1 opened2.1 ∧
      R.SameJoin w opened1.2 opened2.2) (join1.openExit code1) (join2.openExit code2) := by
  have exit := join.exit
  unfold JoinPoint.openExit
  generalize exits1 : join1.exit = exit1 at exit
  generalize exits2 : join2.exit = exit2 at exit
  obtain here | _ := exit
  · exact .pure same ⟨here, join⟩
  · refine .bind (.newBlock same "merge") fun later1 same1 block => ?_
    exact .pure same1 ⟨block, join.ty, join.machineType, join.needsValue, .some block,
      (join.mono later1).incoming⟩

theorem add (value : w.values v1 v2) (ty : Ty) :
    R.Emits w R.SameJoin (join1.add v1 ty code1) (join2.add v2 ty code2) := by
  refine .bind (.isTerminated same) @fun _ ended _ _ _ later1 same1 equal => ?_
  subst equal
  have join := join.mono later1
  cases ended with
  | true => exact .pure same1 join
  | false =>
    cases ty.isNoReturn with
    | true => exact .pure same1 join
    | false =>
      refine .bind (join.receive same1 (later1.1 value) ty) fun _ same2 join2 => ?_
      refine .bind (join2.openExit same2) fun _ same3 opened => ?_
      refine .bind (.effect same3 (.br opened.1)) fun later4 same4 _ => ?_
      exact .pure same4 (opened.2.mono later4)

theorem close :
    R.Emits w (fun w => Option.Rel w.values) (join1.close code1) (join2.close code2) := by
  have exit := join.exit
  unfold JoinPoint.close
  generalize exits1 : join1.exit = exit1 at exit
  generalize exits2 : join2.exit = exit2 at exit
  obtain here | _ := exit
  · refine .bind (.position same here) fun later1 same1 _ => ?_
    rw [← join.materializes, ← join.machineType]
    cases join1.materializes with
    | true =>
      refine .bind (.value same1 (.phi (join.mono later1).incoming)) @fun w2 _ _ _ _ _ same2 value => ?_
      exact .pure same2 (.some value)
    | false =>
      refine .bind (.constant same1 .nil) fun _ same2 value => ?_
      exact .pure same2 (.some value)
  · refine .bind (.isTerminated same) @fun _ ended _ _ _ _ same1 equal => ?_
    subst equal
    cases ended with
    | true => exact .pure same1 .none
    | false =>
      refine .bind (.effect same1 .unreachable) fun _ same2 _ => ?_
      exact .pure same2 .none

end SameJoin

/-! ## Soundness -/

section Joins

variable {α β : Type} {related : α → β → Prop} {as : List α} {bs : List β} {a : α} {b : β}

theorem forall₂_getElem? (same : List.Forall₂ related as bs) {i : Nat} (left : as[i]? = some a)
    (right : bs[i]? = some b) : related a b := by
  obtain ⟨inside1, rfl⟩ := List.getElem?_eq_some_iff.mp left
  obtain ⟨inside2, rfl⟩ := List.getElem?_eq_some_iff.mp right
  exact same.get inside1 inside2

theorem forall₂_set (same : List.Forall₂ related as bs) (i : Nat) (here : related a b) :
    List.Forall₂ related (as.set i a) (bs.set i b) := by
  induction same generalizing i with
  | nil => exact .nil
  | cons first rest ih =>
    cases i with
    | zero => exact .cons here rest
    | succ i => exact .cons first (ih i)

theorem forall₂_concat (same : List.Forall₂ related (as ++ [a]) (bs ++ [b])) :
    List.Forall₂ related as bs ∧ related a b := by
  have backwards := List.forall₂_reverse_iff.mpr same
  rw [List.reverse_concat, List.reverse_concat, List.forall₂_cons] at backwards
  exact ⟨List.forall₂_reverse_iff.mp backwards.2, backwards.1⟩

end Joins

variable {j1 j2 : Array JoinPoint}

/-- Code that is recorded alike keeps the sites of the runs together. -/
theorem Emits.records {α β : Type} {post : Link → α → β → Prop}
    {r1 : EStateM.Result RecordError Recording α} {r2 : EStateM.Result RecordError Recording β}
    (emits : R.Emits w post r1 r2) (joins : List.Forall₂ (R.SameJoin w) j1.toList j2.toList) :
    R.coupling.Records w j1 j2 post r1 r2 := by
  refine Coupled.mono emits ?_ ?_
  · rintro _ _ _ _ ⟨w', later, same, holds⟩
    exact ⟨w', later, ⟨same, joins.imp fun _ _ => .mono later⟩, holds⟩
  · rintro _ _ ⟨w', later, same⟩
    exact ⟨w', later, same, joins.imp fun _ _ => .mono later⟩

theorem add {code1 code2 : Recording} {v1 v2 : ValueId} {join1 join2 : JoinPoint} {index : Nat}
    (ty : Ty) (site : R.coupling.site w ⟨code1, j1⟩ ⟨code2, j2⟩) (value : w.values v1 v2)
    (opened1 : j1[index]? = some join1) (opened2 : j2[index]? = some join2) : Coupled False
      (fun join1' c1' join2' c2' => ∃ w', w ≤ w' ∧ R.coupling.site w'
        ⟨c1', j1.setIfInBounds index join1'⟩ ⟨c2', j2.setIfInBounds index join2'⟩)
      (fun c1' c2' => ∃ w', w ≤ w' ∧ R.coupling.site w' ⟨c1', j1⟩ ⟨c2', j2⟩)
      (join1.add v1 ty code1) (join2.add v2 ty code2) := by
  obtain ⟨same, joins⟩ := site
  rw [← Array.getElem?_toList] at opened1 opened2
  have join := forall₂_getElem? joins opened1 opened2
  refine (join.add same value ty).mono ?_ ?_
  · rintro join1' c1' join2' c2' ⟨w', later, same', join'⟩
    refine ⟨w', later, same', ?_⟩
    dsimp only
    rw [Array.toList_setIfInBounds, Array.toList_setIfInBounds]
    exact forall₂_set (joins.imp fun _ _ => .mono later) index join'
  · rintro c1' c2' ⟨w', later, same'⟩
    exact ⟨w', later, same', joins.imp fun _ _ => .mono later⟩

theorem classification {w : Stage Link} {defn : Definition} (tail : List Ty) (loc : Location)
    (member : defn ∈ R.program.defs) :
    R.coupling.Runs w (Lower.classification defn tail loc) (Lower.classification defn tail loc)
      fun _ known1 known2 => known1 = known2 ∧
        ∀ spec ∈ defn.foreign, R.coupling.declares (Lower.foreignPrototype defn spec known1) := by
  intro s1 s2 states
  obtain ⟨same, _⟩ := states.site
  obtain ⟨_, _, ran1, faithful₁⟩ :=
    Lower.classification_run R.coupling.left defn tail loc states.memory.1 same.target.1 same.types.1
  obtain ⟨_, _, ran2, faithful₂⟩ :=
    Lower.classification_run R.coupling.right defn tail loc states.memory.2 same.target.2 same.types.2
  rw [ran1, ran2]
  refine ⟨w, le_refl w, ?_, rfl, fun _ foreign =>
    .inl (Lower.foreignPrototype_classify .. ▸ .foreign member foreign)⟩
  exact {
    __ := states
    memory := ⟨faithful₁, faithful₂⟩
    events := trivial
    closures := states.closures }

/-- All of lowering keeps two runs over definitions in different orders together while they lower one
definition. -/
theorem sound (R : Reordering) : R.coupling.Sound where
  types := rfl
  file := rfl
  target name := (Program.target?_ordered R.named.toNamesApart R.left_perm name).trans
    (Program.target?_ordered R.named.toNamesApart R.right_perm name).symm
  nesting expr := (Program.nestingBound_ordered R.left_perm expr).trans
    (Program.nestingBound_ordered R.right_perm expr).symm
  callable found := R.left_perm.mem_iff.mp (Program.target?_mem found)
  clean member := .inr fun name mentioned hidden =>
    R.named.shown name (List.mem_flatMap.mpr ⟨_, member, mentioned⟩) hidden.head
  aligned := False.elim
  needs _ := rfl
  report _ _ := trivial
  closure number own := .inr (own.closure number)
  definition member domestic := .inl (.definition member domestic)
  initializer name := .inl (.initializer name)
  closureDeclared number _ own := .inr (own.closure number)
  frames site := site.2.length_eq
  cursor site := site.1.cursor
  isTerminated site := site.1.isTerminated
  constant constant site := (Emits.constant site.1 constant).records site.2
  global name site := (Emits.global site.1 name).records site.2
  declare site allowed := (Emits.declare site.1 allowed).records site.2
  beginRoutine site own func := (Emits.beginRoutine site.1 own func).records site.2
  newBlock label site := (Emits.newBlock site.1 label).records site.2
  position site here := ⟨site.1.position here, site.2⟩
  emit site renamed := (Emits.value site.1 renamed).records site.2
  effect site renamed := (Emits.effect site.1 renamed).records site.2
  openJoin ty machineType site needs := by
    refine ⟨site.1, ?_⟩
    dsimp only
    rw [Array.toList_push, Array.toList_push]
    exact List.rel_append site.2 (.cons ⟨rfl, rfl, needs, .none, .nil⟩ .nil)
  add := add
  close site := by
    obtain ⟨same, joins⟩ := site
    dsimp only at joins
    rw [Array.toList_push, Array.toList_push] at joins
    obtain ⟨outer, join⟩ := forall₂_concat joins
    exact (join.close same).records outer
  classification := classification

end Reordering

end CallLowering
