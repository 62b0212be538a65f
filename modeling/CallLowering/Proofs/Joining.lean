import CallLowering.Proofs.Calling

/-!
# Join points

The rules for the constructs that open a join point: what is lowered between opening and closing it
leaves at the frame of the join point (`Does.join`), as does every path that ends there
(`Does.addToJoin`).
-/

namespace CallLowering

open Lower Recording

theorem JoinPoint.entered_cursor (join : JoinPoint) (code : Recording) (exit : BlockId) :
    (join.entered code exit).cursor = some exit := by
  unfold entered
  split <;> rfl

theorem JoinPoint.extends_entered (join : JoinPoint) (code : Recording) (exit : BlockId) :
    code.Extends (join.entered code exit) := by
  unfold entered
  split
  · exact (extends_position exit).trans (extends_written _ _)
  · exact extends_position exit

theorem Effect.leave_mul (frame : Nat) (effect : Effect) : leave frame * effect = leave frame := rfl

section Joins

variable {β : Type} {Γ : Scenario} {σ : Setting} {effect effect' : Effect} {known known1 : Known}
  {s s' t : LowerState} {v : ValueId} {ty : Ty} {needsValue : Bool} {machineType : MachineType}
  {post : Known → LowerState → β → Prop} {j : Nat} {body : Nat → Lower Unit} {result : Option ValueId} {u : Unit}

/-- A path that ends in a join point leaves its frame. -/
theorem Lowers.addToJoin (ran : addToJoin j v ty Γ.env s = .ok u s') (layered : ¬Γ.flat)
    (valid : Site.Valid σ.region ⟨s.code, s.joins⟩) (inside : σ.region.base ≤ j)
    (avail : Γ.Avail σ known s v)
    (never : Γ.sealed → ty.isNoReturn = true → s.code.isTerminated = true) :
    ∃ known', Lowers Γ σ (.leave j) known s known' s' ∧ s'.context = s.context ∧
      (Γ.sealed → s'.code.isTerminated = true) := by
  obtain ⟨join, join', _, opened, added, rfl⟩ := addToJoin_ok ran
  obtain ⟨skipped, rfl, rfl⟩ | ⟨_, block, v', code1, atBlock, running, converted, branched⟩ :=
    JoinPoint.add_ok added
  · -- the path has ended elsewhere, or nothing is promised about where it ends
    have same : s.joins.setIfInBounds j join' = s.joins := by
      obtain ⟨small, rfl⟩ := Array.getElem?_eq_some_iff.mp opened
      rw [Array.setIfInBounds, dif_pos small, Array.set_getElem_self]
    rw [same]
    by_cases ended : s.code.isTerminated = true
    · exact ⟨known, .of_code (.dead ended), rfl, fun _ => ended⟩
    · have open_ : ¬Γ.sealed := fun isSealed =>
        ended (never isSealed (skipped.resolve_left ended))
      exact ⟨known, .of_code (.untraced (fun _ => ⟨layered, open_⟩) .refl), rfl,
        fun isSealed => absurd isSealed open_⟩
  · -- the value is converted first
    obtain ⟨known1, builds1, usable1, atBlock1, running1⟩ : ∃ known1,
        Builds Γ.toRules σ.region 1 known ⟨s.code, s.joins⟩ known1 ⟨code1, s.joins⟩ ∧
          Γ.Usable σ.region.func known1 code1 v' ∧ code1.cursor = some block ∧
          code1.terminator? block = none := by
      obtain ⟨rfl, rfl⟩ | ⟨rfl, rfl⟩ := converted
      · exact ⟨known, .refl, avail, atBlock, running⟩
      · obtain ⟨data, present, _⟩ := valid.placed_at atBlock
        refine ⟨_, @Builds.write Γ.toRules σ.region known s.code s.joins block
          (.convert v ty join.ty) rfl (.plain rfl fun _ read => ?_) nofun atBlock
          running fun _ => Operation.noConfusion, fun _ => .inl (.inr rfl), atBlock,
          terminator?_written present rfl⟩
        rw [List.mem_singleton.mp read]
        exact avail
    have valid1 := builds1.valid valid
    obtain ⟨_, exits, rfl, rfl⟩ | ⟨exits, data, present, rfl, rfl⟩ := branched
    · have builds := builds1.trans (.land layered inside opened exits atBlock1 running1 usable1)
      rw [one_mul] at builds
      exact ⟨known1, ⟨builds, Nat.le_refl _, .refl _ _, id⟩, rfl,
        fun _ => valid1.isTerminated_written atBlock1 rfl⟩
    · obtain ⟨c, data', here, present', owned⟩ := valid1.placed
      obtain rfl : block = c := Option.mem_unique atBlock1 here
      obtain rfl : data = data' := Option.mem_unique present present'
      have builds := builds1.trans (.arrive layered inside opened exits atBlock1 running1 usable1)
      rw [one_mul, ← owned] at builds
      refine ⟨known1, ⟨builds, Nat.le_refl _, .refl _ _, id⟩, rfl, fun _ => ?_⟩
      rw [owned]
      exact (valid1.appendBlock "merge").isTerminated_written atBlock1 rfl

theorem Setting.Adds.of_settled {code : Recording} {x : ScopeId} {name : String}
    {binding : Binding} (settled : σ.entering = false) (allowed : σ.Adds Γ known1 code x name binding) :
    σ.Adds Γ known code x name binding := by
  obtain what | ⟨entering, _⟩ := allowed
  · exact .inl what
  · rw [settled] at entering
    cases entering

/-- What is lowered while a join point is open leaves its frame when the join point is closed. -/
theorem Lowers.join (layered : ¬Γ.flat) (settled : σ.entering = false)
    (valid : Site.Valid σ.region ⟨s.code, s.joins⟩)
    (lowers : Lowers Γ σ effect known { s with joins := s.joins.push (.fresh ty machineType needsValue) } known1 t)
    (ended : Γ.sealed → t.code.isTerminated = true)
    (closed : closeJoin s.joins.size Γ.env t = .ok result s') :
    ∃ known', Lowers Γ σ (effect.close s.joins.size) known s known' s' ∧ s'.context = t.context ∧
      (∀ v ∈ result, Γ.Avail σ known' s' v) ∧ (result = none → s'.code.isTerminated = true) := by
  obtain ⟨join, joins, code, pushed, _, closing, rfl⟩ := closeJoin_ok closed
  have body := lowers.builds
  rw [pushed] at body
  -- what was bound in between is storage or hidden, so it stays available
  have finish : ∀ {known' code'}, t.code.Extends code' →
      Builds Γ.toRules σ.region (effect.close s.joins.size) known ⟨s.code, s.joins⟩ known'
        ⟨code', joins⟩ →
      Lowers Γ σ (effect.close s.joins.size) known s known' { t with code := code', joins := joins } :=
    fun later builds => ⟨builds, lowers.dispatches, lowers.scopes.mono fun _ _ _ _ allowed =>
      (Setting.Adds.of_settled settled allowed).mono (Set.Subset.refl _) later, lowers.memo⟩
  obtain ⟨exits, rfl, ⟨shut, rfl⟩ | ⟨block, atBlock, running, rfl⟩⟩ | ⟨exit, exits, rfl, value⟩ :=
    JoinPoint.close_ok closing
  · exact ⟨known, finish (.refl _) (.unreached layered body exits shut), rfl,
      fun _ given => absurd given (Option.not_mem_none _), fun _ => shut⟩
  · -- the cursor is left where nothing is promised to have ended
    have running' : ¬t.code.isTerminated = true := by
      rw [Recording.isTerminated, atBlock]
      simp [running]
    have open_ : ¬Γ.sealed := fun isSealed => running' (ended isSealed)
    have valid1 := body.valid valid.push
    have stopped := body.trans (@Builds.write Γ.toRules σ.region known1 t.code (joins.push join)
      block .unreachable rfl (.plain rfl (List.forall_mem_nil _))
      (fun _ called => absurd called (Option.not_mem_none _)) atBlock running
      fun _ => Operation.noConfusion)
    have shut := valid1.isTerminated_written atBlock (rfl : Operation.unreachable.isTerminator = true)
    exact ⟨known, finish (extends_written _ _)
      (.untraced (fun _ => ⟨layered, open_⟩) (.unreached layered stopped exits shut)), rfl,
      fun _ given => absurd given (Option.not_mem_none _), fun _ => shut⟩
  · have entered := Builds.reached layered body exits ended
    have later := join.extends_entered t.code exit
    obtain ⟨needed, rfl⟩ | ⟨unneeded, rfl⟩ := value
    · refine ⟨_, finish later entered, rfl, fun v same _ => ?_,
        fun absent => absurd absent (Option.some_ne_none _)⟩
      cases same
      refine .inl (.inr ?_)
      rw [JoinPoint.merged, if_pos needed]
      rfl
    · have builds := entered.trans (.constant .nil)
      rw [mul_one] at builds
      refine ⟨_, finish (later.trans (extends_addConstant _)) builds, rfl, ?_,
        fun absent => absurd absent (Option.some_ne_none _)⟩
      intro v same _
      cases same
      refine .inr (@Recording.Ambient.constant _ _ _ .nil ?_)
      rw [JoinPoint.entered, if_neg (Bool.eq_false_iff.mp unneeded)]
      exact Array.getElem?_push_size

theorem Does.addToJoin (layered : ¬Γ.flat) (inside : σ.region.base ≤ j)
    (avail : Γ.Avail σ known s v)
    (never : Γ.sealed → ty.isNoReturn = true → s.code.isTerminated = true) :
    Does Γ σ (.leave j) known s (addToJoin j v ty) fun _ s' _ =>
      Γ.sealed → s'.code.isTerminated = true :=
  fun ready _ _ ran => Lowers.addToJoin ran layered ready.valid inside avail never

variable {inner : Expr → Lower ValueId} {meaning : Activation → Nat → Expr → Effect} {expr : Expr}

/-- The value of an expression goes to a join point. -/
theorem Handles.joined (handles : Handles Γ inner meaning) (layered : ¬Γ.flat)
    (inside : σ.region.base ≤ j) (source : expr ∈ Γ.sources) :
    Does Γ σ (meaning σ.context.activation σ.frames expr * .leave j) known s
      (do addToJoin j (← inner expr) expr.ty) fun _ s' _ => Γ.sealed → s'.code.isTerminated = true := by
  refine .bind (handles σ _ _ expr (.inl source)) fun _ result => ?_
  exact .addToJoin layered inside result.1 fun isSealed never =>
    result.2 isSealed (Γ.leaves isSealed expr source never)

/-- The setting inside a new join point. -/
def Setting.deeper (σ : Setting) : Setting := { σ with frames := σ.frames + 1 }

theorem Ready.deeper (ready : Ready Γ σ known s) :
    Ready Γ σ.deeper known
      { s with joins := s.joins.push (.fresh ty machineType needsValue) } where
  __ := ready
  valid := ready.valid.push
  frames := by rw [Array.size_push, ready.frames]; rfl

/-- A computation runs while a join point is open, which is closed after it. -/
theorem Ready.bracket {body : Lower Unit} (ready : Ready Γ σ known s) (layered : ¬Γ.flat)
    (settled : σ.entering = false)
    (inside : Does Γ σ.deeper effect known { s with joins := s.joins.push (.fresh ty machineType needsValue) } body fun _ t _ => Γ.sealed → t.code.isTerminated = true)
    (ran : body Γ.env { s with joins := s.joins.push (.fresh ty machineType needsValue) } = .ok u t)
    (closed : closeJoin s.joins.size Γ.env t = .ok result s') :
    ∃ known', Lowers Γ σ (effect.close σ.frames) known s known' s' ∧ s'.context = s.context ∧
      (∀ v ∈ result, Γ.Avail σ known' s' v) ∧ (result = none → s'.code.isTerminated = true) := by
  obtain ⟨known1, lowers, context, ended⟩ := inside ready.deeper u t ran
  have lowers : Lowers Γ σ effect known _ known1 t :=
    ⟨lowers.builds, lowers.dispatches, lowers.scopes, lowers.memo⟩
  obtain ⟨known', lowers', context', holds⟩ := lowers.join layered settled ready.valid ended closed
  rw [ready.frames] at lowers'
  exact ⟨known', lowers', context'.trans context, holds⟩

section

variable (layered : ¬Γ.flat) (settled : σ.entering = false)
  (inside : ∀ machineType needsValue, Does Γ σ.deeper effect known
    { s with joins := s.joins.push (.fresh ty machineType needsValue) } (body σ.frames) fun _ t _ =>
      Γ.sealed → t.code.isTerminated = true)

include layered settled inside

/-- What is lowered between opening and closing a join point leaves at its frame. -/
theorem Does.join {cont : Option ValueId → Lower β}
    (next : ∀ known1 s1 result, Later known s known1 s1 → (∀ v ∈ result, Γ.Avail σ known1 s1 v) → (result = none → s1.code.isTerminated = true) → Does Γ σ 1 known1 s1 (cont result) post) :
    Does Γ σ (effect.close σ.frames) known s
      (openJoin ty >>= fun j => body j >>= fun _ => closeJoin j >>= cont) post := by
  intro ready b s' ran
  obtain ⟨_, _, opened, ran1⟩ := bind_ok ran
  cases opened
  obtain ⟨_, _, done, ran2⟩ := bind_ok ran1
  obtain ⟨result, s2, closed, ran3⟩ := bind_ok ran2
  rw [ready.frames] at done
  obtain ⟨known2, lowers, context, avail, shut⟩ :=
    ready.bracket layered settled (inside _ _) done closed
  obtain ⟨known', lowers', context', holds⟩ := next known2 s2 result (lowers.toLater ready) avail
    shut (ready.after lowers context) b s' ran3
  have both := lowers.trans lowers' ready.valid
  rw [mul_one] at both
  exact ⟨known', both, context'.trans context, holds⟩

/-- The placeholder stands for a value that no path has produced. -/
theorem Does.joinOrNil {act : Nat → Lower β} {cont : ValueId → Lower β}
    (closes : ∀ j, act j = body j >>= fun _ => closeJoinOrNil j >>= cont)
    (next : ∀ known1 s1 v, Later known s known1 s1 → Γ.Avail σ known1 s1 v → Does Γ σ 1 known1 s1 (cont v) post) :
    Does Γ σ (effect.close σ.frames) known s (openJoin ty >>= act) post := by
  simp only [funext closes, closeJoinOrNil, bind_assoc]
  refine .join layered settled inside fun known1 s1 result later avail _ => ?_
  cases result with
  | some v =>
    rw [pure_bind]
    exact next known1 s1 v later (avail v rfl)
  | none => exact .silently .nilValue @fun known2 s2 v later' => next known2 s2 v (later.trans later')

end

/-- The setting in which `next` leaves through the innermost join point. -/
def Setting.nexting (σ : Setting) : Setting :=
  { σ with context := { σ.context with nextJoin := some σ.frames } }

theorem Ready.nexting (ready : Ready Γ σ known s) :
    Ready Γ σ.nexting known { s with context := σ.nexting.context } where
  context := rfl
  __ := ready
  contexts := by
    obtain ⟨rooted, inside, readable, self, scope, breaks, _, handed, callers⟩ := ready.contexts
    refine ⟨rooted, inside, readable, self, scope, breaks, fun _ same => ?_, handed, callers⟩
    cases same
    exact ready.frames ▸ ready.valid.based

/-- A body that `next` leaves through a join point, up to the end of the context. -/
theorem Ends.joinNext (handles : Handles Γ inner meaning) {cont : Option ValueId → Lower β}
    (layered : ¬Γ.flat) (settled : σ.entering = false) (source : expr ∈ Γ.sources)
    (next : ∀ known1 s1 result, Later known s known1 s1 → (∀ v ∈ result, Γ.Avail σ known1 s1 v) →
      (result = none → s1.code.isTerminated = true) →
      Does Γ σ.nexting effect' known1 s1 (cont result) post) :
    Ends Γ σ ((meaning σ.nexting.context.activation (σ.frames + 1) expr).framed σ.frames * effect')
      known s (do
        let j ← openJoin ty
        setContext fun context => { context with nextJoin := some j }
        let value ← inner expr
        addToJoin j value expr.ty
        cont (← closeJoin j)) post := by
  intro ready b s' ran
  obtain ⟨_, _, opened, ran1⟩ := bind_ok ran
  cases opened
  obtain ⟨_, _, set, ran2⟩ := bind_ok ran1
  cases set
  obtain ⟨_, _, evaluated, ran3⟩ := bind_ok ran2
  obtain ⟨_, _, added, ran4⟩ := bind_ok ran3
  obtain ⟨result, s3, closed, ran5⟩ := bind_ok ran4
  rw [ready.frames, ready.context] at evaluated
  rw [ready.frames] at added
  obtain ⟨known2, lowers, context, avail, shut⟩ := ready.nexting.bracket layered settled
    (handles.joined layered (ready.frames ▸ ready.valid.based) source)
    ((bind_of_ok evaluated).trans added) closed
  have later := lowers.toLater ready.nexting
  obtain ⟨known', lowers', _, holds⟩ := next known2 s3 result ⟨later.known, later.code⟩ avail
    shut (ready.nexting.after lowers context) b s' ran5
  have both := lowers.trans lowers' ready.valid
  exact ⟨known', ⟨both.builds, both.dispatches, both.scopes, both.memo⟩, holds⟩

end Joins

end CallLowering
