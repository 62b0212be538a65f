import CallLowering.Proofs.Coupling

/-!
# Computations in lockstep

The rules for `Coupling.Runs`: how computations are put together in both runs at once, and what each
primitive of lowering does to corresponding states. What a function of lowering does in two runs is
then shown along its text.
-/

namespace CallLowering

open Lower

namespace Lower

variable {env : Env} {s : LowerState} {index : Nat}

theorem addToJoin_run {value : ValueId} {ty : Ty} :
    addToJoin index value ty env s =
      match s.joins[index]? with
      | none => .error (.backend (.noJoinPoint index)) s
      | some join =>
        match join.add value ty s.code with
        | .ok join code => .ok () { s with code := code, joins := s.joins.setIfInBounds index join }
        | .error error code => .error (.backend (.record error)) { s with code := code } := by
  unfold addToJoin
  change (match s.joins[index]? with
    | none => throw _
    | some join => _ : Lower Unit) env s = _
  cases s.joins[index]? with
  | none => rfl
  | some join =>
    change EStateM.bind (record (join.add value ty) env) _ s = _
    unfold EStateM.bind record
    dsimp only
    cases join.add value ty s.code <;> rfl

theorem closeJoin_run :
    closeJoin index env s =
      if index + 1 ≠ s.joins.size then .error (.backend (.closedOutOfOrder index)) s
      else
        match s.joins.back? with
        | none => .error (.backend .noJoinPoints) s
        | some join =>
          match join.close s.code with
          | .ok result code => .ok result { s with code := code, joins := s.joins.pop }
          | .error error code =>
            .error (.backend (.record error)) { s with code := code, joins := s.joins.pop } := by
  unfold closeJoin
  change (if index + 1 ≠ s.joins.size then throw _ else _ : Lower (Option ValueId)) env s = _
  split
  · rfl
  · change (match s.joins.back? with
      | none => throw _
      | some join => _ : Lower (Option ValueId)) env s = _
    cases s.joins.back? with
    | none => rfl
    | some join =>
      change record join.close env { s with joins := s.joins.pop } = _
      unfold record
      dsimp only
      cases join.close s.code <;> rfl

end Lower

namespace Coupling

variable {W : Type} [Preorder W] {C : Coupling W} {w : Stage W} {α β α' β' : Type}

/-! ## States -/

section States

variable {s1 s2 : LowerState} {joins1 joins2 : Array JoinPoint} {code1 code2 : Recording} {link : W}

theorem Core.ofSite (core : C.Core w s1 s2) (later : w.1 ≤ link)
    (site : C.site link ⟨code1, joins1⟩ ⟨code2, joins2⟩) :
    C.Core (link, w.2) { s1 with code := code1, joins := joins1 }
      { s2 with code := code2, joins := joins2 } where
  site := site
  scopes := core.scopes.mono later
  __ := core

/-- Other code and join points are recorded, and more numbers correspond. -/
theorem States.ofSite (states : C.States w s1 s2) (later : w.1 ≤ link)
    (site : C.site link ⟨code1, joins1⟩ ⟨code2, joins2⟩) :
    C.States (link, w.2) { s1 with code := code1, joins := joins1 }
      { s2 with code := code2, joins := joins2 } where
  toCore := states.toCore.ofSite later site
  context := states.context.mono ⟨later, Nat.le_refl _⟩
  closures := states.closures

/-- Lowering goes on in other contexts. -/
theorem States.inContext {c1 c2 : Context} (states : C.States w s1 s2)
    (context : C.SameContext w c1 c2) :
    C.States w { s1 with context := c1 } { s2 with context := c2 } where
  __ := states
  context := context

end States

/-! ## Putting computations together -/

section Rules

variable {act1 : Lower α} {act2 : Lower β} {next1 : α → Lower α'} {next2 : β → Lower β'}
  {post : Stage W → α → β → Prop} {post' : Stage W → α' → β' → Prop}

theorem Runs.pure {a : α} {b : β} (holds : post w a b) : C.Runs w (pure a) (pure b) post :=
  fun _ _ states => ⟨w, le_refl w, states, holds⟩

theorem Runs.bind (first : C.Runs w act1 act2 post)
    (next : ∀ {w' a b}, w ≤ w' → post w' a b → C.Runs w' (next1 a) (next2 b) post') :
    C.Runs w (act1 >>= next1) (act2 >>= next2) post' := by
  intro s1 s2 states
  have ran := first s1 s2 states
  change Coupled _ _ _ (EStateM.bind (act1 C.left) (fun a => next1 a C.left) s1)
    (EStateM.bind (act2 C.right) (fun b => next2 b C.right) s2)
  unfold EStateM.bind
  refine ran.both ?_ fun _ _ _ _ => And.intro
  rintro a s1' b s2' ⟨w1, later1, states1, holds⟩
  refine (next later1 holds s1' s2' states1).mono ?_ ?_
  · rintro _ _ _ _ ⟨w2, later2, rest⟩
    exact ⟨w2, later1.trans later2, rest⟩
  · rintro _ _ ⟨w2, later2, rest⟩
    exact ⟨w2, later1.trans later2, rest⟩

theorem Runs.mono {post'' : Stage W → α → β → Prop} (runs : C.Runs w act1 act2 post)
    (weaker : ∀ {w' a b}, w ≤ w' → post w' a b → post'' w' a b) : C.Runs w act1 act2 post'' := by
  intro s1 s2 states
  refine (runs s1 s2 states).mono ?_ fun _ _ failed => failed
  rintro a s1' b s2' ⟨w', later, states', holds⟩
  exact ⟨w', later, states', weaker later holds⟩

/-- The second computation uses nothing of what the first answers. -/
theorem Runs.andThen (first : C.Runs w act1 act2 post)
    (next : ∀ {w' a b}, w ≤ w' → C.Runs w' (next1 a) (next2 b) post') :
    C.Runs w (act1 >>= next1) (act2 >>= next2) post' :=
  first.bind fun later _ => next later

theorem Runs.discard (runs : C.Runs w act1 act2 post) :
    C.Runs w (discard act1) (discard act2) fun _ _ _ => True := by
  intro s1 s2 states
  have ran := runs s1 s2 states
  change Coupled _ _ _ (EStateM.map _ (act1 C.left) s1) (EStateM.map _ (act2 C.right) s2)
  unfold EStateM.map
  refine ran.both ?_ fun _ _ _ _ => And.intro
  rintro a s1' b s2' ⟨w1, later1, states1, _⟩
  exact ⟨w1, later1, states1, trivial⟩

theorem Runs.throw {e1 e2 : LowerError} (same : C.exact → e1 = e2) :
    C.Runs w (throw e1 : Lower α) (throw e2 : Lower β) post :=
  fun _ _ states => ⟨same, w, le_refl w, states⟩

variable {c1 c2 : Context} {loc : Location} {index : Nat} {name n1 n2 : String} {b1 b2 : Binding}
  {h1 h2 : BlockId} {f1 f2 : Fault} {xs : List α} {op1 op2 : Operation} {ty : Ty}

theorem Runs.fault (same : C.exact → f1 = f2) :
    C.Runs w (fault f1 loc : Lower α) (fault f2 loc : Lower β) post :=
  .throw fun exact => by rw [same exact]

theorem Runs.orFault {R : α → β → Prop} {value1 : Option α} {value2 : Option β}
    (values : Option.Rel R value1 value2) (same : C.exact → f1 = f2) :
    C.Runs w (orFault value1 f1 loc) (orFault value2 f2 loc) fun _ => R := by
  cases values with
  | none => exact .fault same
  | some related => exact .pure related

theorem Runs.orFault_same {value : Option α} {cause : Fault} :
    C.Runs w (Lower.orFault value cause loc) (Lower.orFault value cause loc)
      fun _ a b => value = some a ∧ a = b := by
  cases value with
  | none => exact .fault fun _ => rfl
  | some a => exact .pure ⟨rfl, rfl⟩

theorem Runs.ite {condition : Prop} [Decidable condition] {yes1 no1 : Lower α} {yes2 no2 : Lower β}
    (yes : condition → C.Runs w yes1 yes2 post) (no : ¬condition → C.Runs w no1 no2 post) :
    C.Runs w (if condition then yes1 else no1) (if condition then yes2 else no2) post := by
  split
  · exact yes ‹_›
  · exact no ‹_›

/-! ## Reading -/

theorem Runs.program_bind {next1 : Program → Lower α'} {next2 : Program → Lower β'}
    (next : C.Runs w (next1 C.left.program) (next2 C.right.program) post') :
    C.Runs w (program >>= next1) (program >>= next2) post' := next

theorem Runs.context_bind {next1 : Context → Lower α'} {next2 : Context → Lower β'}
    (next : ∀ c1 c2, C.SameContext w c1 c2 → C.Runs w (next1 c1) (next2 c2) post') :
    C.Runs w (context >>= next1) (context >>= next2) post' :=
  fun s1 s2 states => next _ _ states.context s1 s2 states

theorem Runs.lookup (named : C.SameName n1 n2) :
    C.Runs w (lookup? n1) (lookup? n2) fun w => Option.Rel (C.SameBinding w) := by
  intro s1 s2 states
  exact ⟨w, le_refl w, states, states.scopes.lookup? states.context.here.scope named⟩

theorem Runs.read_bind {next1 : Env → Lower α'} {next2 : Env → Lower β'}
    (next : C.Runs w (next1 C.left) (next2 C.right) post') :
    C.Runs w (read >>= next1) (read >>= next2) post' :=
  next

theorem Runs.get_bind {next1 : LowerState → Lower α'} {next2 : LowerState → Lower β'}
    (next : ∀ s1 s2, C.States w s1 s2 → C.Runs w (next1 s1) (next2 s2) post') :
    C.Runs w (get >>= next1) (get >>= next2) post' :=
  fun s1 s2 states => next s1 s2 states s1 s2 states

/-! ## Recording -/

theorem Runs.record {act1 : Emit α} {act2 : Emit β} {post : W → α → β → Prop}
    (records : ∀ {c1 c2 j1 j2}, C.site w.1 ⟨c1, j1⟩ ⟨c2, j2⟩ →
      C.Records w.1 j1 j2 post (act1 c1) (act2 c2)) :
    C.Runs w (record act1) (record act2) fun w => post w.1 := by
  intro s1 s2 states
  have recorded := records states.site
  unfold Lower.record
  refine recorded.both ?_ ?_
  · rintro a c1 b c2 ⟨link, later, site, holds⟩
    exact ⟨(link, w.2), ⟨later, Nat.le_refl _⟩, states.ofSite later site, holds⟩
  · rintro e1 c1 e2 c2 same ⟨link, later, site⟩
    exact ⟨fun exact => by rw [same exact], (link, w.2), ⟨later, Nat.le_refl _⟩,
      states.ofSite later site⟩

/-! ## State besides the code -/

theorem Runs.newScope {p1 p2 : Option ScopeId} (parent : Option.Rel (C.Scope w) p1 p2) :
    C.Runs w (newScope p1) (newScope p2) C.Scope := by
  intro s1 s2 states
  obtain ⟨scopes, scope⟩ := states.scopes.add parent
  have later : w ≤ (w.1, w.2 + 1) := ⟨le_refl _, Nat.le_succ _⟩
  exact ⟨_, later, ⟨⟨states.site, scopes, states.dispatches, states.memory, states.events⟩,
    states.context.mono later, states.closures⟩, scope⟩

theorem Runs.declareIn {x1 x2 : ScopeId} (scope : C.Scope w x1 x2) (named : C.SameName n1 n2)
    (binding : C.SameBinding w b1 b2) :
    C.Runs w (declareIn x1 n1 b1) (declareIn x2 n2 b2) fun _ _ _ => True :=
  fun _ _ states => ⟨w, le_refl w,
    { states with scopes := states.scopes.declare scope named binding }, trivial⟩

theorem Runs.declare (named : C.SameName n1 n2) (binding : C.SameBinding w b1 b2) :
    C.Runs w (declare n1 b1) (declare n2 b2) fun _ _ _ => True := by
  exact .context_bind fun _ _ context => .declareIn context.here.scope named binding

theorem Runs.nextClosure :
    C.Runs w nextClosure nextClosure fun _ number1 number2 => number1 = number2 :=
  fun _ _ states => ⟨w, le_refl w, { states with closures := congrArg (· + 1) states.closures },
    states.closures⟩

/-- The numbers of corresponding dispatches. -/
def SameDispatch (C : Coupling W) (id1 id2 : Nat) : Prop :=
  ∃ k, id1 = C.dispatches.1 + (k + 1) ∧ id2 = C.dispatches.2 + (k + 1)

theorem Runs.nextDispatch : C.Runs w nextDispatch nextDispatch fun _ => C.SameDispatch := by
  intro s1 s2 states
  obtain ⟨k, left, right⟩ := states.dispatches
  have next1 : s1.dispatches + 1 = C.dispatches.1 + (k + 1) := by rw [left, Nat.add_assoc]
  have next2 : s2.dispatches + 1 = C.dispatches.2 + (k + 1) := by rw [right, Nat.add_assoc]
  exact ⟨w, le_refl w, { states with dispatches := ⟨k + 1, next1, next2⟩ }, k, next1, next2⟩

/-! ## Contexts -/

theorem tail_rel {R : α → β → Prop} {ys : List β} (rows : List.Forall₂ R xs ys) :
    List.Forall₂ R xs.tail ys.tail := by
  cases rows with
  | nil => exact .nil
  | cons _ rest => exact rest

theorem Runs.setContext {change1 change2 : Context → Context}
    (same : ∀ c1 c2, C.SameContext w c1 c2 → C.SameContext w (change1 c1) (change2 c2)) :
    C.Runs w (setContext change1) (setContext change2) fun _ _ _ => True :=
  fun _ _ states => ⟨w, le_refl w, states.inContext (same _ _ states.context), trivial⟩

/-- Contexts that are changed in corresponding ways before and after correspond in between. -/
theorem Runs.around {enter1 enter2 leave1 leave2 : Context → Context}
    (enter : ∀ {c1 c2}, C.SameContext w c1 c2 → C.SameContext w (enter1 c1) (enter2 c2))
    (leave : ∀ {w' c1 c2}, w ≤ w' → C.SameContext w' c1 c2 →
      C.SameContext w' (leave1 c1) (leave2 c2)) (runs : C.Runs w act1 act2 post) :
    C.Runs w (around enter1 leave1 act1) (around enter2 leave2 act2) post := by
  intro s1 s2 states
  have ran := runs _ _ (states.inContext (enter states.context))
  unfold Lower.around
  refine ran.both ?_ ?_
  · rintro a s1' b s2' ⟨w', later, states', holds⟩
    exact ⟨w', later, states'.inContext (leave later states'.context), holds⟩
  · rintro e1 s1' e2 s2' same ⟨w', later, states'⟩
    exact ⟨same, w', later, states'.inContext (leave later states'.context)⟩

section

variable (same : C.SameContext w c1 c2)

include same

theorem Runs.withContext (runs : C.Runs w act1 act2 post) :
    C.Runs w (withContext c1 act1) (withContext c2 act2) post :=
  .context_bind fun _ _ outer => .around (fun _ => same) (fun later _ => outer.mono later) runs

theorem SameContext.using {needed1 needed2 : Bool} (needs : C.needs needed1 needed2) :
    C.SameContext w { c1 with needsValue := needed1 } { c2 with needsValue := needed2 } :=
  same.ofFrame { same.here with needs := needs } rfl rfl

theorem SameContext.guarded (handler : C.Block w h1 h2) :
    C.SameContext w { c1 with handlers := h1 :: c1.handlers }
      { c2 with handlers := h2 :: c2.handlers } :=
  same.ofFrame { same.here with handlers := .cons handler same.here.handlers } rfl rfl

theorem SameContext.unguarded :
    C.SameContext w { c1 with handlers := c1.handlers.tail }
      { c2 with handlers := c2.handlers.tail } :=
  same.ofFrame { same.here with handlers := tail_rel same.here.handlers } rfl rfl

theorem SameContext.nexting (join : Nat) :
    C.SameContext w { c1 with nextJoin := some join } { c2 with nextJoin := some join } :=
  same.ofFrame { same.here with nextJoin := rfl } rfl rfl

end

theorem Runs.withHandler (handler : C.Block w h1 h2) (runs : C.Runs w act1 act2 post) :
    C.Runs w (withHandler h1 act1) (withHandler h2 act2) post :=
  .around (fun context => context.guarded handler) (fun _ context => context.unguarded) runs

/-! ## Rows -/

theorem Runs.mapM {P : Stage W → α' → β' → Prop} {f1 : α → Lower α'} {f2 : α → Lower β'}
    (grow : ∀ {w w' a b}, w ≤ w' → P w a b → P w' a b)
    (each : ∀ w', w ≤ w' → ∀ x ∈ xs, C.Runs w' (f1 x) (f2 x) P) :
    C.Runs w (xs.mapM f1) (xs.mapM f2) fun w => List.Forall₂ (P w) := by
  induction xs generalizing w with
  | nil => exact .pure .nil
  | cons x xs ih =>
    rw [List.mapM_cons, List.mapM_cons]
    refine (each w (le_refl w) x List.mem_cons_self).bind fun later1 first => ?_
    refine (ih fun w' later y member => each w' (later1.trans later) y
      (List.mem_cons_of_mem _ member)).bind fun later2 rest => ?_
    exact .pure (.cons (grow later2 first) rest)

theorem Runs.forM {f1 f2 : α → Lower PUnit}
    (each : ∀ w', w ≤ w' → ∀ x ∈ xs, C.Runs w' (f1 x) (f2 x) fun _ _ _ => True) :
    C.Runs w (xs.forM f1) (xs.forM f2) fun _ _ _ => True := by
  induction xs generalizing w with
  | nil => exact .pure trivial
  | cons x xs ih =>
    refine (each w (le_refl w) x List.mem_cons_self).andThen fun later1 => ?_
    exact ih fun w' later y member => each w' (later1.trans later) y (List.mem_cons_of_mem _ member)

/-! ## Sound couplings -/

variable (sound : C.Sound)

include sound

theorem Runs.types_bind {next1 : TypeTable → Lower α'} {next2 : TypeTable → Lower β'}
    (next : C.Runs w (next1 C.left.program.types) (next2 C.left.program.types) post') :
    C.Runs w (types >>= next1) (types >>= next2) post' := by
  intro s1 s2 states
  have ran := next s1 s2 states
  change Coupled _ _ _ (next1 C.left.program.types C.left s1) (next2 C.right.program.types C.right s2)
  rw [← sound.types]
  exact ran

theorem Runs.isTerminated_bind {next1 : Bool → Lower α'} {next2 : Bool → Lower β'}
    (next : ∀ ended, C.Runs w (next1 ended) (next2 ended) post') :
    C.Runs w (isTerminated >>= next1) (isTerminated >>= next2) post' := by
  intro s1 s2 states
  have ran := next s1.code.isTerminated s1 s2 states
  change Coupled _ _ _ (next1 s1.code.isTerminated C.left s1) (next2 s2.code.isTerminated C.right s2)
  rw [← sound.isTerminated states.site]
  exact ran

theorem Runs.definition :
    C.Runs w (Lower.definition name loc) (Lower.definition name loc)
      fun _ defn1 defn2 => defn1 = defn2 ∧ C.calls defn1 := by
  refine .program_bind ?_
  rw [← sound.target]
  exact Runs.orFault_same.mono fun _ found => ⟨found.2, sound.callable found.1⟩

theorem Runs.emit (same : C.SameOp w.1 op1 op2) : C.Runs w (emit op1) (emit op2) C.Value :=
  .record fun site => sound.emit site same

theorem Sound.emitEffect (same : C.SameOp w.1 op1 op2) :
    C.Runs w (emitEffect op1) (emitEffect op2) fun _ _ _ => True :=
  .record fun site => sound.effect site same

theorem Runs.constant {value : Constant} : C.Runs w (constant value) (constant value) C.Value :=
  .record fun site => sound.constant value site

theorem Sound.nilValue : C.Runs w nilValue nilValue C.Value :=
  .constant sound

theorem Runs.global :
    C.Runs w (Lower.record (Emit.global name)) (Lower.record (Emit.global name)) C.Value :=
  .record fun site => sound.global name site

theorem Runs.newBlock {label : String} : C.Runs w (newBlock label) (newBlock label) C.Block :=
  .record fun site => sound.newBlock label site

theorem Runs.position {b1 b2 : BlockId} (same : C.Block w b1 b2) :
    C.Runs w (position b1) (position b2) fun _ _ _ => True :=
  fun _ _ states => ⟨w, le_refl w, states.ofSite (le_refl _) (sound.position states.site same), trivial⟩

theorem Runs.cursor : C.Runs w cursor cursor fun w => Option.Rel (C.Block w) :=
  fun _ _ states => ⟨w, le_refl w, states, sound.cursor states.site⟩

theorem Sound.declareFn {decl : FnDecl} (listed : C.declares decl) :
    C.Runs w (declareFn decl) (declareFn decl) fun w => C.Func w decl.name :=
  .record fun site => sound.declare site listed

theorem Runs.beginRoutine {f1 f2 : FuncId} (own : C.own name)
    (func : C.Func w name f1 f2) : C.Runs w (beginRoutine f1) (beginRoutine f2) C.Values :=
  .record fun site => sound.beginRoutine site own func

theorem Runs.report {event : Event} : C.Runs w (report event) (report event) fun _ _ _ => True :=
  fun _ _ states => ⟨w, le_refl w, { states with events := sound.report event states.events }, trivial⟩

theorem Runs.withNeedsValue {needed : Bool} (runs : C.Runs w act1 act2 post) :
    C.Runs w (withNeedsValue needed act1) (withNeedsValue needed act2) post :=
  .context_bind fun _ _ outer => .around (fun context => context.using (sound.needs needed))
    (fun _ context => context.using outer.here.needs) runs

theorem Sound.freshContext (own : C.own name) :
    C.Runs w (freshContext name) (freshContext name) C.SameContext := by
  refine .program_bind ?_
  rw [sound.file]
  refine Runs.bind (.newScope .none) fun _ scope => .pure ?_
  exact .intro ⟨rfl, own, rfl, scope, scope, .none, rfl, .none, sound.needs true, .nil, .none, rfl, rfl⟩
    nofun

/-- A computation moves the cursors, which are put back after it. -/
theorem Sound.returningTo {b1 b2 : Option BlockId}
    (resume : Option.Rel (C.Block w) b1 b2) (runs : C.Runs w act1 act2 post) :
    C.Runs w (returningTo b1 act1) (returningTo b2 act2) post := by
  cases resume with
  | none => exact runs
  | @some b1 b2 block =>
    intro s1 s2 states
    have ran := runs s1 s2 states
    unfold Lower.returningTo
    dsimp only
    have back : ∀ {w' s1' s2'}, w ≤ w' → C.States w' s1' s2' →
        C.States w' { s1' with code := s1'.code.position b1 }
          { s2' with code := s2'.code.position b2 } := fun later states' =>
      states'.ofSite (le_refl _) (sound.position states'.site (block.mono later))
    refine ran.both ?_ ?_
    · rintro a s1' b s2' ⟨w', later, states', holds⟩
      exact ⟨w', later, back later states', holds⟩
    · rintro e1 s1' e2 s2' same ⟨w', later, states'⟩
      exact ⟨same, w', later, back later states'⟩

/-! ## Join points -/

theorem Runs.openJoin :
    C.Runs w (openJoin ty) (openJoin ty) fun _ join1 join2 => join1 = join2 := by
  refine .types_bind sound (.context_bind fun _ _ context => ?_)
  intro s1 s2 states
  exact ⟨w, le_refl w, states.ofSite (le_refl _) (sound.openJoin ty _ states.site context.here.needs),
    sound.frames states.site⟩

theorem Sound.addToJoin {v1 v2 : ValueId} (value : C.Value w v1 v2) :
    C.Runs w (addToJoin index v1 ty) (addToJoin index v2 ty) fun _ _ _ => True := by
  intro s1 s2 states
  have frames : s1.joins.size = s2.joins.size := sound.frames states.site
  rw [addToJoin_run, addToJoin_run]
  by_cases inside : index < s1.joins.size
  · have inside2 := frames ▸ inside
    have found1 := Array.getElem?_eq_getElem inside
    have found2 := Array.getElem?_eq_getElem inside2
    have added := sound.add ty states.site value found1 found2
    rw [found1, found2]
    dsimp only
    refine added.both ?_ ?_
    · rintro join1 c1 join2 c2 ⟨link, later, site⟩
      exact ⟨(link, w.2), ⟨later, Nat.le_refl _⟩, states.ofSite later site, trivial⟩
    · rintro e1 c1 e2 c2 same ⟨link, later, site⟩
      exact ⟨fun exact => by rw [same exact], (link, w.2), ⟨later, Nat.le_refl _⟩,
        states.ofSite later site⟩
  · have outside := Nat.le_of_not_lt inside
    rw [Array.getElem?_eq_none outside, Array.getElem?_eq_none (frames ▸ outside)]
    exact ⟨fun _ => rfl, w, le_refl w, states⟩

theorem Sound.closeJoin :
    C.Runs w (closeJoin index) (closeJoin index) fun w => Option.Rel (C.Value w) := by
  intro s1 s2 states
  have frames : s1.joins.size = s2.joins.size := sound.frames states.site
  rw [closeJoin_run, closeJoin_run, frames]
  split
  · exact ⟨fun _ => rfl, w, le_refl w, states⟩
  · rename_i last
    have last : index + 1 = s2.joins.size := Decidable.not_not.mp last
    obtain ⟨_, _, opened1⟩ := Array.exists_push_of_size_eq_add_one (frames.trans last.symm)
    obtain ⟨_, _, opened2⟩ := Array.exists_push_of_size_eq_add_one last.symm
    have site := states.site
    rw [opened1, opened2] at site
    have closed := sound.close site
    rw [opened1, opened2, Array.back?_push, Array.back?_push, Array.pop_push, Array.pop_push]
    dsimp only
    refine closed.both ?_ ?_
    · rintro value1 c1 value2 c2 ⟨link, later, site, values⟩
      exact ⟨(link, w.2), ⟨later, Nat.le_refl _⟩, states.ofSite later site, values⟩
    · rintro e1 c1 e2 c2 same ⟨link, later, site⟩
      exact ⟨fun exact => by rw [same exact], (link, w.2), ⟨later, Nat.le_refl _⟩,
        states.ofSite later site⟩

theorem Sound.closeJoinOrNil : C.Runs w (closeJoinOrNil index) (closeJoinOrNil index) C.Value := by
  refine sound.closeJoin.bind fun _ values => ?_
  cases values with
  | none => exact sound.nilValue
  | some value => exact .pure value

end Rules

end Coupling

end CallLowering
