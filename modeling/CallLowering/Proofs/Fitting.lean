import CallLowering.Proofs.Persisting

/-!
# States that fit

A state fits a standing if what is known there is so. A computation that keeps to the rules fits
wherever it starts in a state that fits (`Moves.fits`), whether it succeeds or fails.

The cursor is put back after a closure, whose body may fail anywhere. Otherwise it moves to blocks
that were made on the way and to the exits of join points that are closed. An exit is made where the
first path ends in the join point, which may be much deeper than where the join point was opened; so
the invariant is about all join points that were opened on the way (`Standing.Settled`), and it holds
because a closure ends no path in a join point from outside (`LowerState.Kept`). At the same time no
binding is replaced and no join point gets lost where the context refers to what is there
(`Standing.Housed`).
-/

namespace CallLowering

open Lower Scopes

variable {name : String} {cause : RecordError} {i : Nat}

/-- The join points below a level stay as they are, and an exit of the others is the one there was or
belongs to the function. What is remembered stays faithful. -/
structure LowerState.Kept (func : Option FuncId) (low : Nat) (s s' : LowerState) : Prop where
  code : s.code.Extends s'.code
  faithful : s.Faithful → s'.Faithful
  below : ∀ i < low, s'.joins[i]? = s.joins[i]?
  exits : ∀ f ∈ func, ∀ (i : Nat) (join : JoinPoint), s'.joins[i]? = some join → ∀ x ∈ join.exit,
    (∃ join0 : JoinPoint, s.joins[i]? = some join0 ∧ x ∈ join0.exit) ∨ s'.code.Owns f x

namespace LowerState.Kept

variable {func : Option FuncId} {low : Nat} {s s1 s2 : LowerState}

/-- Recording alone keeps the join points. -/
theorem of_code (code : s.code.Extends s1.code) (joins : s1.joins = s.joins)
    (faithful : s.Faithful → s1.Faithful) : s.Kept func low s1 where
  code := code
  faithful := faithful
  below i _ := by rw [joins]
  exits f _ i join found x exit := .inl ⟨join, joins ▸ found, exit⟩

theorem trans (first : s.Kept func low s1) (second : s1.Kept func low s2) : s.Kept func low s2 where
  code := first.code.trans second.code
  faithful here := second.faithful (first.faithful here)
  below i small := (second.below i small).trans (first.below i small)
  exits f member i join found x exit := by
    obtain ⟨join1, found1, exit1⟩ | owned := second.exits f member i join found x exit
    · exact (first.exits f member i join1 found1 x exit1).imp_right fun owned => owned.later second.code
    · exact .inr owned

variable {join : JoinPoint} {code : Recording}

/-- A new join point has no exit. -/
theorem push (inside : low ≤ s.joins.size) (fresh : join.exit = none) :
    s.Kept func low { s with joins := s.joins.push join } where
  code := .refl _
  faithful := id
  below i small := by
    have other : i ≠ s.joins.size := Nat.ne_of_lt (Nat.lt_of_lt_of_le small inside)
    rw [Array.getElem?_push, if_neg other]
  exits f _ i join' found x exit := by
    obtain ⟨_, rfl⟩ | found := getElem?_push_cases found
    · rw [fresh] at exit
      cases exit
    · exact .inl ⟨join', found, exit⟩

/-- The last join point may be dropped. -/
theorem pop (later : s.code.Extends code) (inside : low < s.joins.size) :
    s.Kept func low { s with code := code, joins := s.joins.pop } where
  code := later
  faithful here := here.later later rfl
  below i small := by
    have other : i < s.joins.size - 1 := Nat.lt_of_lt_of_le small (Nat.le_sub_one_of_lt inside)
    rw [Array.getElem?_pop, if_pos other]
  exits f _ i join found x exit := by
    rw [Array.getElem?_pop] at found
    split at found
    · exact .inl ⟨join, found, exit⟩
    · cases found

/-- A path may end in a join point that the context leads to. -/
theorem set {join' : JoinPoint} (later : s.code.Extends code) (above : low ≤ i)
    (opened : s.joins[i]? = some join)
    (exits : ∀ f ∈ func, ∀ x ∈ join'.exit, x ∈ join.exit ∨ code.Owns f x) :
    s.Kept func low { s with code := code, joins := s.joins.setIfInBounds i join' } where
  code := later
  faithful here := here.later later rfl
  below j small := by
    have other : i ≠ j := Nat.ne_of_gt (Nat.lt_of_lt_of_le small above)
    rw [Array.getElem?_setIfInBounds, if_neg other]
  exits f member j join1 found x exit := by
    rw [Array.getElem?_setIfInBounds] at found
    split at found
    · rename_i same
      subst same
      split at found
      · cases found
        exact (exits f member x exit).imp_left fun old => ⟨join, opened, old⟩
      · cases found
    · exact .inl ⟨join1, found, exit⟩

/-- As many join points, all of them below the level, are the same ones. -/
theorem joins_eq (kept : s.Kept func low s1) (size : s1.joins.size = low)
    (size' : s.joins.size = low) : s1.joins = s.joins := by
  refine Array.ext_getElem? fun i => ?_
  obtain below | above := Nat.lt_or_ge i low
  · exact kept.below i below
  · rw [Array.getElem?_eq_none (size.trans_le above), Array.getElem?_eq_none (size'.trans_le above)]

end LowerState.Kept

/-- What is watched while a computation runs: the function that the cursor stands in, the level below
which join points are left alone, and whether the context refers to what is there. -/
structure Watch where
  func : Option FuncId
  low : Nat
  placed : Prop

/-- What was made on the way belongs to the function at the cursor. -/
structure Standing.Settled (γ : Standing) (func : FuncId) (s : LowerState) : Prop where
  anchored : γ.anchored
  stands : s.code.StandsIn func
  blocks : ∀ b ∈ γ.blocks, s.code.Owns func b
  exits : ∀ (i : Nat) (join : JoinPoint), γ.base ≤ i → s.joins[i]? = some join → ∀ x ∈ join.exit,
    s.code.Owns func x

/-- Join points and scopes that are known are there. The scopes and dispatches that the computation
has made were not there in the state that bindings persist from. -/
structure Standing.Housed (V : Vocabulary) (γ : Standing) (u : Unbound) (s0 s : LowerState) :
    Prop where
  opened : ∀ i ∈ γ.joins, i < γ.base
  persists : s0.Persists s
  well : s.WellScoped V.names
  scopes : ∀ x ∈ γ.scopes, x.index < s.scopes.all.size
  roots : ∀ x ∈ γ.roots, x.index < s.scopes.all.size ∧ s.scopes.parent? x = none
  fresh : ∀ x ∈ γ.fresh, s0.scopes.all.size ≤ x.index
  numbers : ∀ id ∈ γ.numbers, s0.dispatches < id ∧ id ≤ s.dispatches
  unbound : ∀ entry ∈ u, s.scopes.lookup? entry.1 entry.2 = none

/-- The state fits the standing that a computation has come to from an earlier state. -/
structure Standing.Fits (V : Vocabulary) (w : Watch) (γ : Standing) (u : Unbound)
    (s0 s : LowerState) : Prop where
  context : s.context = γ.context
  size : s.joins.size = γ.base + γ.depth
  floor : w.low ≤ γ.base
  grown : s0.joins.size ≤ γ.base
  known : ∀ i ∈ γ.joins, w.low ≤ i
  kept : s0.Kept w.func w.low s
  settled : ∀ f ∈ w.func, γ.Settled f s
  housed : w.placed → γ.Housed V u s0 s

/-- A computation has succeeded as said, and its context is the same if it was held. -/
def Standing.Settles {α : Type} (V : Vocabulary) (w : Watch) (γ : Standing) (s0 : LowerState)
    (post : α → Standing → Unbound → Prop) (a : α) (s : LowerState) : Prop :=
  ∃ γ' u', post a γ' u' ∧ γ'.Fits V w u' s0 s ∧ (γ.held → γ'.held ∧ γ'.context = γ.context)

/-- A computation has failed in the function and has not lost track. -/
structure Standing.Aborts (V : Vocabulary) (w : Watch) (γ : Standing) (s0 : LowerState)
    (error : LowerError) (s : LowerState) : Prop where
  context : γ.held → s.context = γ.context
  code : s0.code.Extends s.code
  stands : ∀ f ∈ w.func, s.code.StandsIn f
  housed : w.placed → error.isInconsistency = false ∧ s0.joins.size ≤ s.joins.size ∧
    s0.Persists s ∧ s.WellScoped V.names

/-- The computation fits wherever the context refers to what is known. -/
def Lower.Fitting {α : Type} (V : Vocabulary) (act : Lower α) : Prop :=
  ∀ {w : Watch} {γ : Standing} {u : Unbound} {s0 s : LowerState}, γ.Sound V →
    γ.Fits V w u s0 s → Outcome (fun _ => γ.Fits V w ∅ s0) (γ.Aborts V w s0) (act V.env s)

theorem Standing.Settled.later {γ : Standing} {func : Option FuncId} {f : FuncId} {low : Nat}
    {s s' : LowerState} (settled : γ.Settled f s) (kept : s.Kept func low s') (member : f ∈ func)
    (stands : s'.code.StandsIn f) : γ.Settled f s' where
  anchored := settled.anchored
  stands := stands
  blocks b known := (settled.blocks b known).later kept.code
  exits i join above found x exit := by
    obtain ⟨join0, found0, exit0⟩ | owned := kept.exits f member i join found x exit
    · exact (settled.exits i join0 above found0 x exit0).later kept.code
    · exact owned

namespace Standing.Housed

variable {V : Vocabulary} {γ γ0 : Standing} {u u0 u' : Unbound} {s0 s s' : LowerState}
  (housed : γ.Housed V u s0 s)

include housed

theorem less (less : γ0.Less γ) (fewer : u0 ⊆ u) : γ0.Housed V u0 s0 s where
  opened i member := less.base ▸ housed.opened i (less.joins member)
  persists := housed.persists
  well := housed.well
  scopes x member := housed.scopes x (less.scopes member)
  roots x member := housed.roots x (less.roots member)
  fresh x member := housed.fresh x (less.fresh member)
  numbers id member := housed.numbers id (less.numbers member)
  unbound entry member := housed.unbound entry (fewer member)

/-- The standing fits a later state. -/
theorem later (persists : s.Persists s') (well : s'.WellScoped V.names)
    (unbound : ∀ entry ∈ u', s'.scopes.lookup? entry.1 entry.2 = none) : γ.Housed V u' s0 s' where
  opened := housed.opened
  persists := housed.persists.trans persists
  well := well
  scopes x member := Nat.lt_of_lt_of_le (housed.scopes x member) persists.size
  roots x member := by
    obtain ⟨inside, outermost⟩ := housed.roots x member
    exact ⟨Nat.lt_of_lt_of_le inside persists.size, (persists.parents x inside).trans outermost⟩
  fresh := housed.fresh
  numbers id member := (housed.numbers id member).imp_right fun old => old.trans persists.dispatches
  unbound := unbound

/-- The standing fits a state with the same scopes. -/
theorem same (scopes : s'.scopes = s.scopes) (dispatches : s'.dispatches = s.dispatches) :
    γ.Housed V u s0 s' :=
  housed.later (.of_scopes scopes dispatches.ge) (housed.well.of_scopes scopes dispatches.ge)
    (scopes ▸ housed.unbound)

/-- The names that are looked up in vain are not bound. -/
theorem looked : γ.Housed V (u ∪ γ.unboundIn s) s0 s where
  __ := housed
  unbound := by
    rintro ⟨x, name⟩ (known | missing | ⟨root, missing⟩)
    · exact housed.unbound _ known
    · exact missing
    · rw [lookup?_eq housed.well.ordered, missing, (housed.roots x root).2]
      rfl

/-- A name may be bound where it is admitted. -/
theorem declare {x : ScopeId} {binding : Binding} (admitted : γ.Admits V u x name) :
    γ.Housed V ∅ s0 { s with scopes := s.scopes.declare x name binding } := by
  have apart : s0.scopes.all.size ≤ x.index ∨ s.scopes.lookup? x name = none ∨
      Fresh s0.dispatches name := by
    cases admitted with
    | own made _ => exact .inl (housed.fresh x made)
    | new free _ => exact .inr (.inl (housed.unbound _ free))
    | @hidden id begun named => exact .inr (.inr ⟨id, (housed.numbers id begun).1, named⟩)
  have named : V.names name ∨ Numbered s.dispatches name := by
    cases admitted with
    | own _ named => exact .inl named
    | new _ named => exact .inl named
    | @hidden id begun named => exact .inr ⟨id, (housed.numbers id begun).2, named⟩
  have grow : Grow (fun _ _ _ => True) s.scopes (s.scopes.declare x name binding) :=
    .declare trivial
  exact {
    __ := housed
    persists := housed.persists.declare housed.well.ordered apart
    well := housed.well.declare named
    scopes := fun y member => Nat.lt_of_lt_of_le (housed.scopes y member) grow.size
    roots := fun y member => by
      obtain ⟨inside, outermost⟩ := housed.roots y member
      exact ⟨Nat.lt_of_lt_of_le inside grow.size, (declare_parent? ..).trans outermost⟩
    unbound := fun _ none => absurd none (Set.notMem_empty _) }

/-- A scope may be added inside one that is there. -/
theorem newScope {parent : Option ScopeId} (known : ∀ x ∈ parent, x ∈ γ.scopes) :
    (γ.withScope (s.scopes.add parent).1 parent).Housed V ∅ s0
      { s with scopes := (s.scopes.add parent).2 } := by
  have older : ∀ x ∈ parent, x.index < s.scopes.all.size := fun x found =>
    housed.scopes x (known x found)
  have size : (s.scopes.add parent).2.all.size = s.scopes.all.size + 1 := Array.size_push _
  have housed' : γ.Housed V ∅ s0 { s with scopes := (s.scopes.add parent).2 } :=
    housed.later (.add housed.well.ordered older) (housed.well.add older) fun _ none =>
      absurd none (Set.notMem_empty _)
  refine { housed' with scopes := ?_, roots := ?_, fresh := ?_ }
  · rintro x (rfl | member)
    · exact size ▸ Nat.lt_succ_self _
    · exact housed'.scopes x member
  · rintro x (member | ⟨rfl, rfl⟩)
    · exact housed'.roots x member
    · exact ⟨size ▸ Nat.lt_succ_self _, by rw [parent?, add_get?]; rfl⟩
  · rintro x (rfl | member)
    · exact housed.persists.size
    · exact housed.fresh x member

/-- The body of a function of its own starts in a new scope. -/
theorem entry {base : Nat} (code : Recording) :
    (Standing.entry V.env name (s.scopes.add none).1 base).Housed V ∅ s
      (s.entering V.env name code) := by
  have older : ∀ x ∈ (none : Option ScopeId), x.index < s.scopes.all.size := nofun
  have inside : (s.scopes.add none).1.index < (s.scopes.add none).2.all.size := by
    rw [add, Array.size_push]
    exact Nat.lt_succ_self _
  exact {
    opened := fun _ none => absurd none (Set.notMem_empty _)
    persists := .trans (.add housed.well.ordered older) (.of_scopes rfl (Nat.le_refl _))
    well := (housed.well.add older).of_scopes rfl (Nat.le_refl _)
    scopes := by rintro _ rfl; exact inside
    roots := by
      rintro _ rfl
      refine ⟨inside, ?_⟩
      change (s.scopes.add none).2.parent? (s.scopes.add none).1 = none
      rw [parent?, add_get?]
      rfl
    fresh := by rintro _ rfl; exact Nat.le_refl _
    numbers := fun _ none => absurd none (Set.notMem_empty _)
    unbound := fun _ none => absurd none (Set.notMem_empty _) }

theorem nextDispatch :
    (γ.withNumber (s.dispatches + 1)).Housed V u s0 { s with dispatches := s.dispatches + 1 } := by
  have housed' : γ.Housed V u s0 { s with dispatches := s.dispatches + 1 } :=
    housed.later (.of_scopes rfl (Nat.le_succ _)) (housed.well.of_scopes rfl (Nat.le_succ _))
      housed.unbound
  refine { housed' with numbers := ?_ }
  rintro id (rfl | member)
  · exact ⟨Nat.lt_succ_of_le housed.persists.dispatches, Nat.le_refl _⟩
  · exact housed'.numbers id member

end Standing.Housed

theorem RecordError.harmless (harmless : cause ≠ .noResult) :
    (LowerError.backend (.record cause)).isInconsistency = false := by
  cases cause with
  | noResult => exact absurd rfl harmless
  | _ => rfl

namespace Standing.Fits

variable {V : Vocabulary} {w : Watch} {α : Type} {γ γ0 : Standing} {u u0 u' : Unbound}
  {s0 s s' : LowerState} {post : α → Standing → Unbound → Prop} {a : α} {code : Recording}
  (fits : γ.Fits V w u s0 s)

include fits

theorem less (less : γ0.Less γ) (fewer : u0 ⊆ u) : γ0.Fits V w u0 s0 s where
  context := fits.context.trans less.context.symm
  size := by rw [less.base, less.depth]; exact fits.size
  floor := less.base ▸ fits.floor
  grown := less.base ▸ fits.grown
  known i member := fits.known i (less.joins member)
  kept := fits.kept
  settled f member := by
    have settled := fits.settled f member
    exact ⟨less.anchored ▸ settled.anchored, settled.stands, fun b known =>
      settled.blocks b (less.blocks known), fun i join above => settled.exits i join (less.base ▸ above)⟩
  housed placed := (fits.housed placed).less less fewer

theorem usable (usable : i ∈ γ.usable) : w.low ≤ i := by
  obtain known | ⟨above, _⟩ := usable
  · exact fits.known i known
  · exact fits.floor.trans above

theorem usable_lt (placed : w.placed) (usable : i ∈ γ.usable) : i < s.joins.size := by
  rw [fits.size]
  obtain known | ⟨_, small⟩ := usable
  · exact Nat.lt_of_lt_of_le ((fits.housed placed).opened i known) (Nat.le_add_right _ _)
  · exact small

/-- The context refers to scopes and join points that are there. -/
theorem placed (sound : γ.Sound V) (placed : w.placed) : s.Placed V.names where
  toWellScoped := (fits.housed placed).well
  context := by
    rw [fits.context]
    exact sound.mono (fits.housed placed).scopes (fits.housed placed).roots
      (fun _ => fits.usable_lt placed) fun _ => id

/-- The standing fits a later state, which may have other join points. -/
theorem later {depth : Nat} (kept : s.Kept w.func w.low s')
    (stands : ∀ f ∈ w.func, s'.code.StandsIn f) (context : s'.context = s.context)
    (size : s'.joins.size = γ.base + depth) (housed : w.placed → γ.Housed V u' s0 s') :
    Standing.Fits V w { γ with depth := depth } u' s0 s' where
  context := context.trans fits.context
  size := size
  floor := fits.floor
  grown := fits.grown
  known := fits.known
  kept := fits.kept.trans kept
  settled f member := { (fits.settled f member).later kept member (stands f member) with }
  housed placed := { housed placed with }

/-- The standing fits a state in which the cursor was moved. -/
theorem moved (later : s.code.Extends s'.code) (stands : ∀ f ∈ w.func, s'.code.StandsIn f)
    (alike : s.SameScopes s') (joins : s'.joins = s.joins) : γ.Fits V w u s0 s' :=
  fits.later (.of_code later joins (alike.faithful later)) stands alike.context (joins ▸ fits.size) fun placed =>
    (fits.housed placed).same alike.scopes alike.dispatches

theorem stands_steady (steady : Emit.Steady s.code code) : ∀ f ∈ w.func, code.StandsIn f :=
  fun f member => (fits.settled f member).stands.steady steady

/-- The standing fits a state in which more was recorded at the cursor. -/
theorem steady (steady : Emit.Steady s.code s'.code) (alike : s.SameScopes s')
    (joins : s'.joins = s.joins) : γ.Fits V w u s0 s' :=
  fits.moved steady.1 (fits.stands_steady steady) alike joins

theorem recorded (steady : Emit.Steady s.code code) : γ.Fits V w u s0 { s with code := code } :=
  fits.steady steady (.of_site s code s.joins) rfl

theorem under {context context' : Context} (held : Prop) (same : context' = context) :
    Standing.Fits V w { γ with context := context, held := held } u s0
      { s with context := context' } where
  context := same
  __ := fits
  kept := { fits.kept with }
  settled f member := { fits.settled f member with }
  housed placed := by
    have housed : γ.Housed V u s0 { s with context := context' } := (fits.housed placed).same rfl rfl
    exact { housed with }

/-- A computation may succeed where it stands. -/
theorem done (holds : post a γ u) : γ.Settles V w s0 post a s :=
  ⟨γ, u, holds, fits, fun held => ⟨held, rfl⟩⟩

variable {error : LowerError}

section

variable (harmless : w.placed → error.isInconsistency = false)

include harmless

theorem failed (alike : s.SameScopes s') (later : s.code.Extends s'.code)
    (stands : ∀ f ∈ w.func, s'.code.StandsIn f) (size : γ.base ≤ s'.joins.size) :
    γ.Aborts V w s0 error s' where
  context _ := alike.context.trans fits.context
  code := fits.kept.code.trans later
  stands := stands
  housed placed := by
    have housed := (fits.housed placed).same alike.scopes alike.dispatches
    exact ⟨harmless placed, fits.grown.trans size, housed.persists, housed.well⟩

/-- A computation may fail where it stands. -/
theorem refused (alike : s.SameScopes s') (steady : Emit.Steady s.code s'.code)
    (joins : s'.joins = s.joins) : γ.Aborts V w s0 error s' :=
  fits.failed harmless alike steady.1 (fits.stands_steady steady)
    (joins ▸ fits.size ▸ Nat.le_add_right _ _)

end

/-- Only an operation that is asked for a value it does not have is an inconsistency. -/
theorem unrecorded (harmless : cause ≠ .noResult) (steady : Emit.Steady s.code code) :
    γ.Aborts V w s0 (.backend (.record cause)) { s with code := code } :=
  fits.refused (fun _ => RecordError.harmless harmless) (.of_site s code s.joins) steady rfl

/-- A function of its own starts above the join points that are open. -/
theorem entry {func : FuncId} {params : List ValueId}
    (begun : Emit.beginRoutine func s.code = .ok params code) :
    (Standing.entry V.env name (s.scopes.add none).1 (γ.base + γ.depth)).Fits V
      ⟨some func, γ.base + γ.depth, w.placed⟩ ∅ s (s.entering V.env name code) where
  context := rfl
  size := fits.size
  floor := Nat.le_refl _
  grown := fits.size.le
  known _ none := absurd none (Set.notMem_empty _)
  kept := by
    have later := (Recording.frame_beginRoutine begun).later
    exact .of_code later rfl fun faithful => faithful.later later rfl
  settled := by
    rintro _ ⟨⟩
    refine ⟨trivial, Recording.beginRoutine_standsIn begun, fun _ none => absurd none
      (Set.notMem_empty _), fun i _ above found => ?_⟩
    have absent : s.joins[i]? = none := Array.getElem?_eq_none (fits.size ▸ above)
    exact absurd (absent.symm.trans found) nofun
  housed placed := (fits.housed placed).entry code

/-- After a function of its own the cursor is back. -/
theorem leaving {t : LowerState} (later : s.code.Extends t.code) :
    s.code.Extends (t.leaving s).code ∧ ∀ f ∈ w.func, (t.leaving s).code.StandsIn f := by
  have later' : s.code.Extends (t.leaving s).code :=
    { later with indexed := fun here => (later.indexed here).of_same rfl rfl .rfl .rfl }
  refine ⟨later', fun f member => ?_⟩
  obtain ⟨b, here, owns⟩ := (fits.settled f member).stands
  refine ⟨b, ?_, owns.later later'⟩
  rw [LowerState.leaving, here]
  rfl

end Standing.Fits

/-- A computation that keeps to the rules fits. -/
theorem Moves.fits {V : Vocabulary} {α : Type} {γ : Standing} {u : Unbound} {act : Lowering α}
    {post : α → Standing → Unbound → Prop} (moves : Moves V γ u act post)
    {inner : Expr → Lower ValueId}
    (fitting : ∀ expr : Expr, expr.Tidy V.names → Fitting V (inner expr))
    {w : Watch} {s0 s : LowerState} (fits : γ.Fits V w u s0 s) :
    Outcome (γ.Settles V w s0 post) (γ.Aborts V w s0) (act inner V.env s) := by
  induction moves generalizing w s0 s with
  | pure holds => exact fits.done holds
  | bind _ _ ihFirst ihRest =>
    refine (ihFirst fits).bind (fun a s1 ended => ?_) fun _ _ => id
    obtain ⟨γ1, u1, known, fits1, held1⟩ := ended
    refine (ihRest a γ1 u1 known fits1).mono (fun b s2 ended => ?_) fun error _ failed => ?_
    · obtain ⟨γ2, u2, known2, fits2, held2⟩ := ended
      exact ⟨γ2, u2, known2, fits2, Standing.held_trans held1 held2⟩
    · exact { failed with context := Standing.restored_trans held1 failed.context }
  | weaken less fewer _ weaker ih =>
    refine (ih (fits.less less fewer)).mono (fun a s1 ended => ?_) fun error _ failed => ?_
    · obtain ⟨γ1, u1, known, fits1, held⟩ := ended
      exact ⟨γ1, u1, weaker _ _ _ known, fits1, fun here =>
        less.context ▸ held (less.held ▸ here)⟩
    · exact { failed with context := fun here => less.context ▸ failed.context (less.held ▸ here) }
  | throw harmless =>
    exact .of_error rfl (fits.refused (fun _ => harmless) (.of_site s s.code s.joins) (.refl _) rfl)
  | read => exact .of_ok rfl (fits.done ⟨rfl, rfl, rfl⟩)
  | @get γ u =>
    have fits' : γ.Fits V w (u ∪ γ.unboundIn s) s0 s :=
      { fits with housed := fun placed => (fits.housed placed).looked }
    exact .of_ok rfl (fits'.done ⟨rfl, rfl, fits.context⟩)
  | record quiet =>
    refine (record_outcome (quiet s.code)).mono ?_ ?_
    · rintro a _ ⟨code, rfl, steady⟩
      exact (fits.recorded steady).done ⟨rfl, rfl⟩
    · rintro _ _ ⟨cause, code, rfl, rfl, harmless, steady⟩
      exact fits.unrecorded harmless steady
  | @newBlock γ u label =>
    refine (record_outcome (Emit.newBlock_outcome label s.code)).mono ?_ ?_
    · rintro b _ ⟨code, rfl, steady, owned⟩
      have fits' := fits.recorded steady
      refine ⟨γ.withBlock b, u, ⟨rfl, rfl⟩, { fits' with settled := fun f member => ?_, housed :=
        fun placed => { fits'.housed placed with } }, fun held => ⟨held, rfl⟩⟩
      refine { fits'.settled f member with blocks := ?_ }
      rintro b' (rfl | known)
      · exact owned f (fits.settled f member).stands
      · exact (fits'.settled f member).blocks b' known
    · rintro _ _ ⟨cause, code, rfl, rfl, harmless, steady⟩
      exact fits.unrecorded harmless steady
  | @position γ u b known =>
    have later : s.code.Extends (s.code.position b) := Recording.extends_position b
    have stands : ∀ f ∈ w.func, (s.code.position b).StandsIn f := fun f member =>
      ⟨b, rfl, ((fits.settled f member).blocks b known).later later⟩
    have fits' : γ.Fits V w u s0 { s with code := s.code.position b } :=
      fits.moved later stands (.of_site ..) rfl
    exact .of_ok rfl (fits'.done ⟨rfl, rfl⟩)
  | note noted =>
    have steady : ∀ s', s.Alike s' → Emit.Steady s.code s'.code ∧ s.SameScopes s' :=
      fun s' alike => ⟨alike.code ▸ .refl _, alike.context, alike.scopes, alike.dispatches,
        fun _ => alike.faithful⟩
    refine (noted V.env s).mono (fun _ s' alike => ?_) fun _ s' failed => ?_
    · exact (fits.steady (steady s' alike).1 (steady s' alike).2 alike.joins).done ⟨rfl, rfl⟩
    · exact fits.refused (fun _ => failed.1) (steady s' failed.2).2 (steady s' failed.2).1
        failed.2.joins
  | @nextDispatch γ u =>
    have fits' : (γ.withNumber (s.dispatches + 1)).Fits V w u s0
        { s with dispatches := s.dispatches + 1 } :=
      { fits with
        kept := { fits.kept with }
        settled := fun f member => { fits.settled f member with }
        housed := fun placed => (fits.housed placed).nextDispatch }
    exact .of_ok rfl ⟨_, u, ⟨rfl, rfl⟩, fits', fun held => ⟨held, rfl⟩⟩
  | @newScope γ u parent known =>
    have fits' : (γ.withScope (s.scopes.add parent).1 parent).Fits V w ∅ s0
        { s with scopes := (s.scopes.add parent).2 } :=
      { fits with
        kept := { fits.kept with }
        settled := fun f member => { fits.settled f member with }
        housed := fun placed => (fits.housed placed).newScope known }
    exact .of_ok rfl ⟨_, ∅, ⟨rfl, rfl⟩, fits', fun held => ⟨held, rfl⟩⟩
  | @declareIn γ u x name binding admitted =>
    have fits' : γ.Fits V w ∅ s0 { s with scopes := s.scopes.declare x name binding } :=
      { fits with
        kept := { fits.kept with }
        settled := fun f member => { fits.settled f member with }
        housed := fun placed => (fits.housed placed).declare admitted }
    exact .of_ok rfl (fits'.done ⟨rfl, rfl⟩)
  | @openJoin γ u ty =>
    have inside : w.low ≤ s.joins.size := fits.size ▸ fits.floor.trans (Nat.le_add_right _ _)
    have pushed : ∀ join : JoinPoint, join.exit = none →
        γ.withJoin.Fits V w u s0 { s with joins := s.joins.push join } := fun join fresh =>
      fits.later (.push inside fresh) (fits.stands_steady (.refl _)) rfl
        (by rw [Array.size_push, fits.size]; rfl) fun placed => (fits.housed placed).same rfl rfl
    exact .of_ok rfl ⟨_, u, ⟨rfl, rfl, fits.size⟩, pushed _ rfl, fun held => ⟨held, rfl⟩⟩
  | @addToJoin γ u i usable value ty =>
    cases opened : s.joins[i]? with
    | none =>
      have missing : Lower.addToJoin i value ty V.env s = .error (.backend (.noJoinPoint i)) s := by
        rw [addToJoin_run, opened]
      have absent : s.joins.size ≤ i := Array.getElem?_eq_none_iff.mp opened
      exact .of_error missing (fits.refused (fun placed =>
        absurd (fits.usable_lt placed usable) (Nat.not_lt_of_le absent)) (.of_site s s.code s.joins) (.refl _) rfl)
    | some join =>
      refine (addToJoin_outcome opened value ty).mono ?_ ?_
      · rintro _ _ ⟨join', code, rfl, steady, exits⟩
        have fits' : γ.Fits V w u s0 { s with
            code := code, joins := s.joins.setIfInBounds i join' } :=
          fits.later (.set steady.1 (fits.usable usable) opened fun f member =>
              exits f (fits.settled f member).stands) (fits.stands_steady steady) rfl
            ((Array.size_setIfInBounds ..).trans fits.size) fun placed =>
              (fits.housed placed).same rfl rfl
        exact fits'.done ⟨rfl, rfl⟩
      · rintro _ _ ⟨cause, code, rfl, harmless, rfl, steady⟩
        exact fits.unrecorded harmless steady
  | @closeJoin γ u =>
    have last : γ.base + γ.depth + 1 = s.joins.size := fits.size.symm
    have floor : w.low ≤ γ.base := fits.floor
    have inside : w.low < s.joins.size :=
      last ▸ Nat.lt_succ_of_le (floor.trans (Nat.le_add_right _ _))
    have size : s.joins.pop.size = γ.base + γ.depth := by
      rw [Array.size_pop, ← last, Nat.add_sub_cancel]
    obtain ⟨join, opened, outcome⟩ := closeJoin_outcome V.env last
    -- The cursor stays or moves to the exit of a join point that was opened on the way.
    have stands : ∀ code, s.code.Extends code →
        (code.cursor = s.code.cursor ∨ ∃ x ∈ join.exit, code.cursor = some x) →
        ∀ f ∈ w.func, code.StandsIn f := by
      rintro code later (same | ⟨x, exit, moved⟩) f member
      · exact (fits.settled f member).stands.steady ⟨later, same⟩
      · exact ⟨x, moved, ((fits.settled f member).exits _ join (Nat.le_add_right _ _) opened x
          exit).later later⟩
    refine outcome.mono ?_ ?_
    · rintro _ _ ⟨code, rfl, later, cursor⟩
      have fits' : γ.Fits V w u s0 { s with code := code, joins := s.joins.pop } :=
        fits.later (.pop later inside) (stands code later cursor) rfl size fun placed =>
          (fits.housed placed).same rfl rfl
      exact ⟨γ, u, ⟨rfl, rfl⟩, fits', fun held => ⟨held, rfl⟩⟩
    · rintro _ _ ⟨cause, code, rfl, harmless, rfl, later, cursor⟩
      exact fits.failed (fun _ => RecordError.harmless harmless) (.of_site ..) later
        (stands code later cursor) (size ▸ Nat.le_add_right _ _)
  | inner sound tidy =>
    exact (fitting _ tidy sound fits).mono (fun _ _ ended => ended.done ⟨rfl, rfl⟩) fun _ _ => id
  | setContext change free =>
    exact .of_ok rfl ⟨_, _, ⟨rfl, rfl⟩, fits.under _ (congrArg change fits.context),
      fun held => absurd held free⟩
  | @around _ _ _ _ _ enter _ held _ back ih =>
    refine (around_outcome (ih (fits.under held (congrArg enter fits.context)))).mono ?_ ?_
    · rintro a _ ⟨t, rfl, γ1, u1, known, fits1, held1⟩
      have restored := back t.context fun held => fits1.context.trans (held1 held).2
      exact ⟨_, u1, ⟨γ1, known, rfl⟩, fits1.under _ restored, fun held => ⟨held, rfl⟩⟩
    · rintro error _ ⟨t, rfl, failed⟩
      exact ⟨fun _ => back t.context failed.context, failed.code, failed.stands, fun placed => by
        obtain ⟨harmless, size, persists, well⟩ := failed.housed placed
        exact ⟨harmless, size, persists.trans (.of_scopes rfl (Nat.le_refl _)),
          well.of_scopes rfl (Nat.le_refl _)⟩⟩
  | @inFunction γ u callee name body _ ih =>
    -- Seen from the present state, the scope of the function is new.
    refine (inFunction_outcome fun values code begun =>
      ih values _ (fits.entry begun)).mono ?_ ?_
    · rintro _ _ ⟨t, rfl, γ1, u1, ⟨context, rfl⟩, fits1, _⟩
      have joins : t.joins = s.joins := fits1.kept.joins_eq fits1.size fits.size
      obtain ⟨later, stands⟩ := fits.leaving fits1.kept.code
      have fits' : γ.Fits V w ∅ s0 (t.leaving s) :=
        fits.later (.of_code later joins fits1.kept.faithful) stands rfl ((congrArg _ joins).trans fits.size)
          fun placed => (fits.housed placed).later
            ((fits1.housed placed).persists.trans (.of_scopes rfl (Nat.le_refl _)))
            ((fits1.housed placed).well.of_scopes rfl (Nat.le_refl _)) fun _ none =>
              absurd none (Set.notMem_empty _)
      exact ⟨γ, ∅, ⟨rfl, rfl⟩, fits', fun held => ⟨held, rfl⟩⟩
    · rintro error _ (⟨cause, rfl, harmless, rfl⟩ | ⟨t, rfl, failed⟩)
      · exact fits.unrecorded harmless (.refl _)
      · obtain ⟨later, stands⟩ := fits.leaving failed.code
        refine ⟨fun _ => fits.context, fits.kept.code.trans later, stands, fun placed => ?_⟩
        obtain ⟨harmless, size, persists, well⟩ := failed.housed placed
        have grown : s0.joins.size ≤ s.joins.size :=
          fits.size ▸ fits.grown.trans (Nat.le_add_right _ _)
        exact ⟨harmless, grown.trans size, (fits.housed placed).persists.trans
          (persists.trans (.of_scopes rfl (Nat.le_refl _))), well.of_scopes rfl (Nat.le_refl _)⟩
  | @beginRoutine γ u func free =>
    have nowhere : ∀ f ∈ w.func, False := fun f member => free (fits.settled f member).anchored
    refine (beginRoutine_outcome func).mono ?_ ?_
    · rintro _ _ ⟨code, rfl, begun⟩
      have fits' : γ.Fits V w u s0 { s with code := code } :=
        fits.moved (Recording.frame_beginRoutine begun).later (fun f member =>
          (nowhere f member).elim) (.of_site ..) rfl
      exact ⟨_, u, ⟨rfl, rfl⟩, { fits' with
        settled := fun f member => (nowhere f member).elim
        housed := fun placed => { fits'.housed placed with } }, fun held => ⟨held, rfl⟩⟩
    · rintro _ _ ⟨cause, rfl, harmless, rfl⟩
      exact fits.unrecorded harmless (.refl _)

/-- A computation that keeps to the rules and ends where it started fits. -/
theorem Standing.Fits.run {V : Vocabulary} {w : Watch} {α : Type} {γ : Standing} {u : Unbound}
    {s0 s : LowerState} {act : Lowering α} {holds : α → Prop} {inner : Expr → Lower ValueId}
    (fits : γ.Fits V w u s0 s) (stays : Stays V γ ∅ act holds)
    (fitting : ∀ expr : Expr, expr.Tidy V.names → Fitting V (inner expr)) :
    Outcome (fun _ => γ.Fits V w ∅ s0) (γ.Aborts V w s0) (act inner V.env s) := by
  refine (Moves.fits (.weaken (.refl γ) (Set.empty_subset u) stays fun _ _ _ => id) fitting fits).mono ?_
    fun _ _ => id
  rintro a s' ⟨_, _, ⟨rfl, rfl, _⟩, fits', _⟩
  exact fits'

end CallLowering
