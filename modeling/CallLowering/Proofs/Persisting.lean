import CallLowering.Proofs.Standing

/-!
# Bindings that persist

Scopes are shared. The caller of an inlined body, the block that is handed to it and the bodies in
between refer to the same tables, and five routines bind names in them. `LowerState.Persists` says of
two states that what is found in a scope of the first is still found there in the second, for all names
but those of later dispatches.
-/

namespace CallLowering

open Scopes

variable {parent : Option ScopeId} {seen : Nat}

/-! ## Looking up -/

namespace Scopes

variable {scopes scopes' : Scopes} {x y : ScopeId} {name : String} {binding : Binding}

/-- A name is looked up in the scope itself and then in the one it lies inside. -/
theorem lookup?_eq (ordered : scopes.Ordered) (x : ScopeId) (name : String) :
    scopes.lookup? x name = (scopes.lookupLocal? x name).or
      ((scopes.parent? x).bind fun parent => scopes.lookup? parent name) := by
  rw [lookup?, lookupWithin?]
  cases scopes.lookupLocal? x name with
  | some binding => rfl
  | none =>
    cases isParent : scopes.parent? x with
    | none => rfl
    | some parent =>
      obtain ⟨data, present, inside⟩ := Option.bind_eq_some_iff.mp isParent
      exact lookupWithin?_eq ordered (ordered x data parent present inside)

/-- What is found is bound in some scope. -/
theorem lookup?_lookupLocal? (found : scopes.lookup? x name = some binding) :
    ∃ y, scopes.lookupLocal? y name = some binding := by
  rw [lookup?] at found
  generalize x.index + 1 = levels at found
  induction levels generalizing x with
  | zero => cases found
  | succ levels ih =>
    rw [lookupWithin?] at found
    split at found
    · rename_i here
      exact ⟨x, here.trans found⟩
    · split at found
      · exact ih found
      · cases found

/-- A binding that is found from a scope is still found if, in that scope and the older ones, the name
has the same bindings as before or was not found at all. -/
theorem lookup?_persists {n : Nat} (ordered : scopes.Ordered) (ordered' : scopes'.Ordered)
    (same : ∀ y : ScopeId, y.index < n → scopes'.parent? y = scopes.parent? y ∧
      (scopes'.lookupLocal? y name = scopes.lookupLocal? y name ∨ scopes.lookup? y name = none))
    (inside : x.index < n) (found : scopes.lookup? x name = some binding) :
    scopes'.lookup? x name = some binding := by
  obtain ⟨k⟩ := x
  induction k using Nat.strong_induction_on with
  | _ k ih =>
    obtain ⟨parents, here⟩ := same ⟨k⟩ inside
    have here := here.resolve_right fun missing => absurd (missing.symm.trans found) nofun
    rw [lookup?_eq ordered] at found
    rw [lookup?_eq ordered', here, parents]
    cases bound : scopes.lookupLocal? ⟨k⟩ name with
    | some => rwa [bound] at found
    | none =>
      rw [bound, Option.none_or] at found
      rw [Option.none_or]
      obtain ⟨parent, isParent, found⟩ := Option.bind_eq_some_iff.mp found
      obtain ⟨data, present, outer⟩ := Option.bind_eq_some_iff.mp isParent
      have older : parent.index < k := ordered ⟨k⟩ data parent present outer
      rw [isParent, Option.bind_some]
      exact ih parent.index older (Nat.lt_trans older inside) found

theorem declare_get? (scopes : Scopes) (x : ScopeId) (name : String) (binding : Binding)
    (y : ScopeId) : (scopes.declare x name binding).get? y =
      if x = y then (scopes.get? y).map fun data =>
        { data with bindings := (name, binding) :: data.bindings }
      else scopes.get? y := by
  obtain ⟨_⟩ := x
  obtain ⟨_⟩ := y
  simp [get?, declare, Array.getElem?_modify]

theorem declare_parent? (scopes : Scopes) (x : ScopeId) (name : String) (binding : Binding)
    (y : ScopeId) : (scopes.declare x name binding).parent? y = scopes.parent? y := by
  rw [parent?, parent?, declare_get?]
  split
  · cases scopes.get? y <;> rfl
  · rfl

theorem declare_lookupLocal? (scopes : Scopes) (x : ScopeId) (name : String) (binding : Binding)
    (y : ScopeId) (name' : String) (other : x ≠ y ∨ name ≠ name') :
    (scopes.declare x name binding).lookupLocal? y name' = scopes.lookupLocal? y name' := by
  rw [lookupLocal?, lookupLocal?, declare_get?]
  split
  · rename_i same
    have other : (name' == name) = false :=
      beq_false_of_ne (other.resolve_left (not_not_intro same)).symm
    cases scopes.get? y with
    | none => rfl
    | some data => simp [List.lookup_cons, other]
  · rfl

theorem add_get?_old (old : y.index < scopes.all.size) :
    (scopes.add parent).2.get? y = scopes.get? y := by
  rw [get?, get?, add, Array.getElem?_push, if_neg (Nat.ne_of_lt old)]

end Scopes

/-! ## States -/

/-- A hidden variable of one of the first dispatches. -/
def Numbered (seen : Nat) (name : String) : Prop :=
  ∃ id ≤ seen, name = hiddenReceiver id ∨ ∃ index, name = hiddenArgument id index

theorem Numbered.mono {seen' : Nat} {name : String} (numbered : Numbered seen name)
    (later : seen ≤ seen') : Numbered seen' name := by
  obtain ⟨id, old, named⟩ := numbered
  exact ⟨id, Nat.le_trans old later, named⟩

theorem Numbered.not_fresh {name : String} (numbered : Numbered seen name) : ¬Fresh seen name := by
  intro fresh
  obtain ⟨id, old, rfl | ⟨index, rfl⟩⟩ := numbered
  · exact not_fresh_receiver id (fresh.mono old)
  · exact not_fresh_argument id index (fresh.mono old)

/-- What is found in a scope of the first state is found there in the second, except under the names
of dispatches that come after the first. -/
structure LowerState.Persists (s s' : LowerState) : Prop where
  dispatches : s.dispatches ≤ s'.dispatches
  size : s.scopes.all.size ≤ s'.scopes.all.size
  parents : ∀ x : ScopeId, x.index < s.scopes.all.size → s'.scopes.parent? x = s.scopes.parent? x
  found : ∀ (x : ScopeId) (name : String) (binding : Binding), x.index < s.scopes.all.size →
    ¬Fresh s.dispatches name → s.scopes.lookup? x name = some binding →
      s'.scopes.lookup? x name = some binding

/-- Every scope lies inside an older one, and variables have the given names or those of dispatches. -/
structure LowerState.WellScoped (names : String → Prop) (s : LowerState) : Prop where
  ordered : s.scopes.Ordered
  named : ∀ (x : ScopeId) (name : String) (binding : Binding),
    s.scopes.lookupLocal? x name = some binding → names name ∨ Numbered s.dispatches name

/-- The state is well scoped, and the context refers to scopes and join points that are there. -/
structure LowerState.Placed (names : String → Prop) (s : LowerState) : Prop
    extends s.WellScoped names where
  context : s.context.Over { x | x.index < s.scopes.all.size }
    { x | x.index < s.scopes.all.size ∧ s.scopes.parent? x = none } { i | i < s.joins.size }
    (Block.Tidy names)

namespace LowerState

variable {names : String → Prop} {s s1 s2 : LowerState} {binding : Binding} {name : String}
  {x : ScopeId}

namespace Persists

theorem of_scopes (scopes : s1.scopes = s.scopes) (dispatches : s.dispatches ≤ s1.dispatches) :
    s.Persists s1 where
  dispatches := dispatches
  size := by rw [scopes]
  parents _ _ := by rw [scopes]
  found _ _ _ _ _ := by rw [scopes]; exact id

theorem refl (s : LowerState) : s.Persists s := of_scopes rfl (Nat.le_refl _)

theorem trans (first : s.Persists s1) (second : s1.Persists s2) : s.Persists s2 where
  dispatches := first.dispatches.trans second.dispatches
  size := first.size.trans second.size
  parents x inside :=
    (second.parents x (Nat.lt_of_lt_of_le inside first.size)).trans (first.parents x inside)
  found x name binding inside known found :=
    second.found x name binding (Nat.lt_of_lt_of_le inside first.size)
      (fun fresh => known (fresh.mono first.dispatches)) (first.found x name binding inside known found)

/-- A new scope changes nothing in the others. -/
theorem add (ordered : s.scopes.Ordered) (older : ∀ x ∈ parent, x.index < s.scopes.all.size) :
    s.Persists { s with scopes := (s.scopes.add parent).2 } := by
  have grow : Grow (fun _ _ _ => True) s.scopes (s.scopes.add parent).2 := .add older
  have parents : ∀ x : ScopeId, x.index < s.scopes.all.size →
      (s.scopes.add parent).2.parent? x = s.scopes.parent? x := fun x inside => by
    rw [parent?, parent?, add_get?_old inside]
  refine ⟨Nat.le_refl _, grow.size, parents, fun _ _ _ inside _ found => ?_⟩
  refine lookup?_persists ordered (grow.ordered ordered) (fun y inside => ?_) inside found
  exact ⟨parents y inside, .inl (by rw [lookupLocal?, lookupLocal?,
    add_get?_old inside])⟩

/-- A name is bound in a scope that was not there, or under a name that is not found there or belongs
to a later dispatch. -/
theorem declare (persists : s.Persists s1) (ordered : s1.scopes.Ordered)
    (admitted : s.scopes.all.size ≤ x.index ∨
      s1.scopes.lookup? x name = none ∨ Fresh s.dispatches name) :
    s.Persists { s1 with scopes := s1.scopes.declare x name binding } := by
  have grow : Grow (fun _ _ _ => True) s1.scopes (s1.scopes.declare x name binding) :=
    .declare trivial
  refine ⟨persists.dispatches, persists.size.trans grow.size, fun y inside => ?_,
    fun y name' binding' inside known found => ?_⟩
  · exact (declare_parent? ..).trans (persists.parents y inside)
  · refine lookup?_persists ordered (grow.ordered ordered) (fun z inside => ?_) inside
      (persists.found y name' binding' inside known found)
    refine ⟨declare_parent? .., ?_⟩
    by_cases same : x = z ∧ name = name'
    · obtain ⟨rfl, rfl⟩ := same
      obtain new | missing | fresh := admitted
      · exact absurd inside (Nat.not_lt_of_le new)
      · exact .inr missing
      · exact absurd fresh known
    · refine .inl (declare_lookupLocal? _ _ _ _ _ _ ?_)
      exact (Classical.em (x = z)).elim (fun here => .inr fun named => same ⟨here, named⟩) .inl

end Persists

namespace WellScoped

variable (well : s.WellScoped names)

include well

theorem of_scopes (scopes : s1.scopes = s.scopes) (dispatches : s.dispatches ≤ s1.dispatches) :
    s1.WellScoped names where
  ordered := scopes ▸ well.ordered
  named x name binding bound :=
    (well.named x name binding (scopes ▸ bound)).imp_right fun numbered => numbered.mono dispatches

theorem add (older : ∀ x ∈ parent, x.index < s.scopes.all.size) :
    WellScoped names { s with scopes := (s.scopes.add parent).2 } where
  ordered := by
    have grow : Grow (fun _ _ _ => True) s.scopes (s.scopes.add parent).2 := .add older
    exact grow.ordered well.ordered
  named x name binding bound := by
    rw [Scopes.lookupLocal?, Scopes.get?, Scopes.add, Array.getElem?_push] at bound
    split at bound
    · cases bound
    · exact well.named x name binding bound

theorem declare (named : names name ∨ Numbered s.dispatches name) :
    WellScoped names { s with scopes := s.scopes.declare x name binding } where
  ordered := by
    have grow : Grow (fun _ _ _ => True) s.scopes (s.scopes.declare x name binding) :=
      .declare trivial
    exact grow.ordered well.ordered
  named y name' binding' bound := by
    by_cases same : name = name'
    · exact same ▸ named
    · rw [declare_lookupLocal? _ _ _ _ _ _ (.inr same)] at bound
      exact well.named y name' binding' bound

end WellScoped

end LowerState

/-- The states have the same context and the same scopes, and remember as much. -/
structure LowerState.SameScopes (s s' : LowerState) : Prop where
  context : s'.context = s.context
  scopes : s'.scopes = s.scopes
  dispatches : s'.dispatches = s.dispatches
  faithful : s.code.Extends s'.code → s.Faithful → s'.Faithful

theorem LowerState.Faithful.later {s s' : LowerState} (faithful : s.Faithful)
    (later : s.code.Extends s'.code) (memory : s'.memory = s.memory) : s'.Faithful := by
  rw [LowerState.Faithful, later.target, later.types, memory]
  exact faithful

theorem LowerState.SameScopes.of_site (s : LowerState) (code : Recording) (joins : Array JoinPoint) :
    s.SameScopes { s with code := code, joins := joins } :=
  ⟨rfl, rfl, rfl, fun later faithful => faithful.later later rfl⟩

/-- The context is put back, bindings persist and no join point gets lost. -/
structure LowerState.Tends (names : String → Prop) (s s' : LowerState) : Prop where
  context : s'.context = s.context
  joins : s.joins.size ≤ s'.joins.size
  persists : s.Persists s'
  well : s'.WellScoped names

theorem LowerState.Placed.later {names : String → Prop} {s s' : LowerState} (placed : s.Placed names)
    (tends : s.Tends names s') : s'.Placed names where
  toWellScoped := tends.well
  context := by
    rw [tends.context]
    refine placed.context.mono (fun x inside => ?_) (fun x outermost => ?_)
      (fun _ opened => Nat.lt_of_lt_of_le opened tends.joins) fun _ => id
    · exact Nat.lt_of_lt_of_le inside tends.persists.size
    · exact ⟨Nat.lt_of_lt_of_le outermost.1 tends.persists.size,
        (tends.persists.parents x outermost.1).trans outermost.2⟩

end CallLowering
