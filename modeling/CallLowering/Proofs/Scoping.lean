import CallLowering.Lowering.Scope
import CallLowering.Proofs.Annotations

/-!
# Scopes and hidden variables

While a program is lowered, scopes are only added, each inside an older one, and bindings are
only put in front of the earlier ones of a scope. `Scopes.Grow` says so, with a condition on the
bindings put there; the binding that a name is found to have is then an old one or one of those
(`Scopes.Grow.lookup?`).

A dispatch binds its operands to hidden variables that carry its number. Dispatches that come
later use other names (`not_fresh_receiver`, `not_fresh_argument`).
-/

namespace CallLowering

/-! ## Hidden names -/

theorem toList_hiddenReceiver (id : Nat) :
    (hiddenReceiver id).toList = '%' :: 's' :: "elf.".toList ++ Nat.toDigits 10 id := by
  simp [hiddenReceiver]

theorem toList_hiddenArgument (id index : Nat) : (hiddenArgument id index).toList =
      '%' :: 'a' :: "rg".toList ++ (Nat.toDigits 10 id ++ '.' :: Nat.toDigits 10 index) := by
  simp [hiddenArgument]

variable {m n seen i : Nat} {name : String}

theorem toDigits_injective (same : Nat.toDigits 10 m = Nat.toDigits 10 n) : m = n := by
  rw [← Nat.ofDigitChars_ten_toDigits (n := m), same, Nat.ofDigitChars_ten_toDigits]

theorem takeWhile_toDigits (n : Nat) (rest : List Char) :
    (Nat.toDigits 10 n ++ '.' :: rest).takeWhile Char.isDigit = Nat.toDigits 10 n := by
  rw [List.takeWhile_append_of_pos]
  · simp
  · exact fun _ member => Nat.isDigit_of_mem_toDigits (by decide) (by decide) member

theorem hiddenReceiver_injective (same : hiddenReceiver m = hiddenReceiver n) : m = n := by
  have lists := congrArg String.toList same
  rw [toList_hiddenReceiver, toList_hiddenReceiver] at lists
  exact toDigits_injective (List.append_cancel_left lists)

theorem hiddenArgument_injective {k : Nat} (same : hiddenArgument m i = hiddenArgument n k) :
    m = n := by
  have lists := congrArg String.toList same
  rw [toList_hiddenArgument, toList_hiddenArgument] at lists
  have digits := congrArg (List.takeWhile Char.isDigit) (List.append_cancel_left lists)
  rw [takeWhile_toDigits, takeWhile_toDigits] at digits
  exact toDigits_injective digits

theorem hiddenReceiver_ne_hiddenArgument : hiddenReceiver m ≠ hiddenArgument n i := by
  intro same
  have lists := congrArg String.toList same
  rw [toList_hiddenReceiver, toList_hiddenArgument] at lists
  injection lists with _ rest
  injection rest with letters
  exact absurd letters (by decide)

theorem Fresh.mono {seen' : Nat} (fresh : Fresh seen' name) (later : seen ≤ seen') :
    Fresh seen name := by
  obtain ⟨id, new, named⟩ := fresh
  exact ⟨id, Nat.lt_of_le_of_lt later new, named⟩

theorem Fresh.isHidden (fresh : Fresh seen name) : IsHidden name :=
  fresh.mono (Nat.zero_le _)

/-- The names of hidden variables start with a character of their own. -/
theorem IsHidden.head (hidden : IsHidden name) : name.toList.head? = some '%' := by
  obtain ⟨_, _, rfl | ⟨_, rfl⟩⟩ := hidden
  · simp [toList_hiddenReceiver]
  · simp [toList_hiddenArgument]

theorem not_fresh_receiver (id : Nat) : ¬Fresh id (hiddenReceiver id) := by
  rintro ⟨id', new, same | ⟨index, same⟩⟩
  · exact Nat.ne_of_lt new (hiddenReceiver_injective same)
  · exact hiddenReceiver_ne_hiddenArgument same

theorem not_fresh_argument (id index : Nat) : ¬Fresh id (hiddenArgument id index) := by
  rintro ⟨id', new, same | ⟨index', same⟩⟩
  · exact hiddenReceiver_ne_hiddenArgument same.symm
  · exact Nat.ne_of_lt new (hiddenArgument_injective same)

/-! ## Growing scopes -/

namespace Binding

/-- Whether the variable has storage. -/
def isSlot : Binding → Bool
  | slot .. => true
  | value .. => false

/-- The value that a binding refers to: the address of the storage, or the value itself. -/
def ref : Binding → ValueId
  | slot ptr _ => ptr
  | value id _ => id

end Binding

namespace Scopes

variable {scopes scopes1 scopes' : Scopes} {adds adds' : ScopeId → String → Binding → Prop}

/-- Every scope lies inside an older one. -/
def Ordered (scopes : Scopes) : Prop :=
  ∀ x data parent, scopes.get? x = some data → data.parent = some parent → parent.index < x.index

/-- Scopes have been added, and bindings have been put in front of those of a scope where
`adds` allows it. -/
structure Grow (adds : ScopeId → String → Binding → Prop) (scopes scopes' : Scopes) : Prop where
  size : scopes.all.size ≤ scopes'.all.size
  kept : ∀ x data, scopes.get? x = some data → ∃ added,
    scopes'.get? x = some ⟨added ++ data.bindings, data.parent⟩ ∧
      ∀ name binding, (name, binding) ∈ added → adds x name binding
  ordered : scopes.Ordered → scopes'.Ordered

variable {x : ScopeId} {name : String}

theorem mem_of_lookup {bindings : List (String × Binding)} {binding : Binding}
    (found : bindings.lookup name = some binding) : (name, binding) ∈ bindings := by
  obtain ⟨_, _, rfl, _⟩ := List.lookup_eq_some_iff.mp found
  exact List.mem_append_right _ List.mem_cons_self

theorem get?_lt {data : Scope} (present : scopes.get? x = some data) : x.index < scopes.all.size :=
  (Array.getElem?_eq_some_iff.mp present).1

namespace Grow

theorem refl (adds : ScopeId → String → Binding → Prop) (scopes : Scopes) :
    Grow adds scopes scopes where
  size := Nat.le_refl _
  kept _ _ present := ⟨[], present, fun _ _ none => absurd none List.not_mem_nil⟩
  ordered := id

theorem trans (first : Grow adds scopes scopes1) (second : Grow adds scopes1 scopes') :
    Grow adds scopes scopes' where
  size := Nat.le_trans first.size second.size
  kept x data present := by
    obtain ⟨added1, present1, allowed1⟩ := first.kept x data present
    obtain ⟨added', present', allowed'⟩ := second.kept x _ present1
    refine ⟨added' ++ added1, by rw [present', List.append_assoc], fun name binding member => ?_⟩
    obtain member | member := List.mem_append.mp member
    · exact allowed' name binding member
    · exact allowed1 name binding member
  ordered := second.ordered ∘ first.ordered

/-- What is allowed matters only for scopes that were there before. -/
theorem mono (grow : Grow adds scopes scopes')
    (weaker : ∀ x name binding, x.index < scopes.all.size → adds x name binding →
      adds' x name binding) : Grow adds' scopes scopes' where
  size := grow.size
  kept x data present := by
    obtain ⟨added, present', allowed⟩ := grow.kept x data present
    exact ⟨added, present', fun name binding member =>
      weaker x name binding (get?_lt present) (allowed name binding member)⟩
  ordered := grow.ordered

variable {binding : Binding} {x : ScopeId} {name : String}

theorem declare (allowed : adds x name binding) :
    Grow adds scopes (scopes.declare x name binding) := by
  have found : ∀ y, (scopes.declare x name binding).get? y =
      if x.index = y.index then (scopes.get? y).map fun data =>
        { data with bindings := (name, binding) :: data.bindings }
      else scopes.get? y := fun y => by
    simp [get?, Scopes.declare, Array.getElem?_modify]
  refine ⟨?_, fun y data present => ?_, fun ordered y data parent present inside => ?_⟩
  · simp [Scopes.declare]
  · rw [found]
    split
    · rename_i same
      refine ⟨[(name, binding)], by rw [present]; rfl, fun _ _ member => ?_⟩
      cases List.mem_singleton.mp member
      obtain ⟨_⟩ := x
      obtain ⟨_⟩ := y
      cases same
      exact allowed
    · exact ⟨[], present, fun _ _ none => absurd none List.not_mem_nil⟩
  · rw [found] at present
    split at present
    · obtain ⟨before, present', rfl⟩ := Option.map_eq_some_iff.mp present
      exact ordered y before parent present' inside
    · exact ordered y data parent present inside

theorem add {parent : Option ScopeId}
    (older : ∀ x ∈ parent, x.index < scopes.all.size) : Grow adds scopes (scopes.add parent).2 := by
  refine ⟨?_, fun y data present => ?_, fun ordered y data inside present isParent => ?_⟩
  · simp [Scopes.add]
  · refine ⟨[], ?_, fun _ _ none => absurd none List.not_mem_nil⟩
    rw [get?, Scopes.add, Array.getElem?_push_lt (get?_lt present),
      ← Array.getElem?_eq_getElem (get?_lt present)]
    exact present
  · rw [get?, Scopes.add, Array.getElem?_push] at present
    split at present
    · rename_i last
      cases present
      exact Nat.lt_of_lt_of_le (older inside isParent) (Nat.le_of_eq last.symm)
    · exact ordered y data inside present isParent

/-- A binding that is found in a scope that was there before is an old one, or has been put there
since. -/
theorem lookup? (grow : Grow adds scopes scopes') (ordered : scopes.Ordered)
    (inside : x.index < scopes.all.size) (found : scopes'.lookup? x name = some binding) :
    scopes.lookup? x name = some binding ∨ ∃ y, adds y name binding := by
  unfold Scopes.lookup? at found ⊢
  generalize x.index + 1 = levels at found ⊢
  induction levels generalizing x with
  | zero => cases found
  | succ levels ih =>
    have present : scopes.get? x = some scopes.all[x.index] := Array.getElem?_eq_getElem inside
    obtain ⟨added, present', allowed⟩ := grow.kept x _ present
    rw [lookupWithin?, lookupLocal?, parent?, present', Option.bind_some, Option.bind_some,
      List.lookup_append] at found
    rw [lookupWithin?, lookupLocal?, parent?, present, Option.bind_some, Option.bind_some]
    cases new : added.lookup name with
    | some binding' =>
      rw [new, Option.some_or] at found
      cases found
      exact .inr ⟨x, allowed name binding (mem_of_lookup new)⟩
    | none =>
      rw [new, Option.none_or] at found
      revert found
      cases scopes.all[x.index].bindings.lookup name with
      | some binding' => exact .inl
      | none =>
        cases isParent : scopes.all[x.index].parent with
        | none => exact nofun
        | some parent =>
          have older := ordered x _ parent present isParent
          exact ih (Nat.lt_trans older inside)

theorem lookupLocal? (grow : Grow adds scopes scopes') (inside : x.index < scopes.all.size)
    (found : scopes'.lookupLocal? x name = some binding) :
    scopes.lookupLocal? x name = some binding ∨ adds x name binding := by
  have present : scopes.get? x = some scopes.all[x.index] := Array.getElem?_eq_getElem inside
  obtain ⟨added, present', allowed⟩ := grow.kept x _ present
  rw [Scopes.lookupLocal?, present', Option.bind_some, List.lookup_append] at found
  rw [Scopes.lookupLocal?, present, Option.bind_some]
  cases new : added.lookup name with
  | some binding' =>
    rw [new, Option.some_or] at found
    cases found
    exact .inr (allowed name binding (mem_of_lookup new))
  | none =>
    rw [new, Option.none_or] at found
    exact .inl found

end Grow

/-- A name that was just bound in a scope is found there. -/
theorem declare_lookup? (inside : x.index < scopes.all.size) {binding : Binding} :
    (scopes.declare x name binding).lookup? x name = some binding := by
  have present : (scopes.declare x name binding).lookupLocal? x name = some binding := by
    simp [lookupLocal?, get?, declare, Array.getElem?_modify, Array.getElem?_eq_getElem inside]
  rw [lookup?, lookupWithin?, present]

/-! ## New scopes -/

/-- Any number of levels that reaches the outermost scope finds the same binding. -/
theorem lookupWithin?_eq (ordered : scopes.Ordered) {levels : Nat} (enough : x.index < levels) :
    scopes.lookupWithin? levels x name = scopes.lookup? x name := by
  have levels_irrelevant : ∀ {levels levels' : Nat} {x : ScopeId}, x.index < levels →
      x.index < levels' → scopes.lookupWithin? levels x name = scopes.lookupWithin? levels' x name := by
    intro levels
    induction levels with
    | zero => exact fun enough => absurd enough (Nat.not_lt_zero _)
    | succ levels ih =>
      intro levels' x enough enough'
      obtain ⟨_, rfl⟩ := Nat.exists_eq_succ_of_ne_zero (Nat.ne_zero_of_lt enough')
      rw [lookupWithin?, lookupWithin?]
      cases scopes.lookupLocal? x name with
      | some binding => rfl
      | none =>
        cases isParent : scopes.parent? x with
        | none => rfl
        | some parent =>
          obtain ⟨data, present, inside⟩ := Option.bind_eq_some_iff.mp isParent
          have older := ordered x data parent present inside
          exact ih (Nat.lt_of_lt_of_le older (Nat.le_of_lt_succ enough))
            (Nat.lt_of_lt_of_le older (Nat.le_of_lt_succ enough'))
  exact levels_irrelevant enough (Nat.lt_succ_self _)

theorem add_get? (scopes : Scopes) (parent : Option ScopeId) :
    (scopes.add parent).2.get? (scopes.add parent).1 = some (.inside parent) :=
  Array.getElem?_push_size

/-- A new scope binds nothing. -/
theorem add_lookupLocal? (scopes : Scopes) (parent : Option ScopeId) (name : String) :
    (scopes.add parent).2.lookupLocal? (scopes.add parent).1 name = none := by
  rw [lookupLocal?, add_get?]
  rfl

/-- Nothing is found in a new scope that lies inside none. -/
theorem add_lookup?_none (scopes : Scopes) (name : String) :
    (scopes.add none).2.lookup? (scopes.add none).1 name = none := by
  rw [lookup?, lookupWithin?, add_lookupLocal?, parent?, add_get?]
  rfl

/-- What is found in a new scope is found in the one it lies inside. -/
theorem add_lookup?_some (ordered : scopes.Ordered) {parent : ScopeId}
    (older : parent.index < scopes.all.size) :
    (scopes.add (some parent)).2.lookup? (scopes.add (some parent)).1 name =
      (scopes.add (some parent)).2.lookup? parent name := by
  have grown : Grow (fun _ _ _ => False) scopes (scopes.add (some parent)).2 := .add fun _ same => by
    cases same
    exact older
  rw [lookup?, lookupWithin?, add_lookupLocal?, parent?, add_get?]
  exact lookupWithin?_eq (grown.ordered ordered) older

end Scopes

end CallLowering
