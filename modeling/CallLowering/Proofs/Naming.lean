import CallLowering.Proofs.Coupling
import CallLowering.Proofs.Linking
import Mathlib.Data.List.Pairwise

/-!
# Names and the order of definitions

Where the names of a program are good names (`Program.WellNamed`), nothing that is looked up by name
depends on the order of its definitions. A call means the same definition
(`Program.target?_ordered`), a name has one prototype wherever it is declared
(`Program.Announces.unique`), and a recorded function was recorded for one definition, its own or
that of a closure in it (`Program.WellNamed.owns_unique`).
-/

namespace CallLowering

/-- Two definitions are not bound to one foreign symbol. -/
def Definition.SymbolsApart (defn other : Definition) : Prop :=
  ∀ spec ∈ defn.foreign, ∀ spec' ∈ other.foreign, spec.symbol ≠ spec'.symbol

instance : DecidableRel Definition.SymbolsApart := fun defn other =>
  inferInstanceAs (Decidable (∀ spec ∈ defn.foreign, ∀ spec' ∈ other.foreign,
    spec.symbol ≠ spec'.symbol))

instance : Std.Symm Definition.SymbolsApart :=
  ⟨fun _ _ apart spec foreign spec' foreign' => (apart spec' foreign' spec foreign).symm⟩

/-- Two definitions that are bound to one foreign symbol give it one type and one convention. -/
def Definition.SymbolsAgree (defn other : Definition) : Prop :=
  ∀ spec ∈ defn.foreign, ∀ spec' ∈ other.foreign, spec.symbol = spec'.symbol →
    spec.conv = spec'.conv ∧ defn.params.map (·.ty) = other.params.map (·.ty) ∧
      defn.ret = other.ret ∧ defn.variadic = other.variadic

instance : DecidableRel Definition.SymbolsAgree := fun defn other =>
  inferInstanceAs (Decidable (∀ spec ∈ defn.foreign, ∀ spec' ∈ other.foreign,
    spec.symbol = spec'.symbol → _ ∧ _ ∧ _ ∧ _))

/-- The names under which a program declares functions are apart, no two definitions are bound to one
foreign symbol, and no variable is named like a hidden one. -/
structure Program.WellNamed (program : Program) : Prop extends program.NamesApart where
  foreign : program.defs.Pairwise Definition.SymbolsApart
  shown : ∀ name ∈ program.variables, name.toList.head? ≠ some '%'

/-! ## Functions of a definition -/

/-- The name is that of a closure in the function of a definition. -/
def Definition.HasClosure (defn : Definition) (name : String) : Prop :=
  (defn.name ++ "$block").toList <+: name.toList

/-- The name is that of the function of a definition, or of a closure in it. -/
def Definition.Owns (defn : Definition) (name : String) : Prop :=
  name = defn.name ∨ defn.HasClosure name

namespace Definition

variable {defn other : Definition} {name : String}

theorem Owns.closure (owned : defn.Owns name) (number : Nat) :
    defn.HasClosure (name ++ "$block" ++ toString number) := by
  unfold HasClosure
  obtain rfl | inner := owned
  · rw [String.toList_append (s := defn.name ++ "$block")]
    exact List.prefix_append _ _
  · rw [String.toList_append (s := name ++ "$block"), String.toList_append (s := name)]
    exact inner.trans ((List.prefix_append _ _).trans (List.prefix_append _ _))

theorem HasClosure.infix (closure : defn.HasClosure name) : "$block".toList <:+: name.toList := by
  obtain ⟨_, named⟩ := closure
  rw [← named, String.toList_append]
  exact List.infix_append _ _ _

/-- The name of a closure is not that of an initializer. -/
theorem HasClosure.head (closure : defn.HasClosure name) (plain : IsPlainName defn.name) :
    name.toList.head? ≠ some '~' := by
  obtain ⟨_, named⟩ := closure
  rw [← named, String.toList_append]
  have first := plain.2
  revert first
  cases defn.name.toList with
  | nil => simp
  | cons => exact id

/-- What separates the names of a definition and of a closure does not overlap with itself. -/
theorem eq_of_separated {before before' rest : List Char}
    (plain : ¬"$block".toList <:+: before') (first : before ++ "$block".toList <+: rest)
    (second : before' ++ "$block".toList <+: rest) (shorter : before <+: before') :
    before = before' := by
  obtain ⟨more, rfl⟩ := shorter
  obtain ⟨_, rfl⟩ := first
  rw [List.append_assoc, List.append_assoc, List.prefix_append_right_inj] at second
  -- what is left over starts like the separator, up to its end or up to another start of it
  have start : "$block".toList = ['$', 'b', 'l', 'o', 'c', 'k'] := rfl
  rw [start] at second plain
  rcases more with _ | ⟨c0, _ | ⟨c1, _ | ⟨c2, _ | ⟨c3, _ | ⟨c4, _ | ⟨c5, more⟩⟩⟩⟩⟩⟩
  · exact (List.append_nil before).symm
  · simp at second
  · simp at second
  · simp at second
  · simp at second
  · simp at second
  · simp only [List.cons_append, List.cons_prefix_cons] at second
    obtain ⟨rfl, rfl, rfl, rfl, rfl, rfl, _⟩ := second
    exact absurd ⟨before, more, by simp⟩ plain

/-- A function belongs to one definition only. -/
theorem Owns.name_eq (owned : defn.Owns name) (owned' : other.Owns name)
    (plain : IsPlainName defn.name) (plain' : IsPlainName other.name) : defn.name = other.name := by
  obtain rfl | inner := owned
  · obtain same | inner' := owned'
    · exact same
    · exact absurd inner'.infix plain.1
  · obtain rfl | inner' := owned'
    · exact absurd inner.infix plain'.1
    · unfold HasClosure at inner inner'
      rw [String.toList_append] at inner inner'
      apply String.toList_inj.mp
      obtain shorter | shorter := List.prefix_or_prefix_of_prefix
        ((List.prefix_append _ _).trans inner) ((List.prefix_append _ _).trans inner')
      · exact eq_of_separated plain'.1 inner inner' shorter
      · exact (eq_of_separated plain.1 inner' inner shorter).symm

end Definition

/-! ## Prototypes -/

namespace Program

variable {program : Program} {target : Target} {decl decl' : FnDecl} {defn : Definition}

section

variable (named : program.WellNamed)

include named

theorem WellNamed.owns_unique {other : Definition} {name : String} (member : defn ∈ program.defs)
    (member' : other ∈ program.defs) (owned : defn.Owns name) (owned' : other.Owns name) : defn = other :=
  List.inj_on_of_nodup_map named.distinct member member'
    (owned.name_eq owned' (named.names defn member) (named.names other member'))

/-- Definitions that are bound to one symbol are one definition. -/
theorem WellNamed.symbolsAgree : ∀ defn ∈ program.defs, ∀ other ∈ program.defs, defn.SymbolsAgree other := by
  intro defn member other member' spec foreign spec' foreign' same
  obtain rfl : defn = other := by
    by_contra apart
    exact named.foreign.forall member member' apart spec foreign spec' foreign' same
  obtain rfl := Option.mem_unique foreign foreign'
  exact ⟨rfl, rfl, rfl, rfl⟩

end

/-- A name has one prototype. -/
theorem Announces.unique (announced : program.Announces target decl)
    (announced' : program.Announces target decl') (apart : program.NamesApart)
    (agree : ∀ defn ∈ program.defs, ∀ other ∈ program.defs, defn.SymbolsAgree other)
    (same : decl.name = decl'.name) : decl = decl' := by
  cases announced' with
  | definition member domestic =>
    exact apart.unique announced.declares (.definition member domestic) same rfl
  | initializer name => exact apart.unique announced.declares (.initializer name) same rfl
  | @foreign other spec' member' foreign' =>
    have listed := (@Announces.foreign program target _ _ member' foreign').declares
    cases announced with
    | definition member domestic =>
      exact (apart.unique listed (.definition member domestic) same.symm rfl).symm
    | initializer name => exact (apart.unique listed (.initializer name) same.symm rfl).symm
    | @foreign defn spec member foreign =>
      obtain ⟨conv, params, ret, variadic⟩ :=
        agree defn member other member' spec foreign spec' foreign' same
      have sized : defn.params.length = other.params.length := by
        rw [← List.length_map (f := (·.ty)), params, List.length_map]
      have symbol : spec.symbol = spec'.symbol := same
      unfold Lower.foreignPrototype
      rw [conv, params, ret, variadic, sized, symbol]

/-- No prototype of the program is that of a closure. -/
theorem Announces.not_hasClosure (announced : program.Announces target decl)
    (apart : program.NamesApart) (member : defn ∈ program.defs) : ¬defn.HasClosure decl.name := by
  intro closure
  cases announced.declares with
  | definition member' => exact (apart.names _ member').1 closure.infix
  | foreign member' foreign => exact (apart.symbols _ member' _ foreign).1 closure.infix
  | initializer => exact closure.head (apart.names _ member) (by simp)

/-! ## Other orders -/

/-- The definitions of the program in another order. -/
def ordered (program : Program) (defs : List Definition) : Program := { program with defs := defs }

variable {defs : List Definition}

/-- A name means the same definition in every order. -/
theorem target?_ordered (apart : program.NamesApart) (perm : defs.Perm program.defs) (name : String) :
    (program.ordered defs).target? name = program.target? name := by
  have found : ∀ {defs : List Definition} {defn : Definition}, defs.Perm program.defs →
      (defs.reverse.find? (·.name == name) = some defn ↔ defn ∈ program.defs ∧ defn.name = name) := by
    intro defs defn perm
    have right : ∀ {defn}, defs.reverse.find? (·.name == name) = some defn →
        defn ∈ program.defs ∧ defn.name = name := fun {defn} found =>
      ⟨perm.mem_iff.mp (List.mem_reverse.mp (List.mem_of_find?_eq_some found)),
        beq_iff_eq.mp (List.find?_some (p := fun defn : Definition => defn.name == name) found)⟩
    refine ⟨right, fun listed => ?_⟩
    obtain ⟨member, named⟩ := listed
    have some : (defs.reverse.find? (·.name == name)).isSome := List.find?_isSome.mpr
      ⟨defn, List.mem_reverse.mpr (perm.mem_iff.mpr member), beq_iff_eq.mpr named⟩
    obtain ⟨_, found⟩ := Option.isSome_iff_exists.mp some
    obtain ⟨member', named'⟩ := right found
    rw [found, List.inj_on_of_nodup_map apart.distinct member' member (named'.trans named.symm)]
  refine Option.ext fun _ => ?_
  exact (found perm).trans (found (List.Perm.refl _)).symm

/-- How deep lowering goes does not depend on the order. -/
theorem nestingBound_ordered (perm : defs.Perm program.defs) (expr : Expr) :
    (program.ordered defs).nestingBound expr = program.nestingBound expr := by
  have sizes : (program.ordered defs).size = program.size :=
    List.Perm.foldr_eq' (f := fun (defn : Definition) size => defn.size + size) perm
      (fun defn _ other _ size => Nat.add_left_comm other.size defn.size size) 0
  have lengths : (program.ordered defs).defs.length = program.defs.length := perm.length_eq
  rw [nestingBound, nestingBound, sizes, lengths]

end Program

end CallLowering
