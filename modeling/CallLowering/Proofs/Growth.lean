import CallLowering.Proofs.Naming

/-!
# What a definition adds to the code

Lowering a definition leaves alone what was recorded before (`Kept`), but for the functions that
belong to the definition. What else is recorded are declarations (`Grown`), and each of them is one
that the program announces under its name. So it does not matter which definition has been lowered
before which.
-/

namespace CallLowering

/-! ## Tables that grow -/

/-- All entries of one table are those of another, at the same numbers. -/
def Kept {α : Type} (before after : Array α) : Prop :=
  ∀ (i : Nat) entry, before[i]? = some entry → after[i]? = some entry

namespace Kept

variable {α : Type} {first second third : Array α}

theorem refl (table : Array α) : Kept table table := fun _ _ => id

theorem trans (left : Kept first second) (right : Kept second third) : Kept first third :=
  fun i entry found => right i entry (left i entry found)

theorem push (kept : Kept first second) (entry : α) : Kept first (second.push entry) := by
  intro i old found
  have there := kept i old found
  have inside := (Array.getElem?_eq_some_iff.mp there).1
  rw [Array.getElem?_push, if_neg (Nat.ne_of_lt inside), there]

theorem modify (kept : Kept first second) {i : Nat} (new : first.size ≤ i) (change : α → α) :
    Kept first (second.modify i change) := by
  intro k old found
  have inside := (Array.getElem?_eq_some_iff.mp found).1
  rw [Array.getElem?_modify, if_neg (by omega), kept k old found]

end Kept

variable {name : String} {routine : Routine} {f : Nat}

/-- A global that is asked for changes values at most. -/
theorem Recording.addGlobal_eq (code : Recording) (name : String) :
    ∃ values globals,
      (code.addGlobal name).2 = { code with values := values, globals := globals } := by
  obtain same | ⟨_, added⟩ := code.addGlobal_snd name
  · exact ⟨_, _, same⟩
  · exact ⟨_, _, added⟩

/-! ## Functions -/

/-- There is a function of the name. -/
def Declared (routines : Array Routine) (name : String) : Prop :=
  ∃ (i : Nat) (routine : Routine), routines[i]? = some routine ∧ routine.decl.name = name

/-- The function has neither a body nor parameter values. -/
def Routine.IsBare (routine : Routine) : Prop := routine.blocks = #[] ∧ routine.params = []

theorem Recording.Indexed.funcNamed?_isSome {code : Recording} (indexed : code.Indexed) :
    (code.funcNamed? name).isSome = true ↔ Declared code.routines name := by
  rw [Option.isSome_iff_exists]
  constructor
  · rintro ⟨func, found⟩
    exact ⟨func.index, indexed.names.mp found⟩
  · rintro ⟨i, named⟩
    exact ⟨⟨i⟩, indexed.names.mpr named⟩

/-- The prototypes of recorded functions. -/
def Program.Records (program : Program) (target : Target) (decl : FnDecl) : Prop :=
  program.Announces target decl ∨ ∃ defn ∈ program.defs, defn.HasClosure decl.name

/-- The code is as before the function of a definition is lowered: what belongs to the definition has
been declared at most. -/
structure Recording.Ready (code : Recording) (program : Program) (target : Target)
    (root : Definition) : Prop where
  atTarget : code.target = target
  ofTypes : code.types = program.types
  indexed : code.Indexed
  recorded : ∀ (i : Nat) routine, code.routines[i]? = some routine → program.Records target routine.decl
  untouched : ∀ (i : Nat) routine, code.routines[i]? = some routine → root.Owns routine.decl.name →
    program.Announces target routine.decl ∧ routine.IsBare

/-- The functions that were there when the lowering of a definition began, those that were declared
since, and the bodies of those that belong to the definition. -/
structure Grown (program : Program) (target : Target) (root : Definition)
    (declared : String → Prop) (before routines : Array Routine) : Prop where
  recorded : ∀ (i : Nat) routine, routines[i]? = some routine → program.Records target routine.decl
  kept : ∀ (i : Nat) routine, before[i]? = some routine → ¬root.Owns routine.decl.name →
    routines[i]? = some routine
  new : ∀ (i : Nat) routine, routines[i]? = some routine →
    root.Owns routine.decl.name ∧ declared routine.decl.name ∨ before[i]? = some routine ∨
      program.Announces target routine.decl ∧ routine.IsBare
  declared : ∀ name, Declared routines name ↔ Declared before name ∨ declared name

namespace Grown

variable {program : Program} {target : Target} {root : Definition} {declared : String → Prop}
  {before routines routines' : Array Routine} {decl : FnDecl} {code : Recording}

theorem start (ready : code.Ready program target root) :
    Grown program target root (fun _ => False) code.routines code.routines where
  recorded := ready.recorded
  kept _ _ found _ := found
  new _ _ found := .inr (.inl found)
  declared _ := (or_iff_left id).symm

section

variable (grown : Grown program target root declared before routines)

include grown

/-- Functions that belong to the definition get longer. -/
theorem change
    (later : ∀ (i : Nat) routine, routines[i]? = some routine → ∃ routine', routines'[i]? = some routine' ∧ routine'.decl = routine.decl ∧ (¬root.Owns routine.decl.name → routine' = routine))
    (earlier : ∀ (i : Nat) routine', routines'[i]? = some routine' → ∃ routine, routines[i]? = some routine ∧ routine'.decl = routine.decl ∧ (root.Owns routine.decl.name ∧ declared routine.decl.name ∨ routine' = routine)) :
    Grown program target root declared before routines' where
  recorded i routine' found := by
    obtain ⟨routine, there, decl, _⟩ := earlier i routine' found
    rw [decl]
    exact grown.recorded i routine there
  kept i routine found foreign := by
    obtain ⟨routine', there, _, unchanged⟩ := later i routine (grown.kept i routine found foreign)
    rw [there, unchanged foreign]
  new i routine' found := by
    obtain ⟨routine, there, decl, own | rfl⟩ := earlier i routine' found
    · rw [decl]
      exact .inl own
    · exact grown.new i routine' there
  declared name := by
    rw [← grown.declared name]
    constructor
    · rintro ⟨i, routine', found, named⟩
      obtain ⟨routine, there, decl, _⟩ := earlier i routine' found
      exact ⟨i, routine, there, decl ▸ named⟩
    · rintro ⟨i, routine, found, named⟩
      obtain ⟨routine', there, decl, _⟩ := later i routine found
      exact ⟨i, routine', there, decl ▸ named⟩

/-- A function that belongs to the definition is changed, but not its prototype. -/
theorem modify (found : routines[f]? = some routine) (own : root.Owns routine.decl.name)
    (known : declared routine.decl.name) {update : Routine → Routine}
    (same : ∀ routine, (update routine).decl = routine.decl) :
    Grown program target root declared before (routines.modify f update) := by
  refine grown.change (fun i old there => ?_) fun _ new there => ?_
  · rw [Array.getElem?_modify, there]
    split
    · rename_i here
      subst here
      obtain rfl := Option.mem_unique found there
      exact ⟨_, rfl, same routine, fun foreign => absurd own foreign⟩
    · exact ⟨old, rfl, rfl, fun _ => rfl⟩
  · rw [Array.getElem?_modify] at there
    split at there
    · rename_i here
      subst here
      rw [found] at there
      cases there
      exact ⟨routine, found, same routine, .inl ⟨own, known⟩⟩
    · exact ⟨new, there, rfl, .inr rfl⟩

/-- A function is added that the program announces, or that belongs to the definition. -/
theorem push (member : root ∈ program.defs)
    (allowed : program.Announces target decl ∨ root.HasClosure decl.name) :
    Grown program target root (fun name => declared name ∨ name = decl.name) before
      (routines.push ⟨decl, #[], []⟩) where
  recorded i routine found := by
    obtain ⟨_, rfl⟩ | found := getElem?_push_cases found
    · exact allowed.imp_right fun closure => ⟨root, member, closure⟩
    · exact grown.recorded i routine found
  kept i routine found foreign :=
    (Kept.refl routines).push _ i routine (grown.kept i routine found foreign)
  new i routine found := by
    obtain ⟨_, rfl⟩ | found := getElem?_push_cases found
    · obtain announced | closure := allowed
      · exact .inr (.inr ⟨announced, rfl, rfl⟩)
      · exact .inl ⟨.inr closure, .inr rfl⟩
    · exact (grown.new i routine found).imp_left fun own => ⟨own.1, .inl own.2⟩
  declared name := by
    rw [← or_assoc, ← grown.declared name]
    constructor
    · rintro ⟨i, routine, found, same⟩
      obtain ⟨_, rfl⟩ | found := getElem?_push_cases found
      · exact .inr same.symm
      · exact .inl ⟨i, routine, found, same⟩
    · rintro (⟨i, routine, found, same⟩ | rfl)
      · exact ⟨i, routine, (Kept.refl routines).push _ i routine found, same⟩
      · exact ⟨_, _, Array.getElem?_push_size, rfl⟩

end

variable (ready : code.Ready program target root)

include ready

/-- A function that was there before, and nothing has been recorded of since, has the one prototype
of its name, and belongs to the definition only if it has no body. -/
theorem decl_eq (named : program.WellNamed) (member : root ∈ program.defs)
    (grown : Grown program target root declared code.routines routines)
    (found : routines[f]? = some routine) (same : routine.decl.name = decl.name)
    (unknown : ¬declared decl.name)
    (allowed : program.Announces target decl ∨ root.HasClosure decl.name) :
    routine.decl = decl ∧ (root.Owns decl.name → routine.IsBare) := by
  have bare : root.Owns decl.name → program.Announces target routine.decl ∧ routine.IsBare := by
    intro own
    obtain ⟨_, known⟩ | old | fresh := grown.new f routine found
    · exact absurd (same ▸ known) unknown
    · exact ready.untouched f routine old (same ▸ own)
    · exact fresh
  refine ⟨?_, fun own => (bare own).2⟩
  obtain announced | closure := allowed
  · obtain announced' | ⟨_, member', closure⟩ := grown.recorded f routine found
    · exact announced'.unique announced named.toNamesApart named.symbolsAgree same
    · rw [same] at closure
      exact absurd closure (announced.not_hasClosure named.toNamesApart member')
  · have announced := (bare (.inr closure)).1
    rw [← same] at closure
    exact absurd closure (announced.not_hasClosure named.toNamesApart member)

/-- A function is declared. It has the prototype it is declared with, unless the name is known from
an earlier declaration. -/
theorem declare {code' : Recording} (indexed : code'.Indexed) (named : program.WellNamed)
    (member : root ∈ program.defs)
    (grown : Grown program target root declared code.routines code'.routines)
    (allowed : program.Announces target decl ∨ root.HasClosure decl.name) :
    ∃ routines byName,
      (code'.declare decl).2 = { code' with routines := routines, byName := byName } ∧
      Grown program target root (fun name => declared name ∨ name = decl.name) code.routines
        routines ∧ Kept code'.routines routines ∧
      ∃ routine, routines[(code'.declare decl).1.index]? = some routine ∧
        routine.decl.name = decl.name ∧ (¬declared decl.name → routine.decl = decl ∧
          (root.Owns decl.name → routine.IsBare)) := by
  unfold Recording.declare
  split
  · rename_i func found
    obtain ⟨_, there, same⟩ := indexed.names.mp found
    refine ⟨code'.routines, _, rfl, ?_, .refl _, _, there, same, fun unknown => ?_⟩
    · refine ⟨grown.recorded, grown.kept, fun i routine found => ?_, fun name => ?_⟩
      · exact (grown.new i routine found).imp_left fun own => ⟨own.1, .inl own.2⟩
      · rw [← or_assoc, ← grown.declared name, iff_self_or]
        rintro rfl
        exact ⟨_, _, there, same⟩
    · exact decl_eq ready named member grown there same unknown allowed
  · exact ⟨_, _, rfl, grown.push member allowed, (Kept.refl _).push _, _, Array.getElem?_push_size,
      rfl, fun _ => ⟨rfl, fun _ => ⟨rfl, rfl⟩⟩⟩

end Grown

end CallLowering
