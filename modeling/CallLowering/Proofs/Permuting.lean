import CallLowering.Proofs.Interchange

/-!
# The order of definitions

The functions of a program are lowered in the order of its definitions, and what is recorded for one
definition does not depend on what was recorded before. So the order is irrelevant: a program that
lists the same definitions in another order compiles as well, to the same code up to numbers
(`Program.compile_perm`).
-/

namespace CallLowering

open Definition Lower Recording

variable {name : String}

/-! ## Between functions -/

/-- The state between two functions, when the functions of some definitions have been lowered: other
functions have been declared at most. -/
structure LowerState.Settled (s : LowerState) (program : Program) (options : Options)
    (done : List Definition) : Prop where
  idle : s.Idle ⟨program, options⟩
  recorded : ∀ (i : Nat) routine, s.code.routines[i]? = some routine →
    program.Records options.target routine.decl
  bodies : ∀ (i : Nat) routine, s.code.routines[i]? = some routine →
    (∃ defn ∈ done, defn.Owns routine.decl.name) ∨
      program.Announces options.target routine.decl ∧ routine.IsBare
  listed : ∀ defn ∈ done, defn ∈ program.defs

section Settled

variable {program : Program} {options : Options} {done : List Definition} {root : Definition}
  {s : LowerState}

theorem LowerState.Settled.initial (program : Program) (options : Options) (defs : List Definition) :
    (LowerState.initial ⟨program.ordered defs, options⟩).Settled program options [] where
  idle := { LowerState.Idle.initial ⟨program.ordered defs, options⟩ with }
  recorded := by rintro _ _ ⟨⟩
  bodies := by rintro _ _ ⟨⟩
  listed := List.forall_mem_nil _

/-- The next definition finds the code ready. -/
theorem LowerState.Settled.ready (settled : s.Settled program options done)
    (named : program.WellNamed) (member : root ∈ program.defs) (fresh : root ∉ done) :
    s.code.Ready program options.target root where
  __ := settled
  atTarget := settled.idle.target
  ofTypes := settled.idle.types
  indexed := settled.idle.proper.indexed
  untouched i routine found own := by
    obtain ⟨defn, lowered, owned⟩ | bare := settled.bodies i routine found
    · obtain rfl := named.owns_unique (settled.listed defn lowered) member owned own
      exact absurd lowered fresh
    · exact bare

end Settled

/-! ## One function -/

theorem Recording.declare_elsewhere (code : Recording) (decl : FnDecl) (cursor : Option BlockId) :
    ({ code with cursor := cursor } : Recording).declare decl =
      ((code.declare decl).1, { (code.declare decl).2 with cursor := cursor }) := by
  have lookup : ({ code with cursor := cursor } : Recording).funcNamed? decl.name =
    code.funcNamed? decl.name := rfl
  unfold declare
  rw [lookup]
  cases code.funcNamed? decl.name <;> rfl

/-- Where the cursor is does not matter to the function of a definition that has no body yet. -/
theorem Lower.lowerFunction_elsewhere (env : Env) (s : LowerState) {defn : Definition}
    {routine : Routine} (bodied : defn.body.isSome = true)
    (present : (s.code.declare (prototype env.program.types defn)).2.routine?
      (s.code.declare (prototype env.program.types defn)).1 = some routine)
    (bodiless : routine.isDefined = false) (cursor : Option BlockId) :
    lowerFunction defn env { s with code := { s.code with cursor := cursor } } =
      lowerFunction defn env s := by
  obtain ⟨_, bodied⟩ := Option.isSome_iff_exists.mp bodied
  have present' : ({ (s.code.declare (prototype env.program.types defn)).2 with
      cursor := cursor } : Recording).routine? (s.code.declare (prototype env.program.types defn)).1 =
        some routine := present
  have here : lowerFunction defn env s = _ := lowerFunction_run bodied (Prod.eta _).symm
  have elsewhere : lowerFunction defn env { s with code := { s.code with cursor := cursor } } = _ :=
    lowerFunction_run bodied (declare_elsewhere s.code _ cursor)
  rw [here, elsewhere]
  rw [Emit.beginRoutine_of_bodiless present' bodiless, Emit.beginRoutine_of_bodiless present bodiless]
  rfl

namespace Reordering

variable (R : Reordering)

/-- The states with nothing recorded yet for the definition. -/
theorem start (joins1 : R.before₁.joins = #[]) (joins2 : R.before₂.joins = #[])
    (faithful₁ : R.before₁.memory.Faithful R.options.target R.program.types)
    (faithful₂ : R.before₂.memory.Faithful R.options.target R.program.types) :
    R.coupling.Core (.empty, 0)
      { R.before₁ with code := { R.before₁.code with cursor := none } }
      { R.before₂ with code := { R.before₂.code with cursor := none } } where
  site := by
    have unknown : Link.empty.Knows = fun _ => False :=
      funext fun _ => propext ⟨by rintro ⟨_, _, ⟨⟩⟩, False.elim⟩
    refine ⟨⟨⟨R.ready₁.atTarget, R.ready₂.atTarget⟩, ⟨R.ready₁.ofTypes, R.ready₂.ofTypes⟩, ?_, ?_, ?_,
      .none, R.ready₁.indexed.of_same rfl rfl .rfl .rfl, R.ready₂.indexed.of_same rfl rfl .rfl .rfl⟩,
      ?_⟩
    · refine ⟨?_, ⟨?_, ?_⟩⟩
      · rintro _ _ ⟨⟩
      · rintro _ _ _ ⟨⟩
      · rintro _ _ _ ⟨⟩
    · refine ⟨rfl, rfl, ?_, .refl _⟩
      rintro _ _ ⟨_, ⟨⟩, _⟩
    · refine ⟨unknown ▸ .start R.ready₁, unknown ▸ .start R.ready₂, ?_⟩
      rintro _ _ _ ⟨⟩
    · rw [joins1, joins2]
      exact .nil
  scopes := ⟨rfl, rfl, by rintro _ ⟨⟩⟩
  dispatches := ⟨0, rfl, rfl⟩
  memory := ⟨faithful₁, faithful₂⟩
  events := trivial

/-- The function of the definition is without a body when its lowering begins. -/
theorem bodiless {code : Recording} (ready : code.Ready R.program R.options.target R.root)
    (domestic : R.root.foreign = none) :
    ∃ routine, (code.declare (prototype R.program.types R.root)).2.routine?
        (code.declare (prototype R.program.types R.root)).1 = some routine ∧
      routine.isDefined = false := by
  obtain ⟨_, _, after, _, _, routine, found, _, fresh⟩ := (Grown.start ready).declare ready
    ready.indexed R.named R.member (.inl (.definition R.member domestic))
  refine ⟨routine, ?_, ?_⟩
  · rw [after]
    exact found
  · rw [Routine.isDefined, ((fresh id).2 (.inl rfl)).1]
    rfl

/-- Both runs have lowered the definition, and what they recorded for it is the same up to numbers. -/
structure Lowered (w : Link) (after1 after2 : LowerState) : Prop where
  codes : R.Codes w after1.code after2.code
  known : w.Knows R.root.name

/-- Both runs lower the definition or both fail, and what they record is the same up to numbers. -/
theorem lowers (needed : R.root.needsFunction = true) (joins1 : R.before₁.joins = #[])
    (joins2 : R.before₂.joins = #[])
    (faithful₁ : R.before₁.memory.Faithful R.options.target R.program.types)
    (faithful₂ : R.before₂.memory.Faithful R.options.target R.program.types) :
    Coupled False (fun _ after1 _ after2 => ∃ w, R.Lowered w after1 after2) (fun _ _ => True)
      (lowerFunction R.root ⟨R.program.ordered R.left, R.options⟩ R.before₁)
      (lowerFunction R.root ⟨R.program.ordered R.right, R.options⟩ R.before₂) := by
  have domestic := domestic_of_needsFunction needed
  have bodied : R.root.body.isSome = true := by
    simp only [needsFunction, Bool.and_eq_true] at needed
    exact needed.1.2
  obtain ⟨_, present1, bodiless1⟩ := R.bodiless R.ready₁ domestic
  obtain ⟨_, present2, bodiless2⟩ := R.bodiless R.ready₂ domestic
  have moved1 := lowerFunction_elsewhere R.coupling.left R.before₁ bodied present1 bodiless1 none
  have moved2 := lowerFunction_elsewhere R.coupling.right R.before₂ bodied present2 bodiless2 none
  have lowered := R.sound.lowerFunction (R.sound.returns fun _ _ => id) R.root R.member
    (.inl (.definition R.member domestic)) (.inl rfl)
    (R.start joins1 joins2 faithful₁ faithful₂)
  rw [moved1, moved2] at lowered
  refine lowered.mono ?_ fun _ _ _ => trivial
  rintro f1 after1 f2 after2 ⟨w, _, idle, func⟩
  exact ⟨w.1, idle.core.site.1, ⟨f1, f2, func⟩⟩

variable {R} {w : Link} {after1 after2 : LowerState}

/-- What was recorded for the definition is the same up to numbers. -/
theorem Lowered.between (lowered : R.Lowered w after1 after2) :
    (R.numbers w).Between after1.code after2.code where
  values := lowered.codes.values.unique
  blocks := biUnique_iff.mpr fun _ _ _ _ => block_eq_iff
  funcs := by
    rw [biUnique_iff]
    rintro ⟨f1⟩ ⟨f2⟩ ⟨g1⟩ ⟨g2⟩ ⟨name, first⟩ ⟨name', second⟩
    obtain ⟨left, right⟩ := lowered.codes.routines.eq_iff lowered.codes.indexed first second
    rw [FuncId.mk.injEq, FuncId.mk.injEq]
    exact left.trans right.symm
  named := by
    rintro f1 f2 ⟨name, func⟩
    obtain ⟨routine1, routine2, found1, found2, routine⟩ :=
      lowered.codes.routines.related name f1 f2 func
    exact ⟨routine1, routine2, found1, found2, congrArg FnDecl.name routine.decl⟩
  sources := lowered.codes.values.sources
  contents b1 b2 here := by
    obtain ⟨data1, data2, found1, found2, data⟩ := lowered.codes.blocks.contents b1 b2 here
    exact ⟨data1, data2, found1, found2, data.renamed⟩

/-- The first run is between two functions again. -/
theorem Lowered.settled (lowered : R.Lowered w after1 after2) {done : List Definition}
    (settled : R.before₁.Settled R.program R.options done) (idle : after1.Idle ⟨R.program, R.options⟩) :
    after1.Settled R.program R.options (R.root :: done) where
  idle := idle
  recorded := lowered.codes.routines.grown₁.recorded
  bodies i routine found := by
    obtain ⟨own, _⟩ | old | bare := lowered.codes.routines.grown₁.new i routine found
    · exact .inl ⟨R.root, List.mem_cons_self, own⟩
    · refine (settled.bodies i routine old).imp_left ?_
      rintro ⟨defn, member, own⟩
      exact ⟨defn, List.mem_cons_of_mem _ member, own⟩
    · exact .inr bare
  listed := List.forall_mem_cons.mpr ⟨R.member, settled.listed⟩

end Reordering

/-! ## What later functions leave alone -/

/-- Recorded code is still there later: no block has changed, and of the functions none with one of
the names. -/
structure Recording.Spares (names : String → Prop) (before after : Recording) : Prop where
  later : before.Extends after
  blocks : Kept before.blocks after.blocks
  routines : ∀ (i : Nat) routine, before.routines[i]? = some routine → names routine.decl.name →
    after.routines[i]? = some routine

namespace Recording.Spares

variable {names names' : String → Prop} {first second third : Recording}

theorem refl (code : Recording) : code.Spares names code :=
  ⟨.refl code, .refl _, fun _ _ found _ => found⟩

theorem trans (left : first.Spares names second) (right : second.Spares names third) :
    first.Spares names third where
  later := left.later.trans right.later
  blocks := left.blocks.trans right.blocks
  routines i routine found named := right.routines i routine (left.routines i routine found named) named

variable (spares : first.Spares names second)

include spares

theorem mono (fewer : ∀ name, names' name → names name) : first.Spares names' second :=
  ⟨spares.later, spares.blocks, fun i routine found named =>
    spares.routines i routine found (fewer _ named)⟩

theorem declared (declared : Declared first.routines name) : Declared second.routines name := by
  obtain ⟨i, routine, found, called⟩ := declared
  obtain ⟨routine', found', decl, _⟩ := spares.later.routine ⟨i⟩ routine found
  exact ⟨i, routine', found', decl ▸ called⟩

end Recording.Spares

/-- The renaming of nothing. -/
def Renaming.nothing : Renaming := ⟨fun _ _ => False, fun _ _ => False, fun _ _ => False⟩

theorem Renaming.Between.nothing (code1 code2 : Recording) : Renaming.nothing.Between code1 code2 := by
  have unique : ∀ {α β : Type}, Relator.BiUnique fun (_ : α) (_ : β) => False := by
    intro α β
    rw [biUnique_iff]
    rintro _ _ _ _ ⟨⟩
  refine ⟨unique, unique, unique, ?_, ?_, ?_⟩
  · rintro _ _ ⟨⟩
  · rintro _ _ ⟨⟩
  · rintro _ _ ⟨⟩

/-- Code that is the same up to numbers is so later. -/
theorem Renaming.Between.later {ρ : Renaming} {names1 names2 : String → Prop}
    {code1 code1' code2 code2' : Recording} (between : ρ.Between code1 code2)
    (left : code1.Spares names1 code1') (right : code2.Spares names2 code2') :
    ρ.Between code1' code2' where
  __ := between
  named f1 f2 func := by
    obtain ⟨routine1, routine2, found1, found2, called⟩ := between.named f1 f2 func
    obtain ⟨routine1', found1', decl1, _⟩ := left.later.routine f1 routine1 found1
    obtain ⟨routine2', found2', decl2, _⟩ := right.later.routine f2 routine2 found2
    exact ⟨routine1', routine2', found1', found2', by rw [decl1, decl2, called]⟩
  sources v1 v2 value := by
    obtain ⟨source1, source2, found1, found2, renamed⟩ := between.sources v1 v2 value
    exact ⟨source1, source2, left.later.value _ _ found1, right.later.value _ _ found2, renamed⟩
  contents b1 b2 block := by
    obtain ⟨data1, data2, found1, found2, renamed⟩ := between.contents b1 b2 block
    exact ⟨data1, data2, left.blocks _ _ found1, right.blocks _ _ found2, renamed⟩

/-! ## All functions -/

namespace Program

variable {program : Program} {options : Options} {left right defns done defns' : List Definition}
  {defn : Definition} {s s' before₁ after1 before₂ after2 : LowerState}

/-- A program that is settled in two runs, at a definition that is next in both. -/
def meeting (named : program.WellNamed) (options : Options) (perm1 : left.Perm program.defs)
    (perm2 : right.Perm program.defs) (member : defn ∈ program.defs)
    (ready₁ : before₁.code.Ready program options.target defn)
    (ready₂ : before₂.code.Ready program options.target defn) : Reordering :=
  ⟨program, named, options, left, right, perm1, perm2, defn, member, before₁, before₂, ready₁, ready₂⟩

/-- Both runs lower the definition they meet at, or neither does. -/
theorem meeting_lowers {done1 done2 : List Definition} (named : program.WellNamed)
    (perm1 : left.Perm program.defs) (perm2 : right.Perm program.defs) (member : defn ∈ program.defs)
    (needed : defn.needsFunction = true) (settled1 : before₁.Settled program options done1)
    (new1 : defn ∉ done1) (settled2 : before₂.Settled program options done2) (new2 : defn ∉ done2) :
    Coupled False (fun _ after1 _ after2 => ∃ w, (meeting named options perm1 perm2 member
        (settled1.ready named member new1) (settled2.ready named member new2)).Lowered w after1 after2)
      (fun _ _ => True) (lowerFunction defn ⟨program.ordered left, options⟩ before₁)
      (lowerFunction defn ⟨program.ordered right, options⟩ before₂) :=
  (meeting named options perm1 perm2 member _ _).lowers needed settled1.idle.joins
    settled2.idle.joins settled1.idle.memo settled2.idle.memo

/-- A run comes to a definition, in a state that others have settled, and lowers it. What it records
for the definition is there in the end. -/
structure Visit (program : Program) (options : Options) (defs : List Definition) (defn : Definition)
    (before after : LowerState) (final : Recording) : Prop where
  settled : ∃ done, before.Settled program options done ∧ defn ∉ done
  lowered : ∃ func, lowerFunction defn ⟨program.ordered defs, options⟩ before = .ok func after
  spared : after.code.Spares defn.Owns final

/-- Lowering a definition settles the state again, and leaves alone what belongs to others. -/
theorem lowerFunction_settles {func : FuncId} (named : program.WellNamed)
    (perm : left.Perm program.defs) (member : defn ∈ program.defs)
    (needed : defn.needsFunction = true) (settled : s.Settled program options done)
    (fresh : defn ∉ done)
    (ran : lowerFunction defn ⟨program.ordered left, options⟩ s = .ok func s') :
    s'.Settled program options (defn :: done) ∧ s.code.Spares (fun name => ¬defn.Owns name) s'.code := by
  have inside : defn ∈ (program.ordered left).defs := perm.mem_iff.mpr member
  obtain ⟨idle, gains⟩ := lowerFunction_gains
    (Γ := Scenario.unpromised ⟨program.ordered left, options⟩)
    (fun _ bodied => body_parts_subset inside bodied)
    (declares_function inside needed) { settled.idle with } ran
  have lowers := meeting_lowers named perm perm member needed settled fresh settled fresh
  rw [ran] at lowers
  obtain ⟨_, lowered⟩ := lowers
  exact ⟨lowered.settled settled { idle with }, gains.later, lowered.codes.blocks.kept₁,
    lowered.codes.routines.grown₁.kept⟩

/-- Definitions that are still to be lowered after some others. -/
structure Remaining (program : Program) (done defns : List Definition) : Prop where
  listed : ∀ defn ∈ defns, defn ∈ program.defs ∧ defn.needsFunction = true
  nodup : defns.Nodup
  fresh : ∀ defn ∈ defns, defn ∉ done

theorem Remaining.tail (remaining : Remaining program done (defn :: defns)) :
    Remaining program (defn :: done) defns := by
  obtain ⟨absent, nodup⟩ := List.nodup_cons.mp remaining.nodup
  refine ⟨(List.forall_mem_cons.mp remaining.listed).2, nodup, fun other inside => ?_⟩
  rw [List.mem_cons, not_or]
  exact ⟨fun same => absent (same ▸ inside), (List.forall_mem_cons.mp remaining.fresh).2 other inside⟩

/-- Definitions that are lowered one after the other. -/
structure Visits (program : Program) (options : Options) (defs done defns : List Definition)
    (s s' : LowerState) : Prop where
  settled : s'.Settled program options (defns.reverse ++ done)
  spared : s.code.Spares (fun name => ∀ defn ∈ defns, ¬defn.Owns name) s'.code
  visit : ∀ defn ∈ defns, ∃ before after, Visit program options defs defn before after s'.code
  declared : ∀ name, Declared s'.code.routines name → Declared s.code.routines name ∨
    ∃ defn ∈ defns, ∃ before after, Visit program options defs defn before after s'.code ∧
      Declared after.code.routines name ∧ ¬Declared before.code.routines name

section

variable (named : program.WellNamed)

include named

theorem lowerAll_visits (perm : left.Perm program.defs) (remaining : Remaining program done defns)
    (settled : s.Settled program options done)
    (ran : lowerAll ⟨program.ordered left, options⟩ defns s = (none, s')) :
    Visits program options left done defns s s' := by
  induction defns generalizing s done with
  | nil =>
    cases ran
    exact ⟨settled, .refl _, List.forall_mem_nil _, fun _ => .inl⟩
  | cons defn defns ih =>
    obtain ⟨func, t, lowered, ran⟩ := lowerAll_cons ran
    obtain ⟨member, needed⟩ := remaining.listed defn List.mem_cons_self
    have new := remaining.fresh defn List.mem_cons_self
    obtain ⟨settled', step⟩ := lowerFunction_settles named perm member needed settled new lowered
    have rest := ih remaining.tail settled' ran
    have first : Visit program options left defn s t s'.code := by
      refine ⟨⟨done, settled, new⟩, ⟨func, lowered⟩, rest.spared.mono @fun name own other inside own' => ?_⟩
      obtain rfl := named.owns_unique member (remaining.tail.listed other inside).1 own own'
      exact (List.nodup_cons.mp remaining.nodup).1 inside
    refine ⟨?_, ?_, ?_, fun name declared => ?_⟩
    · simpa using rest.settled
    · refine (step.mono fun name others => others defn List.mem_cons_self).trans
        (rest.spared.mono @fun name others other inside => others other (List.mem_cons_of_mem _ inside))
    · exact List.forall_mem_cons.mpr ⟨⟨s, t, first⟩, rest.visit⟩
    · obtain old | ⟨other, inside, before, after, found⟩ := rest.declared name declared
      · by_cases known : Declared s.code.routines name
        · exact .inl known
        · exact .inr ⟨defn, List.mem_cons_self, s, t, first, old, known⟩
      · exact .inr ⟨other, List.mem_cons_of_mem _ inside, before, after, found⟩

section

variable (perm1 : left.Perm program.defs) (perm2 : right.Perm program.defs)

include perm1 perm2

/-- What one run lowers another one lowers as well, at whatever point it comes to it. -/
theorem lowerAll_succeeds (remaining : Remaining program done defns)
    (settled : s.Settled program options done) {final : Recording}
    (visit : ∀ defn ∈ defns, ∃ before after, Visit program options left defn before after final) :
    ∃ s', lowerAll ⟨program.ordered right, options⟩ defns s = (none, s') := by
  induction defns generalizing s done with
  | nil => exact ⟨s, rfl⟩
  | cons defn defns ih =>
    obtain ⟨member, needed⟩ := remaining.listed defn List.mem_cons_self
    have new := remaining.fresh defn List.mem_cons_self
    obtain ⟨⟨_, _, ⟨_, settled', new'⟩, ⟨_, ran'⟩, _⟩, visit⟩ :=
      List.forall_mem_cons.mp visit
    have lowers := meeting_lowers named perm1 perm2 member needed settled' new' settled new
    rw [ran'] at lowers
    cases ran : lowerFunction defn ⟨program.ordered right, options⟩ s with
    | error e t =>
      rw [ran] at lowers
      exact lowers.elim
    | ok func' t =>
      have settled := (lowerFunction_settles named perm2 member needed settled new ran).1
      rw [lowerAll, ran]
      exact ih remaining.tail settled visit

/-- Two runs that come to one definition record the same for it, up to numbers: they declare the same
names, and the functions that belong to the definition have the same bodies. -/
theorem Visit.agree (member : defn ∈ program.defs) (needed : defn.needsFunction = true)
    {final1 final2 : Recording} (first : Visit program options left defn before₁ after1 final1)
    (second : Visit program options right defn before₂ after2 final2) :
    ∃ (known : String → Prop) (ρ : Renaming), ρ.Between after1.code after2.code ∧ known defn.name ∧
      Grown program options.target defn known before₁.code.routines after1.code.routines ∧
      Grown program options.target defn known before₂.code.routines after2.code.routines ∧
      ∀ name, known name → defn.Owns name → ∃ f1 f2 routine1 routine2,
        after1.code.routine? f1 = some routine1 ∧ after2.code.routine? f2 = some routine2 ∧
        routine1.decl.name = name ∧ routine1.Renamed ρ routine2 := by
  obtain ⟨⟨_, settled1, new1⟩, ⟨_, ran1⟩, _⟩ := first
  obtain ⟨⟨_, settled2, new2⟩, ⟨_, ran2⟩, _⟩ := second
  have lowers := meeting_lowers named perm1 perm2 member needed settled1 new1 settled2 new2
  rw [ran1, ran2] at lowers
  obtain ⟨w, lowered⟩ := lowers
  refine ⟨w.Knows, _, lowered.between, lowered.known, lowered.codes.routines.grown₁,
    lowered.codes.routines.grown₂, fun name known own => ?_⟩
  obtain ⟨f1, f2, func⟩ := known
  obtain ⟨routine1, routine2, found1, found2, routine⟩ :=
    lowered.codes.routines.related name f1 f2 func
  exact ⟨f1, f2, routine1, routine2, found1, found2, routine.called, routine.body own⟩

/-- Every name that is declared in one order is declared in the other. -/
theorem Visits.declared_other {t t' : LowerState}
    (listed : ∀ defn ∈ defns, defn ∈ program.defs ∧ defn.needsFunction = true)
    (same : ∀ defn ∈ defns, defn ∈ defns') (first : Visits program options left [] defns s s')
    (second : Visits program options right [] defns' t t') (empty : s.code.routines = #[])
    (declared : Declared s'.code.routines name) : Declared t'.code.routines name := by
  obtain ⟨_, _, found, _⟩ | ⟨defn, inside, _, _, visit1, there, absent⟩ :=
    first.declared name declared
  · rw [empty] at found
    cases found
  · obtain ⟨_, _, visit2⟩ := second.visit defn (same defn inside)
    obtain ⟨member, needed⟩ := listed defn inside
    obtain ⟨_, _, _, _, grown₁, grown₂, _⟩ :=
      visit1.agree named perm1 perm2 member needed visit2
    have knows := ((grown₁.declared name).mp there).resolve_left absent
    exact visit2.spared.declared ((grown₂.declared name).mpr (.inr knows))

end

/-- A run comes to the definition that a function belongs to, and declares the function there. -/
theorem Visits.visit_of_owns (perm : left.Perm program.defs)
    (listed : ∀ defn ∈ defns, defn ∈ program.defs ∧ defn.needsFunction = true)
    (visits : Visits program options left [] defns s s') (empty : s.code.routines = #[])
    (inside : defn ∈ defns) (own : defn.Owns name) (declared : Declared s'.code.routines name) :
    ∃ before after, Visit program options left defn before after s'.code ∧
      (name = defn.name ∨ Declared after.code.routines name ∧ ¬Declared before.code.routines name) := by
  obtain rfl | closure := own
  · obtain ⟨before, after, visit⟩ := visits.visit defn inside
    exact ⟨before, after, visit, .inl rfl⟩
  obtain ⟨i, routine, found, _⟩ | ⟨other, inside', before, after, visit, there, absent⟩ :=
    visits.declared name declared
  · rw [empty] at found
    cases found
  -- only the definition itself declares a closure in its function
  · obtain ⟨member', needed'⟩ := listed other inside'
    obtain ⟨_, _, _, _, grown, _⟩ := visit.agree named perm perm member' needed' visit
    obtain ⟨i, routine, found, rfl⟩ := there
    obtain ⟨own', _⟩ | old | ⟨announced, _⟩ := grown.new i routine found
    · obtain rfl := named.owns_unique (listed defn inside).1 member' (.inr closure) own'
      exact ⟨before, after, visit, .inr ⟨⟨i, routine, found, rfl⟩, absent⟩⟩
    · exact absurd ⟨i, routine, old, rfl⟩ absent
    · exact absurd closure (announced.not_hasClosure named.toNamesApart (listed defn inside).1)

/-- Two runs that lower the same definitions in different orders record equivalent code. -/
theorem Visits.equivalent {t t' : LowerState} (perm1 : left.Perm program.defs)
    (perm2 : right.Perm program.defs)
    (listed : ∀ defn ∈ defns, defn ∈ program.defs ∧ defn.needsFunction = true)
    (same : ∀ defn, defn ∈ defns ↔ defn ∈ defns')
    (first : Visits program options left [] defns s s')
    (second : Visits program options right [] defns' t t') (empty1 : s.code.routines = #[])
    (empty2 : t.code.routines = #[]) : s'.code.Equivalent t'.code where
  names name := by
    have listed' : ∀ defn ∈ defns', defn ∈ program.defs ∧ defn.needsFunction = true :=
      fun defn inside => listed defn ((same defn).mpr inside)
    rw [Bool.eq_iff_iff, first.settled.idle.proper.indexed.funcNamed?_isSome,
      second.settled.idle.proper.indexed.funcNamed?_isSome]
    exact ⟨first.declared_other named perm1 perm2 listed (fun defn => (same defn).mp) second empty1,
      second.declared_other named perm2 perm1 listed' (fun defn => (same defn).mpr) first empty2⟩
  functions f1 f2 routine1 routine2 found1 found2 called := by
    by_cases owned : ∃ defn ∈ defns, defn.Owns routine1.decl.name
    · obtain ⟨defn, inside, own⟩ := owned
      obtain ⟨member, needed⟩ := listed defn inside
      obtain ⟨_, _, visit1, there⟩ := first.visit_of_owns named perm1 listed empty1 inside
        own ⟨f1.index, routine1, found1, rfl⟩
      obtain ⟨_, _, visit2⟩ := second.visit defn ((same defn).mp inside)
      obtain ⟨known, ρ, between, knowsRoot, grown₁, _, bodies⟩ :=
        visit1.agree named perm1 perm2 member needed visit2
      have knows : known routine1.decl.name := by
        obtain root | ⟨there, absent⟩ := there
        · exact root ▸ knowsRoot
        · exact ((grown₁.declared _).mp there).resolve_left absent
      obtain ⟨_, _, body1, body2, at1, at2, called1, renamed⟩ := bodies _ knows own
      have called2 : body2.decl.name = routine1.decl.name := renamed.decl ▸ called1
      have final1 := visit1.spared.routines _ body1 at1 (called1 ▸ own)
      have final2 := visit2.spared.routines _ body2 at2 (called2 ▸ own)
      obtain ⟨_, rfl⟩ := first.settled.idle.proper.indexed.routine_eq final1 found1 called1
      obtain ⟨_, rfl⟩ := second.settled.idle.proper.indexed.routine_eq final2 found2
        (called2.trans called)
      exact ⟨ρ, between.later visit1.spared visit2.spared, renamed⟩
    · have bare : ∀ {routine : Routine} {program : Program} {names : List Definition},
          (∀ defn ∈ names, defn ∈ defns) → routine.decl.name = routine1.decl.name →
          ((∃ defn ∈ names, defn.Owns routine.decl.name) ∨
            program.Announces options.target routine.decl ∧ routine.IsBare) →
          program.Announces options.target routine.decl ∧ routine.IsBare := by
        intro routine program names inside called bodies
        refine bodies.resolve_left ?_
        rintro ⟨defn, member, own⟩
        exact owned ⟨defn, inside defn member, called ▸ own⟩
      obtain ⟨announced1, bare1⟩ := bare (by simp) rfl (first.settled.bodies _ routine1 found1)
      obtain ⟨announced2, bare2⟩ := bare (by simp [same]) called.symm
        (second.settled.bodies _ routine2 found2)
      refine ⟨.nothing, .nothing _ _, announced1.unique announced2 named.toNamesApart named.symbolsAgree called, ?_, ?_⟩
      · rw [bare1.2, bare2.2]
        exact .nil
      · rw [bare1.1, bare2.1]
        exact .nil

end

/-- What becomes of the definitions of a program in a given order. -/
def lowered (program : Program) (options : Options) (defs : List Definition) :
    Option CompileError × LowerState :=
  lowerAll ⟨program.ordered defs, options⟩ (defs.filter needsFunction)
    (.initial ⟨program.ordered defs, options⟩)

theorem mem_needed (perm : left.Perm program.defs) : ∀ defn ∈ left.filter needsFunction,
      defn ∈ program.defs ∧ defn.needsFunction = true := fun _ member =>
  ⟨perm.mem_iff.mp (List.mem_of_mem_filter member), List.of_mem_filter member⟩

section

variable (named : program.WellNamed)

include named

theorem WellNamed.remaining (perm : left.Perm program.defs) :
    Remaining program [] (left.filter needsFunction) :=
  ⟨mem_needed perm, (perm.nodup_iff.mpr (.of_map _ named.distinct)).filter _,
    fun _ _ => List.not_mem_nil⟩

theorem lowered_visits (perm : left.Perm program.defs)
    (ran : program.lowered options left = (none, s)) :
    Visits program options left [] (left.filter needsFunction)
      (.initial ⟨program.ordered left, options⟩) s :=
  lowerAll_visits named perm (named.remaining perm) (.initial program options left) ran

/-- Definitions that can be lowered in one order can be in another. -/
theorem lowered_succeeds (perm1 : left.Perm program.defs) (perm2 : right.Perm program.defs)
    (ran : program.lowered options left = (none, s)) :
    ∃ t, program.lowered options right = (none, t) := by
  have visits := lowered_visits named perm1 ran
  refine lowerAll_succeeds named perm1 perm2 (named.remaining perm2) (.initial program options right)
    fun defn inside => visits.visit defn ?_
  exact ((perm1.trans perm2.symm).filter needsFunction).mem_iff.mpr inside

end

/-- The code of a compiled program is what is left when all definitions could be lowered. -/
theorem toOption_compile (program : Program) (options : Options) (defs : List Definition) :
    ((program.ordered defs).compile options).result.toOption =
      (program.lowered options defs).1.elim (some (program.lowered options defs).2.code)
        fun _ => none := by
  rw [compile_result]
  change Except.toOption ((program.lowered options defs).1.elim
    (.ok (program.lowered options defs).2.code) .error) = _
  cases (program.lowered options defs).1 <;> rfl

/-- The order of definitions is irrelevant. A program and the same program with its definitions in
another order both compile or both fail, and the code they compile to is equivalent. -/
theorem compile_perm {defs : List Definition} (named : program.WellNamed)
    (perm : defs.Perm program.defs) (options : Options) :
    Option.Rel Equivalent (program.compile options).result.toOption
      ((program.ordered defs).compile options).result.toOption := by
  have same := List.Perm.refl program.defs
  have code1 : (program.compile options).result.toOption = _ :=
    toOption_compile program options program.defs
  rw [code1, toOption_compile program options defs]
  cases ran1 : program.lowered options program.defs with
  | mk error1 s =>
    cases ran2 : program.lowered options defs with
    | mk error2 t =>
      cases error1 with
      | none =>
        obtain ⟨t', ran⟩ := lowered_succeeds named same perm ran1
        rw [ran2] at ran
        cases ran
        refine .some ((lowered_visits named same ran1).equivalent named same perm (mem_needed same)
          (fun defn => ?_) (lowered_visits named perm ran2) rfl rfl)
        exact (perm.symm.filter needsFunction).mem_iff
      | some =>
        cases error2 with
        | some => exact .none
        | none =>
          obtain ⟨s', ran⟩ := lowered_succeeds named perm same ran2
          rw [ran1] at ran
          cases ran

end Program

/-- A program whose `main` makes a closure that greets an animal by a name that comes from outside. -/
def Program.hailing : Program where
  file := "hailing"
  types := (TypeTable.empty.addClass "Animal" none []).addClass "Dog" (some "Animal") []
  defs := [
    (ofSignature "input" .program [] .string).withSymbol "getenv" .c,
    ofSignature "Dog#greet" (.object "Dog") [.required "name" .string] .nil,
    ofSignature "Animal#greet" (.object "Animal") [.required "name" .string] .nil,
    (ofSignature "greet" .program [.required "pet" (.object "Animal")] .nil).withBody
      (.ofCall (((Call.ofTargets "greet" ["Dog#greet", "Animal#greet"]).withReceiver
        (.ofVar "pet" (.object "Animal"))).withArgs
          [.ofCall (.ofTargets "input" ["input"]) .string]) .nil),
    (ofSignature "main" .program [.required "pet" (.object "Animal")] .nil).withBody
      (.ofKind (.seq [.ofKind (.const "Limit" true) (.int 32 true),
        .ofKind (.procLiteral ⟨[], .ofCall ((Call.ofTargets "greet" ["greet"]).withArgs
          [.ofVar "pet" (.object "Animal")]) .nil, none, ["pet"]⟩) (.proc [] .nil)]) .nil)]

/-- With its definitions the other way round, the program declares its functions in another order, and
compiles to equivalent code. -/
theorem Program.compile_perm_hailing :
    hailing.WellNamed ∧ hailing.defs.reverse.Perm hailing.defs ∧
      ∃ code₁ code₂, (hailing.compile .default).result = .ok code₁ ∧
        ((hailing.ordered hailing.defs.reverse).compile .default).result = .ok code₂ ∧
        code₁.funcIds.map code₁.funcName =
          ["greet", "getenv", "Dog#greet", "Animal#greet", "main", "~Limit:init", "main$block0"] ∧
        code₂.funcIds.map code₂.funcName =
          ["main", "~Limit:init", "main$block0", "greet", "getenv", "Dog#greet", "Animal#greet"] ∧
        code₁.Equivalent code₂ := by
  have named : hailing.WellNamed := {
    distinct := by decide +kernel
    domestic := by decide +kernel
    names := by decide +kernel
    symbols := by decide +kernel
    foreign := by decide +kernel
    shown := by decide +kernel }
  have perm := List.reverse_perm hailing.defs
  have same := compile_perm named perm .default
  have functions1 : (hailing.compile .default).result.toOption.map
      (fun code => code.funcIds.map code.funcName) = some
        ["greet", "getenv", "Dog#greet", "Animal#greet", "main", "~Limit:init", "main$block0"] := by
    decide +kernel
  have functions2 : ((hailing.ordered hailing.defs.reverse).compile .default).result.toOption.map
      (fun code => code.funcIds.map code.funcName) = some
        ["main", "~Limit:init", "main$block0", "greet", "getenv", "Dog#greet", "Animal#greet"] := by
    decide +kernel
  refine ⟨named, perm, ?_⟩
  cases compiled1 : (hailing.compile .default).result with
  | error => rw [compiled1] at functions1; cases functions1
  | ok code1 =>
    cases compiled2 : ((hailing.ordered hailing.defs.reverse).compile .default).result with
    | error => rw [compiled2] at functions2; cases functions2
    | ok code2 =>
      rw [compiled1] at functions1 same
      rw [compiled2] at functions2 same
      obtain equivalent | _ := same
      exact ⟨code1, code2, rfl, rfl, Option.some.inj functions1, Option.some.inj functions2, equivalent⟩

end CallLowering
