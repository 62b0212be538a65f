import CallLowering.Proofs.Alignment

/-!
# Remembered classifications

A prototype has one classification for a target and a type table, so to remember classifications
saves work and changes nothing. A run that remembers and one that does not record the same code:
`Program.compile_memoized`.
-/

namespace CallLowering

open Program

/-! ## Two runs -/

namespace Alignment

/-- A run that remembers classifications, beside one that does not. -/
def memoizing (program : Program) (target : Target) : Alignment where
  program := program
  left := ⟨target, true⟩
  right := ⟨target, false⟩
  same := True
  target := target
  types := program.types
  memory memory1 memory2 :=
    memory1.Faithful target program.types ∧ memory2.Faithful target program.types
  events _ _ := True

variable {program : Program} {target : Target}

theorem memoizing_sound : (memoizing program target).coupling.Sound := by
  refine sound (fun _ _ => trivial) fun {w defn} tail loc s1 s2 states => ?_
  obtain ⟨_, _, ran1, faithful₁⟩ :=
    Lower.classification_run (memoizing program target).coupling.left defn tail loc states.memory.1
      states.site.2.target.1 states.site.2.types.1
  obtain ⟨_, _, ran2, faithful₂⟩ :=
    Lower.classification_run (memoizing program target).coupling.right defn tail loc states.memory.2
      states.site.2.target.2 states.site.2.types.2
  rw [ran1, ran2]
  refine ⟨w, le_refl w, ?_, rfl⟩
  exact {
    __ := states
    memory := ⟨faithful₁, faithful₂⟩
    events := trivial
    closures := states.closures }

/-- The states before anything is lowered. -/
theorem memoizing_initial : (memoizing program target).coupling.Core (∅, 1)
    (.initial ⟨program, ⟨target, true⟩⟩) (.initial ⟨program, ⟨target, false⟩⟩) where
  site := ⟨fun _ => rfl, {
    outline := rfl
    cursor := rfl
    target := ⟨rfl, rfl⟩
    types := ⟨rfl, rfl⟩
    here := by rintro _ ⟨⟩
    known := fun _ member => member.elim
    frames := rfl
    exits := by rintro _ _ ⟨⟩
    apart := by rintro _ _ _ ⟨⟩ }⟩
  scopes := {
    left := rfl
    right := rfl
    scope := by
      intro k inside
      obtain rfl := Nat.lt_one_iff.mp inside
      exact ⟨_, _, rfl, rfl, .nil, .none⟩ }
  dispatches := ⟨0, rfl, rfl⟩
  memory := ⟨⟨rfl, List.forall_mem_nil _⟩, ⟨rfl, List.forall_mem_nil _⟩⟩
  events := trivial

/-- Definitions are lowered alike one after the other, up to the same failure. -/
theorem memoizing_lowerAll {w : Stage (Set BlockId)} {defns : List Definition} {s1 s2 : LowerState}
    (core : (memoizing program target).coupling.Core w s1 s2) :
    (lowerAll ⟨program, ⟨target, true⟩⟩ defns s1).1 =
        (lowerAll ⟨program, ⟨target, false⟩⟩ defns s2).1 ∧
      (lowerAll ⟨program, ⟨target, true⟩⟩ defns s1).2.code =
        (lowerAll ⟨program, ⟨target, false⟩⟩ defns s2).2.code := by
  induction defns generalizing w s1 s2 with
  | nil => exact ⟨rfl, (Site.mk.inj (core.site.1 trivial)).1⟩
  | cons defn defns ih =>
    have lowered := memoizing_sound.lowerFunction (memoizing_sound.returns fun _ _ same => same trivial)
      defn trivial trivial trivial core
    change Coupled _ _ _ (Lower.lowerFunction defn ⟨program, ⟨target, true⟩⟩ s1)
      (Lower.lowerFunction defn ⟨program, ⟨target, false⟩⟩ s2) at lowered
    unfold lowerAll
    refine lowered.both ?_ ?_
    · rintro _ _ _ _ ⟨w', _, idle, _⟩
      exact ih idle.core
    · rintro _ _ _ _ same ⟨w', _, idle⟩
      exact ⟨by rw [same trivial], (Site.mk.inj (idle.core.site.1 trivial)).1⟩

end Alignment

/-- The result of a compilation is the first failure, or the code after the last definition. -/
theorem Program.compile_result (program : Program) (options : Options) :
    (program.compile options).result =
      let lowered := lowerAll ⟨program, options⟩ (program.defs.filter Definition.needsFunction)
        (.initial ⟨program, options⟩)
      lowered.1.elim (.ok lowered.2.code) .error := by
  unfold compile
  dsimp only
  generalize lowerAll _ _ _ = lowered
  obtain ⟨error, _⟩ := lowered
  cases error <;> rfl

/-- Whether classifications are remembered changes nothing: for every program and target, the code
is the same in all its parts, or compilation fails in the same way. -/
theorem Program.compile_memoized (program : Program) (target : Target) :
    (program.compile ⟨target, true⟩).result = (program.compile ⟨target, false⟩).result := by
  obtain ⟨errors, codes⟩ := Alignment.memoizing_lowerAll
    (Alignment.memoizing_initial : (Alignment.memoizing program target).coupling.Core _ _ _)
  rw [compile_result, compile_result]
  dsimp only
  rw [errors, codes]

end CallLowering
