import CallLowering.Proofs.Functions

/-!
# Dead code

The recorder refuses an instruction behind the end of a block (`LowerError.isLate`).
-/

namespace CallLowering

/-- Whether an instruction was refused because its block had ended. -/
def LowerError.isLate : LowerError → Bool
  | .backend (.record (.afterTerminator ..)) => true
  | _ => false

/-- Whether a compilation failed because an instruction came too late. -/
def Compilation.failsLate (compilation : Compilation) : Bool :=
  match compilation.result with
  | .error error => error.error.isLate
  | .ok _ => false

/-- A program whose `main` passes a block that leaves it while the argument of a call is evaluated. -/
def Program.breaking : Program where
  file := "breaking"
  types := TypeTable.empty
  defs := [
    Definition.ofSignature "f" .program [.required "x" (.int 32 true)] .nil,
    (Definition.ofSignature "each" .program [] .nil).withBody (.ofKind (.yield [] none) .nil),
    (Definition.ofSignature "main" .program [] .nil).withBody
      (.ofCall ((Call.ofTargets "each" ["each"]).withBlock
        ⟨[], .ofCall ((Call.ofTargets "f" ["f"]).withArgs [.ofKind (.breakWith none) .noReturn]) .nil,
          none, []⟩) .nil)]

/-- The call behind the `break` is not skipped but refused. -/
theorem Program.refused_breaking : (breaking.compile .default).failsLate = true := by
  decide +kernel

end CallLowering
