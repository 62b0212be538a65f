import CallLowering.Language.Schema

/-!
# Options

What a compilation can be told beside the program, and the JSON form of it.
-/

namespace CallLowering

/-- The choices of a compilation. -/
structure Options where
  target : Target
  /-- Whether each foreign prototype is classified once only. -/
  memoizeAbi : Bool
  deriving DecidableEq

/-- The options of a compilation that chooses nothing. -/
def Options.default : Options := ⟨.x86_64, true⟩

namespace Options

/-- The JSON form of the options. -/
def toJson (options : Options) : Json :=
  .object [("target", options.target.toJson), ("memoize_abi", .bool options.memoizeAbi)]

/-- Reads options; each has its default. -/
def ofJson? (json : Json) : Option Options := do
  let record ← json.record? ["target", "memoize_abi"]
  return {
    target := ← record.fieldD? "target" .x86_64 Target.ofJson?
    memoizeAbi := ← record.fieldD? "memoize_abi" true Json.bool? }

end Options

end CallLowering
