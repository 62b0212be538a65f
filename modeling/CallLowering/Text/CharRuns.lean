/-!
# Runs of characters

A property of characters is given by the lengths of the runs of code points that, by turns, lack and
have it, from the first code point on.
-/

namespace CallLowering

namespace CharRuns

/-- Whether a code point has the property that the lengths of the runs give. -/
def contains : List Nat → Nat → Bool
  | lacking :: having :: runs, n =>
    if n < lacking then false else n < lacking + having || contains runs (n - (lacking + having))
  | _, _ => false

end CharRuns

end CallLowering
