/-!
# Ascending lists of numbers

Sets of tags and of block numbers are answered as strictly increasing lists.
`Ascending.insert` puts one number in its place and drops a repetition; `Ascending.ofList`
does so for a whole list.
-/

namespace CallLowering

namespace Ascending

/-- Puts a number in its place in an ascending list, unless it is already there. -/
def insert (n : Nat) : List Nat → List Nat
  | [] => [n]
  | m :: ms => if n < m then n :: m :: ms else if n = m then m :: ms else m :: insert n ms

/-- The numbers of a list in ascending order, each once. -/
def ofList (ns : List Nat) : List Nat :=
  ns.foldr insert []

theorem mem_insert {n k : Nat} {ms : List Nat} : k ∈ insert n ms ↔ k = n ∨ k ∈ ms := by
  induction ms with
  | nil => simp [insert]
  | cons m ms ih =>
    unfold insert
    split
    · simp
    · split
      · simp_all
      · simp only [List.mem_cons, ih]
        grind

theorem mem_ofList {k : Nat} {ns : List Nat} : k ∈ ofList ns ↔ k ∈ ns := by
  induction ns with
  | nil => simp [ofList]
  | cons n ns ih =>
    rw [show ofList (n :: ns) = insert n (ofList ns) from rfl, mem_insert, ih, List.mem_cons]

theorem pairwise_insert {n : Nat} {ms : List Nat} (ascending : ms.Pairwise (· < ·)) :
    (insert n ms).Pairwise (· < ·) := by
  induction ms with
  | nil => simp [insert]
  | cons m ms ih =>
    obtain ⟨above, rest⟩ := List.pairwise_cons.1 ascending
    unfold insert
    split
    · rename_i below
      exact List.pairwise_cons.2 ⟨by grind, ascending⟩
    · split
      · exact ascending
      · exact List.pairwise_cons.2 ⟨by grind [mem_insert], ih rest⟩

theorem pairwise_ofList (ns : List Nat) : (ofList ns).Pairwise (· < ·) := by
  induction ns with
  | nil => simp [ofList]
  | cons n ns ih => exact pairwise_insert ih

end Ascending

end CallLowering
