import CallLowering.Proofs.Subtyping
import Mathlib.Data.List.Induction

/-!
# Merging types

A merge lists the members of its types without repetition, each where it occurs first, and drops
`noReturn`. So merging may be grouped at will (`Ty.merge_grouping`).
-/

namespace CallLowering

namespace Ty

/-- The types that a type is directly made of. -/
def components : Ty → List Ty
  | pointer pointee => [pointee]
  | proc params ret => params ++ [ret]
  | union members => members
  | _ => []

/-- A type that can be a member of a union. -/
def Single (ty : Ty) : Prop := ty.isUnion = false ∧ ty.isNoReturn = false

/-- Every union in the type has at least two members, all of them different, and none of them is a
union or `noReturn`. -/
inductive WellFormed : Ty → Prop where
  | intro {ty : Ty} (flat : ∀ members, ty = union members →
      2 ≤ members.length ∧ members.Nodup ∧ ∀ member ∈ members, member.Single)
    (inner : ∀ part ∈ ty.components, WellFormed part) : WellFormed ty

variable {tys xs ys done : List Ty} {ty x : Ty}

theorem Single.contribution (single : ty.Single) : ty.contribution = [ty] := by
  cases ty with
  | union => cases single.1
  | noReturn => cases single.2
  | _ => rfl

theorem WellFormed.mem_contribution (wellFormed : ty.WellFormed) (part : x ∈ ty.contribution) :
    x.Single ∧ x.WellFormed := by
  cases wellFormed with | intro flat inner => ?_
  cases ty with
  | union members => exact ⟨(flat members rfl).2.2 x part, inner x part⟩
  | noReturn => cases part
  | _ =>
    cases List.mem_singleton.mp part
    exact ⟨⟨rfl, rfl⟩, .intro flat inner⟩

/-- A type contributes its members other than `noReturn`. -/
theorem WellFormed.contribution_eq (wellFormed : ty.WellFormed) :
    ty.contribution = ty.members.filter (· ≠ noReturn) := by
  cases ty with
  | union members =>
    refine (List.filter_eq_self.mpr fun _ present => decide_eq_true ?_).symm
    rintro rfl
    cases (wellFormed.mem_contribution present).1.2
  | _ => rfl

theorem contribution_ofMembers (each : ∀ ty ∈ tys, ty.Single) : (ofMembers tys).contribution = tys :=
  match tys with
  | [] => rfl
  | [_] => (List.forall_mem_singleton.mp each).contribution
  | _ :: _ :: _ => rfl

theorem wellFormed_ofMembers (distinct : tys.Nodup) (each : ∀ ty ∈ tys, ty.Single ∧ ty.WellFormed) :
    (ofMembers tys).WellFormed := by
  match tys with
  | [] => exact .intro nofun nofun
  | [_] => exact (List.forall_mem_singleton.mp each).2
  | first :: second :: rest =>
    refine .intro (fun _ same => ?_) fun part member => (each part member).2
    cases same
    exact ⟨Nat.le_add_left 2 _, distinct, fun member present => (each member present).1⟩

/-! ## Adding without repetition -/

theorem nodup_foldl_insertNew (distinct : done.Nodup) : (tys.foldl insertNew done).Nodup := by
  induction tys generalizing done with
  | nil => exact distinct
  | cons ty tys ih =>
    apply ih
    unfold insertNew
    split
    · exact distinct
    · rename_i new
      exact List.nodup_append_comm.mp (List.nodup_cons.mpr ⟨new, distinct⟩)

theorem foldl_insertNew_eq_eraseDups : tys.foldl insertNew [] = tys.eraseDups := by
  induction tys using List.reverseRecOn with
  | nil => rfl
  | append_singleton tys ty ih =>
    rw [List.foldl_concat, ih, insertNew, List.eraseDups_append]
    by_cases present : ty ∈ tys <;> simp [List.removeAll, List.eraseDups_cons, present]

/-- Types can be added together with those that repeat them or without. -/
theorem foldl_insertNew_foldl :
    (tys.foldl insertNew []).foldl insertNew done = tys.foldl insertNew done := by
  induction tys using List.reverseRecOn with
  | nil => rfl
  | append_singleton tys ty ih =>
    rw [List.foldl_concat, List.foldl_concat]
    by_cases present : ty ∈ tys
    · have early : ty ∈ tys.foldl insertNew [] := mem_foldl_insertNew.mpr (.inr present)
      have late : ty ∈ tys.foldl insertNew done := mem_foldl_insertNew.mpr (.inr present)
      rw [insertNew, if_pos early, insertNew, if_pos late, ih]
    · have new : ty ∉ tys.foldl insertNew [] := fun member =>
        present ((mem_foldl_insertNew.mp member).resolve_left List.not_mem_nil)
      rw [insertNew, if_neg new, List.foldl_concat, ih]

/-! ## Merges -/

section

variable (each : ∀ ty ∈ tys, ty.WellFormed)

include each

theorem WellFormed.mem_contributions (part : x ∈ (tys.flatMap Ty.contribution).foldl insertNew []) :
    x.Single ∧ x.WellFormed := by
  obtain ⟨ty, member, part⟩ :=
    List.mem_flatMap.mp ((mem_foldl_insertNew.mp part).resolve_left List.not_mem_nil)
  exact (each ty member).mem_contribution part

theorem wellFormed_merge : (merge tys).WellFormed :=
  wellFormed_ofMembers (nodup_foldl_insertNew .nil) fun _ => WellFormed.mem_contributions each

theorem contribution_merge :
    (merge tys).contribution = (tys.flatMap contribution).foldl insertNew [] :=
  contribution_ofMembers fun _ part => (WellFormed.mem_contributions each part).1

end

theorem mem_members_ofMembers (each : ∀ ty ∈ tys, ty.Single) :
    x ∈ (ofMembers tys).members ↔ x ∈ tys ∨ tys = [] ∧ x = noReturn := by
  match tys with
  | [] => simp [ofMembers, members]
  | [ty] =>
    have alone : (ofMembers [ty]).members = [ty] := by
      cases ty with
      | union => cases (List.forall_mem_singleton.mp each).1
      | _ => rfl
    simp [alone]
  | _ :: _ :: _ => simp [ofMembers, members]

/-- Types with the same contributions have merges with the same members. -/
theorem mem_members_merge_of_perm (each : ∀ ty ∈ xs, ty.WellFormed) (perm : xs.Perm ys) :
    x ∈ (merge xs).members ↔ x ∈ (merge ys).members := by
  have each' : ∀ ty ∈ ys, ty.WellFormed := fun ty member => each ty (perm.mem_iff.mpr member)
  have same : ∀ y, y ∈ (xs.flatMap contribution).foldl insertNew [] ↔
      y ∈ (ys.flatMap contribution).foldl insertNew [] := fun _ => by
    rw [mem_foldl_insertNew, mem_foldl_insertNew, (perm.flatMap_right contribution).mem_iff]
  rw [merge, merge, mem_members_ofMembers fun _ part => (WellFormed.mem_contributions each part).1,
    mem_members_ofMembers fun _ part => (WellFormed.mem_contributions each' part).1]
  simp [List.eq_nil_iff_forall_not_mem, same]

/-- A merge is well-formed and lists the members of its types without repetition, each where it
occurs first. Merges can be merged again in any grouping, and the order of the types decides about
the order of the members only. -/
theorem merge_grouping (left : ∀ ty ∈ xs, ty.WellFormed) (right : ∀ ty ∈ ys, ty.WellFormed) :
    (merge xs).WellFormed ∧
    (merge xs).members.filter (· ≠ noReturn) =
      (xs.flatMap fun ty => ty.members.filter (· ≠ noReturn)).eraseDups ∧
    merge [merge xs, merge ys] = merge (xs ++ ys) ∧
    merge [merge xs] = merge xs ∧
    ∀ zs, xs.Perm zs → ∀ x, x ∈ (merge zs).members ↔ x ∈ (merge xs).members := by
  have again : ∀ done, (merge xs).contribution.foldl insertNew done =
      (xs.flatMap contribution).foldl insertNew done := fun done => by
    rw [contribution_merge left, foldl_insertNew_foldl]
  refine ⟨wellFormed_merge left, ?_, ?_, ?_, fun zs perm x => ?_⟩
  · rw [← (wellFormed_merge left).contribution_eq, contribution_merge left,
      foldl_insertNew_eq_eraseDups]
    exact congrArg _ (List.flatMap_congr fun ty member => (left ty member).contribution_eq)
  · rw [merge, List.flatMap_cons, List.flatMap_singleton, List.foldl_append, again,
      contribution_merge right, foldl_insertNew_foldl, ← List.foldl_append, ← List.flatMap_append,
      merge]
  · rw [merge, List.flatMap_singleton, again, merge]
  · exact (mem_members_merge_of_perm left perm).symm

/-- A union with something that does not return, and a type that the union has already. -/
theorem merge_grouping_text :
    let text := [union [string, nil], noReturn]
    (merge text).WellFormed ∧ merge [merge text, merge [nil]] = merge (text ++ [nil]) ∧
      ∀ x, x ∈ (merge text.reverse).members ↔ x ∈ (merge text).members := by
  intro text
  have plain : ∀ ty : Ty, ty.components = [] → ty.isUnion = false → ty.WellFormed := by
    intro ty none single
    refine .intro (fun members same => ?_) (none ▸ nofun)
    subst same
    cases single
  have left : ∀ ty ∈ text, ty.WellFormed := by
    refine List.forall_mem_cons.mpr ⟨.intro ?_ ?_, List.forall_mem_singleton.mpr (plain _ rfl rfl)⟩
    · rintro _ ⟨⟩
      refine ⟨by decide, by decide, ?_⟩
      exact List.forall_mem_cons.mpr ⟨⟨rfl, rfl⟩, List.forall_mem_singleton.mpr ⟨rfl, rfl⟩⟩
    · exact List.forall_mem_cons.mpr ⟨plain _ rfl rfl, List.forall_mem_singleton.mpr (plain _ rfl rfl)⟩
  obtain ⟨wellFormed, _, grouped, _, reversed⟩ :=
    merge_grouping left (List.forall_mem_singleton.mpr (plain nil rfl rfl))
  exact ⟨wellFormed, grouped, reversed _ (List.reverse_perm _).symm⟩

end Ty

end CallLowering
