import CallLowering.Proofs.Filling
import Mathlib.Data.List.Pairwise

/-!
# Linkage

The code of a program is complete except for what is linked to it. The functions with a body are
those of the definitions that need one and those of the closures, and every closure has a function to
itself. A call leads to one of them or to something that others provide: a foreign symbol, an
initializer or a definition without a body (`Program.linkage`).

A definition that yields has no function. It is inlined wherever it is called, so its name is not
even declared.
-/

namespace CallLowering

open Definition

variable {defn : Definition}

/-- The function becomes a closure there. -/
def Recording.ClosesAt (code : Recording) (func : FuncId) (b : BlockId) (i : Nat) : Prop :=
  ∃ instruction, (code.instructionsOf b)[i]? = some instruction ∧
    instruction.op.closure? = some func

namespace Recording

variable {code : Recording} {func : FuncId} {b b' : BlockId} {i i' : Nat}
  {entries : List (ValueId × Operation)} {entry entry' : ValueId × Operation}

/-- If no function becomes a closure twice, its closure is one entry. -/
theorem closures_unique (once : (closures entries).Nodup) (member : entry ∈ entries)
    (member' : entry' ∈ entries) (made : entry.2.closure? = some func)
    (made' : entry'.2.closure? = some func) : entry = entry' := by
  by_contra other
  have apart := List.pairwise_filterMap.mp once
  have symmetric : Std.Symm fun entry entry' : ValueId × Operation =>
      ∀ f, entry.2.closure? = some f → ∀ f', entry'.2.closure? = some f' → f ≠ f' :=
    ⟨fun _ _ differ f made f' made' => (differ f' made' f made).symm⟩
  exact apart.forall member member' other func made func made' rfl

section

variable (closes : code.ClosesAt func b i)

include closes

/-- What makes a closure is in the history. -/
theorem ClosesAt.mem_history (enumerated : code.Enumerated) :
    ∃ v op, (v, op) ∈ code.history ∧ op.closure? = some func ∧
      (code.instructionsOf b)[i]? = some ⟨some v, op⟩ := by
  obtain ⟨⟨_, op⟩, found, made⟩ := closes
  have has : op.hasResult = true := by
    cases op with
    | makeClosure => rfl
    | _ => cases made
  obtain ⟨v, rfl, listed⟩ := enumerated.listed (List.mem_of_getElem? found) has
  exact ⟨v, op, listed, made, found⟩

theorem ClosesAt.mem_closures (enumerated : code.Enumerated) : func ∈ closures code.history := by
  obtain ⟨v, op, listed, made, _⟩ := closes.mem_history enumerated
  exact List.mem_filterMap.mpr ⟨(v, op), listed, made⟩

/-- A function that becomes a closure once does so at one place. -/
theorem ClosesAt.unique (closes' : code.ClosesAt func b' i') (enumerated : code.Enumerated)
    (once : (closures code.history).Nodup) : b = b' ∧ i = i' := by
  obtain ⟨v, _, listed, made, atI⟩ := closes.mem_history enumerated
  obtain ⟨_, _, listed', made', atJ⟩ := closes'.mem_history enumerated
  cases closures_unique once listed listed' made made'
  obtain ⟨source, _⟩ := enumerated.found b _ (List.mem_of_getElem? atI) v rfl
  obtain ⟨source', _⟩ := enumerated.found b' _ (List.mem_of_getElem? atJ) v rfl
  cases source.symm.trans source'
  exact ⟨rfl, enumerated.once b i i' _ _ v atI atJ rfl rfl⟩

/-! ## Functions with a body -/

end

/-- A function becomes a closure somewhere if it does so in the history. -/
theorem closesAt_of_mem (member : func ∈ closures code.history) : ∃ b i, code.ClosesAt func b i := by
  obtain ⟨⟨_, _⟩, recorded, made⟩ := List.mem_filterMap.mp member
  have defined := mem_history.mp recorded
  obtain ⟨b, source⟩ := value?_of_definingOp? defined
  obtain ⟨i, found⟩ := getElem?_of_definingOp? defined source
  exact ⟨b, i, _, found, made⟩

variable {program : Program} {defns : List Definition} {funcs : List FuncId}

/-- The functions of definitions are those that have their names. -/
theorem Indexed.mem_iff (indexed : code.Indexed)
    (names : List.Forall₂ (fun defn func => code.Names func defn.name) defns funcs) :
    func ∈ funcs ↔ ∃ defn ∈ defns, code.Names func defn.name := by
  induction names with
  | nil => simp
  | @cons defn f _ _ named _ ih =>
    have here : func = f ↔ code.Names func defn.name :=
      ⟨fun same => same ▸ named, fun named' => indexed.unique named' named⟩
    simp [ih, here]

theorem exists_names (names : List.Forall₂ (fun defn func => code.Names func defn.name) defns funcs)
    (member : defn ∈ defns) : ∃ func, code.Names func defn.name := by
  induction names with
  | nil => cases member
  | cons named _ ih =>
    rcases List.mem_cons.mp member with rfl | member
    · exact ⟨_, named⟩
    · exact ih member

end Recording

theorem Operation.hasResult_of_callee? {op : Operation} {func : FuncId}
    (called : op.callee? = some func) : op.hasResult = true := by
  cases op with
  | call | invoke => rfl
  | _ => cases called

/-- A definition that yields is not declared under its name. -/
theorem Program.NamesApart.not_links_of_isInlineOnly {program : Program}
    (apart : program.NamesApart) (member : defn ∈ program.defs) (domestic : defn.foreign = none)
    (inlined : defn.isInlineOnly = true) : ¬program.Links defn.name := by
  intro links
  generalize same : defn.name = name at links
  cases links with
  | @definition other member' callable =>
    unfold symbol at same
    split at same
    · rename_i spec foreign
      exact apart.domestic defn member domestic other member' spec foreign same.symm
    · rename_i native
      obtain rfl := List.inj_on_of_nodup_map apart.distinct member member' same
      rcases callable with foreign | proper
      · rw [isForeign, native] at foreign
        cases foreign
      · exact Bool.false_ne_true (proper.symm.trans inlined)
  | initializer name =>
    exact initializer_not_plain name (same ▸ apart.names defn member)

/-- What is called under a name for calls has a function of its own or is provided by others. -/
theorem Program.Links.provided {program : Program} {name : String} (links : program.Links name) :
    (∃ defn ∈ program.defs, defn.needsFunction = true ∧ defn.name = name) ∨
      (∃ defn ∈ program.defs, ∃ spec ∈ defn.foreign, spec.symbol = name) ∨
      (∃ constant, "~" ++ constant ++ ":init" = name) ∨
      ∃ defn ∈ program.defs, defn.foreign = none ∧ defn.body = none ∧ defn.name = name := by
  cases links with
  | @definition defn member callable =>
    unfold symbol
    split
    · rename_i spec foreign
      exact .inr (.inl ⟨defn, member, spec, foreign, rfl⟩)
    · rename_i domestic
      have native : defn.isForeign = false := by rw [isForeign, domestic]; rfl
      have proper := callable.resolve_left (Bool.eq_false_iff.mp native)
      cases bodied : defn.body with
      | none => exact .inr (.inr (.inr ⟨defn, member, domestic, bodied, rfl⟩))
      | some body =>
        refine .inl ⟨defn, member, ?_, rfl⟩
        rw [needsFunction, native, proper, bodied]
        rfl
  | initializer name => exact .inr (.inr (.inl ⟨name, rfl⟩))

/-- The functions with a body are those of the definitions that need one, each of which has one
function, and those of the closures, each of which has a function to itself. What is called has a
body or is a foreign symbol, an initializer or a definition without a body. A definition that yields
is never declared. -/
theorem Program.linkage {program : Program} {options : Options} {code : Recording}
    (compiled : (program.compile options).result = .ok code) (apart : program.NamesApart) :
    (∀ func, code.Defines func ↔
      (∃ defn ∈ program.defs, defn.needsFunction = true ∧ code.Names func defn.name) ∨
        ∃ b i, code.ClosesAt func b i) ∧
      (∀ defn ∈ program.defs, defn.needsFunction = true → ∃! func, code.Names func defn.name) ∧
      (∀ func b i, code.ClosesAt func b i → (∀ defn ∈ program.defs, ¬code.Names func defn.name) ∧
        ∀ b' i', code.ClosesAt func b' i' → b = b' ∧ i = i') ∧
      (∀ b, ∀ instruction ∈ code.instructionsOf b, ∀ func, instruction.op.callee? = some func →
        code.Defines func ∨
          (∃ defn ∈ program.defs, ∃ spec ∈ defn.foreign, code.Names func spec.symbol) ∨
          (∃ constant, code.Names func ("~" ++ constant ++ ":init")) ∨
          ∃ defn ∈ program.defs, defn.foreign = none ∧ defn.body = none ∧
            code.Names func defn.name) ∧
      ∀ defn ∈ program.defs, defn.foreign = none → defn.isInlineOnly = true →
        ∀ func, ¬code.Names func defn.name := by
  obtain ⟨_, orderly, funcs, traces, added, names, _, gained⟩ := compile_filled compiled
  obtain rfl : code.history = added := gained.history
  have own : ∀ func, func ∈ funcs ↔
      ∃ defn ∈ program.defs.filter needsFunction, code.Names func defn.name :=
    fun func => orderly.indexed.mem_iff names
  have bodied : ∀ func, code.Defines func ↔
      (∃ defn ∈ program.defs, defn.needsFunction = true ∧ code.Names func defn.name) ∨
        ∃ b i, code.ClosesAt func b i := by
    intro func
    rw [gained.defines, own]
    constructor
    · rintro (⟨_, none, _⟩ | ⟨defn, member, named⟩ | made)
      · exact absurd none (Option.not_mem_none _)
      · obtain ⟨member, needed⟩ := List.mem_filter.mp member
        exact .inl ⟨defn, member, needed, named⟩
      · exact .inr (Recording.closesAt_of_mem made)
    · rintro (⟨defn, member, needed, named⟩ | ⟨b, i, closes⟩)
      · exact .inr (.inl ⟨defn, List.mem_filter.mpr ⟨member, needed⟩, named⟩)
      · exact .inr (.inr (closes.mem_closures orderly.enumerated))
  refine ⟨bodied, fun defn member needed => ?_, fun func b i closes => ⟨fun defn member named => ?_,
    fun b' i' closes' => closes.unique closes' orderly.enumerated gained.once⟩,
    fun b instruction member func called => ?_, fun defn member domestic inlined func named => ?_⟩
  · obtain ⟨func, named⟩ := Recording.exists_names names (List.mem_filter.mpr ⟨member, needed⟩)
    exact ⟨func, named, fun other named' => orderly.indexed.unique named' named⟩
  · obtain ⟨v, op, listed, made, _⟩ := closes.mem_history orderly.enumerated
    obtain ⟨name, closed, named'⟩ := (gained.sound _ listed).closure func made
    obtain rfl : defn.name = name := named.funcName.symm.trans named'.funcName
    exact (apart.names defn member).1 closed.infix
  · have has : instruction.op.hasResult = true := Operation.hasResult_of_callee? called
    obtain ⟨v, _, listed⟩ := orderly.enumerated.listed member has
    obtain ⟨name, links, named⟩ := (gained.sound _ listed).callee func called
    rcases links.provided with ⟨defn, member, needed, rfl⟩ | ⟨defn, member, spec, foreign, rfl⟩ |
      ⟨constant, rfl⟩ | ⟨defn, member, domestic, empty, rfl⟩
    · exact .inl ((bodied func).mpr (.inl ⟨defn, member, needed, named⟩))
    · exact .inr (.inl ⟨defn, member, spec, foreign, named⟩)
    · exact .inr (.inr (.inl ⟨constant, named⟩))
    · exact .inr (.inr (.inr ⟨defn, member, domestic, empty, named⟩))
  · rcases orderly.known func defn.name named with links | closed
    · exact apart.not_links_of_isInlineOnly member domestic inlined links
    · exact (apart.names defn member).1 closed.infix

/-- A program whose `main` calls a foreign function in a block that is inlined, initializes a constant,
and makes a closure that calls a definition without a body. -/
def Program.importing : Program where
  file := "importing"
  types := .empty
  defs := [
    (ofSignature "print" .program [] .nil).withSymbol "puts" .c,
    (ofSignature "each" .program [] .nil).withBody (.ofKind (.yield [] none) .nil),
    ofSignature "log" .program [] .nil,
    (ofSignature "main" .program [] .nil).withBody (.ofKind (.seq [
      .ofCall ((Call.ofTargets "each" ["each"]).withBlock
        ⟨[], .ofCall (.ofTargets "print" ["print"]) .nil, none, []⟩) .nil,
      .ofKind (.const "LIMIT" true) (.int 32 true),
      .ofKind (.procLiteral ⟨[], .ofCall (.ofTargets "log" ["log"]) .nil, none, []⟩) (.proc [] .nil),
      .ofKind .nil .nil]) .nil)]

theorem Program.importing_namesApart : importing.NamesApart where
  distinct := by decide +kernel
  domestic := by decide +kernel
  names := by decide +kernel
  symbols := by decide +kernel

theorem Program.linkage_importing :
    importing.NamesApart ∧ ∃ code, (importing.compile .default).result = .ok code ∧
      code.routines.toList.map (fun routine => (routine.decl.name, routine.isDefined)) =
        [("main", true), ("puts", false), ("~LIMIT:init", false), ("main$block0", true),
          ("log", false)] ∧
      (∀ func, code.Defines func ↔
        (∃ defn ∈ importing.defs, defn.needsFunction = true ∧ code.Names func defn.name) ∨
          ∃ b i, code.ClosesAt func b i) ∧
      ∀ func, ¬code.Names func "each" := by
  obtain ⟨code, compiled, routines⟩ : ∃ code, (importing.compile .default).result = .ok code ∧
      code.routines.toList.map (fun routine => (routine.decl.name, routine.isDefined)) =
        [("main", true), ("puts", false), ("~LIMIT:init", false), ("main$block0", true),
          ("log", false)] :=
    exists_code
  obtain ⟨bodied, _, _, _, undeclared⟩ := linkage compiled importing_namesApart
  refine ⟨importing_namesApart, code, compiled, routines, bodied, fun func => ?_⟩
  exact undeclared _ (List.mem_cons_of_mem _ List.mem_cons_self) rfl rfl func

end CallLowering
