import CallLowering.Proofs.Fitting
import CallLowering.Proofs.Silence

/-!
# Following the text

A computation of lowering goes through tasks if it leaves the marks that unfolding the tasks leaves.
`Tracks` is the judgement that a computation keeps to the rules and goes through tasks. The tasks may
depend on the blocks that `yield` leads to. A computation that goes through none and ends where it
started merely `Keeps` what there is.
-/

namespace CallLowering

open Lower

/-- The blocks that `yield` leads to, the innermost first. -/
inductive Hands : Option (Block × Context × Nat) → List Block → Prop where
  | none : Hands none []
  | some {block : Block} {caller : Context} {join : Nat} {outer : List Block}
      (outside : Hands caller.yieldTarget outer) : Hands (some (block, caller, join)) (block :: outer)

variable {α β : Type}

/-- From one state on, a computation has left marks of the tasks. -/
def LowerState.Leaves (s : LowerState) (program : Program) (rescues : List BlockId)
    (handed : List Block) (tasks : List Task) (s' : LowerState) : Prop :=
  ∃ marks, Unfolds program rescues handed tasks marks ∧ s.Onward program marks s'

/-- The state is in order and fits the standing inside a function, where `yield` leads to the given
blocks. -/
structure Standing.Tracked (V : Vocabulary) (γ : Standing) (u : Unbound) (handed : List Block)
    (s : LowerState) : Prop where
  fits : ∃ (w : Watch) (s0 : LowerState), w.func.isSome = true ∧ γ.Fits V w u s0 s
  hands : Hands γ.context.yieldTarget handed
  orderly : s.Orderly V.env.program

/-- The way in which the expressions inside are lowered goes through them. -/
structure Lower.Walks (V : Vocabulary) (inner : Expr → Lower ValueId) : Prop where
  fitting : ∀ expr : Expr, expr.Tidy V.names → Fitting V (inner expr)
  leaves : ∀ {γ : Standing} {u : Unbound} {handed : List Block} {s s' : LowerState} {expr : Expr}
    {v : ValueId}, γ.Sound V → expr.Tidy V.names → γ.Tracked V u handed s →
    inner expr V.env s = .ok v s' →
    s.Leaves V.env.program γ.context.handlers handed [.expr expr] s'

/-- A computation keeps to the rules and goes through tasks. -/
structure Tracks (V : Vocabulary) (γ : Standing) (u : Unbound) (tasks : List Block → List Task)
    (act : Lowering α) (post : α → Standing → Unbound → Prop) : Prop where
  moves : Moves V γ u act post
  leaves : ∀ {inner : Expr → Lower ValueId} {handed : List Block} {s s' : LowerState} {a : α},
    Walks V inner → γ.Tracked V u handed s → act inner V.env s = .ok a s' →
    s.Leaves V.env.program γ.context.handlers handed (tasks handed) s'

/-- What unfolds from tasks under another context unfolds from tasks here. -/
def Standing.Encloses (V : Vocabulary) (γ : Standing) (context : Context)
    (tasks tasks' : List Block → List Task) : Prop :=
  ∀ handed, Hands γ.context.yieldTarget handed →
    ∃ handed', Hands context.yieldTarget handed' ∧ ∀ {marks},
      Unfolds V.env.program context.handlers handed' (tasks handed') marks →
      Unfolds V.env.program γ.context.handlers handed (tasks' handed) marks

variable {V : Vocabulary} {γ γ0 : Standing} {u u0 : Unbound} {handed : List Block}
  {s s' : LowerState} {marks : List Mark} {tasks tasks' : List Block → List Task} {act : Lowering α}
  {next : α → Lowering β} {mid post post' : α → Standing → Unbound → Prop}
  {last : β → Standing → Unbound → Prop} {a : α} {b : BlockId} {expr : Expr}

namespace Standing.Tracked

variable (tracked : γ.Tracked V u handed s)

include tracked

theorem less (less : γ0.Less γ) (fewer : u0 ⊆ u) : γ0.Tracked V u0 handed s := by
  obtain ⟨w, s0, inside, fits⟩ := tracked.fits
  exact ⟨⟨w, s0, inside, fits.less less fewer⟩, less.context ▸ tracked.hands, tracked.orderly⟩

/-- The state that a computation ends in fits the standing that it ends in. -/
theorem after {inner : Expr → Lower ValueId} (moves : Moves V γ u act post)
    (walks : Walks V inner) (ran : act inner V.env s = .ok a s')
    (onward : s.Onward V.env.program marks s') :
    ∃ γ' u', post a γ' u' ∧ γ'.Tracked V u' handed s' ∧
      γ'.context.handlers = γ.context.handlers := by
  obtain ⟨w, s0, inside, fits⟩ := tracked.fits
  have ended := moves.fits walks.fitting fits
  rw [ran] at ended
  obtain ⟨γ', u', known, fits', _⟩ := ended
  have handlers := onward.handlers
  have hands := tracked.hands
  rw [fits'.context, fits.context] at handlers
  rw [← fits.context, ← onward.yieldTarget, fits'.context] at hands
  exact ⟨γ', u', known, ⟨⟨w, s0, inside, fits'⟩, hands, onward.orderly⟩, handlers⟩

theorem has (known : b ∈ γ.blocks) : s.code.Has b := by
  obtain ⟨_, _, inside, fits⟩ := tracked.fits
  obtain ⟨f, member⟩ := Option.isSome_iff_exists.mp inside
  obtain ⟨data, present, _⟩ := (fits.settled f member).blocks b known
  exact ⟨data, present⟩

end Standing.Tracked

namespace Tracks

/-- A computation that leaves no marks. -/
theorem silent (moves : Moves V γ u act post) [silent : ∀ inner, (act inner).Silent] :
    Tracks V γ u (fun _ => []) act post :=
  ⟨moves, fun {inner} _ _ _ _ _ tracked ran => ⟨[], .nil, (silent inner).onward tracked.orderly ran⟩⟩

theorem bind (first : Tracks V γ u tasks act mid)
    (rest : ∀ a γ' u', mid a γ' u' → Tracks V γ' u' tasks' (next a) last) :
    Tracks V γ u (fun handed => tasks handed ++ tasks' handed)
      (fun inner => act inner >>= fun a => next a inner) last where
  moves := .bind first.moves fun a γ' u' known => (rest a γ' u' known).moves
  leaves walks tracked ran := by
    obtain ⟨a, _, ran1, ran2⟩ := bind_ok ran
    obtain ⟨_, unfolds, onward⟩ := first.leaves walks tracked ran1
    obtain ⟨γ', u', known, tracked', same⟩ := tracked.after first.moves walks ran1 onward
    obtain ⟨_, unfolds', onward'⟩ := (rest a γ' u' known).leaves walks tracked' ran2
    rw [same] at unfolds'
    exact ⟨_, unfolds.append unfolds', onward.trans onward'⟩

/-- Something silent, then the tasks. -/
theorem after (first : Tracks V γ u (fun _ => []) act mid)
    (rest : ∀ a γ' u', mid a γ' u' → Tracks V γ' u' tasks (next a) last) :
    Tracks V γ u tasks (fun inner => act inner >>= fun a => next a inner) last :=
  bind first rest

theorem weaken (less : γ0.Less γ) (fewer : u0 ⊆ u) (tracks : Tracks V γ0 u0 tasks act post)
    (weaker : ∀ a γ' u', post a γ' u' → post' a γ' u') : Tracks V γ u tasks act post' where
  moves := .weaken less fewer tracks.moves weaker
  leaves walks tracked ran := less.context ▸ tracks.leaves walks (tracked.less less fewer) ran

section

variable (tracks : Tracks V γ u tasks act post)

include tracks

theorem mono (weaker : ∀ a γ' u', post a γ' u' → post' a γ' u') : Tracks V γ u tasks act post' :=
  weaken (.refl γ) subset_rfl tracks weaker

/-- What a computation has come to know may be forgotten. -/
theorem recede (less : ∀ a γ' u', post a γ' u' → ∃ γ1 u1, γ1.Less γ' ∧ u1 ⊆ u' ∧ post' a γ1 u1) :
    Tracks V γ u tasks act post' := ⟨tracks.moves.recede less, tracks.leaves⟩

/-- The tasks may come from other ones. -/
theorem retask (unfolds : ∀ {rescues handed marks}, Hands γ.context.yieldTarget handed →
      Unfolds V.env.program rescues handed (tasks handed) marks →
      Unfolds V.env.program rescues handed (tasks' handed) marks) :
    Tracks V γ u tasks' act post where
  moves := tracks.moves
  leaves walks tracked ran := by
    obtain ⟨marks, done, onward⟩ := tracks.leaves walks tracked ran
    exact ⟨marks, unfolds tracked.hands done, onward⟩

theorem expands (expands : ∀ {handed}, Hands γ.context.yieldTarget handed →
      expr.Expands V.env.program handed (tasks handed)) :
    Tracks V γ u (fun _ => [.expr expr]) act post :=
  tracks.retask fun hands => .expr (expands hands)

end

/-- What is known may be forgotten. -/
theorem forget (less : γ0.Less γ) (tracks : Tracks V γ0 u tasks act post) :
    Tracks V γ u tasks act post := weaken less subset_rfl tracks fun _ _ _ => id

/-- Unbound names may be forgotten. -/
theorem settle (tracks : Tracks V γ ∅ tasks act post) : Tracks V γ u tasks act post :=
  weaken (.refl γ) (Set.empty_subset u) tracks fun _ _ _ => id

/-- Tasks of which nothing is done. -/
theorem dropping (tracks : Tracks V γ u (fun _ => []) act post)
    (unfolds : ∀ {rescues handed}, Unfolds V.env.program rescues handed (tasks handed) []) :
    Tracks V γ u tasks act post :=
  tracks.retask fun _ done => done.of_free (List.forall_mem_nil _) ▸ unfolds

theorem ite {c : Prop} [Decidable c] {yes no : Lowering α} (holds : c → Tracks V γ u tasks yes post)
    (fails : ¬c → Tracks V γ u tasks no post) :
    Tracks V γ u tasks (fun inner => if c then yes inner else no inner) post := by
  by_cases test : c
  · simp only [test, ↓reduceIte]
    exact holds test
  · simp only [test, ↓reduceIte]
    exact fails test

theorem throw {error : LowerError} (harmless : error.isInconsistency = false) :
    Tracks V γ u tasks (fun _ => throw error : Lowering α) post :=
  ⟨.throw harmless, fun _ _ ran => by cases ran⟩

theorem inner (sound : γ.Sound V) (tidy : expr.Tidy V.names) :
    Tracks V γ u (fun _ => [.expr expr]) (fun inner => inner expr) fun _ γ' u' => γ' = γ ∧ u' = ∅ :=
  ⟨.inner sound tidy, fun walks => walks.leaves sound tidy⟩

theorem position (known : b ∈ γ.blocks) :
    Tracks V γ u (fun _ => []) (fun _ => position b) fun _ γ' u' => γ' = γ ∧ u' = u where
  moves := .position known
  leaves _ tracked ran := by
    cases ran
    exact ⟨[], .nil, .of_code tracked.orderly (.position tracked.orderly.code (tracked.has known))⟩

theorem setContext (change : Context → Context) (free : ¬γ.held)
    (handlers : ∀ c, (change c).handlers = c.handlers)
    (yieldTarget : ∀ c, (change c).yieldTarget = c.yieldTarget) :
    Tracks V γ u (fun _ => []) (fun _ => setContext change) fun _ γ' u' =>
      γ' = { γ with context := change γ.context } ∧ u' = u :=
  have _ := Silent.setContext change handlers yieldTarget
  silent (.setContext change free)

/-- A computation may run under another context. -/
theorem around {enter leave : Context → Context} {held : Prop}
    (inside : Tracks V { γ with context := enter γ.context, held := held } u tasks act post)
    (back : ∀ context, (held → context = enter γ.context) → leave context = γ.context)
    (encloses : γ.Encloses V (enter γ.context) tasks tasks') :
    Tracks V γ u tasks' (fun inner => around enter leave (act inner)) fun a γ' u' =>
      ∃ γ1, post a γ1 u' ∧ γ' = { γ1 with context := γ.context, held := γ.held } where
  moves := .around inside.moves back
  leaves walks tracked ran := by
    obtain ⟨t, ran1, rfl⟩ := around_ok ran
    obtain ⟨w, s0, inFunction, fits⟩ := tracked.fits
    obtain ⟨_, hands, unfolds⟩ := encloses _ tracked.hands
    have fits' := fits.under held (congrArg enter fits.context)
    obtain ⟨marks, done, onward⟩ := inside.leaves walks
      ⟨⟨w, s0, inFunction, fits'⟩, hands, tracked.orderly.code, tracked.orderly.exits⟩ ran1
    have ended := inside.moves.fits walks.fitting fits'
    rw [ran1] at ended
    obtain ⟨_, _, _, fits1, held1⟩ := ended
    have restored :=
      (back _ fun held => fits1.context.trans (held1 held).2).trans fits.context.symm
    exact ⟨marks, unfolds done, onward.code, onward.exits, congrArg _ restored,
      congrArg _ restored⟩

end Tracks

/-- A computation goes through tasks and ends where it started, with an answer as said. -/
abbrev Goes (V : Vocabulary) (γ : Standing) (u : Unbound) (tasks : List Block → List Task)
    (act : Lowering α) (holds : α → Prop) : Prop :=
  Tracks V γ u tasks act fun a γ' u' => γ' = γ ∧ u' = u ∧ holds a

/-- A computation leaves no marks and ends where it started, with an answer as said. -/
abbrev Keeps (V : Vocabulary) (γ : Standing) (u : Unbound) (act : Lowering α) (holds : α → Prop) :
    Prop := Goes V γ u (fun _ => []) act holds

namespace Goes

variable {holds holds' : α → Prop}

theorem bind (first : Goes V γ u tasks act holds)
    (rest : ∀ {a}, holds a → Tracks V γ u tasks' (next a) last) :
    Tracks V γ u (fun handed => tasks handed ++ tasks' handed)
      (fun inner => act inner >>= fun a => next a inner) last := by
  refine Tracks.bind first ?_
  rintro a _ _ ⟨rfl, rfl, known⟩
  exact rest known

theorem closing (first : Goes V γ u tasks act holds)
    (rest : ∀ {a}, holds a → Tracks V γ u (fun _ => []) (next a) last) :
    Tracks V γ u tasks (fun inner => act inner >>= fun a => next a inner) last := by
  simpa using bind first rest

section

variable (goes : Goes V γ u tasks act holds)

include goes

theorem mono (weaker : ∀ a, holds a → holds' a) : Goes V γ u tasks act holds' :=
  Tracks.mono goes fun a _ _ known => ⟨known.1, known.2.1, weaker a known.2.2⟩

theorem any : Goes V γ u tasks act fun _ => True :=
  goes.mono fun _ _ => trivial

theorem discard : Goes V γ u tasks (fun inner => discard (act inner)) fun _ => True where
  moves := Stays.discard goes.moves
  leaves walks tracked ran := by
    obtain ⟨_, ran⟩ := discard_ok ran
    exact goes.leaves walks tracked ran

end

theorem of_tracks (tracks : Tracks V γ u tasks act fun _ γ' u' => γ' = γ ∧ u' = u) :
    Goes V γ u tasks act fun _ => True :=
  tracks.mono fun _ _ _ known => ⟨known.1, known.2, trivial⟩

theorem around {enter leave : Context → Context} {held : Prop}
    (inside : Goes V { γ with context := enter γ.context, held := held } u tasks act holds)
    (back : ∀ context, (held → context = enter γ.context) → leave context = γ.context)
    (encloses : γ.Encloses V (enter γ.context) tasks tasks') :
    Goes V γ u tasks' (fun inner => around enter leave (act inner)) holds := by
  refine (Tracks.around inside back encloses).mono ?_
  rintro a _ _ ⟨_, ⟨rfl, rfl, known⟩, rfl⟩
  exact ⟨rfl, rfl, known⟩

end Goes

theorem Keeps.bind {holds : α → Prop} (first : Keeps V γ u act holds)
    (rest : ∀ {a}, holds a → Tracks V γ u tasks (next a) last) :
    Tracks V γ u tasks (fun inner => act inner >>= fun a => next a inner) last :=
  Goes.bind first rest

namespace Goes

variable {holds : α → Prop} {cause : Fault} {loc : Location} {name : String}

theorem pure {a : α} (known : holds a) : Keeps V γ u (fun _ => pure a) holds :=
  .silent (.pure ⟨rfl, rfl, known⟩)

/-- A plain computation ends where it started. -/
theorem plain {act : Lower α} [plain : act.Plain] : Keeps V γ u (fun _ => act) fun _ => True := by
  have stays : Stays V γ u (fun _ => act) fun _ => True := by
    induction plain with
    | returns a => exact .pure ⟨rfl, rfl, trivial⟩
    | bind _ _ ihFirst ihRest => exact ihFirst.bind @fun a _ => ihRest a
    | throws harmless => exact .throw harmless
    | reads => exact Moves.read.mono fun _ _ _ known => ⟨known.1, known.2.1, trivial⟩
    | gets => exact Moves.get.recede fun _ _ _ known => ⟨γ, u, known.1 ▸ .refl γ,
        known.2.1 ▸ Set.subset_union_left, rfl, rfl, trivial⟩
    | records plain => exact .of_moves (.record plain.quiet)
    | notes noted => exact .of_moves (.note noted)
  exact .silent stays

theorem fault (harmless : (LowerError.internal cause loc).isInconsistency = false) :
    Goes V γ u tasks (fun _ => fault cause loc : Lowering α) holds := .throw harmless

theorem orFault {value : Option α}
    (harmless : value = none → (LowerError.internal cause loc).isInconsistency = false) :
    Keeps V γ u (fun _ => orFault value cause loc) fun a => value = some a := by
  cases value with
  | none => exact fault (harmless rfl)
  | some a => exact pure rfl

theorem program : Keeps V γ u (fun _ => program) fun program => program = V.env.program :=
  Keeps.bind (.silent .read) fun same => pure (by rw [same])

/-- Looking at the state tells which names are not bound. -/
theorem get {act : LowerState → Lowering β}
    (rest : ∀ s, s.context = γ.context → Tracks V γ (u ∪ γ.unboundIn s) tasks (act s) last) :
    Tracks V γ u tasks (fun inner => get >>= fun s => act s inner) last := by
  refine .after (.silent .get) ?_
  rintro s _ _ ⟨rfl, rfl, here⟩
  exact rest s here

theorem context : Keeps V γ u (fun _ => context) fun context => context = γ.context :=
  get fun _ here => .weaken (.refl γ) Set.subset_union_left (pure here) fun _ _ _ => id

/-- A name that is not found is not bound in the current scope. -/
theorem lookup? {act : Option Binding → Lowering β} (name : String)
    (bound : ∀ binding, Tracks V γ u tasks (act (some binding)) last)
    (free : Tracks V γ {(γ.context.scope, name)} tasks (act none) last) :
    Tracks V γ u tasks (fun inner => Lower.lookup? name >>= fun found => act found inner) last := by
  have finds : Tracks V γ u (fun _ => []) (fun _ => Lower.lookup? name) fun found γ' u' =>
      γ' = γ ∧ u ⊆ u' ∧ (found = none → (γ.context.scope, name) ∈ u') := by
    refine get fun _ _ => context.bind @fun found here => ?_
    subst here
    exact .silent (.pure ⟨rfl, Set.subset_union_left, fun missing => .inr (.inl missing)⟩)
  refine finds.after ?_
  rintro found _ u' ⟨rfl, more, missing⟩
  cases found with
  | some binding => exact .weaken (.refl _) more (bound binding) fun _ _ _ => id
  | none =>
    exact .weaken (.refl _) (Set.singleton_subset_iff.mpr (missing rfl)) free fun _ _ _ => id

theorem definition (name : String) (loc : Location) :
    Keeps V γ u (fun _ => definition name loc) fun defn =>
      V.env.program.target? name = some defn :=
  program.bind fun same => (orFault fun _ => rfl).mono fun _ found => same ▸ found

/-- A name may be bound in the current scope if it is admitted there. -/
theorem declare {binding : Binding} (admitted : γ.Admits V u γ.context.scope name) :
    Tracks V γ u (fun _ => []) (fun _ => declare name binding) fun _ γ' u' =>
      γ' = γ ∧ u' = ∅ :=
  context.bind fun here => by
    subst here
    exact .silent (.declareIn admitted)

end Goes

section

variable {context : Context}

/-- A computation under another context may change it: the present one is put back whole. -/
theorem Moves.withContext (inside : Moves V (γ.within context) u act post) :
    Moves V γ u (fun inner => withContext context (act inner)) fun a γ' u' =>
      ∃ γ1, post a γ1 u' ∧ γ' = { γ1 with context := γ.context, held := γ.held } :=
  Stays.bind Goes.context.moves fun _ here => by
    subst here
    exact .around inside fun _ _ => rfl

theorem Tracks.withContext (inside : Tracks V (γ.within context) u tasks act post)
    (encloses : γ.Encloses V context tasks tasks') :
    Tracks V γ u tasks' (fun inner => withContext context (act inner)) fun a γ' u' =>
      ∃ γ1, post a γ1 u' ∧ γ' = { γ1 with context := γ.context, held := γ.held } :=
  Goes.context.bind fun here => by
    subst here
    exact .around inside (fun _ _ => rfl) encloses

theorem Goes.withContext {holds : α → Prop}
    (inside : Goes V (γ.within context) u tasks act holds)
    (encloses : γ.Encloses V context tasks tasks') :
    Goes V γ u tasks' (fun inner => Lower.withContext context (act inner)) holds := by
  refine (Tracks.withContext inside encloses).mono ?_
  rintro a _ _ ⟨_, ⟨rfl, rfl, known⟩, rfl⟩
  exact ⟨rfl, rfl, known⟩

end

end CallLowering
