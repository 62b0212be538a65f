import CallLowering.Code.Operation

/-!
# Scopes

Variables are bound in scopes, and a scope may lie inside another. Several contexts can
refer to one scope, so the scopes of a program form a table and are named by their numbers.
A scope lies inside an older one only, so its parent has the smaller number.
-/

namespace CallLowering

/-- How a name is bound. -/
inductive Binding where
  /-- Stack storage that holds the value. -/
  | slot (ptr : ValueId) (ty : Ty)
  /-- A computed value that is never reassigned. -/
  | value (value : ValueId) (ty : Ty)
  deriving DecidableEq

/-- The type of the bound variable. -/
def Binding.ty : Binding → Ty
  | slot _ ty => ty
  | value _ ty => ty

/-- The number of a scope. -/
structure ScopeId where
  index : Nat
  deriving DecidableEq, Inhabited

/-- One level of variables. The latest binding of a name comes first. -/
structure Scope where
  bindings : List (String × Binding)
  parent : Option ScopeId

/-- The scope that binds nothing. -/
def Scope.inside (parent : Option ScopeId) : Scope := ⟨[], parent⟩

/-- All scopes of a program. -/
structure Scopes where
  all : Array Scope

namespace Scopes

/-- The table without scopes. -/
def empty : Scopes := ⟨#[]⟩

/-- A new scope inside another, or inside none. -/
def add (scopes : Scopes) (parent : Option ScopeId) : ScopeId × Scopes :=
  (⟨scopes.all.size⟩, ⟨scopes.all.push (Scope.inside parent)⟩)

/-- The scope with a number. -/
def get? (scopes : Scopes) (scope : ScopeId) : Option Scope := scopes.all[scope.index]?

/-- The scope that a scope lies inside. -/
def parent? (scopes : Scopes) (scope : ScopeId) : Option ScopeId :=
  (scopes.get? scope).bind (·.parent)

/-- Binds a name in a scope, in front of earlier bindings of it and of outer ones. -/
def declare (scopes : Scopes) (scope : ScopeId) (name : String) (binding : Binding) : Scopes :=
  ⟨scopes.all.modify scope.index fun data =>
    { data with bindings := (name, binding) :: data.bindings }⟩

/-- The binding of a name in the scope itself. -/
def lookupLocal? (scopes : Scopes) (scope : ScopeId) (name : String) : Option Binding :=
  (scopes.get? scope).bind (·.bindings.lookup name)

/-- The nearest binding of a name, looking into at most `levels` scopes. -/
def lookupWithin? (scopes : Scopes) : (levels : Nat) → ScopeId → String → Option Binding
  | 0, _, _ => none
  | levels + 1, scope, name =>
    match scopes.lookupLocal? scope name with
    | some binding => some binding
    | none =>
      match scopes.parent? scope with
      | some parent => scopes.lookupWithin? levels parent name
      | none => none

/-- The nearest binding of a name, from the scope outwards. A chain of scopes that grow older
has no more members than the number of the first allows. -/
def lookup? (scopes : Scopes) (scope : ScopeId) (name : String) : Option Binding :=
  scopes.lookupWithin? (scope.index + 1) scope name

end Scopes

end CallLowering
