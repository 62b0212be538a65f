import CallLowering.Language.Ty

/-!
# Resolved expressions

An `Expr` carries its kind, its resolved type and its place in the text. A `Call` names the
definitions it may run, in the resolver's order, and may hand over a `Block`.

The predicates of this module say what lowering asks of an expression before it looks
inside: whether it is a literal, whether dropping it loses an effect, and whether evaluating
it can reach a `yield`. `Expr.size` counts the expressions inside one.
-/

namespace CallLowering

/-- A place in the program text. -/
structure Location where
  line : UInt32
  column : UInt32
  deriving DecidableEq, Inhabited

namespace Location

/-- The place of everything that names none. -/
def unknown : Location := ⟨0, 0⟩

/-- The text of a place: line, colon, column. -/
def display (loc : Location) : String :=
  toString loc.line.toNat ++ ":" ++ toString loc.column.toNat

end Location

/-- A named and typed parameter of a block. -/
structure BlockParam where
  name : String
  ty : Ty
  deriving DecidableEq, Inhabited

mutual

/-- An expression with its resolved type and its place. -/
structure Expr where
  kind : ExprKind
  ty : Ty
  loc : Location

/-- What an expression does. -/
inductive ExprKind where
  | nop
  | nil
  | bool (value : Bool)
  | char (value : Char)
  | string (value : String)
  | int (value : Int64)
  | float (value : Float)
  | symbol (name : String)
  /-- Reads a local variable. -/
  | var (name : String)
  | selfRef
  /-- Reads a field of `self`. -/
  | field (name : String)
  | assign (target : String) (value : Expr)
  /-- Reads a namespace constant; one with an initializer runs it first. -/
  | const (name : String) (initializer : Bool)
  | call (call : Call)
  /-- Runs the block of the innermost inlined call. A scope becomes the receiver of the
  implicit calls inside the block. -/
  | yield (args : List Expr) (scope : Option Expr)
  /-- Leaves the call that the enclosing block was handed to. -/
  | breakWith (value : Option Expr)
  /-- Leaves the enclosing block. -/
  | nextWith (value : Option Expr)
  /-- An argument that a foreign function writes through. -/
  | out (target : Expr)
  /-- An `out` target whose value nobody reads. -/
  | discard
  | procLiteral (block : Block)
  | seq (exprs : List Expr)
  /-- Calls in the body unwind to the handler. -/
  | rescue (body handler : Expr)

/-- A call site as the resolver leaves it. -/
structure Call where
  obj : Option Expr
  name : String
  args : List Expr
  block : Option Block
  /-- The names of the definitions that may run, in the resolver's order. -/
  targets : List String
  isSuper : Bool
  usesWithScope : Bool
  loc : Location
  endLoc : Option Location

/-- The block argument of a call. -/
structure Block where
  params : List BlockParam
  body : Expr
  /-- The type of the values that `break` hands out of the block. -/
  breakTy : Option Ty
  /-- The enclosing variables that the block reads as a closure. -/
  captures : List String

end

namespace ExprKind

/-- Whether the expression is a literal. -/
def isLiteral : ExprKind → Bool
  | nil | bool _ | char _ | string _ | int _ | float _ | symbol _ => true
  | _ => false

/-- Number and symbol literals fit every candidate that the resolver kept, so their types are
never tested. -/
def supportsAutocast : ExprKind → Bool
  | int _ | float _ | symbol _ => true
  | _ => false

/-- Whether dropping the expression loses no effect. -/
def isSideEffectFree : ExprKind → Bool
  | const _ initializer => !initializer
  | nop | var _ | selfRef => true
  | kind => kind.isLiteral

end ExprKind

mutual

/-- Whether evaluating the expression can reach a `yield`. -/
def Expr.containsYield : Expr → Bool
  | ⟨kind, _, _⟩ => kind.containsYield

/-- Whether evaluating an expression of this kind can reach a `yield`. -/
def ExprKind.containsYield : ExprKind → Bool
  | .yield _ _ => true
  | .assign _ value => value.containsYield
  | .call call => call.containsYield
  | .breakWith (some value) => value.containsYield
  | .nextWith (some value) => value.containsYield
  | .out target => target.containsYield
  | .seq exprs => Expr.anyContainsYield exprs
  | .rescue body handler => body.containsYield || handler.containsYield
  | _ => false

/-- Whether the receiver, an argument or the block of the call contains a `yield`. -/
def Call.containsYield : Call → Bool
  | ⟨obj, _, args, block, _, _, _, _, _⟩ =>
    Expr.optionContainsYield obj || Expr.anyContainsYield args || Block.optionContainsYield block

/-- Whether a block, if there is one, contains a `yield`. -/
def Block.optionContainsYield : Option Block → Bool
  | none => false
  | some ⟨_, body, _, _⟩ => body.containsYield

/-- Whether an expression, if there is one, contains a `yield`. -/
def Expr.optionContainsYield : Option Expr → Bool
  | none => false
  | some expr => expr.containsYield

/-- Whether one of the expressions contains a `yield`. -/
def Expr.anyContainsYield : List Expr → Bool
  | [] => false
  | expr :: exprs => expr.containsYield || Expr.anyContainsYield exprs

end

mutual

/-- The number of expressions inside an expression, itself included. -/
def Expr.size : Expr → Nat
  | ⟨kind, _, _⟩ => kind.size + 1

/-- The number of expressions inside an expression of this kind, itself excluded. -/
def ExprKind.size : ExprKind → Nat
  | .assign _ value => value.size
  | .call call => call.size
  | .yield args scope => Expr.listSize args + Expr.optionSize scope
  | .breakWith value => Expr.optionSize value
  | .nextWith value => Expr.optionSize value
  | .out target => target.size
  | .procLiteral ⟨_, body, _, _⟩ => body.size
  | .seq exprs => Expr.listSize exprs
  | .rescue body handler => body.size + handler.size
  | _ => 0

/-- The number of expressions inside a call. -/
def Call.size : Call → Nat
  | ⟨obj, _, args, block, _, _, _, _, _⟩ =>
    Expr.optionSize obj + Expr.listSize args + Block.optionSize block

/-- The number of expressions inside a block, if there is one. -/
def Block.optionSize : Option Block → Nat
  | none => 0
  | some ⟨_, body, _, _⟩ => body.size

/-- The number of expressions inside an expression, if there is one. -/
def Expr.optionSize : Option Expr → Nat
  | none => 0
  | some expr => expr.size

/-- The number of expressions inside several ones. -/
def Expr.listSize : List Expr → Nat
  | [] => 0
  | expr :: exprs => expr.size + Expr.listSize exprs

end

namespace Expr

/-- An expression at no particular place. -/
def ofKind (kind : ExprKind) (ty : Ty) : Expr := ⟨kind, ty, .unknown⟩

/-- The expression at another place. -/
def placedAt (expr : Expr) (loc : Location) : Expr := { expr with loc := loc }

/-- The `nil` literal. -/
def nilLiteral : Expr := ofKind .nil .nil

/-- A read of a local variable. -/
def ofVar (name : String) (ty : Ty) : Expr := ofKind (.var name) ty

/-- A call as an expression, at the place of the call. -/
def ofCall (call : Call) (ty : Ty) : Expr := (ofKind (.call call) ty).placedAt call.loc

end Expr

namespace Call

/-- A call of the named candidates without receiver, arguments or block. -/
def ofTargets (name : String) (targets : List String) : Call where
  obj := none
  name := name
  args := []
  block := none
  targets := targets
  isSuper := false
  usesWithScope := false
  loc := .unknown
  endLoc := none

/-- The call with an explicit receiver. -/
def withReceiver (call : Call) (obj : Expr) : Call := { call with obj := some obj }

/-- The call with the given arguments. -/
def withArgs (call : Call) (args : List Expr) : Call := { call with args := args }

/-- The call with a block. -/
def withBlock (call : Call) (block : Block) : Call := { call with block := some block }

/-- The call at another place. -/
def placedAt (call : Call) (loc : Location) : Call := { call with loc := loc }

end Call

/-- The type of the block as a callable. -/
def Block.procTy (block : Block) : Ty := .proc (block.params.map (·.ty)) block.body.ty

end CallLowering
