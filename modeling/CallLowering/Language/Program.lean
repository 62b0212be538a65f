import CallLowering.Language.Expr
import CallLowering.Language.TypeTable
import CallLowering.Machine.CallConv

/-!
# Definitions and programs

A `Definition` is a method body that a call may run, or a foreign function bound to a
symbol. A `Program` is a file name, a type table and a list of definitions.

Call sites name definitions. When two definitions share a name, `Program.definition?` finds
the first of them and `Program.target?`, which resolves the candidates of a call, the last.
-/

namespace CallLowering

/-- What an omitted argument becomes. -/
inductive DefaultValue where
  /-- A constant taken from the call site, such as its line. -/
  | magic (name : String)
  | expr (value : Expr)

/-- A formal parameter. -/
structure Param where
  name : String
  ty : Ty
  default? : Option DefaultValue

namespace Param

/-- A parameter that has to be passed. -/
def required (name : String) (ty : Ty) : Param := ⟨name, ty, none⟩

/-- Whether an omitted argument is a constant of the call site. -/
def isMagic (param : Param) : Bool :=
  match param.default? with
  | some (.magic _) => true
  | _ => false

end Param

/-- The symbol and convention of a foreign function. -/
structure ForeignSpec where
  symbol : String
  conv : CallConv
  deriving DecidableEq

/-- A resolved definition. -/
structure Definition where
  /-- The unique name by which call sites refer to the definition. -/
  name : String
  owner : Ty
  params : List Param
  ret : Ty
  raises : Bool
  foreign : Option ForeignSpec
  variadic : Bool
  /-- Whether the block arrives as a callable value instead of being inlined. -/
  blockArg : Bool
  /-- Implicit state of the caller, passed by reference. -/
  specialVars : List Param
  /-- Whether aggregate arguments stay in their storage. -/
  primitive : Bool
  body : Option Expr
  loc : Location

namespace Definition

/-- A definition with neither body nor attributes. -/
def ofSignature (name : String) (owner : Ty) (params : List Param) (ret : Ty) : Definition where
  name := name
  owner := owner
  params := params
  ret := ret
  raises := false
  foreign := none
  variadic := false
  blockArg := false
  specialVars := []
  primitive := false
  body := none
  loc := .unknown

/-- The definition with a body. -/
def withBody (defn : Definition) (body : Expr) : Definition := { defn with body := some body }

/-- The definition bound to a foreign symbol. -/
def withSymbol (defn : Definition) (symbol : String) (conv : CallConv) : Definition :=
  { defn with foreign := some ⟨symbol, conv⟩ }

/-- The definition marked as one that may raise. -/
def raising (defn : Definition) : Definition := { defn with raises := true }

/-- Whether the definition is bound to a foreign symbol. -/
def isForeign (defn : Definition) : Bool := defn.foreign.isSome

/-- Whether calls of the definition pass `self`. -/
def takesReceiver (defn : Definition) : Bool := !defn.isForeign && defn.owner.passedAsSelf

/-- The number of parameters before the first magic one. The others are passed after the
special variables. -/
def fixedArity (defn : Definition) : Nat :=
  (defn.params.findIdx? Param.isMagic).getD defn.params.length

/-- The parameters passed before the special variables. -/
def fixedParams (defn : Definition) : List Param := defn.params.take defn.fixedArity

/-- The parameters passed after the special variables. -/
def trailingParams (defn : Definition) : List Param := defn.params.drop defn.fixedArity

/-- A definition whose body yields is inlined at its call sites and never becomes a function
of its own. -/
def isInlineOnly (defn : Definition) : Bool :=
  match defn.body with
  | some body => body.containsYield
  | none => false

/-- Whether the definition becomes a function of its own. -/
def needsFunction (defn : Definition) : Bool :=
  !defn.isForeign && defn.body.isSome && !defn.isInlineOnly

/-- The number of expressions in the default values of some parameters. -/
def defaultsSize : List Param → Nat
  | [] => 0
  | param :: params =>
    match param.default? with
    | some (.expr value) => value.size + defaultsSize params
    | _ => defaultsSize params

/-- The number of expressions in the body and in the default values. -/
def size (defn : Definition) : Nat :=
  Expr.optionSize defn.body + defaultsSize defn.params

end Definition

/-- A resolved compilation unit. -/
structure Program where
  file : String
  types : TypeTable
  defs : List Definition

namespace Program

/-- The first definition with a name. -/
def definition? (program : Program) (name : String) : Option Definition :=
  program.defs.find? (·.name == name)

/-- The definition that a call site means by a name: the last one with it. -/
def target? (program : Program) (name : String) : Option Definition :=
  program.defs.reverse.find? (·.name == name)

/-- The program as loaded from the given place: an unnamed one takes the place as its name. -/
def loadedFrom (program : Program) (path : String) : Program :=
  if program.file.isEmpty then { program with file := path } else program

/-- The number of expressions in all definitions. -/
def size (program : Program) : Nat :=
  program.defs.foldr (fun defn size => defn.size + size) 0

/-- A depth that nested lowering exceeds only when inlining has no end.

Under a chain of inlined calls, lowering stands at one place in every body of the chain. A step
goes deeper into the last body, enters another one, or yields, which leaves the last body and
goes deeper into the one before. The depth is thus bounded by a power of the size, with the
length of the chain as exponent. What a body leads to depends only on whether control gets past
the block it was given, so a chain that enters a definition a third time goes on for ever. -/
def nestingBound (program : Program) (expr : Expr) : Nat :=
  Nat.pow (expr.size + program.size + 2) (2 * program.defs.length + 2)

end Program

end CallLowering
