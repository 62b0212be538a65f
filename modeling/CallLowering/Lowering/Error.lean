import CallLowering.Code.Debug
import CallLowering.Code.Walk
import CallLowering.Language.Expr

/-!
# Lowering errors

An error is an internal fault of an earlier phase, a call that cannot cross into foreign code
as written, or a refusal of the code recorder. `LowerError.message` holds all wordings.
-/

namespace CallLowering

/-- Something that an earlier phase should have ruled out. -/
inductive Fault where
  | unresolvedCall (name : String)
  | unknownDefinition (name : String)
  | noBody (name : String)
  | noRuntimeTag (ty : Ty)
  | noField (owner : Ty) (field : String)
  | undefinedVariable (name : String)
  | noSelf
  | cannotAssign (name : String)
  | outOutsideForeignCall
  | outNotAddressable (name : String)
  | outWithoutPlace
  | argumentCount (name : String) (takes passes : Nat)
  | missingArgument (param name : String)
  | noArgumentValue (param : String)
  | unknownMagic (name : String)
  | noWithScope
  | noReceiver (name : String)
  | noParameter (name : String) (index : Nat)
  | specialNotAddressable (name : String)
  | specialNotInParameters
  | specialNotInArguments
  | yieldsWithoutBlock (name : String)
  | cannotInlineBlock (name : String)
  | foreignWithBlock (name : String)
  | yieldOutsideBlockCall
  | jumpOutsideBlock (keyword : String)
  | captureNotInScope (name : String)
  | notForeign (name : String)
  | notClassified (name : String) (classified total : Nat)
  | noReturnSlot
  | unhandledReturn (ty : Ty)
  /-- An inlined definition runs itself again without end. -/
  | endlessInlining

/-- The wording of a fault. -/
def Fault.message : Fault → String
  | unresolvedCall name => "unresolved call to `" ++ name ++ "` reached codegen"
  | unknownDefinition name => "unknown target definition `" ++ name ++ "`"
  | noBody name => "`" ++ name ++ "` has no body to lower"
  | noRuntimeTag ty => "type `" ++ ty.display ++ "` has no runtime tag"
  | noField owner field => "type `" ++ owner.display ++ "` has no field `" ++ field ++ "`"
  | undefinedVariable name => "undefined variable `" ++ name ++ "`"
  | noSelf => "no `self` in scope"
  | cannotAssign name => "cannot assign to `" ++ name ++ "`"
  | outOutsideForeignCall => "out argument outside of a foreign call"
  | outNotAddressable name => "out argument `" ++ name ++ "` is not addressable"
  | outWithoutPlace => "out argument must be a variable, a field or `_`"
  | argumentCount name takes passes =>
    "`" ++ name ++ "` takes " ++ toString takes ++ " arguments but the call passes " ++
      toString passes
  | missingArgument param name => "missing argument `" ++ param ++ "` for `" ++ name ++ "`"
  | noArgumentValue param => "no argument value for parameter `" ++ param ++ "`"
  | unknownMagic name => "unknown magic constant `" ++ name ++ "`"
  | noWithScope => "call uses a `with` scope outside of one"
  | noReceiver name => "`" ++ name ++ "` needs a receiver but no `self` is in scope"
  | noParameter name index => "`" ++ name ++ "` has no parameter #" ++ toString index
  | specialNotAddressable name => "special variable `" ++ name ++ "` is not addressable"
  | specialNotInParameters => "special variable missing from parameters"
  | specialNotInArguments => "special variable missing from arguments"
  | yieldsWithoutBlock name => "`" ++ name ++ "` yields but the call passes no block"
  | cannotInlineBlock name => "`" ++ name ++ "` cannot inline a block: no block or no body"
  | foreignWithBlock name => "foreign function `" ++ name ++ "` called with a block"
  | yieldOutsideBlockCall => "`yield` outside of a block call"
  | jumpOutsideBlock keyword => "`" ++ keyword ++ "` outside of a block"
  | captureNotInScope name => "captured variable `" ++ name ++ "` is not in scope"
  | notForeign name => "`" ++ name ++ "` is not a foreign function"
  | notClassified name classified total =>
    "missing ABI classification for `" ++ name ++ "`: " ++ toString classified ++ " of " ++
      toString total ++ " arguments classified"
  | noReturnSlot => "indirect return without a return slot"
  | unhandledReturn ty => "unhandled return classification for `" ++ ty.display ++ "`"
  | endlessInlining => "inlining does not end"

/-- A refusal of the code recorder, or a walk that cannot go on. -/
inductive Refusal where
  | record (error : RecordError)
  | walk (error : WalkError)
  | noJoinPoint (index : Nat)
  | closedOutOfOrder (index : Nat)
  | noJoinPoints
  | noDataParameter (name : String)
  /-- The classifier of foreign prototypes failed. -/
  | classifier (text : String)

/-- The wording of a refused recording. -/
def RecordError.message : RecordError → String
  | noInsertionPoint => "no insertion point"
  | afterTerminator op terminator label =>
    "instruction " ++ op.debug ++ " appended after terminator " ++ terminator.debug ++
      " in block " ++ label
  | alreadyDefined name => "function @" ++ name ++ " already has a body"
  | noResult => "instruction produced no value"

/-- The wording of a walk that cannot go on. -/
def WalkError.message : WalkError → String
  | noBody => "function has no body"
  | notATag => "type tag test on a non-tag value"
  | unevaluable value => "cannot evaluate condition %" ++ toString value.index
  | fallsOff label => "block " ++ label ++ " falls off without a terminator"

/-- The wording of a refusal. -/
def Refusal.message : Refusal → String
  | record error => error.message
  | walk error => error.message
  | noJoinPoint index => "no join point #" ++ toString index
  | closedOutOfOrder index => "join point #" ++ toString index ++ " closed out of order"
  | noJoinPoints => "join point stack is empty"
  | noDataParameter name => "closure @" ++ name ++ " has no data parameter"
  | classifier text => text

/-- An error of lowering. -/
inductive LowerError where
  | internal (fault : Fault) (loc : Location)
  /-- A closure was passed where foreign code takes a bare code pointer. -/
  | closureToForeign (loc : Location)
  | backend (refusal : Refusal)

namespace LowerError

/-- The name of the kind of error. -/
def category : LowerError → String
  | internal .. => "InternalError"
  | closureToForeign _ => "AbiError"
  | backend _ => "BackendError"

/-- The place of the error; refusals have none. -/
def loc? : LowerError → Option Location
  | internal _ loc => some loc
  | closureToForeign loc => some loc
  | backend _ => none

/-- The wording of the error. -/
def message : LowerError → String
  | internal fault _ => fault.message
  | closureToForeign _ =>
    "cannot pass a closure to a C function that expects a plain function pointer"
  | backend refusal => refusal.message

/-- The error as one line. -/
def display (error : LowerError) : String := error.category ++ ": " ++ error.message

/-- The report of the error in a file, as shown to a user. -/
def report (error : LowerError) (file : String) : String :=
  let place := match error.loc? with
    | some loc => file ++ ":" ++ loc.display
    | none => file
  let note := match error with
    | internal .. => "  = note: this is a bug in an earlier compiler phase\n"
    | _ => ""
  error.display ++ "\n  --> " ++ place ++ "\n" ++ note

end LowerError

end CallLowering
