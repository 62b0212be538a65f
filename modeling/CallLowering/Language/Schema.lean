import CallLowering.Json.Decode
import CallLowering.Language.Program

/-!
# The JSON form of programs

Each data type of a program has a writer `toJson` and a reader `ofJson?`. Writers fill in
every field. Readers ignore fields they do not know and give a missing field its default
where it has one.

Types and expressions nest. Their readers are written for one level, over a reader for what
is inside (`Ty.readWith`, `Expr.readWith`), and closed by recursion on the depth of the value.
-/

namespace CallLowering

namespace Target

/-- The JSON form of a target. -/
def toJson (target : Target) : Json := .ofUnit target.display

/-- Reads a target. -/
def ofJson? (json : Json) : Option Target := do
  let variant ← json.variant?
  match variant.name with
  | "x86_64" => variant.unit? .x86_64
  | "aarch64" => variant.unit? .aarch64
  | _ => none

end Target

namespace CallConv

/-- The JSON form of a convention. -/
def toJson : CallConv → Json
  | c => .ofUnit "c"
  | fast => .ofUnit "fast"
  | stdCall => .ofUnit "std_call"
  | x86_64SysV => .ofUnit "x86_64_sys_v"
  | win64 => .ofUnit "win64"

/-- Reads a convention. -/
def ofJson? (json : Json) : Option CallConv := do
  let variant ← json.variant?
  match variant.name with
  | "c" => variant.unit? .c
  | "fast" => variant.unit? .fast
  | "std_call" => variant.unit? .stdCall
  | "x86_64_sys_v" => variant.unit? .x86_64SysV
  | "win64" => variant.unit? .win64
  | _ => none

end CallConv

namespace Ty

mutual

/-- The JSON form of a type. -/
def toJson : Ty → Json
  | nil => .ofUnit "nil"
  | bool => .ofUnit "bool"
  | char => .ofUnit "char"
  | symbol => .ofUnit "symbol"
  | string => .ofUnit "string"
  | int bits signed =>
    .ofVariant "int" (.object [("bits", .ofNat bits.toNat), ("signed", .bool signed)])
  | float bits => .ofVariant "float" (.object [("bits", .ofNat bits.toNat)])
  | pointer pointee => .ofVariant "pointer" (toJson pointee)
  | proc params ret =>
    .ofVariant "proc" (.object [("params", .array (listToJson params)), ("ret", toJson ret)])
  | struct name => .ofVariant "struct" (.string name)
  | object name => .ofVariant "class" (.string name)
  | metaclass name => .ofVariant "metaclass" (.string name)
  | union members => .ofVariant "union" (.array (listToJson members))
  | program => .ofUnit "program"
  | noReturn => .ofUnit "no_return"

/-- The JSON forms of several types. -/
def listToJson : List Ty → List Json
  | [] => []
  | ty :: tys => toJson ty :: listToJson tys

end

/-- Reads a type, given a reader for the types inside it. -/
def readWith (inner : Json → Option Ty) (json : Json) : Option Ty := do
  let variant ← json.variant?
  match variant.name with
  | "nil" => variant.unit? .nil
  | "bool" => variant.unit? .bool
  | "char" => variant.unit? .char
  | "symbol" => variant.unit? .symbol
  | "string" => variant.unit? .string
  | "int" => variant.content? fun json => do
    let record ← json.record? ["bits", "signed"]
    return .int (← record.field? "bits" Json.uint32?) (← record.field? "signed" Json.bool?)
  | "float" => variant.content? fun json => do
    let record ← json.record? ["bits"]
    return .float (← record.field? "bits" Json.uint32?)
  | "pointer" => variant.content? fun json => return .pointer (← inner json)
  | "proc" => variant.content? fun json => do
    let record ← json.record? ["params", "ret"]
    return .proc (← record.field? "params" (Json.list? inner)) (← record.field? "ret" inner)
  | "struct" => variant.content? fun json => return .struct (← json.string?)
  | "class" => variant.content? fun json => return .object (← json.string?)
  | "metaclass" => variant.content? fun json => return .metaclass (← json.string?)
  | "union" => variant.content? fun json => return .union (← json.list? inner)
  | "program" => variant.unit? .program
  | "no_return" => variant.unit? .noReturn
  | _ => none

/-- Reads a type that nests at most `depth` levels. -/
def readWithin : (depth : Nat) → Json → Option Ty
  | 0, _ => none
  | depth + 1, json => readWith (readWithin depth) json

/-- Reads a type. -/
def ofJson? (json : Json) : Option Ty := readWithin (json.depth + 1) json

end Ty

namespace Field

/-- The JSON form of a field. -/
def toJson (field : Field) : Json :=
  .object [("name", .string field.name), ("ty", field.ty.toJson)]

/-- Reads a field. -/
def ofJson? (json : Json) : Option Field := do
  let record ← json.record? ["name", "ty"]
  return ⟨← record.field? "name" Json.string?, ← record.field? "ty" Ty.ofJson?⟩

end Field

namespace TypeDecl

/-- The JSON form of a declaration. -/
def toJson (decl : TypeDecl) : Json :=
  .object [("name", .string decl.name), ("parent", .ofOption Json.string decl.parent),
    ("fields", .ofList Field.toJson decl.fields)]

/-- Reads a declaration. -/
def ofJson? (json : Json) : Option TypeDecl := do
  let record ← json.record? ["name", "parent", "fields"]
  return {
    name := ← record.field? "name" Json.string?
    parent := ← record.optional? "parent" Json.string?
    fields := ← record.fieldD? "fields" [] (Json.list? Field.ofJson?) }

end TypeDecl

namespace TypeTable

/-- The JSON form of a type table. -/
def toJson (table : TypeTable) : Json :=
  .object [("structs", .ofList TypeDecl.toJson table.structs),
    ("classes", .ofList TypeDecl.toJson table.classes)]

/-- Reads a type table. -/
def ofJson? (json : Json) : Option TypeTable := do
  let record ← json.record? ["structs", "classes"]
  return {
    structs := ← record.fieldD? "structs" [] (Json.list? TypeDecl.ofJson?)
    classes := ← record.fieldD? "classes" [] (Json.list? TypeDecl.ofJson?) }

end TypeTable

namespace Location

/-- The JSON form of a place. -/
def toJson (loc : Location) : Json :=
  .object [("line", .ofNat loc.line.toNat), ("column", .ofNat loc.column.toNat)]

/-- Reads a place. -/
def ofJson? (json : Json) : Option Location := do
  let record ← json.record? ["line", "column"]
  return ⟨← record.field? "line" Json.uint32?, ← record.fieldD? "column" 0 Json.uint32?⟩

end Location

namespace BlockParam

/-- The JSON form of a block parameter. -/
def toJson (param : BlockParam) : Json :=
  .object [("name", .string param.name), ("ty", param.ty.toJson)]

/-- Reads a block parameter. -/
def ofJson? (json : Json) : Option BlockParam := do
  let record ← json.record? ["name", "ty"]
  return ⟨← record.field? "name" Json.string?, ← record.field? "ty" Ty.ofJson?⟩

end BlockParam

mutual

/-- The JSON form of an expression. -/
def Expr.toJson : Expr → Json
  | ⟨kind, ty, loc⟩ =>
    .object [("kind", kind.toJson), ("ty", ty.toJson), ("loc", loc.toJson)]

/-- The JSON form of what an expression does. -/
def ExprKind.toJson : ExprKind → Json
  | .nop => .ofUnit "nop"
  | .nil => .ofUnit "nil"
  | .bool value => .ofVariant "bool" (.bool value)
  | .char value => .ofVariant "char" (.string (String.singleton value))
  | .string value => .ofVariant "string" (.string value)
  | .int value => .ofVariant "int" (.ofInt64 value)
  | .float value => .ofVariant "float" (.ofFloat value)
  | .symbol name => .ofVariant "symbol" (.string name)
  | .var name => .ofVariant "var" (.string name)
  | .selfRef => .ofUnit "self_ref"
  | .field name => .ofVariant "field" (.string name)
  | .assign target value =>
    .ofVariant "assign" (.object [("target", .string target), ("value", value.toJson)])
  | .const name initializer =>
    .ofVariant "const" (.object [("name", .string name), ("initializer", .bool initializer)])
  | .call call => .ofVariant "call" call.toJson
  | .yield args scope =>
    .ofVariant "yield"
      (.object [("args", .array (Expr.listToJson args)), ("scope", Expr.optionToJson scope)])
  | .breakWith value => .ofVariant "break" (Expr.optionToJson value)
  | .nextWith value => .ofVariant "next" (Expr.optionToJson value)
  | .out target => .ofVariant "out" target.toJson
  | .discard => .ofUnit "discard"
  | .procLiteral block => .ofVariant "proc_literal" block.toJson
  | .seq exprs => .ofVariant "seq" (.array (Expr.listToJson exprs))
  | .rescue body handler =>
    .ofVariant "rescue" (.object [("body", body.toJson), ("handler", handler.toJson)])

/-- The JSON form of a call. -/
def Call.toJson : Call → Json
  | ⟨obj, name, args, block, targets, isSuper, usesWithScope, loc, endLoc⟩ =>
    .object [("obj", Expr.optionToJson obj), ("name", .string name),
      ("args", .array (Expr.listToJson args)), ("block", Block.optionToJson block),
      ("target_defs", .ofList Json.string targets), ("is_super", .bool isSuper),
      ("uses_with_scope", .bool usesWithScope), ("location", loc.toJson),
      ("end_location", .ofOption Location.toJson endLoc)]

/-- The JSON form of a block. -/
def Block.toJson : Block → Json
  | ⟨params, body, breakTy, captures⟩ =>
    .object [("params", .ofList BlockParam.toJson params), ("body", body.toJson),
      ("break_ty", .ofOption Ty.toJson breakTy), ("captures", .ofList Json.string captures)]

/-- The JSON form of a block, if there is one. -/
def Block.optionToJson : Option Block → Json
  | none => .null
  | some block => block.toJson

/-- The JSON form of an expression, if there is one. -/
def Expr.optionToJson : Option Expr → Json
  | none => .null
  | some expr => expr.toJson

/-- The JSON forms of several expressions. -/
def Expr.listToJson : List Expr → List Json
  | [] => []
  | expr :: exprs => expr.toJson :: Expr.listToJson exprs

end

namespace Block

/-- Reads a block, given a reader for expressions. -/
def readWith (inner : Json → Option Expr) (json : Json) : Option Block := do
  let record ← json.record? ["params", "body", "break_ty", "captures"]
  return {
    params := ← record.fieldD? "params" [] (Json.list? BlockParam.ofJson?)
    body := ← record.field? "body" inner
    breakTy := ← record.optional? "break_ty" Ty.ofJson?
    captures := ← record.fieldD? "captures" [] (Json.list? Json.string?) }

end Block

namespace Call

/-- Reads a call, given a reader for expressions. -/
def readWith (inner : Json → Option Expr) (json : Json) : Option Call := do
  let record ← json.record? ["obj", "name", "args", "block", "target_defs", "is_super",
    "uses_with_scope", "location", "end_location"]
  return {
    obj := ← record.optional? "obj" inner
    name := ← record.field? "name" Json.string?
    args := ← record.fieldD? "args" [] (Json.list? inner)
    block := ← record.optional? "block" (Block.readWith inner)
    targets := ← record.field? "target_defs" (Json.list? Json.string?)
    isSuper := ← record.fieldD? "is_super" false Json.bool?
    usesWithScope := ← record.fieldD? "uses_with_scope" false Json.bool?
    loc := ← record.fieldD? "location" .unknown Location.ofJson?
    endLoc := ← record.optional? "end_location" Location.ofJson? }

end Call

namespace ExprKind

/-- Reads what an expression does, given a reader for expressions. -/
def readWith (inner : Json → Option Expr) (json : Json) : Option ExprKind := do
  let variant ← json.variant?
  match variant.name with
  | "nop" => variant.unit? .nop
  | "nil" => variant.unit? .nil
  | "bool" => variant.content? fun json => return .bool (← json.bool?)
  | "char" => variant.content? fun json => return .char (← json.char?)
  | "string" => variant.content? fun json => return .string (← json.string?)
  | "int" => variant.content? fun json => return .int (← json.int64?)
  | "float" => variant.content? fun json => return .float (← json.float?)
  | "symbol" => variant.content? fun json => return .symbol (← json.string?)
  | "var" => variant.content? fun json => return .var (← json.string?)
  | "self_ref" => variant.unit? .selfRef
  | "field" => variant.content? fun json => return .field (← json.string?)
  | "assign" => variant.content? fun json => do
    let record ← json.record? ["target", "value"]
    return .assign (← record.field? "target" Json.string?) (← record.field? "value" inner)
  | "const" => variant.content? fun json => do
    let record ← json.record? ["name", "initializer"]
    return .const (← record.field? "name" Json.string?)
      (← record.fieldD? "initializer" false Json.bool?)
  | "call" => variant.content? fun json => return .call (← Call.readWith inner json)
  | "yield" => variant.content? fun json => do
    let record ← json.record? ["args", "scope"]
    return .yield (← record.field? "args" (Json.list? inner)) (← record.optional? "scope" inner)
  | "break" => variant.content? fun json => return .breakWith (← json.nullable? inner)
  | "next" => variant.content? fun json => return .nextWith (← json.nullable? inner)
  | "out" => variant.content? fun json => return .out (← inner json)
  | "discard" => variant.unit? .discard
  | "proc_literal" => variant.content? fun json =>
    return .procLiteral (← Block.readWith inner json)
  | "seq" => variant.content? fun json => return .seq (← json.list? inner)
  | "rescue" => variant.content? fun json => do
    let record ← json.record? ["body", "handler"]
    return .rescue (← record.field? "body" inner) (← record.field? "handler" inner)
  | _ => none

end ExprKind

namespace Expr

/-- Reads an expression, given a reader for the expressions inside it. -/
def readWith (inner : Json → Option Expr) (json : Json) : Option Expr := do
  let record ← json.record? ["kind", "ty", "loc"]
  return {
    kind := ← record.field? "kind" (ExprKind.readWith inner)
    ty := ← record.field? "ty" Ty.ofJson?
    loc := ← record.fieldD? "loc" .unknown Location.ofJson? }

/-- Reads an expression that nests at most `depth` levels. -/
def readWithin : (depth : Nat) → Json → Option Expr
  | 0, _ => none
  | depth + 1, json => readWith (readWithin depth) json

/-- Reads an expression. -/
def ofJson? (json : Json) : Option Expr := readWithin (json.depth + 1) json

end Expr

/-- Reads what an expression does. -/
def ExprKind.ofJson? (json : Json) : Option ExprKind := ExprKind.readWith Expr.ofJson? json

/-- Reads a call. -/
def Call.ofJson? (json : Json) : Option Call := Call.readWith Expr.ofJson? json

/-- Reads a block. -/
def Block.ofJson? (json : Json) : Option Block := Block.readWith Expr.ofJson? json

namespace DefaultValue

/-- The JSON form of a default. -/
def toJson : DefaultValue → Json
  | magic name => .ofVariant "magic" (.string name)
  | expr value => .ofVariant "expr" value.toJson

/-- Reads a default. -/
def ofJson? (json : Json) : Option DefaultValue := do
  let variant ← json.variant?
  match variant.name with
  | "magic" => variant.content? fun json => return .magic (← json.string?)
  | "expr" => variant.content? fun json => return .expr (← Expr.ofJson? json)
  | _ => none

end DefaultValue

namespace Param

/-- The JSON form of a parameter. -/
def toJson (param : Param) : Json :=
  .object [("name", .string param.name), ("ty", param.ty.toJson),
    ("default", .ofOption DefaultValue.toJson param.default?)]

/-- Reads a parameter. -/
def ofJson? (json : Json) : Option Param := do
  let record ← json.record? ["name", "ty", "default"]
  return {
    name := ← record.field? "name" Json.string?
    ty := ← record.field? "ty" Ty.ofJson?
    default? := ← record.optional? "default" DefaultValue.ofJson? }

end Param

namespace ForeignSpec

/-- The JSON form of a foreign binding. -/
def toJson (spec : ForeignSpec) : Json :=
  .object [("symbol", .string spec.symbol), ("conv", spec.conv.toJson)]

/-- Reads a foreign binding. -/
def ofJson? (json : Json) : Option ForeignSpec := do
  let record ← json.record? ["symbol", "conv"]
  return ⟨← record.field? "symbol" Json.string?, ← record.fieldD? "conv" .c CallConv.ofJson?⟩

end ForeignSpec

namespace Definition

/-- The JSON form of a definition. -/
def toJson (defn : Definition) : Json :=
  .object [("name", .string defn.name), ("owner", defn.owner.toJson),
    ("params", .ofList Param.toJson defn.params), ("ret", defn.ret.toJson),
    ("raises", .bool defn.raises), ("foreign", .ofOption ForeignSpec.toJson defn.foreign),
    ("variadic", .bool defn.variadic), ("block_arg", .bool defn.blockArg),
    ("special_vars", .ofList Param.toJson defn.specialVars),
    ("primitive", .bool defn.primitive), ("body", .ofOption Expr.toJson defn.body),
    ("location", defn.loc.toJson)]

/-- Reads a definition. -/
def ofJson? (json : Json) : Option Definition := do
  let record ← json.record? ["name", "owner", "params", "ret", "raises", "foreign", "variadic",
    "block_arg", "special_vars", "primitive", "body", "location"]
  return {
    name := ← record.field? "name" Json.string?
    owner := ← record.field? "owner" Ty.ofJson?
    params := ← record.fieldD? "params" [] (Json.list? Param.ofJson?)
    ret := ← record.field? "ret" Ty.ofJson?
    raises := ← record.fieldD? "raises" false Json.bool?
    foreign := ← record.optional? "foreign" ForeignSpec.ofJson?
    variadic := ← record.fieldD? "variadic" false Json.bool?
    blockArg := ← record.fieldD? "block_arg" false Json.bool?
    specialVars := ← record.fieldD? "special_vars" [] (Json.list? Param.ofJson?)
    primitive := ← record.fieldD? "primitive" false Json.bool?
    body := ← record.optional? "body" Expr.ofJson?
    loc := ← record.fieldD? "location" .unknown Location.ofJson? }

end Definition

namespace Program

/-- The JSON form of a program. -/
def toJson (program : Program) : Json :=
  .object [("file", .string program.file), ("types", program.types.toJson),
    ("defs", .ofList Definition.toJson program.defs)]

/-- Reads a program. -/
def ofJson? (json : Json) : Option Program := do
  let record ← json.record? ["file", "types", "defs"]
  return {
    file := ← record.fieldD? "file" "" Json.string?
    types := ← record.fieldD? "types" .empty TypeTable.ofJson?
    defs := ← record.fieldD? "defs" [] (Json.list? Definition.ofJson?) }

end Program

end CallLowering
