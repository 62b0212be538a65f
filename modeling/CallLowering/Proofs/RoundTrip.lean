import CallLowering.Language.Schema
import Mathlib.Data.List.Nodup

/-!
# Programs survive their JSON form

`Program.WrittenAs` relates a program to the JSON values that stand for it: its JSON form, in which
every field that holds its default may be left out, in every record on its own. The main result,
`Program.ofJson?_writtenAs`, says that the reader gives the program back from all of them.

A reader of nested expressions is sure of forms up to its depth only. So reading is stated for
forms below a bound (`Json.Reads`), and one level is read where the levels inside are
(`Expr.readWith_reads`).
-/

namespace CallLowering

open Json Expr Json Program

namespace Json

/-! ## Forms -/

/-- A field of a record: its key, the forms of its value, and whether it may be left out. -/
structure FieldForm where
  key : String
  form : Json → Prop
  omissible : Prop

/-- The entries of a record, in the order of its fields. -/
inductive Entries : List FieldForm → List (String × Json) → Prop where
  | nil : Entries [] []
  | write {field fields entries json}
      (written : field.form json) (rest : Entries fields entries) :
      Entries (field :: fields) ((field.key, json) :: entries)
  | leaveOut {field fields entries}
      (omissible : field.omissible) (rest : Entries fields entries) :
      Entries (field :: fields) entries

/-- The forms of a record. -/
def IsRecord (fields : List FieldForm) (json : Json) : Prop :=
  ∃ entries, json = .object entries ∧ Entries fields entries

/-- The forms of a list, given those of its items. -/
def IsList (forms : List (Json → Prop)) (json : Json) : Prop :=
  ∃ items, json = .array items ∧ List.Forall₂ (fun form item => form item) forms items

/-- The forms of an optional value, given those of the value. -/
def IsOption : Option (Json → Prop) → Json → Prop
  | none => fun json => json = .null
  | some form => form

/-- The forms of a variant, given those of its content. -/
def IsVariant (name : String) (form : Json → Prop) (json : Json) : Prop :=
  ∃ content, json = .ofVariant name content ∧ form content

end Json

/-- The forms of a place. -/
def Location.WrittenAs (loc : Location) : Json → Prop :=
  IsRecord [⟨"line", (· = .ofNat loc.line.toNat), False⟩,
    ⟨"column", (· = .ofNat loc.column.toNat), loc.column = 0⟩]

mutual

/-- The forms of an expression. -/
def Expr.WrittenAs : Expr → Json → Prop
  | ⟨kind, ty, loc⟩ => IsRecord [⟨"kind", kind.WrittenAs, False⟩, ⟨"ty", (· = ty.toJson), False⟩,
      ⟨"loc", loc.WrittenAs, loc = .unknown⟩]

/-- The forms of what an expression does. -/
def ExprKind.WrittenAs : ExprKind → Json → Prop
  | .assign target value => IsVariant "assign" (IsRecord
      [⟨"target", (· = .string target), False⟩, ⟨"value", value.WrittenAs, False⟩])
  | .const name initializer => IsVariant "const" (IsRecord
      [⟨"name", (· = .string name), False⟩,
        ⟨"initializer", (· = .bool initializer), initializer = false⟩])
  | .call call => IsVariant "call" call.WrittenAs
  | .yield args scope => IsVariant "yield" (IsRecord
      [⟨"args", IsList (Expr.listForms args), False⟩,
        ⟨"scope", IsOption (Expr.optionForm scope), scope = none⟩])
  | .breakWith value => IsVariant "break" (IsOption (Expr.optionForm value))
  | .nextWith value => IsVariant "next" (IsOption (Expr.optionForm value))
  | .out target => IsVariant "out" target.WrittenAs
  | .procLiteral block => IsVariant "proc_literal" block.WrittenAs
  | .seq exprs => IsVariant "seq" (IsList (Expr.listForms exprs))
  | .rescue body handler => IsVariant "rescue" (IsRecord
      [⟨"body", body.WrittenAs, False⟩, ⟨"handler", handler.WrittenAs, False⟩])
  | kind => (· = kind.toJson)

/-- The forms of a call. -/
def Call.WrittenAs : Call → Json → Prop
  | ⟨obj, name, args, block, targets, isSuper, usesWithScope, loc, endLoc⟩ => IsRecord
      [⟨"obj", IsOption (Expr.optionForm obj), obj = none⟩,
        ⟨"name", (· = .string name), False⟩,
        ⟨"args", IsList (Expr.listForms args), args = []⟩,
        ⟨"block", IsOption (Block.optionForm block), block = none⟩,
        ⟨"target_defs", (· = .ofList string targets), False⟩,
        ⟨"is_super", (· = .bool isSuper), isSuper = false⟩,
        ⟨"uses_with_scope", (· = .bool usesWithScope), usesWithScope = false⟩,
        ⟨"location", loc.WrittenAs, loc = .unknown⟩,
        ⟨"end_location", IsOption (endLoc.map Location.WrittenAs), endLoc = none⟩]

/-- The forms of a block. -/
def Block.WrittenAs : Block → Json → Prop
  | ⟨params, body, breakTy, captures⟩ => IsRecord
      [⟨"params", (· = .ofList BlockParam.toJson params), params = []⟩,
        ⟨"body", body.WrittenAs, False⟩,
        ⟨"break_ty", (· = .ofOption Ty.toJson breakTy), breakTy = none⟩,
        ⟨"captures", (· = .ofList string captures), captures = []⟩]

/-- The forms of a block, if there is one. -/
def Block.optionForm : Option Block → Option (Json → Prop)
  | none => none
  | some block => some block.WrittenAs

/-- The forms of an expression, if there is one. -/
def Expr.optionForm : Option Expr → Option (Json → Prop)
  | none => none
  | some expr => some expr.WrittenAs

/-- The forms of several expressions. -/
def Expr.listForms : List Expr → List (Json → Prop)
  | [] => []
  | expr :: exprs => expr.WrittenAs :: Expr.listForms exprs

end

/-- The forms of a default. -/
def DefaultValue.WrittenAs : DefaultValue → Json → Prop
  | .magic name => (· = (magic name).toJson)
  | .expr value => IsVariant "expr" value.WrittenAs

/-- The forms of a parameter. -/
def Param.WrittenAs (param : Param) : Json → Prop :=
  IsRecord [⟨"name", (· = .string param.name), False⟩, ⟨"ty", (· = param.ty.toJson), False⟩,
    ⟨"default", IsOption (param.default?.map DefaultValue.WrittenAs), param.default? = none⟩]

/-- The forms of a foreign binding. -/
def ForeignSpec.WrittenAs (spec : ForeignSpec) : Json → Prop :=
  IsRecord [⟨"symbol", (· = .string spec.symbol), False⟩,
    ⟨"conv", (· = spec.conv.toJson), spec.conv = .c⟩]

/-- The forms of a definition. -/
def Definition.WrittenAs (defn : Definition) : Json → Prop :=
  IsRecord [⟨"name", (· = .string defn.name), False⟩, ⟨"owner", (· = defn.owner.toJson), False⟩,
    ⟨"params", IsList (defn.params.map Param.WrittenAs), defn.params = []⟩,
    ⟨"ret", (· = defn.ret.toJson), False⟩,
    ⟨"raises", (· = .bool defn.raises), defn.raises = false⟩,
    ⟨"foreign", IsOption (defn.foreign.map ForeignSpec.WrittenAs), defn.foreign = none⟩,
    ⟨"variadic", (· = .bool defn.variadic), defn.variadic = false⟩,
    ⟨"block_arg", (· = .bool defn.blockArg), defn.blockArg = false⟩,
    ⟨"special_vars", IsList (defn.specialVars.map Param.WrittenAs), defn.specialVars = []⟩,
    ⟨"primitive", (· = .bool defn.primitive), defn.primitive = false⟩,
    ⟨"body", IsOption (defn.body.map Expr.WrittenAs), defn.body = none⟩,
    ⟨"location", defn.loc.WrittenAs, defn.loc = .unknown⟩]

/-- The forms of a declaration. -/
def TypeDecl.WrittenAs (decl : TypeDecl) : Json → Prop :=
  IsRecord [⟨"name", (· = .string decl.name), False⟩,
    ⟨"parent", (· = .ofOption string decl.parent), decl.parent = none⟩,
    ⟨"fields", (· = .ofList Field.toJson decl.fields), decl.fields = []⟩]

/-- The forms of a type table. -/
def TypeTable.WrittenAs (table : TypeTable) : Json → Prop :=
  IsRecord [⟨"structs", IsList (table.structs.map TypeDecl.WrittenAs), table.structs = []⟩,
    ⟨"classes", IsList (table.classes.map TypeDecl.WrittenAs), table.classes = []⟩]

/-- The forms of a program: its JSON form, in which fields that hold their defaults may be left out. -/
def Program.WrittenAs (program : Program) : Json → Prop :=
  IsRecord [⟨"file", (· = .string program.file), program.file = ""⟩,
    ⟨"types", program.types.WrittenAs, program.types = .empty⟩,
    ⟨"defs", IsList (program.defs.map Definition.WrittenAs), program.defs = []⟩]

/-! ## The full form

Nothing is left out of the form that the writers give. -/

namespace Json

theorem isOption_ofOption {α : Type} {form : α → Json → Prop} {encode : α → Json}
    (writes : ∀ value, form value (encode value)) (value : Option α) :
    IsOption (value.map form) (.ofOption encode value) := by
  cases value with
  | none => rfl
  | some value => exact writes value

theorem isList_ofList {α : Type} {form : α → Json → Prop} {encode : α → Json}
    (writes : ∀ value, form value (encode value)) (values : List α) :
    IsList (values.map form) (.ofList encode values) := by
  refine ⟨_, rfl, ?_⟩
  induction values with
  | nil => exact .nil
  | cons value values ih => exact .cons (writes value) ih

end Json

theorem Location.writtenAs_toJson (loc : Location) : loc.WrittenAs loc.toJson :=
  ⟨_, rfl, .write rfl (.write rfl .nil)⟩

mutual

theorem Expr.writtenAs_toJson (expr : Expr) : expr.WrittenAs expr.toJson := by
  obtain ⟨kind, _, loc⟩ := expr
  exact ⟨_, rfl, .write kind.writtenAs_toJson (.write rfl (.write loc.writtenAs_toJson .nil))⟩

theorem ExprKind.writtenAs_toJson (kind : ExprKind) : kind.WrittenAs kind.toJson := by
  cases kind with
  | assign target value =>
    exact ⟨_, rfl, _, rfl, .write rfl (.write value.writtenAs_toJson .nil)⟩
  | const name initializer => exact ⟨_, rfl, _, rfl, .write rfl (.write rfl .nil)⟩
  | call call => exact ⟨_, rfl, call.writtenAs_toJson⟩
  | yield args scope =>
    exact ⟨_, rfl, _, rfl, .write ⟨_, rfl, Expr.listForms_toJson args⟩
      (.write (Expr.optionForm_toJson scope) .nil)⟩
  | breakWith value => exact ⟨_, rfl, Expr.optionForm_toJson value⟩
  | nextWith value => exact ⟨_, rfl, Expr.optionForm_toJson value⟩
  | out target => exact ⟨_, rfl, target.writtenAs_toJson⟩
  | procLiteral block => exact ⟨_, rfl, block.writtenAs_toJson⟩
  | seq exprs => exact ⟨_, rfl, _, rfl, Expr.listForms_toJson exprs⟩
  | rescue body handler =>
    exact ⟨_, rfl, _, rfl, .write body.writtenAs_toJson (.write handler.writtenAs_toJson .nil)⟩
  | _ => rfl

theorem Call.writtenAs_toJson (call : Call) : call.WrittenAs call.toJson := by
  obtain ⟨obj, _, args, block, _, _, _, loc, endLoc⟩ := call
  have obj := Expr.optionForm_toJson obj
  have args := Expr.listForms_toJson args
  have block := Block.optionForm_toJson block
  have endLoc := isOption_ofOption Location.writtenAs_toJson endLoc
  exact ⟨_, rfl, .write obj (.write rfl (.write ⟨_, rfl, args⟩ (.write block (.write rfl (.write rfl
    (.write rfl (.write loc.writtenAs_toJson (.write endLoc .nil))))))))⟩

theorem Block.writtenAs_toJson (block : Block) : block.WrittenAs block.toJson := by
  obtain ⟨_, body, _, _⟩ := block
  exact ⟨_, rfl, .write rfl (.write body.writtenAs_toJson (.write rfl (.write rfl .nil)))⟩

theorem Block.optionForm_toJson (block : Option Block) :
    IsOption (Block.optionForm block) (Block.optionToJson block) := by
  cases block with
  | none => rfl
  | some block => exact block.writtenAs_toJson

theorem Expr.optionForm_toJson (expr : Option Expr) :
    IsOption (optionForm expr) (optionToJson expr) := by
  cases expr with
  | none => rfl
  | some expr => exact expr.writtenAs_toJson

theorem Expr.listForms_toJson (exprs : List Expr) :
    List.Forall₂ (fun form item => form item) (listForms exprs) (listToJson exprs) := by
  cases exprs with
  | nil => exact .nil
  | cons expr exprs => exact .cons expr.writtenAs_toJson (Expr.listForms_toJson exprs)

end

theorem DefaultValue.writtenAs_toJson (value : DefaultValue) : value.WrittenAs value.toJson := by
  cases value with
  | magic => rfl
  | expr value => exact ⟨_, rfl, value.writtenAs_toJson⟩

theorem Param.writtenAs_toJson (param : Param) : param.WrittenAs param.toJson :=
  ⟨_, rfl, .write rfl (.write rfl
    (.write (isOption_ofOption DefaultValue.writtenAs_toJson param.default?) .nil))⟩

theorem ForeignSpec.writtenAs_toJson (spec : ForeignSpec) : spec.WrittenAs spec.toJson :=
  ⟨_, rfl, .write rfl (.write rfl .nil)⟩

theorem Definition.writtenAs_toJson (defn : Definition) : defn.WrittenAs defn.toJson :=
  ⟨_, rfl, .write rfl (.write rfl
    (.write (isList_ofList Param.writtenAs_toJson defn.params) (.write rfl (.write rfl
    (.write (isOption_ofOption ForeignSpec.writtenAs_toJson defn.foreign) (.write rfl (.write rfl
    (.write (isList_ofList Param.writtenAs_toJson defn.specialVars) (.write rfl
    (.write (isOption_ofOption Expr.writtenAs_toJson defn.body)
    (.write defn.loc.writtenAs_toJson .nil)))))))))))⟩

theorem TypeDecl.writtenAs_toJson (decl : TypeDecl) : decl.WrittenAs decl.toJson :=
  ⟨_, rfl, .write rfl (.write rfl (.write rfl .nil))⟩

theorem TypeTable.writtenAs_toJson (table : TypeTable) : table.WrittenAs table.toJson :=
  ⟨_, rfl, .write (isList_ofList TypeDecl.writtenAs_toJson table.structs)
    (.write (isList_ofList TypeDecl.writtenAs_toJson table.classes) .nil)⟩

/-- The JSON form of a program is one of its forms. -/
theorem Program.writtenAs_toJson (program : Program) : program.WrittenAs program.toJson :=
  ⟨_, rfl, .write rfl (.write program.types.writtenAs_toJson
    (.write (isList_ofList Definition.writtenAs_toJson program.defs) .nil))⟩

/-! ## Reading -/

namespace Json

theorem depth_lt_of_mem {items : List Json} {item : Json} (member : item ∈ items) :
    item.depth < (array items).depth := by
  have small : item.depth ≤ listDepth items := by
    induction items with
    | nil => cases member
    | cons first items ih =>
      rw [listDepth]
      rcases List.mem_cons.mp member with rfl | member
      · exact Nat.le_max_left _ _
      · exact Nat.le_trans (ih member) (Nat.le_max_right _ _)
  rw [depth]
  exact Nat.lt_succ_of_le small

theorem depth_lt_of_entry {entries : List (String × Json)} {entry : String × Json}
    (member : entry ∈ entries) : entry.2.depth < (object entries).depth := by
  have small : entry.2.depth ≤ entriesDepth entries := by
    induction entries with
    | nil => cases member
    | cons first entries ih =>
      obtain ⟨_, _⟩ := first
      rw [entriesDepth]
      rcases List.mem_cons.mp member with rfl | member
      · exact Nat.le_max_left _ _
      · exact Nat.le_trans (ih member) (Nat.le_max_right _ _)
  rw [depth]
  exact Nat.lt_succ_of_le small

/-- A reader gives a value back from all its forms that nest less deeply than the bound. -/
def Reads {α : Type} (bound : Nat) (form : Json → Prop) (read : Json → Option α) (value : α) : Prop :=
  ∀ json, json.depth < bound → form json → read json = some value

/-- What an opened record holds for a field. -/
def Record.Holds (record : Record) (bound : Nat) (field : FieldForm) : Prop :=
  (∃ json, record field.key = some json ∧ json.depth < bound ∧ field.form json) ∨
    record field.key = none ∧ field.omissible

/-- What an opened record holds for some fields. -/
def Record.HoldsAll (record : Record) (bound : Nat) : List FieldForm → Prop
  | [] => True
  | field :: fields => record.Holds bound field ∧ record.HoldsAll bound fields

section Forms

variable {α : Type} {bound : Nat} {form : Json → Prop} {read : Json → Option α} {value : α}
  {json : Json}

theorem Reads.mono {bound' : Nat} (reads : Reads bound form read value) (smaller : bound' ≤ bound) :
    Reads bound' form read value :=
  fun json shallow => reads json (Nat.lt_of_lt_of_le shallow smaller)

theorem Reads.exact (reads : read json = some value) : Reads bound (· = json) read value := by
  rintro _ _ rfl
  exact reads

theorem Reads.map {β : Type} (reads : Reads bound form read value) (f : α → β) :
    Reads bound form (fun json => (read json).bind fun value => Option.some (f value)) (f value) := by
  intro json shallow written
  dsimp only
  rw [reads json shallow written]
  rfl

theorem Reads.none : Reads bound (IsOption none) (nullable? read) none := .exact rfl

section

variable (solid : read .null = Option.none)

include solid

/-- A reader that does not accept `null` goes on to read what it reads. -/
theorem nullable?_of_read (given : read json = Option.some value) :
    nullable? read json = Option.some (Option.some value) := by
  cases json with
  | null => rw [solid] at given; cases given
  | _ => exact congrArg (Option.map Option.some) given

theorem Reads.some (reads : Reads bound form read value) :
    Reads bound (IsOption (some form)) (nullable? read) (some value) :=
  fun json shallow written => nullable?_of_read solid (reads json shallow written)

theorem Reads.option {value : Option α} {form : α → Json → Prop}
    (reads : ∀ value, Reads bound (form value) read value) :
    Reads bound (IsOption (value.map form)) (nullable? read) value := by
  cases value with
  | none => exact .none
  | some value => exact .some solid (reads value)

end

theorem Reads.list {values : List α} {forms : List (Json → Prop)}
    (reads : List.Forall₂ (fun form value => Reads bound form read value) forms values) :
    Reads bound (IsList forms) (list? read) values := by
  rintro _ shallow ⟨items, rfl, written⟩
  have shallow : ∀ item ∈ items, item.depth < bound := fun item member =>
    Nat.lt_trans (depth_lt_of_mem member) shallow
  rw [list?]
  clear * - reads written shallow
  induction reads generalizing items with
  | nil => cases written; rfl
  | cons first _ ih =>
    cases written with
    | @cons _ item _ items here rest =>
      obtain ⟨here', rest'⟩ := List.forall_mem_cons.mp shallow
      rw [List.mapM_cons, first item here' here, ih items rest rest']
      rfl

theorem Reads.each {values : List α} {form : α → Json → Prop}
    (reads : ∀ value, Reads bound (form value) read value) :
    Reads bound (IsList (values.map form)) (list? read) values := by
  refine .list ?_
  induction values with
  | nil => exact .nil
  | cons value values ih => exact .cons (reads value) ih

theorem list?_ofList (encode : α → Json) (reads : ∀ value, read (encode value) = Option.some value)
    (values : List α) : list? read (.ofList encode values) = Option.some values := by
  rw [ofList, list?]
  induction values with
  | nil => rfl
  | cons value values ih => rw [List.map_cons, List.mapM_cons, reads, ih]; rfl

theorem nullable?_ofOption (encode : α → Json) (solid : read .null = Option.none)
    (reads : ∀ value, read (encode value) = Option.some value) (value : Option α) :
    nullable? read (.ofOption encode value) = Option.some value := by
  cases value with
  | none => rfl
  | some value => exact nullable?_of_read solid (reads value)

theorem Reads.variant {name : String} {inside : Json → Option α} (reads : Reads bound form inside value)
    (opens : ∀ content, read (.ofVariant name content) = inside content) :
    Reads bound (IsVariant name form) read value := by
  rintro _ shallow ⟨content, rfl, written⟩
  rw [opens]
  have member : (name, content) ∈ [(name, content)] := List.mem_cons_self
  exact reads content (Nat.lt_trans (depth_lt_of_entry member) shallow) written

section Records

variable {fields : List FieldForm} {entries : List (String × Json)} {record : Record} {key : String}

theorem Entries.keys_sublist (written : Entries fields entries) :
    (entries.map (·.1)).Sublist (fields.map (·.key)) := by
  induction written with
  | nil => exact .slnil
  | write _ _ ih => exact ih.cons_cons _
  | leaveOut _ _ ih => exact ih.cons _

/-- A record with different keys holds what was written. -/
theorem Entries.holdsAll (written : Entries fields entries)
    (distinct : (fields.map (·.key)).Nodup)
    (agrees : ∀ key ∈ fields.map (·.key), record key = entries.lookup key)
    (shallow : ∀ entry ∈ entries, entry.2.depth < bound) : record.HoldsAll bound fields := by
  induction written with
  | nil => trivial
  | @write field fields entries json written _ ih =>
    obtain ⟨apart, distinct⟩ := List.nodup_cons.mp distinct
    obtain ⟨found, agrees⟩ := List.forall_mem_cons.mp agrees
    obtain ⟨here, shallow⟩ := List.forall_mem_cons.mp shallow
    refine ⟨.inl ⟨json, found.trans List.lookup_cons_self, here, written⟩, ?_⟩
    refine ih distinct (fun key member => ?_) shallow
    have other : (key == field.key) = false :=
      beq_false_of_ne fun same => absurd member (same ▸ apart)
    rw [agrees key member, List.lookup_cons, other]
  | @leaveOut field fields entries omissible rest ih =>
    obtain ⟨apart, distinct⟩ := List.nodup_cons.mp distinct
    obtain ⟨found, agrees⟩ := List.forall_mem_cons.mp agrees
    refine ⟨.inr ⟨found.trans (List.lookup_eq_none_iff.mpr fun _ member => ?_), omissible⟩,
      ih distinct agrees shallow⟩
    refine bne_iff_ne.mpr fun same => apart (same ▸ rest.keys_sublist.subset ?_)
    exact List.mem_map_of_mem member

/-- A value is read from its record if it is read from what an opened record holds. -/
theorem Reads.ofFields_succ {read : Record → Option α} (distinct : (fields.map (·.key)).Nodup)
    (reads : ∀ record : Record, record.HoldsAll bound fields → read record = Option.some value) :
    Reads (bound + 1) (IsRecord fields)
      (fun json => (json.record? (fields.map (·.key))).bind read) value := by
  rintro _ shallow ⟨entries, rfl, written⟩
  have once : ∀ key, (entries.filter (·.1 == key)).length ≤ 1 := by
    intro key
    have counted := List.nodup_iff_count_le_one.mp (written.keys_sublist.nodup distinct) key
    rwa [List.count, List.countP_map, List.countP_eq_length_filter] at counted
  have opened : (object entries).record? (fields.map (·.key)) =
      Option.some fun key => entries.lookup key := by
    rw [record?, if_pos (List.all_eq_true.mpr fun key _ => decide_eq_true (once key))]
  dsimp only
  rw [opened]
  refine reads _ (written.holdsAll distinct (fun _ _ => rfl) fun _ member => ?_)
  exact Nat.lt_of_lt_of_le (depth_lt_of_entry member) (Nat.le_of_lt_succ shallow)

theorem Reads.ofFields {read : Record → Option α} (distinct : (fields.map (·.key)).Nodup)
    (reads : ∀ record : Record, record.HoldsAll bound fields → read record = Option.some value) :
    Reads bound (IsRecord fields) (fun json => (json.record? (fields.map (·.key))).bind read) value :=
  (Reads.ofFields_succ distinct reads).mono (Nat.le_succ bound)

theorem Record.Holds.field (holds : record.Holds bound ⟨key, form, False⟩)
    (reads : Reads bound form read value) : record.field? key read = Option.some value := by
  obtain ⟨json, found, shallow, written⟩ | ⟨_, never⟩ := holds
  · rw [Record.field?, found]
    exact reads json shallow written
  · exact never.elim

theorem Record.Holds.fieldD {default : α} (holds : record.Holds bound ⟨key, form, value = default⟩)
    (reads : Reads bound form read value) : record.fieldD? key default read = Option.some value := by
  obtain ⟨json, found, shallow, written⟩ | ⟨absent, rfl⟩ := holds
  · rw [Record.fieldD?, found]
    exact reads json shallow written
  · rw [Record.fieldD?, absent]

theorem Record.Holds.optional {value : Option α}
    (holds : record.Holds bound ⟨key, form, value = Option.none⟩)
    (reads : Reads bound form (nullable? read) value) :
    record.optional? key read = Option.some value :=
  holds.fieldD reads

end Records

end Forms

end Json

/-! ## Atoms -/

namespace Json

variable {bound : Nat}

theorem reads_string (text : String) : Reads bound (· = .string text) string? text := .exact rfl

theorem reads_bool (value : Bool) : Reads bound (· = .bool value) bool? value := .exact rfl

theorem reads_strings (texts : List String) :
    Reads bound (· = .ofList string texts) (list? string?) texts :=
  .exact (list?_ofList string (fun _ => rfl) texts)

theorem uint32?_ofNat (n : UInt32) : uint32? (.ofNat n.toNat) = some n := by
  have small : (UInt64.ofNat n.toNat).toNat < UInt32.size := by
    rw [UInt64.toNat_ofNat', Nat.mod_eq_of_lt (Nat.lt_trans n.toNat_lt (by decide))]
    exact n.toNat_lt
  rw [ofNat, uint32?, if_pos small, Option.some.injEq, ← UInt32.toNat_inj]
  simp

theorem reads_uint32 (n : UInt32) : Reads bound (· = .ofNat n.toNat) uint32? n :=
  .exact (uint32?_ofNat n)

theorem int64?_ofInt64 (n : Int64) : int64? (.ofInt64 n) = some n := by
  unfold ofInt64
  split
  · rfl
  · rename_i nonneg
    have small : n.toUInt64.toNat < 0x8000000000000000 := by
      rw [Int64.toNat_toUInt64_of_le (Int64.not_lt.mp nonneg)]
      have := n.toInt_lt
      simp only [Int64.toNatClampNeg]
      omega
    rw [int64?, if_pos small]
    simp

theorem char?_singleton (c : Char) : char? (.string (String.singleton c)) = some c := by
  simp [char?]

end Json

/-! ## Types -/

namespace Ty

mutual

theorem readWithin_toJson (ty : Ty) {depth : Nat} (deep : ty.toJson.depth < depth) :
    readWithin depth ty.toJson = some ty := by
  obtain ⟨depth, rfl⟩ := Nat.exists_eq_succ_of_ne_zero (Nat.ne_zero_of_lt deep)
  have deep := Nat.le_of_lt_succ deep
  cases ty with
  | int bits signed =>
    change (uint32? (.ofNat bits.toNat)).bind (fun bits => some (int bits signed)) = _
    rw [uint32?_ofNat]
    rfl
  | float bits =>
    change (uint32? (.ofNat bits.toNat)).bind (fun bits => some (float bits)) = _
    rw [uint32?_ofNat]
    rfl
  | pointer pointee =>
    have inside := Nat.lt_of_lt_of_le (depth_lt_of_entry List.mem_cons_self) deep
    change (readWithin depth pointee.toJson).bind (fun pointee => some (pointer pointee)) = _
    rw [readWithin_toJson pointee inside]
    rfl
  | proc params ret =>
    have inside := Nat.lt_of_lt_of_le (depth_lt_of_entry List.mem_cons_self) deep
    have first := Nat.lt_trans (depth_lt_of_entry List.mem_cons_self) inside
    have last := Nat.lt_trans
      (depth_lt_of_entry (List.mem_cons_of_mem _ List.mem_cons_self)) inside
    change ((listToJson params).mapM (readWithin depth)).bind (fun params =>
      (readWithin depth ret.toJson).bind fun ret => some (proc params ret)) = _
    rw [readWithin_listToJson params fun _ member =>
      Nat.lt_trans (depth_lt_of_mem member) first, readWithin_toJson ret last]
    rfl
  | union members =>
    have inside := Nat.lt_of_lt_of_le (depth_lt_of_entry List.mem_cons_self) deep
    change ((listToJson members).mapM (readWithin depth)).bind (fun members =>
      some (union members)) = _
    rw [readWithin_listToJson members fun _ member =>
      Nat.lt_trans (depth_lt_of_mem member) inside]
    rfl
  | _ => rfl

theorem readWithin_listToJson (tys : List Ty) {depth : Nat}
    (deep : ∀ json ∈ listToJson tys, json.depth < depth) :
    (listToJson tys).mapM (readWithin depth) = some tys := by
  cases tys with
  | nil => rfl
  | cons ty tys =>
    obtain ⟨first, rest⟩ := List.forall_mem_cons.mp deep
    rw [listToJson, List.mapM_cons, readWithin_toJson ty first, readWithin_listToJson tys rest]
    rfl

end

theorem ofJson?_toJson (ty : Ty) : ofJson? ty.toJson = some ty :=
  readWithin_toJson ty (Nat.lt_succ_self _)

end Ty

/-! ## Records and variants -/

section Readers

variable {bound : Nat}

open Json (Reads)

theorem Ty.reads (ty : Ty) : Reads bound (· = ty.toJson) Ty.ofJson? ty := .exact ty.ofJson?_toJson

theorem Location.reads (loc : Location) : Reads bound loc.WrittenAs Location.ofJson? loc := by
  refine .ofFields (by simp) fun _ holds => ?_
  obtain ⟨line, column, -⟩ := holds
  rw [line.field (reads_uint32 _), column.fieldD (reads_uint32 _)]
  rfl

theorem BlockParam.ofJson?_toJson (param : BlockParam) : ofJson? param.toJson = some param := by
  change (Ty.ofJson? param.ty.toJson).bind (fun ty => some (BlockParam.mk param.name ty)) = _
  rw [param.ty.ofJson?_toJson]
  rfl

theorem Field.ofJson?_toJson (field : Field) : ofJson? field.toJson = some field := by
  change (Ty.ofJson? field.ty.toJson).bind (fun ty => some (Field.mk field.name ty)) = _
  rw [field.ty.ofJson?_toJson]
  rfl

section Expressions

variable {inner : Json → Option Expr} (reads : ∀ expr : Expr, Reads bound expr.WrittenAs inner expr)
  (solid : inner .null = none)

include reads solid

theorem Expr.optionForm_reads (expr : Option Expr) :
    Reads bound (IsOption (optionForm expr)) (nullable? inner) expr := by
  cases expr with
  | none => exact .none
  | some expr => exact .some solid (reads expr)

omit solid in
theorem Expr.listForms_reads (exprs : List Expr) :
    Reads bound (IsList (listForms exprs)) (list? inner) exprs := by
  refine .list ?_
  induction exprs with
  | nil => exact .nil
  | cons expr exprs ih => exact .cons (reads expr) ih

omit solid in
theorem Block.readWith_reads (block : Block) :
    Reads bound block.WrittenAs (Block.readWith inner) block := by
  obtain ⟨params, body, breakTy, captures⟩ := block
  refine .ofFields (by simp) fun _ holds => ?_
  obtain ⟨holdsParams, holdsBody, holdsBreak, holdsCaptures, -⟩ := holds
  have params := list?_ofList BlockParam.toJson BlockParam.ofJson?_toJson params
  have breakTy := nullable?_ofOption Ty.toJson rfl Ty.ofJson?_toJson breakTy
  rw [holdsParams.fieldD (.exact params), holdsBody.field (reads body),
    holdsBreak.optional (.exact breakTy), holdsCaptures.fieldD (reads_strings captures)]
  rfl

theorem Call.readWith_reads (call : Call) : Reads bound call.WrittenAs (Call.readWith inner) call := by
  obtain ⟨obj, name, args, block, targets, isSuper, usesWithScope, loc, _⟩ := call
  refine .ofFields (by simp) fun _ holds => ?_
  obtain ⟨holdsObj, holdsName, holdsArgs, holdsBlock, holdsTargets, holdsSuper, holdsWith, holdsLoc,
    holdsEnd, -⟩ := holds
  have block : Reads bound (IsOption (Block.optionForm block))
      (nullable? (Block.readWith inner)) block := by
    cases block with
    | none => exact .none
    | some block => exact .some rfl (block.readWith_reads reads)
  rw [holdsObj.optional (Expr.optionForm_reads reads solid obj),
    holdsName.field (reads_string name), holdsArgs.fieldD (Expr.listForms_reads reads args),
    holdsBlock.optional block, holdsTargets.field (reads_strings targets),
    holdsSuper.fieldD (reads_bool isSuper), holdsWith.fieldD (reads_bool usesWithScope),
    holdsLoc.fieldD loc.reads, holdsEnd.optional (.option rfl Location.reads)]
  rfl

theorem ExprKind.readWith_reads (kind : ExprKind) :
    Reads bound kind.WrittenAs (ExprKind.readWith inner) kind := by
  cases kind with
  | assign target value =>
    refine .variant (.ofFields (by simp) fun record holds => ?_) fun _ => rfl
    obtain ⟨holdsTarget, holdsValue, -⟩ := holds
    rw [holdsTarget.field (reads_string target), holdsValue.field (reads value)]
    rfl
  | const name initializer =>
    refine .variant (.ofFields (by simp) fun record holds => ?_) fun _ => rfl
    obtain ⟨holdsName, holdsInitializer, -⟩ := holds
    rw [holdsName.field (reads_string name),
      holdsInitializer.fieldD (reads_bool initializer)]
    rfl
  | yield args scope =>
    refine .variant (.ofFields (by simp) fun record holds => ?_) fun _ => rfl
    obtain ⟨holdsArgs, holdsScope, -⟩ := holds
    rw [holdsArgs.field (listForms_reads reads args),
      holdsScope.optional (optionForm_reads reads solid scope)]
    rfl
  | rescue body handler =>
    refine .variant (.ofFields (by simp) fun _ holds => ?_) fun _ => rfl
    obtain ⟨holdsBody, holdsHandler, -⟩ := holds
    rw [holdsBody.field (reads body), holdsHandler.field (reads handler)]
    rfl
  | call call => exact .variant ((call.readWith_reads reads solid).map ExprKind.call) fun _ => rfl
  | breakWith value =>
    exact .variant ((optionForm_reads reads solid value).map ExprKind.breakWith) fun _ => rfl
  | nextWith value =>
    exact .variant ((optionForm_reads reads solid value).map ExprKind.nextWith) fun _ => rfl
  | out target => exact .variant ((reads target).map ExprKind.out) fun _ => rfl
  | procLiteral block =>
    exact .variant ((block.readWith_reads reads).map ExprKind.procLiteral) fun _ => rfl
  | seq exprs => exact .variant ((listForms_reads reads exprs).map ExprKind.seq) fun _ => rfl
  | char value =>
    exact .exact (congrArg (Option.bind · fun c => some (char c)) (char?_singleton value))
  | int value =>
    exact .exact (congrArg (Option.bind · fun n => some (int n)) (int64?_ofInt64 value))
  | _ => exact .exact rfl

/-- One level of an expression is read where the levels inside are. -/
theorem Expr.readWith_reads (expr : Expr) :
    Reads (bound + 1) expr.WrittenAs (readWith inner) expr := by
  obtain ⟨kind, ty, loc⟩ := expr
  refine Reads.ofFields_succ (by simp) fun _ holds => ?_
  obtain ⟨holdsKind, holdsTy, holdsLoc, -⟩ := holds
  rw [holdsKind.field (kind.readWith_reads reads solid), holdsTy.field ty.reads,
    holdsLoc.fieldD loc.reads]
  rfl

end Expressions

theorem Expr.readWithin_reads (depth : Nat) (expr : Expr) :
    Reads depth expr.WrittenAs (readWithin depth) expr := by
  induction depth generalizing expr with
  | zero => exact fun _ none => absurd none (Nat.not_lt_zero _)
  | succ depth ih =>
    refine readWith_reads ih ?_ expr
    cases depth <;> rfl

theorem Expr.reads (expr : Expr) : Reads bound expr.WrittenAs ofJson? expr :=
  fun json _ written => readWithin_reads _ expr json (Nat.lt_succ_self _) written

theorem DefaultValue.reads (value : DefaultValue) :
    Reads bound value.WrittenAs DefaultValue.ofJson? value := by
  cases value with
  | magic name => exact .exact rfl
  | expr value => exact .variant (value.reads.map DefaultValue.expr) fun _ => rfl

theorem Param.reads (param : Param) : Reads bound param.WrittenAs Param.ofJson? param := by
  refine .ofFields (by simp) fun _ holds => ?_
  obtain ⟨name, ty, default, -⟩ := holds
  rw [name.field (reads_string _), ty.field (Ty.reads _),
    default.optional (.option rfl DefaultValue.reads)]
  rfl

theorem ForeignSpec.reads (spec : ForeignSpec) :
    Reads bound spec.WrittenAs ForeignSpec.ofJson? spec := by
  refine .ofFields (by simp) fun _ holds => ?_
  obtain ⟨symbol, conv, -⟩ := holds
  have known : CallConv.ofJson? spec.conv.toJson = some spec.conv := by cases spec.conv <;> rfl
  rw [symbol.field (reads_string _), conv.fieldD (.exact known)]
  rfl

theorem Definition.reads (defn : Definition) :
    Reads bound defn.WrittenAs Definition.ofJson? defn := by
  refine .ofFields (by simp) fun _ holds => ?_
  obtain ⟨name, owner, params, ret, raises, foreign, variadic, blockArg, specials, primitive, body,
    loc, -⟩ := holds
  rw [name.field (reads_string _), owner.field (Ty.reads _), params.fieldD (.each Param.reads),
    ret.field (Ty.reads _), raises.fieldD (reads_bool _),
    foreign.optional (.option rfl ForeignSpec.reads), variadic.fieldD (reads_bool _),
    blockArg.fieldD (reads_bool _), specials.fieldD (.each Param.reads),
    primitive.fieldD (reads_bool _), body.optional (.option rfl Expr.reads),
    loc.fieldD (Location.reads _)]
  rfl

theorem TypeDecl.reads (decl : TypeDecl) : Reads bound decl.WrittenAs TypeDecl.ofJson? decl := by
  refine .ofFields (by simp) fun _ holds => ?_
  obtain ⟨name, parent, fields, -⟩ := holds
  rw [name.field (reads_string _),
    parent.optional (.exact (nullable?_ofOption string rfl (fun _ => rfl) _)),
    fields.fieldD (.exact (list?_ofList Field.toJson Field.ofJson?_toJson _))]
  rfl

theorem TypeTable.reads (table : TypeTable) :
    Reads bound table.WrittenAs TypeTable.ofJson? table := by
  refine .ofFields (by simp) fun _ holds => ?_
  obtain ⟨structs, classes, -⟩ := holds
  rw [structs.fieldD (.each TypeDecl.reads), classes.fieldD (.each TypeDecl.reads)]
  rfl

theorem Program.reads (program : Program) : Reads bound program.WrittenAs ofJson? program := by
  refine .ofFields (by simp) fun _ holds => ?_
  obtain ⟨file, types, defs, -⟩ := holds
  rw [file.fieldD (reads_string _), types.fieldD (TypeTable.reads _),
    defs.fieldD (.each Definition.reads)]
  rfl

end Readers

/-- Reading the JSON form of a program gives the program back, and so does reading any form in which
some fields that hold their defaults are left out. -/
theorem Program.ofJson?_writtenAs (program : Program) :
    ofJson? program.toJson = some program ∧
      ∀ json, program.WrittenAs json → ofJson? json = some program := by
  have given (json : Json) (written : program.WrittenAs json) :
      ofJson? json = some program :=
    program.reads json (Nat.lt_succ_self _) written
  exact ⟨given _ program.writtenAs_toJson, given⟩

/-- A program with a method that runs its block in a scope and that has a default for its parameter. -/
def Program.terse : Program where
  file := ""
  types := ⟨[], [⟨"Animal", none, []⟩]⟩
  defs := [(Definition.ofSignature "each" (.object "Animal")
    [⟨"n", .int 32 true, some (.expr (.ofKind (.int (-1)) (.int 32 true)))⟩] .nil).withBody
      (.ofKind (.yield [.ofKind .selfRef (.object "Animal")] none) .nil)]

/-- The program is read back from a form without the fields that hold their defaults. -/
theorem Program.ofJson?_writtenAs_terse :
    ofJson? (.object [("types", .object [("classes", .array [
        .object [("name", .string "Animal")]])]),
      ("defs", .array [.object [("name", .string "each"), ("owner", (Ty.object "Animal").toJson),
        ("params", .array [.object [("name", .string "n"), ("ty", (Ty.int 32 true).toJson),
          ("default", .ofVariant "expr" (.object [("kind", (ExprKind.int (-1)).toJson),
            ("ty", (Ty.int 32 true).toJson)]))]]),
        ("ret", Ty.nil.toJson),
        ("body", .object [("kind", .ofVariant "yield" (.object [("args", .array [
            .object [("kind", ExprKind.selfRef.toJson), ("ty", (Ty.object "Animal").toJson)]])])),
          ("ty", Ty.nil.toJson)])]])]) = some terse := by
  refine (ofJson?_writtenAs terse).2 _ ⟨_, rfl, .leaveOut rfl (.write ?_ (.write ?_ .nil))⟩
  · exact ⟨_, rfl, .leaveOut rfl (.write ⟨_, rfl, .cons
      ⟨_, rfl, .write rfl (.leaveOut rfl (.leaveOut rfl .nil))⟩ .nil⟩ .nil)⟩
  · refine ⟨_, rfl, .cons ⟨_, rfl, .write rfl (.write rfl (.write ?_ (.write rfl (.leaveOut rfl
      (.leaveOut rfl (.leaveOut rfl (.leaveOut rfl (.leaveOut rfl (.leaveOut rfl
      (.write ?_ (.leaveOut rfl .nil)))))))))))⟩ .nil⟩
    · exact ⟨_, rfl, .cons ⟨_, rfl, .write rfl (.write rfl (.write
        ⟨_, rfl, _, rfl, .write rfl (.write rfl (.leaveOut rfl .nil))⟩ .nil))⟩ .nil⟩
    · exact ⟨_, rfl, .write ⟨_, rfl, _, rfl, .write ⟨_, rfl, .cons
        ⟨_, rfl, .write rfl (.write rfl (.leaveOut rfl .nil))⟩ .nil⟩ (.leaveOut rfl .nil)⟩
        (.write rfl (.leaveOut rfl .nil))⟩

end CallLowering
