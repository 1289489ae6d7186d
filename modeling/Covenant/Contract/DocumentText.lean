import Covenant.Contract.Program
import Covenant.Contract.SchemaVersion
import Covenant.Yaml.Fill
import Covenant.Yaml.Writer

/-!
# Documents and their texts

A document holds a program in a form that is close to its text: declarations of both kinds have the same fields, and
names stand for kinds.  `Document.toProgram` gives the program of a document, and `Program.toDocument` writes one.
`Program.ofText` reads a program from a YAML or JSON text, and `Program.toText` writes one; a text with an unknown
field is refused.
-/

namespace Covenant.Contract

inductive DocValue where
  | int (value : Int)
  | text (value : String)
  /-- A value that no constant can have, with the name of its type. -/
  | other (type : String)
  deriving DecidableEq, Repr

structure ConstantDoc where
  name : String := ""
  value : DocValue := .other "<nil>"
  deriving DecidableEq, Inhabited

structure DocHead where
  kind : String := ""
  ns : String := ""
  name : String := ""
  contract : String := ""
  excluded : Bool := false
  typeParameters : List (Option TypeParameter) := []
  baseTypes : List (Option TypeRef) := []
  fields : List (Option Field) := []
  constants : List ConstantDoc := []
  result : Option TypeRef := none
  members : List (Option EnumMember) := []

inductive DeclarationDoc where
  | mk (head : DocHead) (nested : List DeclarationDoc)

structure Document where
  version : String := ""
  name : String := ""
  aliases : List (String × List String) := []
  declarations : List DeclarationDoc := []
  deriving Inhabited

inductive DocDefect where
  | enumParts (decl : String)
  | unknownContract (decl name : String)
  | enumMembers (decl : String)
  | constantType (constant type : String)
  | unknownKind (decl kind : String)
  deriving DecidableEq, Repr

def DocDefect.toFailure : DocDefect → Failure
  | enumParts decl => .malformed ("enum " ++ decl ++ " may only declare members")
  | unknownContract decl name => .malformed (decl ++ ": unknown contract kind " ++ Text.quoted name)
  | enumMembers decl => .malformed ("type " ++ decl ++ " declares enum members")
  | constantType constant type =>
    (Failure.malformed ("constant value must be an integer or a string, got " ++ type)).within constant
  | unknownKind decl kind => .malformed (decl ++ ": unknown declaration kind " ++ Text.quoted kind)

def ConstantDoc.toConstant (c : ConstantDoc) (owner : String) : Except DocDefect Constant :=
  match c.value with
  | .int n => .ok { name := c.name, value := some (.int n) }
  | .text s => .ok { name := c.name, value := some (.string s) }
  | .other type => .error (.constantType (owner ++ "." ++ c.name) type)

namespace DocHead

def nsWithin (h : DocHead) (outer : String) : String := if h.ns.isEmpty then outer else h.ns

def declHead (h : DocHead) (outer : String) : DeclHead :=
  { ns := h.nsWithin outer, name := h.name, excluded := h.excluded }

def hasTypeParts (h : DocHead) (nested : List DeclarationDoc) : Bool :=
  !h.contract.isEmpty || !h.fields.isEmpty || !nested.isEmpty || h.result.isSome

def toTypeBody (h : DocHead) (decl : String) : Except DocDefect TypeBody :=
  match Kind.ofName? h.contract with
  | none => .error (.unknownContract decl h.contract)
  | some kind =>
    if !h.members.isEmpty then .error (.enumMembers decl)
    else do
      let constants ← h.constants.mapM (·.toConstant decl)
      return { kind, typeParameters := h.typeParameters, baseTypes := h.baseTypes, fields := h.fields, constants,
               result := h.result }

end DocHead

mutual

def DeclarationDoc.toDeclaration (outer : String) : DeclarationDoc → Except DocDefect Declaration
  | .mk h nested =>
    let ns := h.nsWithin outer
    let decl := qualify ns h.name
    if h.kind = "enum" then
      if h.hasTypeParts nested then .error (.enumParts decl)
      else .ok (.enum (h.declHead outer) h.members)
    else if h.kind = "type" ∨ h.kind = "" then do
      let body ← h.toTypeBody decl
      return .type (h.declHead outer) body (← toDeclarations ns nested)
    else .error (.unknownKind decl h.kind)

def toDeclarations (outer : String) : List DeclarationDoc → Except DocDefect (List Declaration)
  | [] => .ok []
  | d :: ds => do
    let decl ← d.toDeclaration outer
    return decl :: (← toDeclarations outer ds)

end

def Document.toProgram (doc : Document) : Except Failure Program := do
  checkSchema doc.version
  let declarations ← (toDeclarations "" doc.declarations).mapError (·.toFailure)
  return {
    name := doc.name
    version := if doc.version.isEmpty then defaultSchema else doc.version
    aliases := doc.aliases
    declarations }

inductive WriteDefect where
  | tooLarge (constant : String)
  | unsupported (constant sort : String)
  | noValue (constant : String)
  deriving DecidableEq, Repr

def WriteDefect.toFailure : WriteDefect → Failure
  | tooLarge constant => .malformed ("constant " ++ constant ++ " does not fit in 64 bits")
  | unsupported constant sort => .malformed ("constant " ++ constant ++ " has unsupported kind " ++ sort)
  | noValue constant => .plain ("constant " ++ constant ++ " has no value")

def Constant.toDoc (c : Constant) : Except WriteDefect ConstantDoc :=
  match c.value with
  | some (.string s) => .ok { name := c.name, value := .text s }
  | some (.int n) =>
    if Number.isInt64 n then .ok { name := c.name, value := .int n } else .error (.tooLarge c.name)
  | some v => .error (.unsupported c.name v.sortName)
  | none => .error (.noValue c.name)

def docHeadOf (kind : String) (h : DeclHead) : DocHead := { kind, ns := h.ns, name := h.name, excluded := h.excluded }

mutual

def Declaration.toDoc : Declaration → Except WriteDefect DeclarationDoc
  | .enum h members => .ok (.mk { docHeadOf "enum" h with members } [])
  | .type h body nested => do
    let constants ← body.constants.mapM (·.toDoc)
    let nested ← toDocs nested
    return .mk
      { docHeadOf "type" h with
        contract := if body.kind = .plain then "" else body.kind.name
        typeParameters := body.typeParameters, baseTypes := body.baseTypes, fields := body.fields, constants
        result := body.result }
      nested

def toDocs : List Declaration → Except WriteDefect (List DeclarationDoc)
  | [] => .ok []
  | d :: ds => do
    let doc ← d.toDoc
    return doc :: (← toDocs ds)

end

def Program.toDocument (p : Program) : Except WriteDefect Document := do
  return { version := p.version, name := p.name, aliases := p.aliases, declarations := ← toDocs p.declarations }

open Yaml (Slot Tree Value)

def docType : String := "contract.document"
def declType : String := "contract.declarationDoc"
def refType : String := "contract.TypeRef"
def paramType : String := "contract.TypeParameterDeclaration"
def fieldType : String := "contract.FieldDeclaration"
def constantType : String := "contract.constantDoc"
def memberType : String := "contract.EnumMember"

def docFields (record : String) : List (String × Slot) :=
  if record == docType then
    [("version", .text), ("name", .text), ("aliases", .table (.list .text)),
      ("declarations", .list (.record declType))]
  else if record == declType then
    [("kind", .text), ("namespace", .text), ("name", .text), ("contract", .text), ("excluded", .flag),
      ("typeParameters", .list (.optional paramType)), ("baseTypes", .list (.optional refType)),
      ("fields", .list (.optional fieldType)), ("constants", .list (.record constantType)),
      ("nested", .list (.record declType)), ("result", .optional refType), ("members", .list (.optional memberType))]
  else if record == refType then
    [("name", .text), ("namespace", .text), ("nullable", .flag), ("array", .flag), ("dictionary", .flag),
      ("arguments", .list (.optional refType))]
  else if record == paramType then [("name", .text), ("constraints", .list (.optional refType))]
  else if record == fieldType then [("name", .text), ("type", .optional refType)]
  else if record == constantType then [("name", .text), ("value", .any)]
  else if record == memberType then [("name", .text), ("value", .int)]
  else []

abbrev Fields := List (String × Value)

namespace Fields

def text (f : Fields) (name : String) : String :=
  match f.lookup name with
  | some (.text s) => s
  | _ => ""

def flag (f : Fields) (name : String) : Bool :=
  match f.lookup name with
  | some (.flag b) => b
  | _ => false

def int (f : Fields) (name : String) : Int :=
  match f.lookup name with
  | some (.int n) => n
  | _ => 0

def list (f : Fields) (name : String) : List Value :=
  match f.lookup name with
  | some (.list vs) => vs
  | _ => []

end Fields

def recordOf : Value → Option Fields
  | .record fields => some fields
  | _ => none

def textsOf : Value → List String
  | .list vs => vs.filterMap fun
    | .text s => some s
    | _ => none
  | _ => []

/-- The reference in a value.  Every argument lies deeper, which `fuel` covers. -/
def refOf : Nat → Value → Option TypeRef
  | fuel + 1, v => (recordOf v).map fun f =>
    .mk { name := f.text "name", ns := f.text "namespace", nullable := f.flag "nullable", isList := f.flag "array",
          isDictionary := f.flag "dictionary" }
      ((f.list "arguments").map (refOf fuel))
  | 0, _ => none

def paramOf (fuel : Nat) (v : Value) : Option TypeParameter :=
  (recordOf v).map fun f => { name := f.text "name", constraints := (f.list "constraints").map (refOf fuel) }

def fieldOf (fuel : Nat) (v : Value) : Option Field :=
  (recordOf v).map fun f => { name := f.text "name", type := (f.lookup "type").bind (refOf fuel) }

def memberOf (v : Value) : Option EnumMember :=
  (recordOf v).map fun f => { name := f.text "name", value := Int64.ofInt (f.int "value") }

def constantOf (v : Value) : ConstantDoc :=
  let f := (recordOf v).getD []
  { name := f.text "name"
    value := match f.lookup "value" with
      | some (.any (.scalar (.int n))) => .int n
      | some (.any (.scalar (.text s))) => .text s
      | some (.any d) => .other d.typeName
      | _ => .other "<nil>" }

/-- The declaration in a value.  Every nested one lies deeper, which `fuel` covers. -/
def declOf : Nat → Value → DeclarationDoc
  | fuel + 1, v =>
    let f := (recordOf v).getD []
    .mk
      { kind := f.text "kind", ns := f.text "namespace", name := f.text "name", contract := f.text "contract"
        excluded := f.flag "excluded"
        typeParameters := (f.list "typeParameters").map (paramOf fuel)
        baseTypes := (f.list "baseTypes").map (refOf fuel)
        fields := (f.list "fields").map (fieldOf fuel)
        constants := (f.list "constants").map constantOf
        result := (f.lookup "result").bind (refOf fuel)
        members := (f.list "members").map memberOf }
      ((f.list "nested").map (declOf fuel))
  | 0, _ => .mk {} []

def Document.ofValue (fuel : Nat) (v : Value) : Document :=
  let f := (recordOf v).getD []
  { version := f.text "version"
    name := f.text "name"
    aliases := match f.lookup "aliases" with
      | some (.table entries) => entries.map fun (q, v) => (q, textsOf v)
      | _ => []
    declarations := (f.list "declarations").map (declOf fuel) }

def Document.ofText (text : String) : Except Yaml.ReadError Document := do
  match ← Yaml.read docFields (.record docType) text with
  | some v => return Document.ofValue ((text.length + 2) * (text.length + 2)) v
  | none => return {}

def Program.ofText (text : String) : Except Failure Program :=
  match Document.ofText text with
  | .error e => .error ((Failure.malformed e.message).within "failed to decode IR document")
  | .ok doc => doc.toProgram

def textField (name value : String) : List (String × Tree) := if value.isEmpty then [] else [(name, .text value)]

def flagField (name : String) (value : Bool) : List (String × Tree) := if value then [(name, .word "true")] else []

def listField (name : String) (items : List Tree) : List (String × Tree) :=
  if items.isEmpty then [] else [(name, .list items)]

def treeOrNull {α : Type} (tree : α → Tree) : Option α → Tree
  | some a => tree a
  | none => .word "null"

mutual

def TypeRef.toTree : TypeRef → Tree
  | .mk h arguments =>
    .map (textField "name" h.name ++ textField "namespace" h.ns ++ flagField "nullable" h.nullable ++
      flagField "array" h.isList ++ flagField "dictionary" h.isDictionary ++
      listField "arguments" (refTrees arguments))

def refTrees : List (Option TypeRef) → List Tree
  | [] => []
  | none :: rs => .word "null" :: refTrees rs
  | some r :: rs => r.toTree :: refTrees rs

end

def TypeParameter.toTree (p : TypeParameter) : Tree :=
  .map (("name", .text p.name) :: listField "constraints" (refTrees p.constraints))

def Field.toTree (f : Field) : Tree := .map [("name", .text f.name), ("type", treeOrNull (·.toTree) f.type)]

def EnumMember.toTree (m : EnumMember) : Tree :=
  .map [("name", .text m.name), ("value", .word (toString m.value.toInt))]

def ConstantDoc.toTree (c : ConstantDoc) : Tree :=
  .map [("name", .text c.name),
    ("value", match c.value with
      | .int n => .word (toString n)
      | .text s => .text s
      | .other _ => .word "null")]

mutual

def DeclarationDoc.toTree : DeclarationDoc → Tree
  | .mk h nested =>
    .map ([("kind", .text h.kind)] ++ textField "namespace" h.ns ++ [("name", .text h.name)] ++
      textField "contract" h.contract ++ flagField "excluded" h.excluded ++
      listField "typeParameters" (h.typeParameters.map (treeOrNull (·.toTree))) ++
      listField "baseTypes" (refTrees h.baseTypes) ++
      listField "fields" (h.fields.map (treeOrNull (·.toTree))) ++
      listField "constants" (h.constants.map (·.toTree)) ++
      listField "nested" (declTrees nested) ++
      (h.result.map fun r => ("result", r.toTree)).toList ++
      listField "members" (h.members.map (treeOrNull (·.toTree))))

def declTrees : List DeclarationDoc → List Tree
  | [] => []
  | d :: ds => d.toTree :: declTrees ds

end

def Document.toTree (doc : Document) : Tree :=
  .map (textField "version" doc.version ++ [("name", .text doc.name)] ++
    (if doc.aliases.isEmpty then []
      else [("aliases", .map ((Text.naturallySorted doc.aliases).map fun (q, as) => (q, .list (as.map .text))))]) ++
    [("declarations", .list (declTrees doc.declarations))])

def Program.toText (p : Program) : Except Failure String :=
  match p.toDocument with
  | .ok doc => .ok doc.toTree.render
  | .error d => .error d.toFailure

end Covenant.Contract
