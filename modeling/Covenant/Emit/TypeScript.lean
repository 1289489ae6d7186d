import Covenant.Emit.Codec

/-!
# TypeScript

A program becomes two files: its declarations with the helper functions that they call, and the client, which has a
function for every route, under the key of the route, and lists the paths of all routes.
-/

namespace Covenant.Emit.TypeScript

open Binding (Bound)
open Naming (Policy)
open Typing (Targets)

/-- Reserved words, type names, the globals that emitted code uses and the members of emitted classes. -/
def reserved : List String :=
  ["break", "case", "catch", "class", "const", "continue", "debugger", "default", "delete", "do", "else", "enum",
    "export", "extends", "false", "finally", "for", "function", "if", "import", "in", "instanceof", "new", "null",
    "return", "super", "switch", "this", "throw", "true", "try", "typeof", "var", "void", "while", "with",
    "implements", "interface", "let", "package", "private", "protected", "public", "static", "yield", "any",
    "boolean", "number", "string", "symbol", "unknown", "never", "object", "undefined",
    "Date", "Map", "Array", "Object", "Number", "String", "Boolean", "Record", "Partial", "Promise", "Error",
    "Function",
    "value", "values", "json", "toJson", "fromJson", "equals", "hashCode", "constructor", "prototype", "fullName",
    "getFullName", "resultFactory"]

def policy : Policy :=
  { nestedSeparator := "_", unmangled := Naming.markerNames, reserved, escapeSuffix := "_" }

def targets : Targets
  | .integer | .double => "number"
  | .boolean => "boolean"
  | .string => "string"
  | .datetime => "Date"
  | .dynamic => "unknown"

def quote (s : String) : String := Text.literal [] s

def listType (element : String) : String :=
  (if Text.contains " | " element then "(" ++ element ++ ")" else element) ++ "[]"

def types : TypeStyle := { dynamic := "unknown", nullMark := " | null", listOf := listType }

def baseType (b : Bound) : String := types.baseType b

def typeExpr (b : Bound) : String := types.typeExpr b

def decoderName (cls : String) : String := cls ++ "FromJson"

def resultFactoryName (cls : String) : String := cls ++ "ResultFactory"

def encodeStyle : EncodeStyle := { assertsNonNull := false, keepsMaps := false }

def conversionText (c : Conversion) (value : String) : String :=
  match c with
  | .integer => value ++ " as number"
  | .double => "_double(" ++ value ++ ")"
  | .boolean => value ++ " as boolean"
  | .string => value ++ " as string"
  | .datetime => "new Date(" ++ value ++ " as string)"
  | .member enum => enum ++ ".fromJson(" ++ value ++ " as number)"
  | .parameter name => paramDecoder name ++ "(" ++ value ++ ")"
  | .keyInteger | .keyDouble => "Number(" ++ value ++ ")"
  | .keyDatetime => "new Date(" ++ value ++ ")"
  | .keyMember enum => enum ++ ".fromJson(Number(" ++ value ++ "))"
  | .instantText => value ++ ".toISOString()"
  | .ownJson => value ++ ".toJson()"
  | .anyJson => "_encode(" ++ value ++ ")"
  | .numberKey => "String(" ++ value ++ ")"
  | .memberKey => "String(" ++ value ++ ".toJson())"

mutual

def exprText : Expr → String
  | .place text => text
  | .var name => name
  | .nonNull value => exprText value
  | .unlessNull tested value => exprText tested ++ " == null ? null : " ++ exprText value
  | .convert c value => conversionText c (exprText value)
  | .construct cls value x as =>
    decoderName cls ++ "(" ++ exprText value ++ " as Record<string, unknown>" ++ argumentTexts x as ++ ")"
  | .readList _ value x body =>
    "(" ++ exprText value ++ " as unknown[]).map((" ++ x ++ ") => " ++ exprText body ++ ")"
  | .readMap key value source k v keyBody valueBody =>
    "new Map(Object.entries(" ++ exprText source ++ " as Record<string, unknown>).map(([" ++ k ++ ", " ++ v ++
      "]): [" ++ typeExpr key ++ ", " ++ typeExpr value ++ "] => [" ++ exprText keyBody ++ ", " ++
      exprText valueBody ++ "]))"
  | .writeList value x body => exprText value ++ ".map((" ++ x ++ ") => " ++ exprText body ++ ")"
  | .writeMap source k v keyBody valueBody =>
    "Object.fromEntries(Array.from(" ++ exprText source ++ ", ([" ++ k ++ ", " ++ v ++ "]) => [" ++
      exprText keyBody ++ ", " ++ exprText valueBody ++ "]))"

def argumentTexts (x : String) : List Expr → String
  | [] => ""
  | a :: as => ", (" ++ x ++ ": unknown) => " ++ exprText a ++ argumentTexts x as

end

def decodeText (b : Bound) (place : String) : String := exprText (decode b (.place place) 0)

def encodeText (b : Bound) (place : String) : String := exprText (encode encodeStyle b (.place place) 0)

open Binding (Binder Shape ShapeConstant ShapeField ShapeParam)
open Contract (EnumMember)
open Naming (Entry Table)
open Text (join joinBlocks)

def enumMember (name : String) (member : String × EnumMember) : String :=
  "    static readonly " ++ member.1 ++ " = new " ++ name ++ "(" ++ toString member.2.value.toInt ++ ");\n"

def enumText (e : Entry) (members : List (String × EnumMember)) : String :=
  let name := e.name
  "export class " ++ name ++ " \x7b\n" ++
  String.join (members.map (enumMember name)) ++
  "    static readonly values: readonly " ++ name ++ "[] = [" ++
    join ", " (members.map fun m => name ++ "." ++ m.1) ++ "];\n\n" ++
  "    private constructor(readonly value: number) \x7b\x7d\n\n" ++
  "    static fromJson(json: number): " ++ name ++ " \x7b\n" ++
  "        return " ++ name ++ ".values.find((v) => v.value === json) ?? new " ++ name ++ "(json);\n" ++
  "    \x7d\n\n" ++
  "    toJson(): number \x7b\n" ++
  "        return this.value;\n" ++
  "    \x7d\n\n" ++
  "    equals(other: unknown): boolean \x7b\n" ++
  "        return other instanceof " ++ name ++ " && other.value === this.value;\n" ++
  "    \x7d\n\n" ++
  "    hashCode(): number \x7b\n" ++
  "        return this.value;\n" ++
  "    \x7d\n" ++
  "\x7d"

def constantText (c : ShapeConstant) : String :=
  match c.value with
  | .string s => "    static readonly " ++ c.ident ++ ": string = " ++ quote s ++ ";\n"
  | .int n => "    static readonly " ++ c.ident ++ ": number = " ++ toString n ++ ";\n"

def constantsText (constants : List ShapeConstant) : String := String.join (constants.map constantText)

variable (b : Binder) (s : Shape)

def errorCodesText : String :=
  "export class " ++ s.entry.name ++ " \x7b\n" ++
  constantsText s.constants ++ (if s.constants.isEmpty then "" else "\n") ++
  "    private constructor() \x7b\x7d\n" ++
  "\x7d"

def typeParams (params : List ShapeParam) : String :=
  angled (params.map fun p =>
    if p.constraints.isEmpty then p.name else p.name ++ " extends " ++ join " & " (p.constraints.map baseType))

def selfType : String := s.entry.name ++ paramNames s.params

def fieldText (f : ShapeField) : String :=
  if f.type.nullable then "    " ++ f.ident ++ ": " ++ typeExpr f.type ++ " = null;\n"
  else "    " ++ f.ident ++ "!: " ++ typeExpr f.type ++ ";\n"

def constructor (s : Shape) : String :=
  "    constructor(init?: Partial<" ++ selfType s ++ ">) \x7b\n" ++
  (if s.base?.isSome then "        super();\n" else "") ++
  "        Object.assign(this, init);\n" ++
  "    \x7d"

def encodedField (f : ShapeField) : String :=
  "            " ++ quote f.wire ++ ": " ++ encodeText f.type ("this." ++ f.ident) ++ ",\n"

def toJson (s : Shape) : String :=
  "    toJson(): Record<string, unknown> \x7b\n" ++
  "        return \x7b\n" ++
  (if s.base?.isSome then "            ...super.toJson(),\n" else "") ++
  String.join (s.ownFields.map encodedField) ++
  "        \x7d;\n" ++
  "    \x7d"

def getFullName (s : Shape) : String :=
  "    getFullName(): string \x7b\n" ++
  "        return " ++ s.entry.name ++ ".fullName;\n" ++
  "    \x7d"

def classMembers : List String :=
  [(if s.isRemote then "    static readonly fullName: string = " ++ quote s.entry.qualified ++ ";\n" else "") ++
      constantsText s.constants,
    String.join (s.ownFields.map fieldText), constructor s, toJson s] ++
  (if s.isRemote then [getFullName s] else [])

def decodedField (f : ShapeField) : String :=
  "        " ++ f.ident ++ ": " ++ decodeText f.type ("json[" ++ quote f.wire ++ "]") ++ ",\n"

def fromJson : String :=
  "export function " ++ decoderName s.entry.name ++ typeParams s.params ++ "(json: Record<string, unknown>" ++
  String.join (s.params.map fun p => ", " ++ paramDecoder p.name ++ ": (json: unknown) => " ++ p.name) ++
  "): " ++ selfType s ++ " \x7b\n" ++
  (if s.fields.isEmpty then "    return new " ++ selfType s ++ "();\n"
    else "    return new " ++ selfType s ++ "(\x7b\n" ++ String.join (s.fields.map decodedField) ++ "    \x7d);\n") ++
  "\x7d"

def resultFactory (result : Bound) : String :=
  "export function " ++ resultFactoryName s.entry.name ++ "(decodedJson: unknown): " ++
    typeExpr result ++ " \x7b\n" ++ "    return " ++ decodeText result "decodedJson" ++ ";\n" ++
  "\x7d"

def classText : String := types.classText "export class " (typeParams s.params) s (classMembers s)

def typeText : String :=
  if s.errorCodes then errorCodesText s
  else joinBlocks ([classText s, fromJson s] ++ (s.result?.map (resultFactory s)).toList)

def functionNames (cls : String) : List (String × String) :=
  [(decoderName cls, "FromJson"), (resultFactoryName cls, "ResultFactory")]

def clash (other : Entry) (e : Entry) (fn role : String) : Failure :=
  (Failure.ofClass .nameCollision (other.qualified ++ " and the " ++ role ++ " function of " ++ e.qualified ++
    " both emit as " ++ fn)).withHint ("rename " ++ other.qualified ++ " or exclude it")

def functionClash? (t : Table) : Option Failure :=
  t.entries.findSome? fun e =>
    match e.decl with
    | .enum .. => none
    | .type .. =>
      (functionNames e.name).findSome? fun (fn, role) =>
        (t.entries.find? (·.name == fn)).map fun other => clash other e fn role

open Contract (Program Route)

def callInterface : String :=
  "export interface CQRS \x7b\n" ++
  "    executeCommand(type: string, command: Record<string, unknown>): Promise<unknown>;\n" ++
  "    fetchQuery<TResult>(type: string, query: Record<string, unknown>, " ++
    "resultFactory: (decodedJson: unknown) => TResult): Promise<TResult>;\n" ++
  "    invokeOperation<TResult>(type: string, operation: Record<string, unknown>, " ++
    "resultFactory: (decodedJson: unknown) => TResult): Promise<TResult>;\n" ++
  "\x7d"

def stub (r : Route) (cls : String) : String :=
  match r.kind with
  | .command => "(command: " ++ cls ++ ") => cqrs.executeCommand(" ++ quote r.key ++ ", command.toJson())"
  | .query =>
    "(query: " ++ cls ++ ") => cqrs.fetchQuery(" ++ quote r.key ++ ", query.toJson(), " ++
      resultFactoryName cls ++ ")"
  | _ =>
    "(operation: " ++ cls ++ ") => cqrs.invokeOperation(" ++ quote r.key ++ ", operation.toJson(), " ++
      resultFactoryName cls ++ ")"

def routedClasses (routes : List Route) : Except Failure (List (Route × String)) :=
  routes.mapM fun r =>
    match b.table.lookup r.target with
    | some entry => .ok (r, entry.name)
    | none => .error (.impossible ("route " ++ r.path ++ " targets " ++ r.target ++ " which has no name"))

def importedNames (routed : List (Route × String)) : List String :=
  Text.sortedSet (routed.flatMap fun (r, cls) => cls :: (if r.kind == .command then [] else [resultFactoryName cls]))

def importText (programName : String) (names : List String) : String :=
  if names.isEmpty then ""
  else "import \x7b " ++ join ", " names ++ " \x7d from " ++ quote ("./" ++ programName) ++ ";"

def clientText (settings : Settings) (program : Program) : Except Failure String := do
  let routed ← routedClasses b program.routes
  return joinBlocks
    [importText settings.programName (importedNames routed),
      callInterface,
      "export const routes: readonly string[] = [\n" ++
        Text.indent (String.join (routed.map fun (r, _) => quote r.path ++ ",\n")) 1 "    " ++ "];",
      "export function createClient(cqrs: CQRS) \x7b\n" ++
        "    return \x7b\n" ++
        Text.indent (String.join (routed.map fun (r, cls) => quote r.key ++ ": " ++ stub r cls ++ ",\n")) 2 "    " ++
        "    \x7d;\n" ++
        "\x7d"]

def header (program : Program) : String :=
  "/* eslint-disable */\n" ++
  "// Code generated by contractgen. DO NOT EDIT.\n" ++
  "// Program: " ++ program.name ++ "\n"

def doubleHelper : String :=
  "function _double(json: unknown): number \x7b\n" ++
  "    return typeof json === \"string\" ? Number(json) : (json as number);\n" ++
  "\x7d"

def encodeKeyHelper : String :=
  "function _encodeKey(key: unknown): string \x7b\n" ++
  "    if (key instanceof Date) \x7b\n" ++
  "        return key.toISOString();\n" ++
  "    \x7d\n" ++
  "    if (typeof key === \"object\" && key !== null && \"toJson\" in key) \x7b\n" ++
  "        return String((key as \x7b toJson(): unknown \x7d).toJson());\n" ++
  "    \x7d\n" ++
  "    return String(key);\n" ++
  "\x7d"

def encodeHelper : String :=
  "function _encode(value: unknown): unknown \x7b\n" ++
  "    if (value === null || value === undefined || typeof value !== \"object\") \x7b\n" ++
  "        return value;\n" ++
  "    \x7d\n" ++
  "    if (value instanceof Date) \x7b\n" ++
  "        return value.toISOString();\n" ++
  "    \x7d\n" ++
  "    if (Array.isArray(value)) \x7b\n" ++
  "        return value.map(_encode);\n" ++
  "    \x7d\n" ++
  "    if (value instanceof Map) \x7b\n" ++
  "        return Object.fromEntries(Array.from(value, ([k, v]) => [_encodeKey(k), _encode(v)]));\n" ++
  "    \x7d\n" ++
  "    if (\"toJson\" in value) \x7b\n" ++
  "        return (value as \x7b toJson(): unknown \x7d).toJson();\n" ++
  "    \x7d\n" ++
  "    return Object.fromEntries(Object.entries(value).map(([k, v]) => [k, _encode(v)]));\n" ++
  "\x7d"

def helpers (body : String) : String :=
  let encodes := Text.contains "_encode(" body
  joinBlocks ((if Text.contains "_double(" body then [doubleHelper] else []) ++
    (if encodes || Text.contains "_encodeKey(" body then [encodeKeyHelper] else []) ++
    (if encodes then [encodeHelper] else []))

def emit (settings : Settings) (program : Program) : Except Failure (List OutputFile) := do
  if let some failure := functionClash? b.table then throw failure
  let body := joinBlocks (← renderAll b settings enumText fun s => .ok (typeText s))
  let client ← clientText b settings program
  return [{ name := settings.programName ++ ".ts",
            content := joinBlocks [header program, helpers body, body] ++ "\n" },
    { name := settings.programName ++ "Client.ts",
      content := joinBlocks [header program, client] ++ "\n" }]

end Covenant.Emit.TypeScript
