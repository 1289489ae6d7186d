import Covenant.Emit.Codec

/-!
# Dart

A program becomes one file: a header, the helper functions that its text calls, and its declarations in order of
their emitted names.
-/

namespace Covenant.Emit.Dart

open Binding (Bound)
open Naming (Policy)
open Typing (Targets)

/-- Keywords, built-in identifiers, the core types that emitted code uses and the members of emitted classes. -/
def reserved : List String :=
  ["assert", "break", "case", "catch", "class", "const", "continue", "default", "do", "else", "enum", "extends",
    "false", "final", "finally", "for", "if", "in", "is", "new", "null", "rethrow", "return", "super", "switch",
    "this", "throw", "true", "try", "var", "void", "while", "with",
    "abstract", "as", "covariant", "deferred", "dynamic", "export", "extension", "external", "factory", "Function",
    "get", "implements", "import", "interface", "late", "library", "mixin", "operator", "part", "required", "set",
    "static", "typedef", "await", "yield", "async", "sync",
    "DateTime", "List", "Map", "MapEntry", "String", "Object", "int", "double", "num", "bool",
    "value", "values", "json", "toJson", "fromJson", "hashCode", "toString", "runtimeType", "noSuchMethod",
    "fullName", "getFullName", "resultFactory"]

def policy : Policy :=
  { nestedSeparator := "_", unmangled := Naming.markerNames, reserved, escapeSuffix := "_" }

def targets : Targets
  | .integer => "int"
  | .double => "double"
  | .boolean => "bool"
  | .string => "String"
  | .datetime => "DateTime"
  | .dynamic => "dynamic"

/-- A string literal; a dollar sign would start an interpolation. -/
def quote (s : String) : String := Text.literal ['$'] s

def types : TypeStyle := { dynamic := "dynamic", nullMark := "?", listOf := fun element => "List<" ++ element ++ ">" }

def baseType (b : Bound) : String := types.baseType b

def typeExpr (b : Bound) : String := types.typeExpr b

def encodeStyle : EncodeStyle := { assertsNonNull := true, keepsMaps := true }

def conversionText (c : Conversion) (value : String) : String :=
  match c with
  | .integer => "(" ++ value ++ " as num).toInt()"
  | .double => "_double(" ++ value ++ ")"
  | .boolean => value ++ " as bool"
  | .string => value ++ " as String"
  | .datetime => "DateTime.parse(" ++ value ++ " as String)"
  | .member enum => enum ++ ".fromJson((" ++ value ++ " as num).toInt())"
  | .parameter name => paramDecoder name ++ "(" ++ value ++ ")"
  | .keyInteger => "int.parse(" ++ value ++ ")"
  | .keyDouble => "double.parse(" ++ value ++ ")"
  | .keyDatetime => "DateTime.parse(" ++ value ++ ")"
  | .keyMember enum => enum ++ ".fromJson(int.parse(" ++ value ++ "))"
  | .instantText => value ++ ".toIso8601String()"
  | .ownJson => value ++ ".toJson()"
  | .anyJson => "_encode(" ++ value ++ ")"
  | .numberKey => value ++ ".toString()"
  | .memberKey => value ++ ".toJson().toString()"

mutual

def exprText : Expr → String
  | .place text => text
  | .var name => name
  | .nonNull value => exprText value ++ "!"
  | .unlessNull tested value => exprText tested ++ " == null ? null : " ++ exprText value
  | .convert c value => conversionText c (exprText value)
  | .construct cls value x as =>
    cls ++ ".fromJson(" ++ exprText value ++ " as Map<String, dynamic>" ++ argumentTexts x as ++ ")"
  | .readList element value x body =>
    "(" ++ exprText value ++ " as List<dynamic>).map<" ++ typeExpr element ++ ">((dynamic " ++ x ++ ") => " ++
      exprText body ++ ").toList()"
  | .readMap key value source k v keyBody valueBody =>
    "(" ++ exprText source ++ " as Map<String, dynamic>).map<" ++ typeExpr key ++ ", " ++ typeExpr value ++
      ">((" ++ k ++ ", " ++ v ++ ") => MapEntry(" ++ exprText keyBody ++ ", " ++ exprText valueBody ++ "))"
  | .writeList value x body => exprText value ++ ".map((" ++ x ++ ") => " ++ exprText body ++ ").toList()"
  | .writeMap source k v keyBody valueBody =>
    exprText source ++ ".map((" ++ k ++ ", " ++ v ++ ") => MapEntry(" ++ exprText keyBody ++ ", " ++
      exprText valueBody ++ "))"

def argumentTexts (x : String) : List Expr → String
  | [] => ""
  | a :: as => ", (dynamic " ++ x ++ ") => " ++ exprText a ++ argumentTexts x as

end

def decodeText (b : Bound) (place : String) : String := exprText (decode b (.place place) 0)

def encodeText (b : Bound) (place : String) : String := exprText (encode encodeStyle b (.place place) 0)

open Binding (Binder Shape ShapeConstant ShapeField ShapeParam)
open Contract (EnumMember)
open Naming (Entry)
open Text (join joinBlocks)

def enumMember (name : String) (member : String × EnumMember) : String :=
  "  static const " ++ member.1 ++ " = " ++ name ++ "._(" ++ toString member.2.value.toInt ++ ");\n"

def enumText (e : Entry) (members : List (String × EnumMember)) : String :=
  let name := e.name
  "class " ++ name ++ " \x7b\n" ++
  "  const " ++ name ++ "._(this.value);\n\n" ++
  "  final int value;\n\n" ++
  String.join (members.map (enumMember name)) ++ (if members.isEmpty then "" else "\n") ++
  "  static const values = <" ++ name ++ ">[" ++ join ", " (members.map (·.1)) ++ "];\n\n" ++
  "  factory " ++ name ++ ".fromJson(int json) \x7b\n" ++
  "    for (final v in values) \x7b\n" ++
  "      if (v.value == json) \x7b\n" ++
  "        return v;\n" ++
  "      \x7d\n" ++
  "    \x7d\n" ++
  "    return " ++ name ++ "._(json);\n" ++
  "  \x7d\n\n" ++
  "  int toJson() => value;\n\n" ++
  "  @override\n" ++
  "  bool operator ==(Object other) => other is " ++ name ++ " && other.value == value;\n\n" ++
  "  @override\n" ++
  "  int get hashCode => value.hashCode;\n\n" ++
  "  @override\n" ++
  "  String toString() => '" ++ name ++ "($value)';\n" ++
  "\x7d"

def constantText (c : ShapeConstant) : String :=
  match c.value with
  | .string s => "  static const String " ++ c.ident ++ " = " ++ quote s ++ ";\n"
  | .int n => "  static const int " ++ c.ident ++ " = " ++ toString n ++ ";\n"

def constantsText (constants : List ShapeConstant) : String := String.join (constants.map constantText)

def errorCodesText (s : Shape) : String :=
  "class " ++ s.entry.name ++ " \x7b\n" ++
  "  const " ++ s.entry.name ++ "._();\n" ++
  (if s.constants.isEmpty then "" else "\n" ++ constantsText s.constants) ++
  "\x7d"

def typeParams (params : List ShapeParam) : String :=
  angled (params.map fun p =>
    match p.constraints with
    | [] => p.name
    | bound :: _ => p.name ++ " extends " ++ baseType bound)

def constructorField (f : ShapeField) : String :=
  "    " ++ (if f.type.nullable then "" else "required ") ++ (if f.inherited then "super." else "this.") ++
    f.ident ++ ",\n"

def constructor (s : Shape) : String :=
  if s.fields.isEmpty then "  " ++ s.entry.name ++ "();"
  else "  " ++ s.entry.name ++ "(\x7b\n" ++ String.join (s.fields.map constructorField) ++ "  \x7d);"

def decodedField (f : ShapeField) : String :=
  "      " ++ f.ident ++ ": " ++ decodeText f.type ("json[" ++ quote f.wire ++ "]") ++ ",\n"

def fromJson (s : Shape) : String :=
  let self := s.entry.name ++ paramNames s.params
  "  factory " ++ s.entry.name ++ ".fromJson(Map<String, dynamic> json" ++
  String.join (s.params.map fun p => ", " ++ p.name ++ " Function(dynamic) " ++ paramDecoder p.name) ++
  (if s.fields.isEmpty then ") => " ++ self ++ "();"
    else ") =>\n    " ++ self ++ "(\n" ++ String.join (s.fields.map decodedField) ++ "    );")

def encodedField (f : ShapeField) : String :=
  "    " ++ quote f.wire ++ ": " ++ encodeText f.type f.ident ++ ",\n"

def toJson (s : Shape) : String :=
  (if s.base?.isSome then "  @override\n" else "") ++
  "  Map<String, dynamic> toJson() => <String, dynamic>\x7b\n" ++
  (if s.base?.isSome then "    ...super.toJson(),\n" else "") ++
  String.join (s.ownFields.map encodedField) ++
  "  \x7d;"

def resultFactory (result : Bound) : String :=
  "  " ++ typeExpr result ++ " resultFactory(dynamic decodedJson) =>\n    " ++ decodeText result "decodedJson" ++ ";"

/-- The nearest ancestor with a result has to have the same one, or the override would not compile.  Unless the bases
run in a circle, every step goes to another entry of the table, which `fuel` covers. -/
def checkResultOverride (b : Binder) (settings : Settings) (s : Shape) (result : Bound) :
    Nat → Option Bound → Except Failure Unit
  | fuel + 1, some (.named _ base _) => do
    let ancestor ← b.shapeOf settings.errorCodesName base
    match ancestor.result? with
    | some expected =>
      if typeExpr result = typeExpr expected then return ()
      else throw ((Failure.malformed (s.entry.qualified ++ " returns " ++ typeExpr result ++ " but extends " ++
        ancestor.entry.qualified ++ " which returns " ++ typeExpr expected)).withHint
        "a query or operation may only extend one with the same result type")
    | none => checkResultOverride b settings s result fuel ancestor.base?
  | _, _ => .ok ()

def classMembers (s : Shape) : List String :=
  [constructor s, fromJson s, constantsText s.constants] ++
  (if s.isRemote then
    ["  static const String fullName = " ++ quote s.entry.qualified ++ ";", "  String getFullName() => fullName;"]
    else []) ++
  [join "\n" (s.ownFields.map fun f => "  final " ++ typeExpr f.type ++ " " ++ f.ident ++ ";"), toJson s] ++
  (match s.result? with
    | some result => [resultFactory result]
    | none => [])

def classText (s : Shape) : String := types.classText "class " (typeParams s.params) s (classMembers s)

def typeText (b : Binder) (settings : Settings) (s : Shape) : Except Failure String :=
  if s.errorCodes then .ok (errorCodesText s)
  else do
    if let some result := s.result? then
      checkResultOverride b settings s result (b.table.entries.length + 1) s.base?
    return classText s

open Contract (Program)

def header (program : Program) : String :=
  "// Code generated by contractgen. DO NOT EDIT.\n" ++
  "// Program: " ++ program.name ++ "\n\n" ++
  "// ignore_for_file: unused_element, unnecessary_non_null_assertion, annotate_overrides\n"

def doubleHelper : String :=
  "double _double(dynamic json) =>\n" ++
  "    json is String ? double.parse(json) : (json as num).toDouble();"

def encodeKeyHelper : String :=
  "String _encodeKey(dynamic key) \x7b\n" ++
  "  if (key is String) \x7b\n" ++
  "    return key;\n" ++
  "  \x7d\n" ++
  "  if (key is DateTime) \x7b\n" ++
  "    return key.toIso8601String();\n" ++
  "  \x7d\n" ++
  "  if (key is num) \x7b\n" ++
  "    return key.toString();\n" ++
  "  \x7d\n" ++
  "  return (key as dynamic).toJson().toString();\n" ++
  "\x7d"

def encodeHelper : String :=
  "dynamic _encode(dynamic value) \x7b\n" ++
  "  if (value == null || value is num || value is String || value is bool) \x7b\n" ++
  "    return value;\n" ++
  "  \x7d\n" ++
  "  if (value is DateTime) \x7b\n" ++
  "    return value.toIso8601String();\n" ++
  "  \x7d\n" ++
  "  if (value is List) \x7b\n" ++
  "    return value.map(_encode).toList();\n" ++
  "  \x7d\n" ++
  "  if (value is Map) \x7b\n" ++
  "    return value.map((k, v) => MapEntry(_encodeKey(k), _encode(v)));\n" ++
  "  \x7d\n" ++
  "  return (value as dynamic).toJson();\n" ++
  "\x7d"

def helpers (body : String) : String :=
  joinBlocks ((if Text.contains "_double(" body then [doubleHelper] else []) ++
    (if Text.contains "_encode(" body then [encodeKeyHelper, encodeHelper] else []))

def emit (b : Binder) (settings : Settings) (program : Program) : Except Failure (List OutputFile) := do
  let body := joinBlocks (← renderAll b settings enumText (typeText b settings))
  return [{ name := settings.programName ++ ".dart",
            content := joinBlocks [header program, helpers body, body] ++ "\n" }]

end Covenant.Emit.Dart
