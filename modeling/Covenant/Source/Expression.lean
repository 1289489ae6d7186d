import Covenant.Source.Lexeme
import Covenant.Source.Type

/-!
# Expressions and statements

The result of a query or an operation is given as a type expression.  An expression that is no type can be written in
its place, and the body of a function can stand in an expression, so this module holds the trees for the whole
language of expressions and statements, and the text of an expression in a message.
-/

namespace Covenant.Source

structure Ident where
  pos : Nat
  text : String

inductive Branch where
  | leave
  | again
  | goto
  | fall
  deriving DecidableEq

mutual
/-- An expression; `pos` is the offset where it starts, `close` the one of its last mark. -/
inductive Expr where
  | bad (pos : Nat)
  | name (id : Ident)
  | literal (pos : Nat) (sort : LiteralSort) (text : String)
  | lambda (type : Expr) (body : List Stmt) (close : Nat)
  /-- Elements between braces; inside of another composite the type may be left out. -/
  | composite (type : Option Expr) (brace : Nat) (elements : List Expr) (close : Nat)
  | pair (key value : Expr)
  | paren (pos : Nat) (inner : Expr)
  | select (owner : Expr) (member : Ident)
  | index (owner : Expr) (arguments : List Expr)
  | slice (owner : Expr) (low high limit : Option Expr) (isFull : Bool)
  | assertion (owner : Expr) (type : Option Expr)
  | call (function : Expr) (arguments : List Expr) (spread : Option Nat) (close : Nat)
  | star (pos : Nat) (inner : Expr)
  | unary (pos : Nat) (op : String) (inner : Expr)
  | binary (left : Expr) (pos : Nat) (op : String) (right : Expr)
  | dots (pos : Nat) (element : Option Expr)
  | arrayType (pos : Nat) (length : Option Expr) (element : Expr)
  | mapType (pos : Nat) (key value : Expr)
  | chanType (pos arrow : Nat) (direction : Direction) (element : Expr)
  | funcType (pos : Nat) (inputs outputs : List FieldExpr)
  | structType (pos : Nat) (fields : List FieldExpr)
  | interfaceType (pos : Nat) (elements : List FieldExpr)

/-- Names with one type: fields of a record, parameters of a function, or a method; without names, an embedded type or
a parameter that has none. -/
inductive FieldExpr where
  | mk (names : List Ident) (type : Expr) (tag : Option String)

inductive Stmt where
  | bad (pos : Nat)
  | empty (pos : Nat)
  | expression (e : Expr)
  | send (channel : Expr) (arrow : Nat) (value : Expr)
  | step (operand : Expr) (pos : Nat) (op : String)
  | assign (left : List Expr) (pos : Nat) (op : String) (right : List Expr)
  | go (pos : Nat) (call : Expr)
  | defer (pos : Nat) (call : Expr)
  | ret (pos : Nat) (results : List Expr)
  | branch (pos : Nat) (word : Branch) (label : Option Ident)
  | block (pos : Nat) (body : List Stmt) (close : Nat)
  | cond (pos : Nat) (start : Option Stmt) (condition : Expr) (body : List Stmt) (other : Option Stmt)
  | switch (pos : Nat) (start : Option Stmt) (tag : Option Expr) (brace : Nat) (clauses : List Clause)
  | typeSwitch (pos : Nat) (start : Option Stmt) (guard : Stmt) (clauses : List Clause)
  | select (pos : Nat) (clauses : List Clause)
  | loop (pos : Nat) (start : Option Stmt) (condition : Option Expr) (post : Option Stmt) (body : Stmt)
  | range (pos : Nat) (key value : Option Expr) (define : Option Nat) (domain : Expr) (body : Stmt)
  | labeled (label : Ident) (statement : Stmt)
  | constants (pos : Nat) (specs : List Spec)
  | vars (pos : Nat) (specs : List Spec)
  | types (pos : Nat) (specs : List Spec)

inductive Clause where
  | mk (pos : Nat) (values : List Expr) (communication : Option Stmt) (isDefault : Bool) (body : List Stmt)

inductive Spec where
  | values (names : List Ident) (type : Option Expr) (values : List Expr)
  | type (name : Ident) (params : List FieldExpr) (isAlias : Bool) (definition : Expr)
end

instance : Inhabited Expr := ⟨.bad 0⟩

instance : Inhabited Stmt := ⟨.bad 0⟩

namespace FieldExpr

def names : FieldExpr → List Ident
  | mk names _ _ => names

def type : FieldExpr → Expr
  | mk _ type _ => type

def tag : FieldExpr → Option String
  | mk _ _ tag => tag

end FieldExpr

namespace Clause

def pos : Clause → Nat
  | mk pos _ _ _ _ => pos

def values : Clause → List Expr
  | mk _ values _ _ _ => values

def communication : Clause → Option Stmt
  | mk _ _ communication _ _ => communication

def isDefault : Clause → Bool
  | mk _ _ _ isDefault _ => isDefault

def body : Clause → List Stmt
  | mk _ _ _ _ body => body

end Clause

namespace Expr

def start : Expr → Nat
  | bad pos | literal pos _ _ | paren pos _ | star pos _ | unary pos _ _ | dots pos _ | arrayType pos _ _
  | mapType pos _ _ | chanType pos _ _ _ | funcType pos _ _ | structType pos _ | interfaceType pos _ => pos
  | name id => id.pos
  | lambda type _ _ => start type
  | composite (some type) _ _ _ => start type
  | composite none brace _ _ => brace
  | select owner _ | index owner _ | slice owner _ _ _ _ | assertion owner _ => start owner
  | call function _ _ _ => start function
  | pair key _ => start key
  | binary left _ _ _ => start left

def bare : Expr → Expr
  | paren _ inner => bare inner
  | e => e

def standsAlone : List FieldExpr → Bool
  | [.mk [] _ _] => true
  | _ => false

def signatureText (inputs outputs : List String) (alone : Bool) : String :=
  "(" ++ Text.join ", " inputs ++ ")" ++
    if outputs.isEmpty then ""
    else if alone then " " ++ Text.join ", " outputs
    else " (" ++ Text.join ", " outputs ++ ")"

mutual
/-- The expression in a message; the elements of a composite and the body of a function are left out. -/
def text : Expr → String
  | bad _ => "(ast: *ast.BadExpr)"
  | name id => id.text
  | literal _ _ text => text
  | lambda type _ _ => "(" ++ text type ++ " literal)"
  | composite type _ elements _ => optionText type ++ (if elements.isEmpty then "\x7b\x7d" else "\x7b…\x7d")
  | pair _ _ => "(ast: *ast.KeyValueExpr)"
  | paren _ inner => "(" ++ text inner ++ ")"
  | select owner member => text owner ++ "." ++ member.text
  | index owner arguments => text owner ++ "[" ++ Text.join ", " (texts arguments) ++ "]"
  | slice owner low high limit isFull =>
    text owner ++ "[" ++ boundText low ++ ":" ++ boundText high ++
      (if isFull then ":" ++ boundText limit else "") ++ "]"
  | assertion owner type => text owner ++ ".(" ++ optionText type ++ ")"
  | call function arguments spread _ =>
    text function ++ "(" ++ Text.join ", " (texts arguments) ++ (if spread.isSome then "..." else "") ++ ")"
  | star _ inner => "*" ++ text inner
  | unary _ op inner => op ++ text inner
  | binary left _ op right => text left ++ " " ++ op ++ " " ++ text right
  | dots _ element => "..." ++ boundText element
  | arrayType _ length element => "[" ++ boundText length ++ "]" ++ text element
  | mapType _ key value => "map[" ++ text key ++ "]" ++ text value
  | chanType _ _ direction element =>
    (match direction with | .both => "chan " | .send => "chan<- " | .receive => "<-chan ") ++ text element
  | funcType _ inputs outputs =>
    "func" ++ signatureText (fieldTexts false inputs) (fieldTexts false outputs) (standsAlone outputs)
  | structType _ fields => "struct\x7b" ++ Text.join "; " (fieldTexts false fields) ++ "\x7d"
  | interfaceType _ elements => "interface\x7b" ++ Text.join "; " (fieldTexts true elements) ++ "\x7d"

def optionText : Option Expr → String
  | none => "(ast: <nil>)"
  | some e => text e

def boundText : Option Expr → String
  | none => ""
  | some e => text e

def texts : List Expr → List String
  | [] => []
  | e :: es => text e :: texts es

def fieldTexts (isInterface : Bool) : List FieldExpr → List String
  | [] => []
  | .mk [] type _ :: fs => text type :: fieldTexts isInterface fs
  | .mk names (.funcType _ inputs outputs) _ :: fs =>
    (Text.join ", " (names.map Ident.text) ++ (if isInterface then "" else " func") ++
      signatureText (fieldTexts false inputs) (fieldTexts false outputs) (standsAlone outputs)) ::
      fieldTexts isInterface fs
  | .mk names type _ :: fs =>
    (Text.join ", " (names.map Ident.text) ++ " " ++ text type) :: fieldTexts isInterface fs
end

end Expr

namespace Stmt

def start : Stmt → Nat
  | bad pos | empty pos | go pos _ | defer pos _ | ret pos _ | branch pos _ _ | block pos _ _ | cond pos _ _ _ _
  | switch pos _ _ _ _ | typeSwitch pos _ _ _ | select pos _ | loop pos _ _ _ _ | range pos _ _ _ _ _
  | constants pos _ | vars pos _ | types pos _ => pos
  | expression e | send e _ _ | step e _ _ => e.start
  | assign (e :: _) _ _ _ => e.start
  | assign [] pos _ _ => pos
  | labeled label _ => label.pos

end Stmt

end Covenant.Source
