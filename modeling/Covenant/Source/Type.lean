import Covenant.Text.Basic

/-!
# Types of source packages

Contracts can be drawn from the type declarations of Go packages.  This module holds the types such a package is made
of: the predeclared basic types, composite types, type parameters, and names with their type arguments.
-/

namespace Covenant.Source

inductive Basic where
  | bool | int | int8 | int16 | int32 | int64
  | uint | uint8 | uint16 | uint32 | uint64 | uintptr
  | float32 | float64 | complex64 | complex128
  | string | unsafePointer
  | byte
  | rune
  deriving DecidableEq

namespace Basic

def all : List Basic :=
  [bool, int, int8, int16, int32, int64, uint, uint8, uint16, uint32, uint64, uintptr, float32, float64, complex64,
    complex128, string, unsafePointer, byte, rune]

def name : Basic → String
  | bool => "bool" | int => "int" | int8 => "int8" | int16 => "int16" | int32 => "int32" | int64 => "int64"
  | uint => "uint" | uint8 => "uint8" | uint16 => "uint16" | uint32 => "uint32" | uint64 => "uint64"
  | uintptr => "uintptr" | float32 => "float32" | float64 => "float64" | complex64 => "complex64"
  | complex128 => "complex128" | string => "string" | unsafePointer => "unsafe.Pointer"
  | byte => "byte" | rune => "rune"

def ofName? (name : String) : Option Basic := all.find? fun b => b.name == name

def proper : Basic → Basic
  | byte => uint8
  | rune => int32
  | b => b

def isInteger (b : Basic) : Bool :=
  match b.proper with
  | int | int8 | int16 | int32 | int64 | uint | uint8 | uint16 | uint32 | uint64 | uintptr => true
  | _ => false

def isUnsigned (b : Basic) : Bool :=
  match b.proper with
  | uint | uint8 | uint16 | uint32 | uint64 | uintptr => true
  | _ => false

def isFloat (b : Basic) : Bool := b == float32 || b == float64

def isComplex (b : Basic) : Bool := b == complex64 || b == complex128

def bits (b : Basic) : Nat :=
  match b.proper with
  | int8 | uint8 => 8
  | int16 | uint16 => 16
  | int32 | uint32 => 32
  | _ => 64

end Basic

/-- The name of a declared type: the path of its package, none for a predeclared type, and its name there.  Types that
are declared inside of functions have serial numbers from one on. -/
structure TypeName where
  home : Option String
  name : String
  serial : Nat := 0
  deriving DecidableEq

def isExported (name : String) : Bool := name.toList.head?.any Text.isUpperCase

inductive Direction where
  | both | send | receive
  deriving DecidableEq

structure FieldHead where
  name : String
  tag : String := ""
  isEmbedded : Bool := false
  deriving DecidableEq

inductive SourceType where
  | basic (type : Basic)
  | pointer (target : SourceType)
  | slice (element : SourceType)
  | array (length : Nat) (element : SourceType)
  | map (key value : SourceType)
  | channel (direction : Direction) (element : SourceType)
  | function (inputs outputs : List (String × SourceType)) (isVariadic : Bool)
  | record (fields : List (FieldHead × SourceType))
  | interface (methods : List (String × SourceType)) (embedded : List SourceType)
  /-- Terms of which a type has to match one; a flag lets in all types that are built like the term. -/
  | union (terms : List (Bool × SourceType))
  /-- A type parameter; those of declarations inside of functions have serial numbers from one on. -/
  | parameter (name : String) (serial : Nat := 0)
  | named (name : TypeName) (arguments : List SourceType)
  deriving Inhabited

namespace SourceType

def action : SourceType := function [] [] false

def methodBefore (a b : String) : Bool :=
  if isExported a == isExported b then Text.before a b else isExported a

def interfaceOf (methods : List (String × SourceType)) (embedded : List SourceType) : SourceType :=
  interface (Text.sortBy (fun a b => methodBefore a.1 b.1) methods) embedded

mutual
def same : SourceType → SourceType → Bool
  | basic a, basic b => a.proper == b.proper
  | pointer a, pointer b => same a b
  | slice a, slice b => same a b
  | array n a, array m b => n == m && same a b
  | map a c, map b d => same a b && same c d
  | channel p a, channel q b => p == q && same a b
  | function a c v, function b d w => v == w && sameInputs a b && sameInputs c d
  | record a, record b => sameFields a b
  | interface a c, interface b d => sameMethods a b && sameAll c d
  | union a, union b => sameTerms a b
  | parameter a m, parameter b n => a == b && m == n
  | named a c, named b d => a == b && sameAll c d
  | _, _ => false

def sameAll : List SourceType → List SourceType → Bool
  | [], [] => true
  | a :: as, b :: bs => same a b && sameAll as bs
  | _, _ => false

def sameInputs : List (String × SourceType) → List (String × SourceType) → Bool
  | [], [] => true
  | (_, a) :: as, (_, b) :: bs => same a b && sameInputs as bs
  | _, _ => false

def sameMethods : List (String × SourceType) → List (String × SourceType) → Bool
  | [], [] => true
  | (m, a) :: as, (n, b) :: bs => m == n && same a b && sameMethods as bs
  | _, _ => false

def sameTerms : List (Bool × SourceType) → List (Bool × SourceType) → Bool
  | [], [] => true
  | (p, a) :: as, (q, b) :: bs => p == q && same a b && sameTerms as bs
  | _, _ => false

def sameFields : List (FieldHead × SourceType) → List (FieldHead × SourceType) → Bool
  | [], [] => true
  | (g, a) :: as, (h, b) :: bs => g == h && same a b && sameFields as bs
  | _, _ => false
end

mutual
def substitute (binding : List (String × SourceType)) : SourceType → SourceType
  | basic b => basic b
  | pointer t => pointer (substitute binding t)
  | slice t => slice (substitute binding t)
  | array n t => array n (substitute binding t)
  | map k v => map (substitute binding k) (substitute binding v)
  | channel d t => channel d (substitute binding t)
  | function is os v => function (substituteInputs binding is) (substituteInputs binding os) v
  | record fs => record (substituteFields binding fs)
  | interface ms es => interface (substituteInputs binding ms) (substituteAll binding es)
  | union ts => union (substituteTerms binding ts)
  | parameter name serial => (binding.lookup name).getD (parameter name serial)
  | named name as => named name (substituteAll binding as)

def substituteAll (binding : List (String × SourceType)) : List SourceType → List SourceType
  | [] => []
  | t :: ts => substitute binding t :: substituteAll binding ts

def substituteInputs (binding : List (String × SourceType)) : List (String × SourceType) → List (String × SourceType)
  | [] => []
  | (name, t) :: ts => (name, substitute binding t) :: substituteInputs binding ts

def substituteTerms (binding : List (String × SourceType)) : List (Bool × SourceType) → List (Bool × SourceType)
  | [] => []
  | (isOpen, t) :: ts => (isOpen, substitute binding t) :: substituteTerms binding ts

def substituteFields (binding : List (String × SourceType)) :
    List (FieldHead × SourceType) → List (FieldHead × SourceType)
  | [] => []
  | (head, t) :: ts => (head, substitute binding t) :: substituteFields binding ts
end

mutual
def size : SourceType → Nat
  | basic _ | parameter _ _ => 1
  | pointer t | slice t | array _ t | channel _ t => size t + 1
  | map k v => size k + size v + 1
  | function is os _ => sizeInputs is + sizeInputs os + 1
  | record fs => sizeFields fs + 1
  | interface ms es => sizeInputs ms + sizeAll es + 1
  | union ts => sizeTerms ts + 1
  | named _ as => sizeAll as + 1

def sizeAll : List SourceType → Nat
  | [] => 0
  | t :: ts => size t + sizeAll ts

def sizeInputs : List (String × SourceType) → Nat
  | [] => 0
  | (_, t) :: ts => size t + sizeInputs ts

def sizeTerms : List (Bool × SourceType) → Nat
  | [] => 0
  | (_, t) :: ts => size t + sizeTerms ts

def sizeFields : List (FieldHead × SourceType) → Nat
  | [] => 0
  | (_, t) :: ts => size t + sizeFields ts
end

end SourceType

end Covenant.Source
