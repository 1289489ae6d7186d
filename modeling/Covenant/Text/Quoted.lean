import Covenant.Text.Basic

/-!
# Quoted texts

Texts are stored as UTF-8.  Octets that make up no character are strays: each is kept as a character of a private
range of its own.  Messages show texts between quotes with escapes; command lines and records have quotes of their
own.
-/

namespace Covenant.Text

def stray (octet : UInt8) : Char := Char.ofNat (0x10FF00 + octet.toNat)

variable (c : Char) (s : String)

def isStray : Bool := 0x10FF80 ≤ c.toNat

def strayOctet : UInt8 := (c.toNat - 0x10FF00).toUInt8

def legible : String := s.map fun c => if isStray c then Char.ofNat 0xFFFD else c

def hasStray : Bool := s.toList.any isStray

def charOctets : List UInt8 := if isStray c then [strayOctet c] else (String.singleton c).toUTF8.toList

def toOctets : List UInt8 := s.toList.flatMap charOctets

def octetSize : Nat := if isStray c then 1 else c.utf8Size

def charactersBy : Nat → List UInt8 → List Char
  | 0, _ => []
  | _, [] => []
  | fuel + 1, a :: rest =>
    let tail (n : Nat) : Option Nat :=
      let t := rest.take n
      if t.length = n && t.all (fun o => o.toNat / 64 == 2) then some (t.foldl (fun v o => v * 64 + o.toNat % 64) 0)
      else none
    let accept (n v least : Nat) : Option (Char × Nat) :=
      if v < least || (0xD800 ≤ v && v ≤ 0xDFFF) || v > 0x10FFFF then none else some (Char.ofNat v, n)
    let x := a.toNat
    let found :=
      if x < 0x80 then some (Char.ofNat x, 0)
      else if 0xC0 ≤ x && x < 0xE0 then (tail 1).bind fun t => accept 1 (x % 32 * 64 + t) 0x80
      else if 0xE0 ≤ x && x < 0xF0 then (tail 2).bind fun t => accept 2 (x % 16 * 4096 + t) 0x800
      else if 0xF0 ≤ x && x < 0xF8 then (tail 3).bind fun t => accept 3 (x % 8 * 262144 + t) 0x10000
      else none
    match found with
    | some (c, n) => c :: charactersBy fuel (rest.drop n)
    | none => stray a :: charactersBy fuel rest

def ofOctets (octets : List UInt8) : String := String.ofList (charactersBy octets.length octets)

def literalChar (escapes : List Char) (c : Char) : List Char :=
  match c with
  | '"' => ['\\', '"']
  | '\\' => ['\\', '\\']
  | '\n' => ['\\', 'n']
  | '\r' => ['\\', 'r']
  | '\t' => ['\\', 't']
  | c => if escapes.contains c then ['\\', c] else [c]

/-- A literal holds replacement characters in place of strays. -/
def literal (escapes : List Char) (s : String) : String :=
  String.ofList ('"' :: (legible s).toList.flatMap (literalChar escapes) ++ ['"'])

private def hexDigit (n : Nat) : Char :=
  if n < 10 then Char.ofNat (48 + n) else Char.ofNat (87 + n)

def hexDigits : Nat → Nat → List Char
  | 0, _ => []
  | width + 1, n => hexDigits width (n / 16) ++ [hexDigit (n % 16)]

def quotedChar (quote c : Char) : List Char :=
  if c = quote ∨ c = '\\' then ['\\', c]
  else if isStray c then '\\' :: 'x' :: hexDigits 2 (strayOctet c).toNat
  else if isPrintable c then [c]
  else match c.toNat with
    | 7 => ['\\', 'a']
    | 8 => ['\\', 'b']
    | 12 => ['\\', 'f']
    | 10 => ['\\', 'n']
    | 13 => ['\\', 'r']
    | 9 => ['\\', 't']
    | 11 => ['\\', 'v']
    | n =>
      if n < 0x20 ∨ n = 0x7f then '\\' :: 'x' :: hexDigits 2 n
      else if n < 0x10000 then '\\' :: 'u' :: hexDigits 4 n
      else '\\' :: 'U' :: hexDigits 8 n

def quoted : String :=
  String.ofList ('"' :: s.toList.flatMap (quotedChar '"') ++ ['"'])

def quotedRune : String := String.ofList ('\'' :: quotedChar '\'' c ++ ['\''])

def codePoint : String :=
  let digits := (Nat.toDigits 16 c.toNat).map Char.toUpper
  let number := "U+" ++ String.ofList (List.replicate (4 - digits.length) '0' ++ digits)
  if isPrintable c then number ++ " '" ++ String.singleton c ++ "'" else number

def hexValue? : Option Nat :=
  if c.isDigit then some (c.toNat - 48)
  else if 'a' ≤ c && c ≤ 'f' then some (c.toNat - 87)
  else if 'A' ≤ c && c ≤ 'F' then some (c.toNat - 55)
  else none

def digitsValue? (base : Nat) (digits : List Char) : Option Nat :=
  digits.foldlM (fun n c => (hexValue? c).bind fun d => if d < base then some (n * base + d) else none) 0

def isScalarValue (n : Nat) : Bool := n < 0xD800 || (0xDFFF < n && n ≤ 0x10FFFF)

def escaped? (quote : Char) : List Char → Option (List UInt8 × List Char)
  | [] => none
  | c :: cs =>
    let octet (n : Nat) := some ([n.toUInt8], cs)
    let wide (n : Nat) : Option (List UInt8 × List Char) := do
      let v ← if (cs.take n).length == n then digitsValue? 16 (cs.take n) else none
      if isScalarValue v then return (toOctets (String.singleton (Char.ofNat v)), cs.drop n) else none
    match c with
    | 'a' => octet 7
    | 'b' => octet 8
    | 'f' => octet 12
    | 'n' => octet 10
    | 'r' => octet 13
    | 't' => octet 9
    | 'v' => octet 11
    | '\\' => octet 92
    | 'x' => do
      let v ← if (cs.take 2).length == 2 then digitsValue? 16 (cs.take 2) else none
      return ([v.toUInt8], cs.drop 2)
    | 'u' => wide 4
    | 'U' => wide 8
    | _ =>
      if c == quote then octet quote.toNat
      else do
        let v ← if (c :: cs.take 2).length == 3 then digitsValue? 8 (c :: cs.take 2) else none
        if v < 256 then return ([v.toUInt8], cs.drop 2) else none

def unquotedBy (quote : Char) : Nat → List Char → Option (List UInt8)
  | 0, _ => none
  | _, [] => some []
  | fuel + 1, c :: cs =>
    if c == '\n' || c == quote then none
    else if c == '\\' then do
      let (octets, rest) ← escaped? quote cs
      return octets ++ (← unquotedBy quote fuel rest)
    else do return toOctets (String.singleton c) ++ (← unquotedBy quote fuel cs)

def unquoted? (quote : Char) (cs : List Char) : Option String :=
  (unquotedBy quote (cs.length + 1) cs).map ofOctets

inductive OpenWord where
  | singleQuote | doubleQuote | backslash
  deriving Repr

def OpenWord.message : OpenWord → String
  | singleQuote => "Unterminated single-quoted string"
  | doubleQuote => "Unterminated double-quoted string"
  | backslash => "Unterminated backslash-escape"

inductive Quoting where
  | none | single | double

/-- The words of a command line; `word` is the one before the text, backwards, if it has begun. -/
def wordsFrom (quoting : Quoting) (word : Option (List Char)) : List Char → Except OpenWord (List String)
  | [] =>
    match quoting with
    | .single => .error .singleQuote
    | .double => .error .doubleQuote
    | .none => .ok ((word.map fun w => String.ofList w.reverse).toList)
  | c :: cs =>
    let begun := word.getD []
    match quoting with
    | .single => if c == '\'' then wordsFrom .none (some begun) cs else wordsFrom .single (some (c :: begun)) cs
    | .double =>
      if c == '"' then wordsFrom .none (some begun) cs
      else if c == '\\' then
        match cs with
        | [] => .error .doubleQuote
        | d :: rest =>
          if d == '\n' then wordsFrom .double (some begun) rest
          else if d == '$' || d.toNat == 0x60 || d == '"' || d == '\\' then wordsFrom .double (some (d :: begun)) rest
          else wordsFrom .double (some (d :: '\\' :: begun)) rest
      else wordsFrom .double (some (c :: begun)) cs
    | .none =>
      if c == '\'' then wordsFrom .single (some begun) cs
      else if c == '"' then wordsFrom .double (some begun) cs
      else if c == '\\' then
        match cs with
        | [] => .error .backslash
        | d :: rest => if d == '\n' then wordsFrom .none word rest else wordsFrom .none (some (d :: begun)) rest
      else if c == ' ' || c == '\t' || c == '\n' then
        match word with
        | none => wordsFrom .none none cs
        | some w => do return String.ofList w.reverse :: (← wordsFrom .none none cs)
      else wordsFrom .none (some (c :: begun)) cs

def shellWords : Except OpenWord (List String) := wordsFrom .none none s.toList

structure Position where
  line : Nat := 1
  column : Nat := 1
  deriving Repr

namespace Position

/-- The position after a character.  A line break at the end of a text starts no line. -/
def after (p : Position) (c : Char) (isLast : Bool) : Position :=
  if c == '\n' && !isLast then { line := p.line + 1 } else { p with column := p.column + c.utf8Size }

end Position

inductive RecordFault where
  | none
  | bareQuote (start : Nat) (position : Position)
  | quote (start : Nat) (position : Position)
  deriving Repr

namespace RecordFault

def located (start : Nat) (p : Position) (text : String) : String :=
  (if start = p.line then "" else "record on line " ++ toString start ++ "; ") ++
    "parse error on line " ++ toString p.line ++ ", column " ++ toString p.column ++ ": " ++ text

def message : RecordFault → String
  | none => "EOF"
  | bareQuote start p => located start p "bare \" in non-quoted field"
  | quote start p => located start p "extraneous or missing \" in quoted field"

end RecordFault

mutual
def plainValues (start : Nat) (p : Position) (isStart : Bool) (value : List Char) :
    List Char → Except RecordFault (List String)
  | [] => .ok [String.ofList value]
  | c :: cs =>
    if c == '\n' then .ok [String.ofList value]
    else if c == ',' then
      (plainValues start (p.after c false) true [] cs).map (String.ofList value :: ·)
    else if c == '"' then
      if isStart then quotedValues start (p.after c false) [] cs else .error (.bareQuote start p)
    else plainValues start (p.after c false) false (value ++ [c]) cs

def quotedValues (start : Nat) (p : Position) (value : List Char) : List Char → Except RecordFault (List String)
  | [] => .error (.quote start p)
  | '"' :: '"' :: cs => quotedValues start { p with column := p.column + 2 } (value ++ ['"']) cs
  | '"' :: ',' :: cs =>
    (plainValues start { p with column := p.column + 2 } true [] cs).map (String.ofList value :: ·)
  | '"' :: '\n' :: _ | ['"'] => .ok [String.ofList value]
  | '"' :: _ :: _ => .error (.quote start p)
  | c :: cs => quotedValues start (p.after c cs.isEmpty) (value ++ [c]) cs
end

def plainBreaks : List Char → List Char
  | [] | ['\r'] => []
  | '\r' :: '\n' :: cs => '\n' :: plainBreaks cs
  | c :: cs => c :: plainBreaks cs

def recordValues : Except RecordFault (List String) :=
  if s.isEmpty then .ok []
  else
    let cs := plainBreaks s.toList
    let rest := cs.dropWhile (· == '\n')
    let start := cs.length - rest.length + 1
    if rest.isEmpty then .error .none else plainValues start { line := start } true [] rest

end Covenant.Text
