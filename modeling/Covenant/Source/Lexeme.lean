import Covenant.Text.Quoted

/-!
# Lexemes of expressions

An expression is cut into names, keywords, literals and marks.  A line break after a lexeme that can end a statement
counts as a lexeme of its own, and so does the end of the text.  Each lexeme comes with the faults of spelling that
reading it brings up; a fault has the offset, in octets, where it occurs.
-/

namespace Covenant.Source

inductive LiteralSort where
  | int | float | imaginary | rune | string
  deriving DecidableEq

inductive Lexeme where
  | name (text : String)
  | literal (sort : LiteralSort) (text : String)
  | keyword (text : String)
  | mark (text : String)
  | newline
  | illegal
  | stop
  deriving DecidableEq

namespace Lexeme

def found : Lexeme → String
  | name text | literal _ text => text
  | keyword text | mark text => "'" ++ text ++ "'"
  | newline => "newline"
  | illegal => "'ILLEGAL'"
  | stop => "'EOF'"

def endsStatement : Lexeme → Bool
  | name _ | literal _ _ => true
  | keyword text => ["break", "continue", "fallthrough", "return"].contains text
  | mark text => [")", "]", "\x7d", "++", "--"].contains text
  | _ => false

end Lexeme

structure ExprFault where
  offset : Nat
  message : String

structure Placed where
  offset : Nat
  lexeme : Lexeme
  stop : Nat
  faults : List ExprFault := []

def keywords : List String :=
  ["break", "case", "chan", "const", "continue", "default", "defer", "else", "fallthrough", "for", "func", "go",
    "goto", "if", "import", "interface", "map", "package", "range", "return", "select", "struct", "switch", "type",
    "var"]

def marks : List String :=
  ["<<=", ">>=", "&^=", "...", "&&", "||", "<-", "++", "--", "==", "!=", "<=", ">=", ":=", "+=", "-=", "*=", "/=",
    "%=", "&=", "|=", "^=", "<<", ">>", "&^", "+", "-", "*", "/", "%", "&", "|", "^", "<", ">", "=", "!", "(", ")",
    "[", "]", "\x7b", "\x7d", ",", ";", ".", ":", "~"]

def isNameStart (c : Char) : Bool := c == '_' || Text.isLetter c

def isNameChar (c : Char) : Bool := isNameStart c || Text.isDecimalDigit c

def octetCount (cs : List Char) : Nat := Text.total (cs.map Text.octetSize)

inductive Base where
  | decimal | legacyOctal | octal | binary | hexadecimal
  deriving DecidableEq

namespace Base

def literalName : Base → String
  | decimal => "decimal literal"
  | legacyOctal | octal => "octal literal"
  | binary => "binary literal"
  | hexadecimal => "hexadecimal literal"

def limit : Base → Nat
  | decimal => 10
  | legacyOctal | octal => 8
  | binary => 2
  | hexadecimal => 16

def isDigit (b : Base) (c : Char) : Bool :=
  c == '_' || c.isDigit || (b == hexadecimal && (Text.hexValue? c).isSome)

end Base

structure NumberText where
  base : Base
  lead : List Char
  whole : List Char
  fraction : Option (List Char)
  exponent : Option (Char × List Char × List Char)
  isImaginary : Bool

namespace NumberText

def scan (cs : List Char) : NumberText × List Char :=
  let (base, lead, cs) : Base × List Char × List Char :=
    match cs with
    | '0' :: c :: rest =>
      match c.toLower with
      | 'x' => (.hexadecimal, ['0', c], rest)
      | 'o' => (.octal, ['0', c], rest)
      | 'b' => (.binary, ['0', c], rest)
      | _ => (.legacyOctal, [], cs)
    | '0' :: _ => (.legacyOctal, [], cs)
    | _ => (.decimal, [], cs)
  let whole := cs.takeWhile base.isDigit
  let (fraction, cs) : Option (List Char) × List Char :=
    match cs.dropWhile base.isDigit with
    | '.' :: rest => (some (rest.takeWhile base.isDigit), rest.dropWhile base.isDigit)
    | rest => (none, rest)
  let (exponent, cs) : Option (Char × List Char × List Char) × List Char :=
    match cs with
    | e :: rest =>
      if e.toLower == 'e' || e.toLower == 'p' then
        let sign := (rest.take 1).filter fun c => c == '+' || c == '-'
        let rest := rest.drop sign.length
        (some (e, sign, rest.takeWhile Base.decimal.isDigit), rest.dropWhile Base.decimal.isDigit)
      else (none, cs)
    | [] => (none, [])
  match cs with
  | 'i' :: rest => ({ base, lead, whole, fraction, exponent, isImaginary := true }, rest)
  | _ => ({ base, lead, whole, fraction, exponent, isImaginary := false }, cs)

def text (n : NumberText) : List Char :=
  n.lead ++ n.whole ++ (n.fraction.elim [] ('.' :: ·)) ++
    (n.exponent.elim [] fun (e, sign, digits) => e :: sign ++ digits) ++ if n.isImaginary then ['i'] else []

def sort (n : NumberText) : LiteralSort :=
  if n.isImaginary then .imaginary else if n.fraction.isSome || n.exponent.isSome then .float else .int

/-- The place of the first underscore that is not between two digits, given what stands before the text: a digit, an
underscore, or anything else as a point.  The name of a base counts as a digit. -/
def strayUnderscore? (isDigit : Char → Bool) (before : Char) (place : Nat) : List Char → Option Nat
  | [] => if before == '_' then some (place - 1) else none
  | c :: cs =>
    if c == '_' then if before == '0' then strayUnderscore? isDigit '_' (place + 1) cs else some place
    else if isDigit c then strayUnderscore? isDigit '0' (place + 1) cs
    else if before == '_' then some (place - 1)
    else strayUnderscore? isDigit '.' (place + 1) cs

def faults (n : NumberText) (offset : Nat) : List ExprFault :=
  let point := offset + n.lead.length + n.whole.length
  let mark := point + n.fraction.elim 0 (·.length + 1)
  let digits := n.whole ++ n.fraction.getD []
  let radix : List ExprFault :=
    if n.fraction.isSome && (n.base == .octal || n.base == .binary) then
      [⟨point, "invalid radix point in " ++ n.base.literalName⟩]
    else []
  let bare : List ExprFault :=
    if digits.any (· != '_') then [] else [⟨mark, n.base.literalName ++ " has no digits"⟩]
  let scale : List ExprFault :=
    match n.exponent with
    | some (e, sign, ds) =>
      (if e.toLower == 'e' && !(n.base == .decimal || n.base == .legacyOctal) then
        [⟨mark, Text.quotedRune e ++ " exponent requires decimal mantissa"⟩]
      else if e.toLower == 'p' && n.base != .hexadecimal then
        [⟨mark, Text.quotedRune e ++ " exponent requires hexadecimal mantissa"⟩]
      else []) ++
        if ds.any (· != '_') then [] else [⟨mark + 1 + sign.length + ds.length, "exponent has no digits"⟩]
    | none =>
      if n.base == .hexadecimal && n.fraction.isSome then
        [⟨mark, "hexadecimal mantissa requires a 'p' exponent"⟩]
      else []
  let odd : List ExprFault :=
    match n.whole.findIdx? fun c => (Text.hexValue? c).any (n.base.limit ≤ ·) with
    | some i =>
      if n.sort == .int then
        [⟨offset + n.lead.length + i,
          "invalid digit " ++ Text.quotedRune (n.whole.getD i '0') ++ " in " ++ n.base.literalName⟩]
      else []
    | none => []
  let isDigit (c : Char) : Bool := c.isDigit || (n.base == .hexadecimal && (Text.hexValue? c).isSome)
  let divided : List ExprFault :=
    match strayUnderscore? isDigit (if n.lead.isEmpty then '.' else '0') n.lead.length
      (n.text.drop n.lead.length) with
    | some i => [⟨offset + i, "'_' must separate successive digits"⟩]
    | none => []
  radix ++ bare ++ scale ++ odd ++ divided

end NumberText

/-- How many characters after a backslash, at an offset, belong to its escape, and what is wrong with it. -/
def escape (quote : Char) (offset : Nat) : List Char → Nat × Option ExprFault
  | [] => (0, some ⟨offset, "escape sequence not terminated"⟩)
  | c :: cs =>
    let digits (count base limit skipped : Nat) (cs : List Char) : Nat × Option ExprFault :=
      let good := (cs.take count).takeWhile fun d => (Text.hexValue? d).any (· < base)
      let length := skipped + good.length
      if good.length < count then
        match cs.drop good.length with
        | [] => (length, some ⟨offset + length, "escape sequence not terminated"⟩)
        | d :: _ =>
          (length, some ⟨offset + length, "illegal character " ++ Text.codePoint d ++ " in escape sequence"⟩)
      else
        let v := (Text.digitsValue? base good).getD 0
        if v > limit || (0xD800 ≤ v && v < 0xE000) then
          (length, some ⟨offset, "escape sequence is invalid Unicode code point"⟩)
        else (length, none)
    if c == quote || "abfnrtv\\".toList.contains c then (1, none)
    else if c == 'x' then digits 2 16 255 1 cs
    else if c == 'u' then digits 4 16 0x10FFFF 1 cs
    else if c == 'U' then digits 8 16 0x10FFFF 1 cs
    else if '0' ≤ c && c ≤ '7' then digits 3 8 255 0 (c :: cs)
    else (0, some ⟨offset, "unknown escape sequence"⟩)

structure QuotedBody where
  chars : List Char := []
  isClosed : Bool := false
  count : Nat := 0
  faults : List ExprFault := []

def quotedBody (quote : Char) : Nat → Nat → List Char → QuotedBody
  | 0, _, _ | _, _, [] => {}
  | fuel + 1, offset, c :: cs =>
    if c == '\n' then {}
    else if c == quote then { chars := [c], isClosed := true }
    else
      let (length, fault) := if c == '\\' then escape quote (offset + 1) cs else (0, none)
      let taken := c :: cs.take length
      let rest := quotedBody quote fuel (offset + octetCount taken) (cs.drop length)
      { chars := taken ++ rest.chars, isClosed := rest.isClosed, count := rest.count + 1
        faults := fault.toList ++ rest.faults }

structure Scanned where
  lexeme : Lexeme
  chars : List Char
  faults : List ExprFault := []

def isByteOrderMark (c : Char) : Bool := c.toNat == 0xFEFF

def scanLexeme (offset : Nat) (cs : List Char) : Scanned :=
  match cs with
  | [] => { lexeme := .stop, chars := [] }
  | c :: rest =>
    if isNameStart c then
      let word := cs.takeWhile isNameChar
      let text := String.ofList word
      { lexeme := if keywords.contains text then .keyword text else .name text, chars := word }
    else if c.isDigit || (c == '.' && rest.head?.any Char.isDigit) then
      let number := (NumberText.scan cs).1
      { lexeme := .literal number.sort (String.ofList number.text), chars := number.text,
        faults := number.faults offset }
    else if c == '"' then
      let body := quotedBody '"' (rest.length + 1) (offset + 1) rest
      { lexeme := .literal .string (String.ofList (c :: body.chars)), chars := c :: body.chars,
        faults := body.faults ++ if body.isClosed then [] else [⟨offset, "string literal not terminated"⟩] }
    else if c == '\'' then
      let body := quotedBody '\'' (rest.length + 1) (offset + 1) rest
      let shape : List ExprFault :=
        if !body.faults.isEmpty then []
        else if !body.isClosed then [⟨offset, "rune literal not terminated"⟩]
        else if body.count != 1 then [⟨offset, "illegal rune literal"⟩]
        else []
      { lexeme := .literal .rune (String.ofList (c :: body.chars)), chars := c :: body.chars,
        faults := body.faults ++ shape }
    else if c.toNat == 0x60 then
      let body := rest.takeWhile fun d => d.toNat != 0x60
      let closing := (rest.drop body.length).take 1
      let chars := c :: body ++ closing
      { lexeme := .literal .string (String.ofList (chars.filter (· != '\r'))), chars
        faults := if closing.isEmpty then [⟨offset, "raw string literal not terminated"⟩] else [] }
    else match marks.find? fun m => m.toList.isPrefixOf cs with
      | some m => { lexeme := .mark m, chars := m.toList }
      | none =>
        let message :=
          if c == '“' || c == '”' then
            "curly quotation mark " ++ Text.quotedRune c ++ " (use neutral " ++ Text.quotedRune '"' ++ ")"
          else "illegal character " ++ Text.codePoint c
        { lexeme := .illegal, chars := [c], faults := if isByteOrderMark c then [] else [⟨offset, message⟩] }

def isSpace (c : Char) : Bool := c == ' ' || c == '\t' || c == '\n' || c == '\r'

def commentBody : List Char → Option (List Char)
  | [] => none
  | '*' :: '/' :: _ => some ['*', '/']
  | c :: rest => (commentBody rest).map (c :: ·)

def misplaced (offset : Nat) : List Char → List ExprFault
  | [] => []
  | c :: cs =>
    (if c.toNat == 0 then [⟨offset, "illegal character NUL"⟩]
    else if isByteOrderMark c && offset > 0 then [⟨offset, "illegal byte order mark"⟩]
    else []) ++ misplaced (offset + Text.octetSize c) cs

/-- The faults of the characters behind the first `count` of a text up to the one that follows them: a character is
looked at when the one before it has been read. -/
def misplacedBehind (offset count : Nat) : List Char → List ExprFault
  | [] => []
  | c :: cs => if count = 0 then [] else misplaced (offset + Text.octetSize c) (cs.take count)

/-- Cuts a text at an offset.  `canEnd` says whether a line break counts here, `found` are the faults since the last
lexeme, and `fuel` bounds the number of steps. -/
def lexemesBy : Nat → Nat → Bool → List ExprFault → List Char → List Placed
  | 0, offset, _, found, _ => [⟨offset, .stop, offset, found⟩]
  | fuel + 1, offset, canEnd, found, cs =>
    let blanks := cs.takeWhile fun c => isSpace c && !(canEnd && c == '\n')
    let found := found ++ misplacedBehind offset blanks.length cs
    let offset := offset + blanks.length
    let cs := cs.drop blanks.length
    match cs with
    | [] =>
      if canEnd then ⟨offset, .newline, offset, found⟩ :: lexemesBy fuel offset false [] []
      else [⟨offset, .stop, offset, found⟩]
    | '\n' :: rest =>
      ⟨offset, .newline, offset + 1, found ++ misplacedBehind offset 1 cs⟩ ::
        lexemesBy fuel (offset + 1) false [] rest
    | '/' :: '/' :: rest =>
      let length := 2 + (rest.takeWhile (· != '\n')).length
      lexemesBy fuel (offset + octetCount (cs.take length)) canEnd (found ++ misplacedBehind offset length cs)
        (cs.drop length)
    | '/' :: '*' :: rest =>
      match commentBody rest with
      | some body =>
        let length := 2 + body.length
        let found := found ++ misplacedBehind offset length cs
        let after := offset + octetCount (cs.take length)
        match body.findIdx? (· == '\n') with
        | some i =>
          if canEnd then
            let break_ := offset + 2 + octetCount (body.take i)
            ⟨break_, .newline, break_ + 1, found⟩ :: lexemesBy fuel after false [] (cs.drop length)
          else lexemesBy fuel after false found (cs.drop length)
        | none => lexemesBy fuel after canEnd found (cs.drop length)
      | none =>
        let found := found ++ misplacedBehind offset cs.length cs ++ [⟨offset, "comment not terminated"⟩]
        lexemesBy fuel (offset + octetCount cs) canEnd found []
    | _ =>
      let s := scanLexeme offset cs
      let ends := if s.lexeme == .illegal then canEnd else s.lexeme.endsStatement
      let stop := offset + octetCount s.chars
      ⟨offset, s.lexeme, stop, found ++ misplacedBehind offset s.chars.length cs ++ s.faults⟩ ::
        lexemesBy fuel stop ends [] (cs.drop s.chars.length)

/-- The lexemes of a text, the last of which is its end.  A mark for the order of octets in front is passed over. -/
def lexemes (text : String) : List Placed :=
  let cs := text.toList
  let fuel := 3 * cs.length + 3
  match cs with
  | c :: rest =>
    if isByteOrderMark c then lexemesBy fuel (Text.octetSize c) false (misplacedBehind 0 1 cs) rest
    else lexemesBy fuel 0 false (misplaced 0 [c]) cs
  | [] => lexemesBy fuel 0 false [] []

end Covenant.Source
