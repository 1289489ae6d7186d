import Covenant.Number.Double
import Covenant.Text.Unicode

/-!
# Texts

Operations on text that many parts share.  Each is a function on the list of characters with a thin form on `String`,
so that facts about it come from facts about lists.  Texts are ordered by code points, or in a natural order: numbers
inside of them are compared by their value, and letters come after everything else, except behind a digit.
-/

namespace Covenant.Text

def splitChars (sep : Char) : List Char → List (List Char)
  | [] => [[]]
  | c :: cs =>
    if c = sep then [] :: splitChars sep cs
    else match splitChars sep cs with
      | [] => [[c]]
      | piece :: pieces => (c :: piece) :: pieces

def split (sep : Char) (s : String) : List String := (splitChars sep s.toList).map String.ofList

def runs (p : Char → Bool) : List Char → List (List Char)
  | [] => []
  | c :: cs =>
    if p c then
      match cs with
      | [] => [[c]]
      | d :: _ =>
        if p d then
          match runs p cs with
          | [] => [[c]]
          | run :: rest => (c :: run) :: rest
        else [c] :: runs p cs
    else runs p cs

def cutChars (sep : List Char) : List Char → Option (List Char × List Char)
  | [] => if sep.isEmpty then some ([], []) else none
  | c :: cs =>
    if sep.isPrefixOf (c :: cs) then some ([], (c :: cs).drop sep.length)
    else (cutChars sep cs).map fun (before, after) => (c :: before, after)

def cut (sep s : String) : Option (String × String) :=
  (cutChars sep.toList s.toList).map fun (before, after) => (String.ofList before, String.ofList after)

def hasPrefix (start s : String) : Bool := start.toList.isPrefixOf s.toList

def hasSuffix (stop s : String) : Bool := stop.toList.isSuffixOf s.toList

def trimStart (start s : String) : String :=
  if hasPrefix start s then String.ofList (s.toList.drop start.length) else s

def trimStop (stop s : String) : String :=
  if hasSuffix stop s then String.ofList (s.toList.take (s.length - stop.length)) else s

def containsChars (part : List Char) : List Char → Bool
  | [] => part.isEmpty
  | c :: cs => part.isPrefixOf (c :: cs) || containsChars part cs

def contains (part s : String) : Bool := containsChars part.toList s.toList

def trimRightChars (p : Char → Bool) (cs : List Char) : List Char := (cs.reverse.dropWhile p).reverse

def trimChars (p : Char → Bool) (cs : List Char) : List Char := trimRightChars p (cs.dropWhile p)

def trim (s : String) : String := String.ofList (trimChars isBlank s.toList)

def trimRight (p : Char → Bool) (s : String) : String := String.ofList (trimRightChars p s.toList)

def join (sep : String) (parts : List String) : String := sep.intercalate parts

def repeated (n : Nat) (s : String) : String := String.join (List.replicate n s)

def insertBy {α : Type} (le : α → α → Bool) (a : α) : List α → List α
  | [] => [a]
  | b :: bs => if le a b then a :: b :: bs else b :: insertBy le a bs

def sortBy {α : Type} (le : α → α → Bool) : List α → List α
  | [] => []
  | a :: as => insertBy le a (sortBy le as)

def before (a b : String) : Bool := decide (a ≤ b)

def sorted (texts : List String) : List String := sortBy before texts

def sortedSet (texts : List String) : List String := sorted texts.eraseDups

def sortedByKey {α : Type} (entries : List (String × α)) : List (String × α) :=
  sortBy (fun a b => before a.1 b.1) entries

/-- Characters that are small letters by themselves, with the small letters they are variants of. -/
def variants : List (Char × Char) :=
  [('ſ', 's'), ('µ', 'μ'), ('\u0345', 'ι'), ('\u1FBE', 'ι'), ('ς', 'σ'), ('ϐ', 'β'), ('ϑ', 'θ'), ('ϕ', 'φ'),
    ('ϖ', 'π'), ('ϰ', 'κ'), ('ϱ', 'ρ'), ('ϵ', 'ε'), ('ẛ', 'ṡ'), ('ᲀ', 'в'), ('ᲁ', 'д'), ('ᲂ', 'о'), ('ᲃ', 'с'),
    ('ᲄ', 'т'), ('ᲅ', 'т'), ('ᲆ', 'ъ'), ('ᲇ', 'ѣ'), ('ᲈ', 'ꙋ')]

/-- A character without its case.  The capital I with a dot has none. -/
def foldCase (c : Char) : Char := if c = 'İ' then c else (variants.lookup c).getD (toLowerCase c)

def equalFold (a b : String) : Bool := a.toList.map foldCase == b.toList.map foldCase

def total (sizes : List Nat) : Nat := sizes.foldr (· + ·) 0

def byteLength (s : String) : Nat := s.utf8ByteSize

def indent (s : String) (level : Int) (unit : String) : String :=
  if level ≤ 0 then s
  else join "\n" ((split '\n' s).map fun line =>
    if line.isEmpty then line else repeated level.toNat unit ++ line)

def joinBlocks (blocks : List String) : String :=
  join "\n\n" ((blocks.filter fun b => !(trim b).isEmpty).map (trimRight (· == '\n')))

def isIdentifierStart (c : Char) : Bool := c == '_' || c.isAlpha

def isIdentifierChar (c : Char) : Bool := c == '_' || c.isAlphanum

def isIdentifierChars : List Char → Bool
  | [] => false
  | c :: cs => isIdentifierStart c && cs.all isIdentifierChar

def isIdentifier (s : String) : Bool := isIdentifierChars s.toList

/-- How many leading characters are lowered: all of one capital or of a word of capitals, otherwise a leading acronym
without the capital that starts the next word.  An `s` after the acronym is its plural and starts no word. -/
def loweredCount (cs : List Char) : Nat :=
  let capitals := (cs.takeWhile isUpperCase).length
  match cs.drop capitals with
  | [] => capitals
  | next :: _ =>
    if capitals ≤ 1 then capitals
    else if isLowerCase next && next != 's' then capitals - 1
    else capitals

def lowerCamelChars (cs : List Char) : List Char :=
  (cs.take (loweredCount cs)).map toLowerCase ++ cs.drop (loweredCount cs)

/-- The lower camel case form of a name: `ID` gives `id`, `HTTPServer` gives `httpServer`, `URLs` gives `urls`. -/
def lowerCamel (s : String) : String := String.ofList (lowerCamelChars s.toList)

def capitalized : List Char → List Char
  | [] => []
  | c :: cs => c.toUpper :: cs

/-- The first word in lower camel case and the others capitalized, with an `n` in front of a leading digit. -/
def identifierOfWords : List (List Char) → List Char
  | [] => []
  | first :: rest =>
    match lowerCamelChars first ++ rest.flatMap capitalized with
    | [] => []
    | c :: cs => if c.isDigit then 'n' :: c :: cs else c :: cs

/-- The identifier of a wire name; empty if the name has no character that an identifier may hold. -/
def toIdentifier (s : String) : String := String.ofList (identifierOfWords (runs isIdentifierChar s.toList))

def wideRanges : List (Nat × Nat) :=
  runsOf 0 [4352,96,4538,2,13,2,190,4,3,1,2,1,521,2,21,2,50,12,43,1,19,1,13,1,8,2,17,2,5,2,8,1,5,1,21,1,7,2,1,1,4,1,2,
    1,7,1,4,2,28,1,35,1,1,1,4,3,1,1,61,3,24,1,14,1,859,2,51,1,4,1,810,26,1,89,12,214,26,79,2,86,2,103,5,43,1,94,1,84,
    11,48,1,40,8,7024,64,22157,3,55,1177,29,643,11172,8540,512,784,10,22,35,1,19,1,4,149,96,127,7,28665,5,27,7382,
    8986,780,15624,1,202,1,190,1,2,10,101,102,154,33,12,9,1,70,1,22,12,43,4,5,12,17,3,1,3,71,1,1,1,187,2,63,13,4,1,24,
    18,1,26,2,13,1,86,85,48,70,6,1,3,3,2,3,4,4,11,2,7,9,227,12,4,1,283,47,1,10,1,185,112,137,1287,65534,2,65534]

def markRanges : List (Nat × Nat) :=
  runsOf 0 [768,112,275,7,263,45,1,1,1,2,1,2,1,1,72,11,48,21,16,1,101,7,2,6,2,2,1,4,35,1,30,27,437,4,54,3,1,18,1249,1,
    2,7,12,8,3169,31,753,64,523,5,24,7,49,16,96,33,3897,6,105,2,52581,16,16,16,207,1,852480,240]

def charWidth (c : Char) : Nat :=
  if isControl c || inRanges markRanges c.toNat then 0 else if inRanges wideRanges c.toNat then 2 else 1

def width (s : String) : Nat := total (s.toList.map charWidth)

def runValue (carry : Nat) (digits : List Char) : Int :=
  Int.bmod (digits.foldl (fun n c => n * 10 + ((c.toNat : Int) - 48)) (carry : Int)) Number.wordBound

/-- Compares two texts from the place where they differ; `before` holds the common characters in front of it, the
nearest first. -/
def differ (before : List Char) (x : Char) (xs : List Char) (y : Char) (ys : List Char) : Bool :=
  let digits := before.head?.any isDecimalDigit
  match isLetter x, isLetter y with
  | true, true => x < y
  | true, false => digits
  | false, true => !digits
  | false, false =>
    let number := before.takeWhile isDecimalDigit
    let carry := if (x == '0' || y == '0') && number.any (· != '0') then 1 else 0
    let a := (x :: xs).takeWhile isDecimalDigit
    let b := (y :: ys).takeWhile isDecimalDigit
    if runValue carry a ≠ runValue carry b then runValue carry a < runValue carry b
    else if a.length ≠ b.length then a.length < b.length
    else x < y

def naturalLess (before : List Char) : List Char → List Char → Bool
  | [], ys => !ys.isEmpty
  | _, [] => false
  | x :: xs, y :: ys => if x == y then naturalLess (x :: before) xs ys else differ before x xs y ys

def naturallySorted {α : Type} (entries : List (String × α)) : List (String × α) :=
  sortBy (fun a b => !naturalLess [] b.1.toList a.1.toList) entries

end Covenant.Text
