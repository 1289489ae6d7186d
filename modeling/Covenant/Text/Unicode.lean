/-!
# Character classes of the Unicode standard

The general categories that the compiler asks about, as ranges of code points of the 15.0 edition: printable
characters (letters, marks, numbers, punctuation, symbols and the plain space), letters, upper and lower case
letters, decimal digits, blanks and control characters, and the simple lower case mapping.
-/

namespace Covenant.Text

/-- First and last code points of runs, from the lengths of what lies between them and of the runs themselves by
turns. -/
def runsOf (first : Nat) : List Nat → List (Nat × Nat)
  | gap :: length :: rest => (first + gap, first + gap + length - 1) :: runsOf (first + gap + length) rest
  | _ => []

/-- Letters at equal distances, each with the same distance to its lower case form. -/
structure CaseRun where
  first : Int
  last : Int
  step : Int
  up : Int

def CaseRun.has (r : CaseRun) (n : Int) : Bool := r.first ≤ n && n ≤ r.last && (n - r.first) % r.step == 0

/-- Runs from the gap before each, the number of its letters, their distance and the one to the lower case forms. -/
def caseRunsOf (first : Int) : List Int → List CaseRun
  | gap :: count :: step :: up :: rest =>
    let last := first + gap + (count - 1) * step
    ⟨first + gap, last, step, up⟩ :: caseRunsOf (last + 1) rest
  | _ => []

def caseRuns : List CaseRun :=
  caseRunsOf 0 [65,26,1,32,101,23,1,32,1,7,1,32,33,24,2,1,1,1,1,-199,1,3,2,1,2,8,2,1,2,23,2,1,1,1,1,-121,0,3,2,1,3,1,
    1,210,0,2,2,1,1,1,1,206,0,1,1,1,1,2,1,205,0,1,1,1,2,1,1,79,0,1,1,202,0,1,1,203,0,1,1,1,1,1,1,205,0,1,1,207,1,1,1,
    211,0,1,1,209,0,1,1,1,3,1,1,211,0,1,1,213,1,1,1,214,0,3,2,1,1,1,1,218,0,1,1,1,1,1,1,218,2,1,1,1,1,1,1,218,0,1,1,1,
    1,2,1,217,0,2,2,1,1,1,1,219,0,1,1,1,3,1,1,1,7,1,1,2,0,1,1,1,1,1,1,2,0,1,1,1,1,1,1,2,0,9,2,1,2,9,2,1,2,1,1,2,0,2,2,
    1,1,1,1,-97,0,1,1,-56,0,20,2,1,1,1,1,-130,1,9,2,1,7,1,1,10795,0,1,1,1,1,1,1,-163,0,1,1,10792,2,1,1,1,1,1,1,-195,0,
    1,1,69,0,1,1,71,0,5,2,1,289,2,2,1,3,1,1,1,8,1,1,116,6,1,1,38,1,3,1,37,1,1,1,64,1,2,1,63,1,17,1,32,1,9,1,32,35,1,1,
    8,8,12,2,1,5,1,1,-60,2,1,1,1,1,1,1,-7,0,1,1,1,2,3,1,-130,0,16,1,80,0,32,1,32,48,17,2,1,9,27,2,1,1,1,1,15,0,7,2,1,
    2,48,2,1,2,38,1,48,2889,38,1,7264,1,1,1,7264,5,1,1,7264,722,80,1,38864,0,6,1,8,2202,43,1,-3008,2,3,1,-3008,320,75,
    2,1,9,1,1,-7615,1,48,2,1,9,8,1,-8,8,6,1,-8,10,8,1,-8,8,8,1,-8,8,6,1,-8,11,4,2,-8,8,8,1,-8,24,8,1,-8,8,8,1,-8,8,8,
    1,-8,8,2,1,-8,0,2,1,-74,0,1,1,-9,11,4,1,-86,0,1,1,-9,11,2,1,-8,0,2,1,-100,12,2,1,-8,0,2,1,-112,0,1,1,-7,11,2,1,
    -128,0,2,1,-126,0,1,1,-9,297,1,1,-7517,3,1,1,-8383,0,1,1,-8262,6,1,1,28,45,16,1,16,19,1,1,1,818,26,1,26,1840,48,1,
    48,48,1,1,1,1,1,1,-10743,0,1,1,-3814,0,1,1,-10727,2,3,2,1,1,1,1,-10780,0,1,1,-10749,0,1,1,-10783,0,1,1,-10782,1,1,
    1,1,2,1,1,1,8,2,1,-10815,0,50,2,1,8,2,2,1,4,1,1,1,31053,23,2,1,19,14,2,1,135,7,2,1,3,31,2,1,10,2,2,1,1,1,1,-35332,
    0,5,2,1,4,1,1,1,1,1,1,-42280,2,2,2,1,3,10,2,1,1,1,1,-42308,0,1,1,-42319,0,1,1,-42315,0,1,1,-42305,0,1,1,-42308,1,
    1,1,-42258,0,1,1,-42282,0,1,1,-42261,0,1,1,928,0,8,2,1,1,1,1,-48,0,1,1,-42307,0,1,1,-35384,0,2,2,1,6,1,1,1,5,2,2,
    1,28,1,1,1,22315,26,1,32,1221,40,1,40,136,36,1,40,156,11,1,39,1,15,1,39,1,7,1,39,1,2,1,39,1770,51,1,64,3053,32,1,
    32,21888,32,1,32,31392,34,1,34]

/-- What has a form in the other case and is no letter of either: digraphs of which only the first part is a capital,
Roman numerals and letters in circles. -/
def uncasedRanges : List (Nat × Nat) :=
  runsOf 0 [453,1,2,1,2,1,38,1,7573,8,8,8,8,8,12,1,15,1,47,1,355,32,822,52]

def upperRanges : List (Nat × Nat) :=
  runsOf 0 [978,3,7469,1,4,1,3,3,2,3,2,1,3,5,6,1,3,1,3,2,2,2,1,1,10,2,5,1,111290,26,26,26,26,26,26,1,1,2,2,1,2,2,2,4,
    1,8,26,26,26,2,1,4,2,8,1,7,27,2,1,4,1,5,1,1,3,7,27,26,26,26,26,26,26,26,26,26,26,26,30,25,33,25,33,25,33,25,33,25,
    33,1]

def lowerRanges : List (Nat × Nat) :=
  runsOf 0 [181,1,123,1,6,1,16,1,53,1,13,1,13,1,14,2,14,1,3,1,49,1,48,1,18,6,27,1,2,1,1,1,2,3,2,1,1,1,2,1,5,2,1,1,2,2,
    1,7,1,2,1,1,2,3,6,5,1,1,1,8,2,17,224,1,31,1,17,1,13,2,3,2,25,2,3,1,6,1,355,1,38,2,5879,9,119,44,63,13,2,3,1,16,1,
    12,251,8,1,1,176,1,1,1,1,1,1,1,91,1,1,1,1,2,6,1,3,1,1,1,1,2,10,2,2,2,10,3,1,2,10,1,1,1,1,2,274,1,3,2,3,1,27,1,4,1,
    4,1,2,2,8,4,2855,1,2,1,2,5,104,1,31307,2,63,8,21,1,6,1,25,1,35,1,1,1,36,1,821,35,1,7,5,9,20375,7,12,5,55554,26,26,
    7,1,18,26,26,26,4,1,1,1,7,1,11,26,26,26,26,26,26,26,26,26,26,26,26,26,26,26,26,26,28,28,25,1,6,26,25,1,6,26,25,1,
    6,26,25,1,6,26,25,1,6,1,1,1844,10,1,20,6,6]

/-- Runs of letters: all of them but upper and lower case letters, which may stand in between. -/
def letterRanges : List (Nat × Nat) :=
  runsOf 0 [170,1,15,1,256,263,4,12,14,5,7,1,1,1,133,1,5,1,478,1,118,27,4,4,45,43,35,2,1,99,1,1,15,2,7,2,10,3,2,1,16,
    1,1,30,29,89,11,1,24,33,9,2,4,1,5,22,4,1,9,1,3,1,23,25,7,11,5,24,1,6,17,42,58,54,3,1,18,1,7,10,15,16,4,8,2,2,2,22,
    1,7,1,1,3,4,3,1,16,1,13,2,1,3,14,2,10,1,8,6,4,2,2,22,1,7,1,2,1,2,1,2,31,4,1,1,19,3,16,9,1,3,1,22,1,7,1,2,1,5,3,1,
    18,1,15,2,23,1,11,8,2,2,2,22,1,7,1,2,1,5,3,1,30,2,1,3,15,1,17,1,1,6,3,3,1,4,3,2,1,1,1,2,3,2,3,3,3,12,22,1,52,8,1,
    3,1,23,1,16,3,1,26,3,2,1,2,2,30,1,4,8,1,3,1,23,1,10,1,5,3,1,31,2,1,2,15,2,17,9,1,3,1,41,2,1,16,1,5,3,8,3,24,6,5,
    18,3,24,1,9,1,1,2,7,58,48,1,2,12,7,58,2,1,1,1,5,1,24,1,1,1,10,1,2,9,1,2,5,1,1,21,4,32,1,63,8,1,36,27,5,115,43,20,
    1,16,6,4,4,3,1,3,2,7,3,4,13,12,1,109,333,1,4,2,7,1,1,1,4,2,41,1,4,2,33,1,4,2,7,1,1,1,4,2,15,1,57,1,4,2,67,37,16,
    113,620,2,17,1,26,5,75,6,8,7,18,13,19,14,18,14,13,1,3,15,52,35,1,4,1,67,89,7,5,2,34,1,1,5,70,10,31,49,30,2,5,11,
    44,4,26,54,23,9,53,82,1,93,47,17,8,54,30,13,2,10,44,26,36,41,3,10,36,107,4,1,6,1,2,3,1,49,148,456,40,12,1,15,1,47,
    1,116,1,13,1,16,13,152,4,2883,2,178,56,7,1,16,23,9,7,1,7,1,7,1,7,1,7,1,7,1,7,1,7,80,1,469,2,42,5,5,2,4,86,6,3,1,
    90,1,4,5,43,1,94,17,32,48,16,512,6592,64,22157,67,46,2,269,3,16,10,2,66,1,16,31,2,70,49,9,80,25,6,1,98,16,1,3,1,4,
    1,23,29,52,14,50,62,6,3,1,1,2,11,28,10,23,25,29,7,47,28,1,16,5,1,10,10,5,1,41,23,3,1,8,20,23,3,1,3,50,1,1,3,2,2,5,
    2,1,1,1,24,3,2,11,7,3,12,6,2,6,2,6,9,7,1,7,45,14,86,35,29,11172,12,23,4,49,8452,366,2,106,67,1,1,10,1,13,1,5,1,1,
    1,2,1,2,1,108,33,363,18,64,2,54,40,12,116,5,1,135,105,89,3,6,2,6,2,6,2,3,35,12,1,26,1,19,1,2,1,15,2,14,34,123,389,
    29,3,49,47,32,13,20,1,8,6,38,10,30,2,36,4,8,128,78,98,40,8,52,156,311,9,22,10,8,24,6,1,42,1,9,69,6,2,1,1,44,1,2,3,
    1,2,23,10,23,9,31,65,19,1,2,10,22,10,26,70,56,6,2,64,1,15,4,1,3,1,29,42,29,3,29,35,8,1,28,27,54,10,22,10,19,13,18,
    110,73,183,36,348,42,6,2,78,29,10,1,8,22,42,18,46,21,27,23,12,53,57,2,2,1,13,45,32,25,26,36,29,1,2,1,8,35,3,1,12,
    48,14,4,21,1,1,1,35,18,1,25,19,2,63,7,1,1,1,4,1,15,1,10,7,47,38,8,2,2,2,22,1,7,1,2,1,5,3,1,18,1,12,5,158,53,18,4,
    20,3,30,48,20,2,1,1,184,47,41,4,36,48,20,1,59,43,13,1,71,27,37,7,185,44,211,8,2,1,2,8,1,2,1,24,15,1,1,1,94,8,2,39,
    16,1,1,1,28,1,10,40,7,1,21,1,11,46,19,1,18,73,263,9,1,37,17,1,49,30,112,7,1,2,1,38,21,1,25,6,1,2,1,32,14,1,327,19,
    15,1,1,13,1,34,124,1,79,922,230,196,2636,97,15,1072,17,6,4025,583,8633,569,7,31,17,79,17,30,18,48,16,4,31,21,5,19,
    880,75,5,1,66,13,64,2,1,1,28,6136,8,1238,42,9,8935,4,1,7,1,2,1,291,15,1,29,3,2,1,14,4,8,396,2308,107,5,13,3,9,7,
    10,8816,1,293,62,146,45,10,7,16,1,321,30,18,44,484,28,756,7,1,4,1,2,1,15,1,197,134,1,1204,4,1,27,1,2,1,1,2,1,1,10,
    1,4,1,1,1,1,6,1,4,1,1,1,1,1,1,3,1,2,1,1,2,1,1,1,1,1,1,1,1,1,1,2,1,1,2,4,1,7,1,4,1,4,1,1,1,10,1,17,5,3,1,5,1,17,
    4420,42720,32,4154,6,222,2,5762,14,7473,3103,542,1506,4939,5,4192]

def digitRanges : List (Nat × Nat) :=
  runsOf 0 [48,10,1574,10,134,10,198,10,412,10,118,10,118,10,118,10,118,10,118,10,118,10,118,10,118,10,118,10,96,10,
    118,10,70,10,278,10,70,10,1862,10,38,10,300,10,128,10,166,10,6,10,182,10,86,10,134,10,6,10,35270,10,678,10,38,10,
    198,10,22,10,86,10,406,10,21270,10,1414,10,2182,10,812,10,128,10,60,10,144,10,278,10,342,10,118,10,374,10,102,10,
    102,10,422,10,102,10,758,10,246,10,70,10,422,10,19206,10,86,10,134,10,27764,50,2368,10,422,10,502,10,1110,10,4758,
    10]

/-- Runs of printable characters: all of them but letters and digits, which may stand in between. -/
def printableRanges : List (Nat × Nat) :=
  runsOf 0 [32,95,34,12,1,712,8,1,5,4,110,148,208,49,2,3,1,55,43,2,17,22,1,192,1,48,3,58,91,11,58,15,3,49,2,15,26,3,2,
    1,41,1,15,74,1,161,56,9,2,2,2,3,9,1,10,2,14,13,2,3,56,1,1,5,4,2,2,3,3,1,30,7,10,3,56,10,1,3,1,3,20,2,12,2,8,6,1,3,
    56,9,2,2,2,3,7,3,10,2,12,8,10,1,59,5,3,3,1,4,9,1,24,11,5,5,55,9,1,3,1,4,7,2,11,2,19,14,55,9,1,3,1,4,7,2,11,2,15,1,
    12,4,55,10,1,3,1,6,7,13,12,10,7,3,70,1,4,6,1,1,1,8,18,3,60,10,4,29,85,12,11,7,50,63,49,39,1,36,1,15,1,13,80,117,
    91,1,609,32,19,10,102,623,44,2,78,6,33,4,28,5,27,2,30,2,64,42,18,10,6,14,1,1,117,37,118,12,4,12,4,1,3,2,148,1,3,
    62,2,65,1,29,2,1,32,14,2,31,49,69,21,37,1,116,8,60,3,5,62,2,64,8,8,42,198,64,445,5,11,3,13,19,13,2,17,24,8,47,17,
    1,3,27,17,33,15,33,15,140,4,663,25,11,21,1812,2,32,1,347,7,7,112,1,14,1,96,126,34,26,1,89,12,214,26,12,5,63,89,99,
    148,84,28,31,1,7136,22160,55,55,274,95,137,8,139,119,43,3,10,58,4,8,70,8,2,16,116,11,1,32,78,16,8,67,14,12,11,14,
    102,28,25,100,17,119,11,20272,12,136,17,379,18,127,1,44,30,6,51,1,19,1,4,149,101,122,7,1,7,13,2,258,3,4,45,3,88,1,
    13,3,1,47,46,226,28,36,4,29,10,43,5,36,1,48,6,409,1,743,41,39,9,75,33,3,1,31,1,124,20,2,50,1,2,5,4,40,3,4,10,7,9,
    36,35,40,31,4,12,66,7,24,8,24,8,25,4,12,7,330,46,312,31,44,3,79,42,31,20,40,8,59,7,52,78,4,35,10,62,1,5,61,53,11,
    7,44,3,10,96,1,20,55,22,103,1,53,12,21,4,55,10,2,2,2,3,9,1,10,2,2,7,3,5,192,39,1,2,81,23,232,7,2,38,82,20,28,13,
    62,15,99,15,14,6,236,16,174,9,61,6,1,2,2,12,138,7,2,11,28,71,9,82,93,10,293,8,1,14,20,19,3,2,32,22,1,14,122,6,3,1,
    1,2,1,9,66,5,1,2,1,5,347,6,7,4,48,7,3,18,112,50,13,1,1024,111,1,5,2940,2,1101,22,13848,2,128,6,58,22,21,7,798,27,
    180,57,7,4,79,3,11,2,19626,4,4704,46,2,23,9,116,60,246,10,39,2,74,8,112,21,70,122,20,12,20,12,87,9,25,840,259,60,
    652,15,5,1,15,1360,7,1,17,2,7,1,2,1,5,100,1,160,7,24,1,350,1,61,4,15,1,492,4,983,16,109,7,19,2,785,68,76,61,434,2,
    270,44,4,100,12,15,2,15,1,15,1,37,10,174,56,29,13,44,4,9,7,2,14,6,154,984,4,17,3,13,3,119,4,95,6,12,4,1,15,12,4,
    56,8,10,6,40,8,30,2,2,78,340,12,14,2,13,3,9,7,46,1,7,8,14,4,9,7,9,7,147,1,55,787765,240]

def inRanges (table : List (Nat × Nat)) (n : Nat) : Bool := table.any fun r => r.1 ≤ n && n ≤ r.2

def lowering? (c : Char) : Option CaseRun := caseRuns.find? (·.has c.toNat)

def raising? (c : Char) : Option CaseRun := caseRuns.find? fun r => r.has (c.toNat - r.up)

def isUpperCase (c : Char) : Bool :=
  if c.toNat < 128 then c.isUpper
  else ((lowering? c).isSome && !inRanges uncasedRanges c.toNat) || inRanges upperRanges c.toNat

def isLowerCase (c : Char) : Bool :=
  if c.toNat < 128 then c.isLower
  else ((raising? c).isSome && !inRanges uncasedRanges c.toNat) || inRanges lowerRanges c.toNat

def isLetter (c : Char) : Bool :=
  if c.toNat < 128 then c.isAlpha else isUpperCase c || isLowerCase c || inRanges letterRanges c.toNat

def isDecimalDigit (c : Char) : Bool :=
  if c.toNat < 128 then c.isDigit else inRanges digitRanges c.toNat

def isPrintable (c : Char) : Bool :=
  if c.toNat < 128 then 32 ≤ c.toNat && c.toNat < 127
  else isLetter c || isDecimalDigit c || inRanges printableRanges c.toNat

/-- Characters with the white space property: the six of ASCII, next line, no-break space and the separators. -/
def isBlank (c : Char) : Bool :=
  let n := c.toNat
  (9 ≤ n && n ≤ 13) || n == 32 || n == 133 || n == 160 || n == 5760 || (8192 ≤ n && n ≤ 8202) ||
    n == 8232 || n == 8233 || n == 8239 || n == 8287 || n == 12288

def isControl (c : Char) : Bool :=
  c.toNat < 32 || (127 ≤ c.toNat && c.toNat ≤ 159)

def toLowerCase (c : Char) : Char :=
  if c.toNat < 128 then c.toLower
  else match lowering? c with
    | some r => Char.ofNat (c.toNat + r.up).toNat
    | none => c

def lower (s : String) : String := s.map toLowerCase

def toUpperCase (c : Char) : Char :=
  if c.toNat < 128 then c.toUpper
  else match raising? c with
    | some r => Char.ofNat (c.toNat - r.up).toNat
    | none => c

def upper (s : String) : String := s.map toUpperCase

end Covenant.Text
