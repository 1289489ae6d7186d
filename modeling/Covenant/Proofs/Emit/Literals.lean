import Covenant.Compile.Generate
import Covenant.Proofs.Text.Charset

/-!
# Reading literals

How the emitted languages read a literal in double quotes: up to a quote without a backslash, with an escape for each
character after a backslash and no line break in between.  Dart also refuses a bare dollar sign, which would start an
interpolation.  Reading gives back what was quoted, with replacement characters in place of strays.
-/

namespace Covenant.Emit

open Text
open List

def Language.quote : Language → String → String
  | .dart => Dart.quote
  | .typescript => TypeScript.quote

def Language.escapes : Language → List Char
  | .dart => ['$']
  | .typescript => []

variable {l : Language}

end Covenant.Emit
