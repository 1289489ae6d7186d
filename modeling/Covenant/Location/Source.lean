import Covenant.Disk.Host
import Covenant.Text.Quoted

/-!
# Where a contract document is

A location is a path, a file URL or something to fetch.  What it is follows from its look: a scheme or a getter named
in front, the name of a host with repositories or buckets, or else a path from the working directory.  Nothing is
fetched here: a location that would have to be is refused.
-/

namespace Covenant.Location

structure Url where
  scheme : String := ""
  host : String := ""
  path : String := ""

inductive UrlFault where
  | control | noScheme | colon
  | escape (text : String)
  | hostChar (c : Char)
  | port (text : String)
  | userinfo
  | bracket

def UrlFault.message : UrlFault → String
  | control => "net/url: invalid control character in URL"
  | noScheme => "missing protocol scheme"
  | colon => "first path segment in URL cannot contain colon"
  | escape text => "invalid URL escape " ++ Text.quoted text
  | hostChar c => "invalid character " ++ Text.quoted (String.singleton c) ++ " in host name"
  | port text => "invalid port " ++ Text.quoted text ++ " after host"
  | userinfo => "net/url: invalid userinfo"
  | bracket => "missing ']' in host"

def unescape : List Char → Except UrlFault (List UInt8)
  | [] => .ok []
  | '%' :: a :: b :: cs =>
    match Text.hexValue? a, Text.hexValue? b with
    | some x, some y => do return UInt8.ofNat (x * 16 + y) :: (← unescape cs)
    | _, _ => .error (.escape (String.ofList ['%', a, b]))
  | '%' :: cs => .error (.escape (String.ofList ('%' :: cs)))
  | c :: cs => do return Text.toOctets (String.singleton c) ++ (← unescape cs)

def splitScheme (cs : List Char) : Except UrlFault (Option (String × List Char)) :=
  let isSchemeChar (c : Char) : Bool := c.isAlphanum || c == '+' || c == '-' || c == '.'
  let word := cs.takeWhile isSchemeChar
  match cs.drop word.length with
  | ':' :: rest =>
    match word with
    | [] => .error .noScheme
    | c :: _ => if c.isAlpha then .ok (some (Text.lower (String.ofList word), rest)) else .ok none
  | _ => .ok none

def isHostChar (c : Char) : Bool :=
  c.isAlphanum || c.toNat ≥ 0x80 || "-_.~!$&'()*+,;=:[]<>\"".toList.contains c

def checkHost (host : List Char) : Except UrlFault Unit := do
  let (_, port) := match host.head? with
    | some '[' => (host, ((host.dropWhile (· != ']')).drop 1))
    | _ =>
      let tail := (host.reverse.takeWhile (· != ':')).reverse
      if tail.length < host.length then (host, ':' :: tail) else (host, [])
  if host.head? == some '[' && !host.contains ']' then throw .bracket
  if !port.isEmpty && !(port.head? == some ':' && (port.drop 1).all Char.isDigit) then
    throw (.port (String.ofList port))
  if let some c := host.find? fun c => c != '%' && !isHostChar c then throw (.hostChar c)
  match host.dropWhile (· != '%') with
  | [] => return ()
  | rest => if rest.take 3 == ['%', '2', '5'] then return () else throw (.escape (String.ofList (rest.take 3)))

def hostOf (authority : List Char) : Except UrlFault String := do
  let host := (authority.reverse.takeWhile (· != '@')).reverse
  let user := authority.take (authority.length - host.length - 1)
  if host.length < authority.length then
    let isUserChar (c : Char) : Bool := c.isAlphanum || "-._:~!$&'()*+,;=%@".toList.contains c
    if !user.all isUserChar then throw .userinfo
    let _ ← unescape user
  checkHost host
  return String.ofList host

def Url.read (cs : List Char) : Except UrlFault Url := do
  if cs.any fun c => c.toNat < 0x20 || c.toNat == 0x7f then throw .control
  let scheme? ← splitScheme cs
  let (scheme, rest) := scheme?.getD ("", cs)
  let rest := rest.takeWhile (· != '?')
  if rest.head? != some '/' then
    if !scheme.isEmpty then return { scheme }
    if (rest.takeWhile (· != '/')).contains ':' then throw .colon
  let isLocal := scheme.isEmpty && ['/', '/', '/'].isPrefixOf rest
  let (host, path) ← if ['/', '/'].isPrefixOf rest && !isLocal then do
      let authority := (rest.drop 2).takeWhile (· != '/')
      pure (← hostOf authority, rest.drop (2 + authority.length))
    else pure ("", rest)
  return { scheme, host, path := Text.ofOctets (← unescape path) }

/-- Reads a URL.  A fault names the text it was found in, which is that up to the fragment or all of it. -/
def Url.parse (s : String) : Except String Url := do
  let cs := s.toList.takeWhile (· != '#')
  let fault (text : List Char) (f : UrlFault) : String :=
    "parse " ++ Text.quoted (String.ofList text) ++ ": " ++ f.message
  let url ← (Url.read cs).mapError (fault cs)
  let _ ← (unescape (s.toList.drop (cs.length + 1))).mapError (fault s.toList)
  return url

def splitGetter (s : String) : String × String :=
  match Text.cut "::" s with
  | some (getter, rest) =>
    if !getter.isEmpty && getter.toList.all Char.isAlphanum && !rest.isEmpty && !rest.toList.contains '\n' then
      (getter, rest)
    else ("", s)
  | none => ("", s)

/-- Splits the part behind two slashes from a location, which names a directory inside it.  A query stays in front. -/
def splitInner (s : String) : String × String :=
  let cs := s.toList
  let front := cs.takeWhile (· != '?')
  let offset := match Text.cutChars "://".toList front with
    | some (scheme, _) => scheme.length + 3
    | none => 0
  match Text.cutChars "//".toList (front.drop offset) with
  | none => (s, "")
  | some (before, _) =>
    let start := cs.take (offset + before.length)
    let inner := cs.drop (offset + before.length + 2)
    let query := inner.dropWhile (· != '?')
    (String.ofList (start ++ query), String.ofList (inner.takeWhile (· != '?')))

structure Detected where
  getter : String := ""
  url : String
  /-- The directory inside what the URL names, if it was split from it. -/
  inner : String := ""

def Detected.text (d : Detected) : String :=
  (if d.getter.isEmpty then "" else d.getter ++ "::") ++ d.url ++ if d.inner.isEmpty then "" else "//" ++ d.inner

def detectRepository (host title src : String) : Option (Except String Detected) :=
  if !Text.hasPrefix (host ++ "/") src then none
  else
    let parts := Text.split '/' src
    if parts.length < 3 then some (.error (title ++ " URLs should be " ++ host ++ "/username/repo"))
    else
      let repository := Text.join "/" (parts.take 3)
      let path := if Text.hasSuffix ".git" repository then repository else repository ++ ".git"
      some (.ok { getter := "git", url := "https://" ++ Text.join "/" (path :: parts.drop 3) })

def detectBucket (src : String) : Option (Except String Detected) :=
  if !Text.contains ".amazonaws.com/" src then none
  else
    let parts := Text.split '/' src
    let path := Text.join "/" (parts.drop 1)
    let found (host rest : String) : Option (Except String Detected) :=
      some (.ok { getter := "s3", url := "https://" ++ host ++ ".amazonaws.com/" ++ rest })
    match Text.split '.' (parts.headD "") with
    | [region, _, _] => found region path
    | [bucket, region, _, _] => found region (bucket ++ "/" ++ path)
    | [bucket, "s3", region, _, _] => found ("s3-" ++ region) (bucket ++ "/" ++ path)
    | _ => some (.error "URL is not a valid S3 URL")

def detectObject (src : String) : Option (Except String Detected) :=
  if !Text.contains "googleapis.com/" src then none
  else
    let parts := Text.split '/' src
    if parts.length < 5 then some (.error "URL is not a valid GCS URL")
    else some (.ok { getter := "gcs", url := "https://www.googleapis.com/storage/" ++ Text.join "/" (parts.drop 2) })

def detectShell (src : String) : Option (Except String Detected) :=
  match Text.cut ":" src with
  | some (host, path) =>
    if Text.hasPrefix "git@" host && !path.isEmpty then
      some (.ok { getter := "git", url := "ssh://" ++ host ++ "/" ++ Text.trimStart "/" path })
    else none
  | none => none

def detectFile (working : Option String) (src : String) : Except String Detected :=
  if Path.isAbsolute src then .ok { url := "file://" ++ src }
  else match working with
    | some dir => .ok { url := "file://" ++ Path.join [dir, src] }
    | none => .error "relative paths require a module with a pwd"

def detect (working : Option String) (src : String) : Except String Detected :=
  let (getter, rest) := splitGetter src
  let (outer, inner) := splitInner rest
  match Url.parse outer with
  | .ok url =>
    if url.scheme.isEmpty then search getter outer inner else .ok { getter, url := rest }
  | .error _ => search getter outer inner
where
  search (getter outer inner : String) : Except String Detected := do
    if outer.isEmpty then throw ("invalid source string: " ++ src)
    let known := (detectRepository "github.com" "GitHub" outer).or <|
      (detectRepository "gitlab.com" "GitLab" outer).or <|
      (detectShell outer).or <| (detectBucket outer).or (detectObject outer)
    let found ← known.getD (detectFile working outer)
    return { found with getter := if getter.isEmpty then found.getter else getter, inner }

def getters : List String := ["file", "git", "gcs", "hg", "s3", "http", "https"]

def fetchFault (location : String) : String :=
  match detect none location with
  | .error text => text
  | .ok found =>
    let (outer, _) := splitInner found.url
    match Url.parse outer with
    | .error text => text
    | .ok url =>
      let getter := if found.getter.isEmpty then url.scheme else found.getter
      let parts := Text.split '/' url.path
      if !getters.contains getter then "download not supported for scheme '" ++ getter ++ "'"
      else if getter == "git" || getter == "hg" then getter ++ " must be available and on the PATH"
      else if getter == "s3" && parts.length < 3 then
        if Text.contains "amazonaws.com" url.host then "URL is not a valid S3 URL"
        else "URL is not a valid S3 compliant URL"
      else if getter == "gcs" && parts.length < 5 then "URL is not a valid GCS URL"
      else "no connection to " ++ url.host

structure Found where
  path : String
  location : String

def resolve (h : Host) (location : String) : Except Failure Found := do
  if (Text.trim location).isEmpty then
    throw ((Failure.badConfig "no IR document given").withHint "pass --ir or set ir in contractgen.toml")
  let expanded ← if Text.hasPrefix "~/" location then
      match h.home? with
      | some home => pure (Path.join [home, Text.trimStart "~/" location])
      | none => throw ((Failure.plain "$HOME is not defined").within "failed to expand home directory")
    else pure location
  let found ← (detect (some h.workingPath) expanded).mapError fun text =>
    (Failure.badConfig text).within ("failed to detect source type of " ++ location)
  let url ← (Url.parse (if found.getter.isEmpty then found.url else found.text)).mapError fun text =>
    (Failure.plain text).within "failed to parse detected URL"
  if url.scheme != "file" && !url.scheme.isEmpty then
    throw ((Failure.plain (fetchFault found.text)).within ("failed to fetch " ++ location))
  let named := if found.getter.isEmpty && !found.inner.isEmpty then url.path ++ "//" ++ found.inner else url.path
  let path := if Path.isAbsolute named then named else Path.join [h.workingPath, named]
  match h.find path with
  | .error e => throw ((DiskFault.toFailure ⟨"stat", [path], e⟩).within ("IR document " ++ location))
  | .ok (_, .directory) => throw (.badConfig ("IR document " ++ location ++ " is a directory"))
  | .ok (_, .file _) => return ⟨path, location⟩

end Covenant.Location
