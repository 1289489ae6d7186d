import Covenant.Disk.Host
import Covenant.Tool.Edit

/-!
# Tools

Commands that formatters are made of, and the part of shell scripts that a one-line formatter needs.  A tool changes
files, says something and ends with a status, which is zero if all went well.
-/

namespace Covenant.Tool

inductive Link where
  | always | ifSucceeded | ifFailed

inductive Sink where
  | screen
  | file (path : String) (append : Bool)
  deriving DecidableEq

inductive ShellToken where
  | word (text : String)
  | link (l : Link)
  | redirect (append : Bool)

structure ShellCommand where
  link : Link
  words : List String
  sink : Sink

structure OpenToken where
  chars : List Char := []
  isBegun : Bool := false

variable (args : List String) (h : Host)

def parameter (c : Char) : Option String :=
  if c.isDigit then some (args[c.toNat - '0'.toNat]?.getD "")
  else if c == '@' || c == '*' then some (Text.join " " (args.drop 1))
  else if c == '#' then some (toString (args.length - 1))
  else none

inductive ShellQuote where
  | none | single | double
  deriving DecidableEq

def shellTokens (args : List String) (quote : ShellQuote) (open_ : OpenToken) : List Char → Option (List ShellToken)
  | [] => if quote == .none then some (close open_) else none
  | c :: cs =>
    let add (chars : List Char) : OpenToken := ⟨chars.reverse ++ open_.chars, true⟩
    let next (q : ShellQuote) (o : OpenToken) := shellTokens args q o cs
    let then_ (tokens : List ShellToken) : Option (List ShellToken) :=
      (next .none {}).map (close open_ ++ tokens ++ ·)
    match quote with
    | .single => if c == '\'' then next .none (add []) else next .single (add [c])
    | .double =>
      if c == '"' then next .none (add [])
      else match c, cs with
        | '\\', d :: rest =>
          shellTokens args .double (add (if d == '"' || d == '\\' || d == '$' then [d] else ['\\', d])) rest
        | '$', d :: rest =>
          match parameter args d with
          | some value => shellTokens args .double (add value.toList) rest
          | none => next .double (add [c])
        | _, _ => next .double (add [c])
    | .none =>
      if c == '\'' then next .single (add [])
      else if c == '"' then next .double (add [])
      else if c == ' ' || c == '\t' then then_ []
      else if c == ';' || c == '\n' then then_ [.link .always]
      else match c, cs with
        | '\\', d :: rest => shellTokens args .none (add [d]) rest
        | '&', '&' :: rest => (shellTokens args .none {} rest).map (close open_ ++ [.link .ifSucceeded] ++ ·)
        | '|', '|' :: rest => (shellTokens args .none {} rest).map (close open_ ++ [.link .ifFailed] ++ ·)
        | '>', '>' :: rest => (shellTokens args .none {} rest).map (close open_ ++ [.redirect true] ++ ·)
        | '>', _ => then_ [.redirect false]
        | '$', d :: rest =>
          match parameter args d with
          | some value => shellTokens args .none (add value.toList) rest
          | none => next .none (add [c])
        | _, _ => next .none (add [c])
where
  close (o : OpenToken) : List ShellToken := if o.isBegun then [.word (String.ofList o.chars.reverse)] else []

def shellCommands (link : Link) (words : List String) (sink : Sink) : List ShellToken → List ShellCommand
  | [] => if words.isEmpty && sink == .screen then [] else [⟨link, words, sink⟩]
  | .word w :: rest => shellCommands link (words ++ [w]) sink rest
  | .redirect append :: .word path :: rest => shellCommands link words (.file path append) rest
  | .redirect _ :: rest => shellCommands link words sink rest
  | .link l :: rest =>
    (if words.isEmpty && sink == .screen then [] else [⟨link, words, sink⟩]) ++ shellCommands l [] .screen rest

def readScript (script : String) : Option (List ShellCommand) :=
  (shellTokens args .none {} script.toList).map (shellCommands .always [] .screen)

structure Result where
  host : Host
  output : String := ""
  status : Nat := 0

def isOption (s : String) : Bool := Text.hasPrefix "-" s && s.length > 1

def hasFlag (options : List String) (flag : Char) : Bool := options.any fun o => o.toList.contains flag

def removeAll : Result :=
  let (options, paths) := args.partition isOption
  let isForced := hasFlag options 'f'
  let isDeep := hasFlag options 'r' || hasFlag options 'R'
  if paths.isEmpty then ⟨h, "", if isForced then 0 else 1⟩
  else paths.foldl (fun (r : Result) path =>
    match r.host.find path with
    | .ok (place, .file _) => { r with host := { r.host with disk := r.host.disk.erase place } }
    | .ok (place, .directory) =>
      if isDeep then { r with host := { r.host with disk := r.host.disk.prune place } } else { r with status := 1 }
    | .error _ => if isForced then r else { r with status := 1 }) ⟨h, "", 0⟩

def copyFile (source dest : String) : Option Host := do
  let .ok (from_, .file content) := h.find source | none
  let path := match h.find dest with
    | .ok (_, .directory) => Host.below dest (Path.base source)
    | _ => dest
  let isSame := match h.find path with
    | .ok (goal, _) => goal == from_
    | .error _ => false
  if isSame then none
  else (h.disk.writeFile h.here path content).toOption.map fun d => { h with disk := d }

def copy : Result :=
  let paths := args.filter (!isOption ·)
  let dest := paths.getLastD ""
  let sources := paths.dropLast
  let isDirectory := (h.find dest) matches .ok (_, .directory)
  if sources.isEmpty || (sources.length > 1 && !isDirectory) then ⟨h, "", 1⟩
  else sources.foldl (fun (r : Result) source =>
    match copyFile r.host source dest with
    | some h => { r with host := h }
    | none => { r with status := 1 }) ⟨h, "", 0⟩

def move : Result :=
  let paths := args.filter (!isOption ·)
  let dest := paths.getLastD ""
  if paths.length < 2 then ⟨h, "", 1⟩
  else paths.dropLast.foldl (fun (r : Result) source =>
    let path := match r.host.find dest with
      | .ok (_, .directory) => Host.below dest (Path.base source)
      | _ => dest
    match r.host.disk.rename r.host.here source path with
    | .ok d => { r with host := { r.host with disk := d } }
    | .error _ => { r with status := 1 }) ⟨h, "", 0⟩

def concatenate : Result :=
  args.foldl (fun (r : Result) path =>
    match h.readFile path with
    | .ok content => { r with output := r.output ++ content }
    | .error _ => { r with status := 1 }) ⟨h, "", 0⟩

def touch : Result :=
  args.foldl (fun (r : Result) path =>
    if r.host.exists_ path then r
    else match r.host.disk.writeFile r.host.here path "" with
      | .ok d => { r with host := { r.host with disk := d } }
      | .error _ => { r with status := 1 }) ⟨h, "", 0⟩

/-- The options of an edit: whether files are changed in place, what is added to the names of their old versions, the
script, and the files. -/
structure EditCall where
  inPlace : Bool := false
  suffix : String := ""
  scripts : List String := []
  files : List String := []

def readEditCall (call : EditCall) : List String → EditCall
  | [] => call
  | "-e" :: script :: rest => readEditCall { call with scripts := call.scripts ++ [script] } rest
  | arg :: rest =>
    if Text.hasPrefix "-i" arg then
      readEditCall { call with inPlace := true, suffix := Text.trimStart "-i" arg } rest
    else if isOption arg then readEditCall call rest
    else readEditCall { call with files := call.files ++ [arg] } rest

def edit : Result :=
  let call := readEditCall {} args
  let (scripts, files) := match call.scripts, call.files with
    | [], script :: files => ([script], files)
    | scripts, files => (scripts, files)
  let script := (Text.join "\n" scripts).toList
  match if scripts.isEmpty then none else readEdits (script.length + 1) script with
  | none => ⟨h, "", 1⟩
  | some edits =>
    files.foldl (fun (r : Result) path =>
      match r.host.find path with
      | .ok (place, .file content) =>
        let new := editText edits content
        if call.inPlace then
          let disk := if call.suffix.isEmpty then r.host.disk
            else r.host.disk.set (place.dropLast ++ [place.getLastD "" ++ call.suffix]) (.file content)
          { r with host := { r.host with disk := disk.set place (.file new) } }
        else { r with output := r.output ++ new }
      | .ok (_, .directory) => { r with status := max r.status (if call.inPlace then 4 else 2) }
      | .error _ => { r with status := max r.status 2 }) ⟨h, "", 0⟩

def unescapeFormat : List Char → List Char
  | '\\' :: 'n' :: cs => '\n' :: unescapeFormat cs
  | '\\' :: 't' :: cs => '\t' :: unescapeFormat cs
  | '\\' :: '\\' :: cs => '\\' :: unescapeFormat cs
  | '%' :: '%' :: cs => '%' :: unescapeFormat cs
  | c :: cs => c :: unescapeFormat cs
  | [] => []

def simple? (name : String) (args : List String) (h : Host) : Option Result :=
  match name with
  | "true" | ":" => some ⟨h, "", 0⟩
  | "false" => some ⟨h, "", 1⟩
  | "rm" => some (removeAll args h)
  | "cp" => some (copy args h)
  | "mv" => some (move args h)
  | "cat" => some (concatenate args h)
  | "touch" => some (touch args h)
  | "sed" => some (edit args h)
  | "echo" =>
    match args with
    | "-n" :: rest => some ⟨h, Text.join " " rest, 0⟩
    | _ => some ⟨h, Text.join " " args ++ "\n", 0⟩
  | "printf" => some ⟨h, String.ofList (unescapeFormat (args.headD "").toList), 0⟩
  | _ => none

def notFound : Nat := 127

mutual
/-- Runs a tool; nothing if there is none of that name.  Scripts nest at most `depth` times. -/
def run? (depth : Nat) (name : String) (args : List String) (h : Host) : Option Result :=
  match depth with
  | 0 => simple? name args h
  | depth + 1 =>
    if name == "sh" then
      match args with
      | "-c" :: script :: params =>
        some (runScript depth (if params.isEmpty then ["sh"] else params) script h)
      | file :: params =>
        match h.readFile file with
        | .ok script => some (runScript depth (file :: params) script h)
        | .error _ => some ⟨h, "", 2⟩
      | [] => some ⟨h, "", 0⟩
    else simple? name args h

def runScript (depth : Nat) (params : List String) (script : String) (h : Host) : Result :=
  match readScript params script with
  | none => ⟨h, "", 2⟩
  | some commands => runCommands depth commands ⟨h, "", 0⟩

def runCommands (depth : Nat) : List ShellCommand → Result → Result
  | [], r => r
  | c :: rest, r =>
    let isDue := match c.link with
      | .always => true
      | .ifSucceeded => r.status == 0
      | .ifFailed => r.status != 0
    if !isDue then runCommands depth rest r
    else match c.words with
      | "exit" :: args => { r with status := ((args.head?.bind String.toNat?).getD r.status) % 256 }
      | words =>
        let name := words.headD ":"
        let found := (run? depth name (words.drop 1) r.host).getD ⟨r.host, "", notFound⟩
        let done : Result := match c.sink with
          | .screen => { found with output := r.output ++ found.output }
          | .file path append =>
            let old := if append then (found.host.readFile path).toOption.getD "" else ""
            match found.host.disk.writeFile found.host.here path (old ++ found.output) with
            | .ok d => ⟨{ found.host with disk := d }, r.output, found.status⟩
            | .error _ => ⟨found.host, r.output, 1⟩
        runCommands depth rest done
end

def scriptDepth : Nat := 8

end Covenant.Tool
