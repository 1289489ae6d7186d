import Covenant.Proofs.Contract.Routes
import Covenant.Proofs.Emit.BlockOutline
import Covenant.Proofs.Emit.Literals

/-!
# The outline of the client

The client imports names and introduces three of its own.  Its indented lines hold paths and keys as they stand, so
the members of its types are not read.  The routes that it calls are complete and lead to classes (`routes_complete`).
-/

namespace Covenant.Emit.TypeScript

open Binding (Binder)
open Contract (ExcludeRules Program Route)
open Naming (Table)
open Outcome
open Text
open List

/-- The grammar of TypeScript without members. -/
@[simps] def clientGrammar : Grammar :=
  { types := [['c', 'l', 'a', 's', 's'], ['i', 'n', 't', 'e', 'r', 'f', 'a', 'c', 'e']]
    values := [['f', 'u', 'n', 'c', 't', 'i', 'o', 'n'], ['c', 'o', 'n', 's', 't']]
    statements := []
    memberColumn := 0 }

attribute [local simp] isIdentifierChar

set_option maxRecDepth 20000

theorem topLevel_eq_client (text : String) : grammar.topLevel text = clientGrammar.topLevel text := by
  have htypes : grammar.types = clientGrammar.types := rfl
  have hvalues : grammar.values = clientGrammar.values := rfl
  exact Grammar.topLevel_congr htypes hvalues text

/-- The mode after lines that are empty or indented. -/
inductive Passed : Mode → Prop
  | start : Passed .start
  | indent : Passed (.indent 1)
  | rest : Passed .rest

private theorem read_indentedLine {cs : List Char} (h : ∀ c ∈ cs, isInline c = true) :
    ∃ m, clientGrammar.read .start (' ' :: cs) = (m, []) ∧ Passed m := by
  cases cs with
  | nil => exact ⟨.indent 1, by simp, .indent⟩
  | cons c cs =>
    have hc : c ≠ '\n' := by simpa [isInline] using h c (.head _)
    have hrest : clientGrammar.read .rest cs = (.rest, []) :=
      Grammar.read_rest fun d hd => h d (.tail c hd)
    refine ⟨.rest, ?_, .rest⟩
    by_cases hblank : c = ' ' <;> simp [clientGrammar, hc, hblank] at hrest ⊢ <;> simp [hrest]

private theorem read_indentedLines {lines : List String}
    (h : ∀ line ∈ lines, line = "" ∨ ∃ cs, line.toList = ' ' :: cs ∧ ∀ c ∈ cs, isInline c = true) :
    ∃ m, clientGrammar.read .start (Text.join "\n" lines).toList = (m, []) ∧ Passed m := by
  have hline : ∀ line ∈ lines, ∃ m, clientGrammar.read .start line.toList = (m, []) ∧ Passed m := by
    intro line hmem
    rcases h line hmem with rfl | ⟨cs, hcs, hinline⟩
    · exact ⟨.start, rfl, .start⟩
    · rw [hcs]
      exact read_indentedLine hinline
  clear h
  induction lines with
  | nil => exact ⟨.start, rfl, .start⟩
  | cons line lines ih =>
    obtain ⟨m, hm, hpassed⟩ := hline line (.head _)
    cases lines with
    | nil => exact ⟨m, by simpa [Text.join] using hm, hpassed⟩
    | cons next rest =>
      obtain ⟨m', hm', hpassed'⟩ := ih fun l hl => hline l (.tail line hl)
      have hpending : m.pending = [] := by cases hpassed <;> rfl
      have hbreak : "\n".toList = ['\n'] := by simp
      refine ⟨m', ?_, hpassed'⟩
      rw [Text.join] at hm' ⊢
      rw [String.intercalate_cons_of_ne_nil (by simp), String.toList_append, String.toList_append,
        Grammar.read_append, Grammar.read_append, hm, hbreak]
      simp only [Grammar.read, Grammar.step_break, hpending, append_nil, hm']

private theorem read_indent (s : String) {level : Int} (hlevel : 0 < level) :
    ∃ m, clientGrammar.read .start (Text.indent s level "    ").toList = (m, []) ∧ Passed m := by
  rw [Text.indent, if_neg (by omega)]
  refine read_indentedLines fun line hline => ?_
  obtain ⟨piece, hpiece, rfl⟩ := mem_map.1 hline
  obtain ⟨cs, hcs, rfl⟩ := mem_map.1 hpiece
  split
  · rename_i hempty
    exact .inl (by simpa using hempty)
  · obtain ⟨n, hn⟩ : ∃ n, level.toNat = n + 1 := ⟨level.toNat - 1, by omega⟩
    have hunit : "    ".toList = [' ', ' ', ' ', ' '] := by simp
    have hindent : Over isInline (Text.repeated n "    ") := .join fun u hu => by
      rw [eq_of_mem_replicate hu]
      exact .ofList rfl
    refine .inr ⟨[' ', ' ', ' '] ++ (Text.repeated n "    ").toList ++ cs, ?_, fun c hc => ?_⟩
    · simp [hn, Text.repeated, replicate_succ, String.join_cons, hunit]
    · rcases mem_append.1 hc with hc | hc
      · rcases mem_append.1 hc with hc | hc
        · exact all_eq_true.1 (rfl : [' ', ' ', ' '].all isInline = true) c hc
        · exact hindent c hc
      · rw [isInline, bne_iff_ne]
        exact (mem_of_mem_splitChars hcs hc).2

private theorem read_names {names : List String} (hne : names ≠ []) (h : ∀ name ∈ names, IsWord name) :
    clientGrammar.read (.names []) (Text.join ", " names ++ " \x7d from ").toList = (.rest, names.map .imported) := by
  have hword : ∀ name ∈ names, clientGrammar.read (.names []) name.toList = (.names name.toList, []) :=
    fun name hname =>
    have := h name hname
    Spelled.read (by simp)
  have hclose : ∀ read : List Char, clientGrammar.read (.names read) " \x7d from ".toList =
      (.rest, [.imported (String.ofList read)]) := fun read => Spelled.read (by simp)
  clear h
  induction names with
  | nil => exact absurd rfl hne
  | cons name names ih =>
    have hname := hword name (.head _)
    cases names with
    | nil =>
      rw [Text.join, String.intercalate_singleton, Grammar.read_concat hname (hclose _), String.ofList_toList]
      rfl
    | cons next rest =>
      have hrest := ih (by simp) fun n hn => hword n (.tail name hn)
      have hsep : clientGrammar.read (.names name.toList) ", ".toList = (.names [], [.imported name]) :=
        Spelled.read (by simp)
      rw [Text.join] at hrest ⊢
      rw [String.intercalate_cons_of_ne_nil (by simp), String.append_assoc]
      exact Grammar.read_concat (Grammar.read_concat hname hsep) hrest

private theorem outline_importText (programName : String) {names : List String} (h : ∀ name ∈ names, IsWord name) :
    clientGrammar.outline (importText programName names) = names.map .imported := by
  unfold importText
  split
  · rename_i hempty
    rw [List.isEmpty_iff.1 hempty]
    rfl
  · rename_i hne
    have hnames := read_names (by simpa using hne) h
    have hopen : clientGrammar.read .start "import \x7b ".toList = (.names [], []) :=
      Spelled.read (by simp)
    have hquote : clientGrammar.read .rest (quote ("./" ++ programName) ++ ";").toList = (.rest, []) :=
      Spelled.read (by simp)
    have hhead : clientGrammar.read .start ("import \x7b " ++ Text.join ", " names ++ " \x7d from ").toList =
        (.rest, names.map .imported) := by
      rw [String.append_assoc]
      exact Grammar.read_concat hopen hnames
    rw [String.append_assoc]
    exact (Grammar.outline_of_read (Grammar.read_concat hhead hquote)).trans (by simp)

section

variable {b : Binder} {routes : List Route} {routed : List (Route × String)}

private theorem routedClasses_eq_ok (h : routedClasses b routes = .ok routed) :
    Forall₂ (fun r c => ∃ d, b.table.lookup r.target = some d ∧ c = (r, d.name)) routes routed := by
  refine (mapM_eq_ok.1 h).imp fun r c hc => ?_
  split at hc
  · exact ⟨_, ‹_›, (Except.ok.inj hc).symm⟩
  · cases hc

/-- The client imports the classes of its routes and the functions of their results. -/
theorem mem_importedNames (h : routedClasses b routes = .ok routed) {name : String} :
    name ∈ importedNames routed ↔
      ∃ r ∈ routes, ∃ d, b.table.lookup r.target = some d ∧
        (name = d.name ∨ r.kind ≠ .command ∧ name = resultFactoryName d.name) := by
  have hclass : ∀ (r : Route) (cls : String),
      name ∈ cls :: (if r.kind == .command then [] else [resultFactoryName cls]) ↔
        name = cls ∨ r.kind ≠ .command ∧ name = resultFactoryName cls := by
    intro r cls
    by_cases hkind : r.kind = .command <;> simp [hkind]
  rw [importedNames, mem_sortedSet, mem_flatMap]
  constructor
  · rintro ⟨c, hmem, hname⟩
    obtain ⟨r, hr, d, hd, rfl⟩ := exists_of_mem_right (routedClasses_eq_ok h) hmem
    exact ⟨r, hr, d, hd, (hclass r d.name).1 hname⟩
  · rintro ⟨r, hr, d, hd, hname⟩
    obtain ⟨c, hmem, d', hd', rfl⟩ := exists_of_mem_right (routedClasses_eq_ok h).flip hr
    obtain rfl := Option.some.inj (hd.symm.trans hd')
    exact ⟨_, hmem, (hclass r d.name).2 hname⟩

end

private theorem outline_callInterface : clientGrammar.outline callInterface = [.type "CQRS"] := by
  unfold callInterface
  exact Spelled.outline_eq (by simp)

private theorem outline_routes (s : String) :
    clientGrammar.outline ("export const routes: readonly string[] = [\n" ++ Text.indent s 1 "    " ++ "];") =
      [.value "routes"] := by
  have hopen : clientGrammar.read .start "export const routes: readonly string[] = [\n".toList =
      (.start, [.value "routes"]) := Spelled.read (by simp)
  obtain ⟨m, hm, hpassed⟩ := read_indent s (show (0 : Int) < 1 by decide)
  have hclose : clientGrammar.read m "];".toList = (.rest, []) := by
    refine Spelled.read ?_
    cases hpassed <;> simp
  exact Grammar.outline_of_read (Grammar.read_concat (Grammar.read_concat hopen hm) hclose)

private theorem outline_createClient (s : String) :
    clientGrammar.outline ("export function createClient(cqrs: CQRS) \x7b\n" ++ "    return \x7b\n" ++
      Text.indent s 2 "    " ++ "    \x7d;\n" ++ "\x7d") = [.value "createClient"] := by
  have hopen : clientGrammar.read .start ("export function createClient(cqrs: CQRS) \x7b\n" ++
      "    return \x7b\n").toList = (.start, [.value "createClient"]) :=
    Spelled.read (by simp)
  obtain ⟨m, hm, hpassed⟩ := read_indent s (show (0 : Int) < 2 by decide)
  have hclose : clientGrammar.read m ("    \x7d;\n" ++ "\x7d").toList = (.rest, []) := by
    refine Spelled.read ?_
    cases hpassed <;> simp
  rw [String.append_assoc]
  exact Grammar.outline_of_read (Grammar.read_concat (Grammar.read_concat hopen hm) hclose)

def clientNames : List String := ["CQRS", "routes", "createClient"]

/-- The client introduces its imports and three names of its own. -/
theorem outline_client {b : Binder} {settings : Settings} {program : Program} {client : String}
    (h : clientText b settings program = .ok client) (hname : IsWord program.name) {routed : List (Route × String)}
    (hrouted : routedClasses b program.routes = .ok routed) (hwords : ∀ name ∈ importedNames routed, IsWord name) :
    clientGrammar.outline (Text.joinBlocks [header program, client] ++ "\n") =
      (importedNames routed).map .imported ++ [.type "CQRS", .value "routes", .value "createClient"] := by
  unfold clientText at h
  rw [hrouted] at h
  obtain rfl := pure_eq_ok.1 h
  rw [Grammar.outline_lastBreak, Grammar.outline_joinBlocks]
  simp only [flatMap_cons, flatMap_nil, outline_header clientGrammar hname, nil_append, append_nil,
    Grammar.outline_joinBlocks, outline_importText settings.programName hwords, outline_callInterface, outline_routes,
    outline_createClient]
  rfl

/-- A help desk: tickets are closed by a command of their own, and what is old is not for clients. -/
def desk : Program :=
  { name := "Desk"
    aliases := [("Help.Ticket.Close", ["ticket/close", "close"]), ("Old.Ping", ["ping"])]
    declarations :=
      [.type { ns := "Help", name := "Ticket" } {} [.type { name := "Close" } { kind := .command } []],
        .type { ns := "Help", name := "Find" } { kind := .query, result := some (.named "bool") } [],
        .type { ns := "Old", name := "Ping" } { kind := .command } []] }

end Covenant.Emit.TypeScript
