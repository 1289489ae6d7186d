import Covenant.Proofs.Compile.Generation
import Covenant.Proofs.Emit.Core
import Covenant.Proofs.Naming.Completion
import Covenant.Proofs.Naming.Words

/-!
# Programs as texts

A program is written as a document and the document as a text.  If a format of texts reads back the documents it
writes, a program that is written and read is the same program with all that a document may leave out filled in, and
it compiles to the same output (`decode_encode_program`).
-/

namespace Covenant

open Contract (Document Program)
open Outcome

namespace Contract

structure TextFormat where
  write : Document → String
  read : String → Except Failure Document

/-- The format of documents on disk. -/
def TextFormat.yaml : TextFormat where
  write doc := doc.toTree.render
  read text := (Document.ofText text).mapError fun e =>
    (Failure.malformed e.message).within "failed to decode IR document"

/-- The documents say the same; aliases may be held in another order. -/
structure Document.Same (doc doc' : Document) : Prop where
  version : doc'.version = doc.version
  name : doc'.name = doc.name
  declarations : doc'.declarations = doc.declarations
  aliases : ∀ k, doc'.aliases.lookup k = doc.aliases.lookup k

/-- What is written of the document is read as that document. -/
def TextFormat.ReadsBack (format : TextFormat) (doc : Document) : Prop :=
  ∃ doc', format.read (format.write doc) = .ok doc' ∧ doc.Same doc'

namespace Program

def encode (format : TextFormat) (p : Program) : Except Failure String :=
  (format.write <$> p.toDocument).mapError (·.toFailure)

def decode (format : TextFormat) (text : String) : Except Failure Program := format.read text >>= (·.toProgram)

private theorem encode_yaml (p : Program) : p.encode .yaml = p.toText := by
  unfold encode toText
  cases p.toDocument <;> rfl

theorem decode_yaml (text : String) : decode .yaml text = ofText text := by
  show ((Document.ofText text).mapError _ >>= _) = _
  unfold ofText
  cases Document.ofText text <;> rfl

variable {p : Program} {format : TextFormat}

theorem encode_eq_ok {text : String} :
    p.encode format = .ok text ↔ ∃ doc, p.toDocument = .ok doc ∧ format.write doc = text := by
  rw [encode, mapError_eq_ok]
  cases p.toDocument <;> simp

theorem checkSchema_empty : checkSchema "" = .ok () := by
  decide +kernel

/-- What was written is read as the completed program. -/
theorem decode_of_toDocument {doc : Document} (hdoc : p.toDocument = .ok doc) (hback : format.ReadsBack doc)
    (hkinds : ∀ v ∈ p.visits, v.decl.kind? ≠ some .unknown) (hversion : checkSchema p.version = .ok ()) :
    ∃ q, decode format (format.write doc) = .ok q ∧ q = { p.completed with aliases := q.aliases } ∧
      ∀ k, q.aliases.lookup k = p.aliases.lookup k := by
  obtain ⟨doc', hread, hsame⟩ := hback
  obtain ⟨docs, hdocs, rfl⟩ := toDocument_eq_ok.1 hdoc
  have hdeclarations := toDeclarations_of_toDocs [] "" p.declarations hdocs hkinds
  refine ⟨{ p.completed with aliases := doc'.aliases }, ?_, rfl, hsame.aliases⟩
  rw [decode, hread, ok_bind, Document.toProgram, hsame.version, hsame.name, hsame.declarations, hversion,
    hdeclarations]
  rfl

end Program

end Contract

namespace Compile

open Binding (Binder)
open Emit (Language Settings)
open Naming (Entry Table)

/-- The output with declarations that state their namespaces in its tables.  Files and names are the same. -/
def Emitted.completed (e : Emitted) : Emitted :=
  { e with table := e.table.completed, shadowed := e.shadowed.map Entry.completed }

def Output.completed (out : Output) : Output := { out with emitted := out.emitted.map Emitted.completed }

private theorem core_completed (t : Table) : t.completed.core = t.core := by
  have hentry : Entry.core ∘ Entry.completed = Entry.core := by
    funext e
    obtain ⟨name, qualified, ns, path, decl, parent?⟩ := e
    cases decl <;> rfl
  simp only [Table.core, Table.completed, List.map_map, hentry]

section

variable {p q : Program} (h : p.Completes q)
include h

private theorem emitLanguage_completes (hp : ∀ v ∈ p.visits, v.Checked) (hd : p.DistinctNames)
    (o : Options) (settings : Settings) (l : Language) :
    emitLanguage o settings q l = Emitted.completed <$> emitLanguage o settings p l := by
  have htable := Table.resolve_completes h hp hd (l.policy.extend o.unmangled)
  simp only [emitLanguage, Binder.build, htable, mapError_map, bind_map_left, bind_assoc, pure_bind, map_bind,
    map_pure]
  refine bind_congr fun types => ?_
  cases hresolve : Table.resolve p (l.policy.extend o.unmangled) with
  | error c => rfl
  | ok t =>
    have hcoherent := Table.coherent_of_resolve hd.kept hresolve
    have hfiles : l.emit { table := t.completed, types } settings q = l.emit { table := t, types } settings p := by
      rw [emit_congr l _ settings h.name h.routes, ← l.emit_core (b := { table := t.completed, types })
        hcoherent.completed, ← l.emit_core (b := { table := t, types }) hcoherent]
      exact congrArg (fun t => l.emit { table := t, types } settings p) (core_completed t)
    have hshadowed : (t.completed.entries.filter fun e => (types.category? e.decl.name).isSome) =
        (t.entries.filter fun e => (types.category? e.decl.name).isSome).map Entry.completed := by
      rw [Table.completed, List.filter_map]
      congr 2
      funext e
      rw [Function.comp_apply, Entry.completed_decl, Contract.Declaration.name_within]
    simp only [Except.mapError, ok_bind, hfiles, hshadowed]
    rfl

private theorem generate_completes (hv : p.validate = .ok ()) (o : Options) :
    generate q o = Output.completed <$> generate p o := by
  obtain ⟨hkept, hexcluded⟩ := h.exclude o.exclude
  have hlanguage := emitLanguage_completes hkept (fun v hv' => Program.checked_of_validate hv o.exclude hv')
    (nodup_exclude hv o.exclude) o ⟨p.name, o.containerName⟩
  simp only [generate, h.name, h.validate hv, hv, hexcluded, hlanguage, mapError_map, mapM_map, map_bind,
    bind_map_left, map_pure]
  rfl

end

open Contract (TextFormat checkSchema)

/-- Programs are written and read as YAML.  In any format a program can be written if its constants are texts and
integers of 64 bits.  What is read from the text is the program with its version and its namespaces filled in: the
qualified names are the same, and if the program is valid, so is what is read, with the same output. -/
theorem decode_encode_program (format : TextFormat) (p : Program)
    (hkinds : ∀ v ∈ p.visits, v.decl.kind? ≠ some .unknown) :
    (p.encode .yaml = p.toText ∧ ∀ text, Program.decode .yaml text = Program.ofText text) ∧
      ((∃ text, p.encode format = .ok text) ↔ ∀ v ∈ p.visits, v.decl.Writable) ∧
      ∀ text, p.encode format = .ok text → (∀ doc, p.toDocument = .ok doc → format.ReadsBack doc) →
        p.version = "" ∨ checkSchema p.version = .ok () →
        ∃ q, Program.decode format text = .ok q ∧ q = { p.completed with aliases := q.aliases } ∧
          (∀ k, q.aliases.lookup k = p.aliases.lookup k) ∧
          q.visits.map (·.qualified) = p.visits.map (·.qualified) ∧
          (p.validate = .ok () → q.validate = .ok () ∧ ∀ o, generate q o = Output.completed <$> generate p o) := by
  refine ⟨⟨p.encode_yaml, Program.decode_yaml⟩, ?_, ?_⟩
  · rw [← Program.exists_toDocument]
    simp only [Program.encode_eq_ok]
    exact ⟨fun ⟨_, doc, hdoc, _⟩ => ⟨doc, hdoc⟩, fun ⟨doc, hdoc⟩ => ⟨_, doc, hdoc, rfl⟩⟩
  · intro text htext hback hversion
    obtain ⟨doc, hdoc, rfl⟩ := Program.encode_eq_ok.1 htext
    have hschema : checkSchema p.version = .ok () :=
      hversion.elim (fun hempty => hempty ▸ Program.checkSchema_empty) id
    obtain ⟨q, hq, heq, haliases⟩ := Program.decode_of_toDocument hdoc (hback doc hdoc) hkinds hschema
    have hcompletes : p.Completes q :=
      ⟨(congrArg Program.name heq).trans rfl, (congrArg Program.declarations heq).trans rfl, haliases⟩
    refine ⟨q, hq, heq, haliases, hcompletes.qualified, fun hv => ?_⟩
    exact ⟨hcompletes.validate hv, generate_completes hcompletes hv⟩

/-- A library of books: the state of a copy is nested twice and states its namespace only at the outside. -/
def library : Program :=
  { name := "Library", aliases := [("Shelf.FindBook", ["find", "book"])]
    declarations :=
      [.type { ns := "Shelf", name := "Book" }
          { constants :=
              [{ name := "Limit", value := some (.int (-1)) }, { name := "Kind", value := some (.string "b") }] }
          [.type { name := "Copy" } {} [.enum { name := "State" } [some { name := "Lent", value := 1 }]]],
        .type { ns := "Shelf", name := "FindBook" } { kind := .query, result := some (.named "Book") } []] }

def libraryDoc : Document :=
  { name := "Library", aliases := [("Shelf.FindBook", ["find", "book"])]
    declarations :=
      [.mk { kind := "type", ns := "Shelf", name := "Book",
             constants := [{ name := "Limit", value := .int (-1) }, { name := "Kind", value := .text "b" }] }
          [.mk { kind := "type", name := "Copy" }
            [.mk { kind := "enum", name := "State", members := [some { name := "Lent", value := 1 }] } []]],
        .mk { kind := "type", ns := "Shelf", name := "FindBook", contract := "query",
              result := some (.named "Book") } []] }

/-- The text of the library in YAML, read as the document it is the text of. -/
def libraryFormat : TextFormat where
  write := TextFormat.yaml.write
  read text := if text = TextFormat.yaml.write libraryDoc then .ok libraryDoc else .error (.malformed text)

/-- The library is read back and compiles to the same output. -/
theorem decode_encode_library :
    ∃ text q, library.encode libraryFormat = .ok text ∧ Program.decode libraryFormat text = .ok q ∧
      q.version = "1.0.0" ∧ q.visits.map (·.decl.ns) = ["Shelf", "Shelf", "Shelf", "Shelf"] ∧
      q.validate = .ok () ∧ ∀ o, generate q o = Output.completed <$> generate library o := by
  have hdoc : library.toDocument = .ok libraryDoc := rfl
  have htext : library.encode libraryFormat = .ok (libraryFormat.write libraryDoc) :=
    Program.encode_eq_ok.2 ⟨libraryDoc, hdoc, rfl⟩
  have hread : libraryFormat.read (libraryFormat.write libraryDoc) = .ok libraryDoc := by
    simp only [libraryFormat, ↓reduceIte]
  have hback : ∀ doc, library.toDocument = .ok doc → libraryFormat.ReadsBack doc := by
    intro doc h
    obtain rfl := Except.ok.inj (hdoc.symm.trans h)
    exact ⟨libraryDoc, hread, rfl, rfl, rfl, fun _ => rfl⟩
  have hvalid : library.validate = .ok () := by decide +kernel
  obtain ⟨q, hq, heq, _, _, hout⟩ :=
    (decode_encode_program libraryFormat library (by decide +kernel)).2.2 _ htext hback (.inl rfl)
  refine ⟨_, q, htext, hq, ?_, ?_, hout hvalid⟩
  · rw [heq]
    rfl
  · rw [heq]
    rfl

end Compile

end Covenant
