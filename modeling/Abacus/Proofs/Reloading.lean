import Mathlib
import Abacus.Command.Run
import Abacus.Proofs.Acceptance
import Abacus.Proofs.CommandWords
import Abacus.Proofs.DiskPaths
import Abacus.Proofs.JsonRoundTrip
import Abacus.Proofs.ParsedSorts
import Abacus.Proofs.TextFiles
import Abacus.Proofs.TreeRoundTrip

/-!
# Trees that go through a file

A program can be run at once, or its tree can be written to a file and run from there. Both ways lead to
the same end. The tree of a program is one that a text can hold (`IsBlock.writable`), the text goes
through a file as it is, and what is read is the tree again (`Command.readTree_of_read`). The
file stands beside the program's, so the disk is otherwise the one that the program would have run on
(`Disk.exists_place_beside`), and a run depends on the disk only at the place of its trace file
(`Command.runTree_alike`).
-/

namespace Abacus

/-! ## Trees that a text can hold -/

namespace Node

theorem encodeItems_eq_map (nodes : List Node) : encodeItems .float nodes = nodes.map encode := by
  induction nodes with
  | nil => rw [encodeItems, List.map_nil]
  | cons node nodes ih => rw [encodeItems, ih, List.map_cons, encode]

theorem encodeConditions_eq_map (arms : List (Node × Node)) :
    encodeConditions .float arms = arms.map fun arm => arm.1.encode := by
  induction arms with
  | nil => rw [encodeConditions, List.map_nil]
  | cons arm arms ih => rw [encodeConditions, ih, List.map_cons, encode]

theorem encodeBodies_eq_map (arms : List (Node × Node)) :
    encodeBodies .float arms = arms.map fun arm => arm.2.encode := by
  induction arms with
  | nil => rw [encodeBodies, List.map_nil]
  | cons arm arms ih => rw [encodeBodies, ih, List.map_cons, encode]

/-- An object with the fields of a node: their keys are strings, and each is there once. -/
theorem writable_tagged {tag : String} {fields : List (Text × Json)} (keys : List String)
    (named : fields.map Prod.fst = keys.map Text.ofString) (once : ("type" :: keys).Nodup)
    (each : ∀ field ∈ fields, field.2.Writable) : Json.Writable (.obj (("type", .str tag) :: fields)) := by
  have allNamed : ((Text.ofString "type", Json.str tag) :: fields).map Prod.fst
      = ("type" :: keys).map Text.ofString := by
    rw [List.map_cons, List.map_cons, named]
  refine .obj ?_ (fun member mem => ?_) (List.forall_mem_cons.2 ⟨.str (Text.plain_ofString tag), each⟩)
  · rw [allNamed]
    exact once.map fun _ _ same => Text.ofString_inj.1 same
  · have key : member.1 ∈ ("type" :: keys).map Text.ofString := allNamed ▸ List.mem_map_of_mem mem
    obtain ⟨key, -, same⟩ := List.mem_map.1 key
    exact same ▸ Text.plain_ofString key

theorem writable_name {name : Name} (named : (Vocabulary.script Text.Plain).Names name) :
    name.Writable := by
  cases named with
  | str plain => exact .str plain

theorem writable_int {n : Int} (fits : fitsInt32 n = true) : Json.Writable (.int n) := by
  have small : n.natAbs < 10 ^ 10 := by
    simp only [fitsInt32, Bool.and_eq_true, decide_eq_true_eq] at fits
    unfold minInt maxInt at fits
    omega
  have short : (Nat.toDigits 10 n.natAbs).length ≤ 10 :=
    (Nat.length_toDigits_le_iff (by decide) (by decide)).2 small
  exact .int (short.trans (by decide))

theorem writable_items {nodes : List Node} (each : ∀ node ∈ nodes, node.encode.Writable) :
    Json.Writable (.arr (encodeItems .float nodes)) := by
  rw [encodeItems_eq_map]
  exact .arr (List.forall_mem_map.2 each)

theorem IsExpression.writable {e : Node} (h : e.IsExpression (.script Text.Plain)) : e.encode.Writable := by
  induction h with
  | int fits =>
    rw [encode, encodeWith]
    exact writable_tagged ["value"] rfl (by decide) (List.forall_mem_singleton.2 (writable_int fits))
  | float =>
    rw [encode, encodeWith]
    exact writable_tagged ["value"] rfl (by decide) (List.forall_mem_singleton.2 .float)
  | bool =>
    rw [encode, encodeWith]
    exact writable_tagged ["value"] rfl (by decide) (List.forall_mem_singleton.2 .bool)
  | reference named =>
    rw [encode, encodeWith]
    exact writable_tagged ["name"] rfl (by decide) (List.forall_mem_singleton.2 (writable_name named))
  | call named _ ih =>
    rw [encode, encodeWith]
    exact writable_tagged ["callee", "arguments"] rfl (by decide)
      (by simp [writable_name named, writable_items ih])

mutual

/-- By induction on the statement. Names have no surrogates, so they can go to a file. -/
theorem IsStatement.writable {node : Node} : node.IsStatement (.script Text.Plain) → node.encode.Writable
  | .assignment named value => by
    rw [encode, encodeWith]
    exact writable_tagged ["id", "value"] rfl (by decide)
      (by simpa using ⟨writable_name named, value.writable⟩)
  | .expression value => by
    rw [encode, encodeWith]
    exact writable_tagged ["value"] rfl (by decide) (List.forall_mem_singleton.2 value.writable)
  | .returns value => by
    rw [encode, encodeWith]
    exact writable_tagged ["value"] rfl (by decide) (List.forall_mem_singleton.2 value.writable)
  | .function named params body => by
    rw [encode, encodeWith]
    have names : Json.Writable (.arr _) := .arr fun name mem => writable_name (params name mem)
    exact writable_tagged ["name", "params", "body"] rfl (by decide)
      (by simpa using ⟨writable_name named, names, body.writable⟩)
  | .branch conditions bodies => by
    rw [encode, encodeWith, encodeConditions_eq_map, encodeBodies_eq_map]
    have first : Json.Writable (.arr _) :=
      .arr (List.forall_mem_map.2 fun arm mem => (conditions arm mem).writable)
    have second : Json.Writable (.arr _) :=
      .arr (List.forall_mem_map.2 fun arm mem => (bodies arm mem).writable)
    exact writable_tagged ["conditions", "branches"] rfl (by decide) (by simpa using ⟨first, second⟩)
  | .loop condition body => by
    rw [encode, encodeWith]
    exact writable_tagged ["condition", "body"] rfl (by decide)
      (by simpa using ⟨condition.writable, body.writable⟩)
  | .empty => by
    rw [encode, encodeWith]
    exact writable_tagged [] rfl (by decide) (List.forall_mem_nil _)

theorem IsBlock.writable {node : Node} : node.IsBlock (.script Text.Plain) → node.encode.Writable
  | .block each => by
    rw [encode, encodeWith]
    have items := writable_items fun node mem => (each node mem).writable
    exact writable_tagged ["statements"] rfl (by decide) (List.forall_mem_singleton.2 items)

end

end Node

theorem Text.append_empty (t : Text) : t ++ Text.ofString "" = t := by
  show Text.mk (t.points ++ "".toList.map .ofChar) = t
  simp

/-! ## Files -/

namespace Command

variable {disk : Disk} {path : String} {content : ByteArray}

theorem readFile_of_read (found : disk.read (tidyPath path) = .ok content) :
    readFile disk path = (readText content).mapError .failed := by
  rw [readFile, if_pos (Disk.has_of_read found), found]
  rfl

/-- A tree that was written to a file is read from it. -/
theorem readTree_of_read {program : Node} (sorted : program.IsBlock (.script Text.Plain))
    (shallow : program.encode.depth ≤ jsonLevels) (back : ∀ x ∈ program.encode.doubles, Json.ReadsBack x)
    {spread : Json.Spread} (found : disk.read (tidyPath path) = .ok (program.encode.write spread).toUTF8) :
    readTree disk path = .ok program := by
  have text : readText (program.encode.write spread).toUTF8 = .ok (program.encode.write spread).toList :=
    readText_toUTF8 fun mem => sorted.writable.ne_return spread 0 _ mem rfl
  rw [readTree, readFile_of_read found, text]
  simp only [Except.mapError, bind, Except.bind, Json.parse_write sorted.writable back spread shallow]
  rw [Node.encode, Node.decode_encodeWith]

/-! ## Runs -/

theorem isProper_tracePath : Disk.IsProper tracePath := ⟨by decide, by decide, by decide⟩

theorem leadsTo_tracePath (disk : Disk) : disk.LeadsTo tracePath disk.home tracePath :=
  disk.leadsTo_home isProper_tracePath (by decide) (by decide)

/-- Two ends of the command with the same status, the same printed text and the same trace file. They
tell the same of a failure; only the first one also tells the warnings. -/
structure EndsAlike (warnings : Text) (first second : Exit) : Prop where
  status : second.status = first.status
  output : second.output = first.output
  errors : first.errors = warnings ++ second.errors
  trace : second.disk.read tracePath = first.disk.read tracePath

variable {other : Disk}

theorem fail_alike (trace : other.read tracePath = disk.read tracePath) (warnings : List String)
    (output : Text) (complaint : Complaint) :
    EndsAlike (warningLines warnings) (fail disk warnings output complaint)
      (fail other [] output complaint) :=
  ⟨rfl, rfl, rfl, trace⟩

theorem runOpened_alike {place : Option (List String)}
    (trace : ∀ text, (storeAt other place text).read tracePath = (storeAt disk place text).read tracePath)
    (console : Console) (verbosity : Nat) (warnings : List String) (program : Node) :
    EndsAlike (warningLines warnings)
      (runOpened disk console { trace := place } verbosity warnings program)
      (runOpened other console { trace := place } verbosity [] program) := by
  unfold runOpened
  dsimp only [Option.isSome_none]
  rcases Machine.run .standard program Store.globalId
    (Machine.start verbosity true (false || console.strict)) with ⟨fault | value, machine⟩
  · exact fail_alike (trace _) warnings _ _
  · exact ⟨rfl, rfl, (Text.append_empty _).symm, trace _⟩

theorem read_put_tracePath (disk : Disk) (content : ByteArray) :
    (disk.put (disk.home ++ [tracePath]) content).read tracePath = .ok content := by
  have leads := leadsTo_tracePath (disk.put (disk.home ++ [tracePath]) content)
  rw [Disk.read, leads.resolve_eq, show (disk.put _ content).home = disk.home from rfl, Disk.look_put_self]

/-- A run depends on the disk only at the place of its trace file. -/
theorem runTree_alike (home : other.home = disk.home)
    (same : other.look (disk.home ++ [tracePath]) = disk.look (disk.home ++ [tracePath]))
    (console : Console) (verbosity : Nat) (task task' : Task) (warnings : List String) (program : Node) :
    EndsAlike (warningLines warnings)
      (runTree disk console { verbosity, output := none, task } warnings program)
      (runTree other console { verbosity, output := none, task := task' } [] program) := by
  have leads := leadsTo_tracePath disk
  have leads' := leadsTo_tracePath other
  have trace : other.read tracePath = disk.read tracePath := by
    rw [Disk.read, Disk.read, leads.resolve_eq, leads'.resolve_eq, home, same]
  unfold runTree openOutput openTrace
  dsimp only
  by_cases quiet : verbosity = 0
  · rw [if_pos quiet, if_pos quiet]
    have unwritten (text : Text) : (storeAt other none text).read tracePath
        = (storeAt disk none text).read tracePath := trace
    exact runOpened_alike unwritten console verbosity warnings program
  · rw [if_neg quiet, if_neg quiet]
    -- The trace file is empty on both disks once it is open, or it is a folder on both.
    by_cases free : ∀ p, disk.look (disk.home ++ [tracePath]) ≠ .folder p
    · rw [leads.create_eq free, leads'.create_eq (by rwa [home, same]), home]
      refine runOpened_alike (fun text => ?_) console verbosity warnings program
      rw [storeAt, storeAt, Disk.store_put_empty, Disk.store_put_empty, read_put_tracePath, ← home,
        read_put_tracePath]
    · obtain ⟨p, look⟩ := not_forall_not.1 free
      rw [Disk.create, Disk.create, leads.resolve_eq, leads'.resolve_eq, home, same, look]
      exact fail_alike trace warnings _ _

/-! ## The two ways -/

theorem ne_empty_of_endsInName (named : EndsInName path) : path ≠ "" := by
  rintro rfl
  exact (named [] rfl).1 rfl

theorem head?_append_eq (named : EndsInName path) (extension : String) :
    (path ++ extension).toList.head? = path.toList.head? := by
  have filled : path.toList ≠ [] := fun empty =>
    ne_empty_of_endsInName named (String.toList_eq_nil_iff.1 empty)
  rw [String.toList_append, List.head?_append_of_ne_nil _ filled]

theorem run_emit (plain : path.toList.head? ≠ some '-') (filled : path ≠ "") (disk : Disk)
    (console : Console) :
    run ["--emit-ast", path] disk console = withProgram disk (readFile disk path) (emitTree disk path) := by
  simp only [run, Settings.ofWords_emit plain filled, perform]

theorem run_program (plain : path.toList.head? ≠ some '-') (before after : List Nat) (disk : Disk)
    (console : Console) :
    run (before.map verboseWord ++ path :: after.map verboseWord) disk console
      = withProgram disk (readFile disk path) (runTree disk console
          { verbosity := verbosityOf (before ++ after), output := none, task := .runFile path }) := by
  simp only [run, Settings.ofWords_program plain, perform]

theorem run_tree {program : Node} (plain : path.toList.head? ≠ some '-') (filled : path ≠ "")
    (before after : List Nat) (console : Console) (read : readTree disk path = .ok program) :
    run (before.map verboseWord ++ "--ast" :: path :: after.map verboseWord) disk console
      = runTree disk console
          { verbosity := verbosityOf (before ++ after), output := none, task := .runTree path } []
          program := by
  simp only [run, Settings.ofWords_tree plain filled, perform, read]

/-- The content of a file is the text of a program. -/
structure Holds (content : ByteArray) (text : List Char) (program : Node) : Prop where
  readable : readText content = .ok text
  parsed : (readProgram text 0).program = .ok program

theorem withProgram_of_holds {text : List Char} {program : Node} (holds : Holds content text program)
    (found : disk.read (tidyPath path) = .ok content) (next : List String → Node → Exit) :
    withProgram disk (readFile disk path) next = next (readProgram text 0).warnings program := by
  rw [readFile_of_read found, holds.readable]
  simp only [Except.mapError, withProgram, holds.parsed]

/-- Without a program nothing is done, whatever was to be done with it. -/
theorem withProgram_of_not_holds (refused : ∀ text program, ¬ Holds content text program)
    (found : disk.read (tidyPath path) = .ok content) :
    ∃ warnings complaint, ∀ next,
      withProgram disk (readFile disk path) next = fail disk warnings "" complaint := by
  rw [readFile_of_read found]
  rcases readable : readText content with report | text
  · exact ⟨[], .failed report, fun _ => rfl⟩
  · rcases parsed : (readProgram text 0).program with report | program
    · refine ⟨(readProgram text 0).warnings, .failed report, fun next => ?_⟩
      simp only [Except.mapError, withProgram, parsed]
    · exact absurd ⟨readable, parsed⟩ (refused text program)

theorem tracePath_ne_append (name : String) : tracePath ≠ name ++ ".ast.json" := by
  intro same
  have ending : ".ast.json".toList <:+ tracePath.toList := by
    rw [same, String.toList_append]
    exact List.suffix_append _ _
  exact absurd ending (by decide)

/-- A tree is written beside its program. The file holds the text of the tree, and where a trace would
go nothing changes. -/
theorem emitTree_beside (named : EndsInName path) (found : disk.read (tidyPath path) = .ok content)
    (free : ∀ place, disk.resolve (tidyPath path ++ ".ast.json") ≠ .ok (.folder place))
    (warnings : List String) (program : Node) :
    (emitTree disk path warnings program).status = 0 ∧
    (emitTree disk path warnings program).disk.home = disk.home ∧
    (emitTree disk path warnings program).disk.read (tidyPath (path ++ ".ast.json"))
      = .ok (program.encode.write (.lines 2)).toUTF8 ∧
    (emitTree disk path warnings program).disk.look (disk.home ++ [tracePath])
      = disk.look (disk.home ++ [tracePath]) := by
  obtain ⟨parent, name, create, after⟩ := Disk.exists_place_beside found (by decide) (by decide) free
  obtain ⟨read, elsewhere⟩ := after (program.encode.write (.lines 2)).toUTF8
  have other : disk.home ++ [tracePath] ≠ parent ++ [name ++ ".ast.json"] := fun same =>
    tracePath_ne_append name (List.singleton_inj.1 (List.append_inj' same rfl).2)
  have succeeds : (emitTree disk path warnings program).status = 0 := by rw [emitTree, create]
  have stored : (emitTree disk path warnings program).disk
      = disk.put (parent ++ [name ++ ".ast.json"]) (program.encode.write (.lines 2)).toUTF8 := by
    rw [emitTree, create]
    exact Disk.store_put_empty
  rw [stored, tidyPath_append named (by decide)]
  exact ⟨succeeds, rfl, read, elsewhere _ other⟩

/-- Emitting a tree and running it is the same as running the program. The file is named by a word that
is no flag and by a path that ends in a name. If it holds a program, then its tree is written and can be
run from the file beside it, with the same status, printed text, error line and trace file, however often
`-v` is given. For that no folder may be in the place of the file, the tree must not be nested too deeply
for a reader of files, and its doubles must come back from their texts. If the file holds no program, both
ways end in the same failure, and the disk is as before. -/
theorem emitting_preserves_running {disk : Disk} {path : String} {content : ByteArray}
    (plain : path.toList.head? ≠ some '-') (named : EndsInName path)
    (found : disk.read (tidyPath path) = .ok content) (before after : List Nat) (console : Console) :
    let emitted := run ["--emit-ast", path] disk console
    let direct := run (before.map verboseWord ++ path :: after.map verboseWord) disk console
    (∀ text program, Holds content text program →
      (∀ place, disk.resolve (tidyPath path ++ ".ast.json") ≠ .ok (.folder place)) →
      program.encode.depth ≤ jsonLevels → (∀ x ∈ program.encode.doubles, Json.ReadsBack x) →
      let reloaded := run
        (before.map verboseWord ++ "--ast" :: (path ++ ".ast.json") :: after.map verboseWord)
        emitted.disk console
      emitted.status = 0 ∧ EndsAlike (warningLines (readProgram text 0).warnings) direct reloaded) ∧
    ((∀ text program, ¬ Holds content text program) →
      emitted = direct ∧ emitted.status = 1 ∧ emitted.disk = disk) := by
  intro emitted direct
  have filled := ne_empty_of_endsInName named
  have emits : emitted = _ := run_emit plain filled disk console
  have runs : direct = _ := run_program plain before after disk console
  constructor
  · intro text program holds free shallow back reloaded
    rw [withProgram_of_holds holds found] at emits runs
    have dashless : (path ++ ".ast.json").toList.head? ≠ some '-' := by rwa [head?_append_eq named]
    have longer : path ++ ".ast.json" ≠ "" := by simp
    obtain ⟨succeeds, home, read, trace⟩ :=
      emitTree_beside named found free (readProgram text 0).warnings program
    rw [← emits] at succeeds home read trace
    have sorted : program.IsBlock (.script Text.Plain) :=
      isBlock_of_readProgram Text.plain_ofString holds.parsed
    have reloads : reloaded = _ :=
      run_tree dashless longer before after console (readTree_of_read sorted shallow back read)
    rw [reloads, runs]
    exact ⟨succeeds, runTree_alike home trace console _ _ _ _ program⟩
  · intro refused
    obtain ⟨warnings, complaint, fails⟩ := withProgram_of_not_holds refused found
    rw [emits, runs, fails, fails]
    exact ⟨rfl, rfl, rfl⟩

/-- A disk with one file in its home. -/
def diskWith (content : String) : Disk where
  home := ["home"]
  entries := [(["home", "p"], .file content.toUTF8)]

/-- A console with nothing on its standard input. -/
def idle : Console where
  input := .empty
  strict := true

/-- The program `x=0.5/0;`, which fails: a double and an integer cannot be combined. -/
def dividing : Node := .block [.assignment (.str "x") (.call (.str "/") [.float 0.5, .int 0])]

theorem readProgram_dividing : (readProgram "x=0.5/0;".toList 0).program = .ok dividing := by
  have words : (Stream.ofText "x=0.5/0;".toList 0).lexemes
      = [.identifier "x", .operator "=", .float "0.5", .operator "/", .int "0", .semicolon] := by cbv
  refine readProgram_of_phrase (by rw [words]; decide) ?_
  rw [words]
  have half : Phrase.Value [.float "0.5"] (.float 0.5) := .float rfl
  have zero : Phrase.Value [.int "0"] (.int 0) := .int (by decide) (by decide)
  have quotient : Phrase.Product [.float "0.5", .operator "/", .int "0"]
      (.call (.str "/") [.float 0.5, .int 0]) := .apply (.value half) (by decide) zero
  exact ⟨_, rfl, .cons (.assignment (.product quotient)) .nil⟩

set_option maxRecDepth 10000 in
theorem emitting_preserves_running_dividing :
    Holds "x=0.5/0;".toUTF8 "x=0.5/0;".toList dividing ∧ (∀ text program, ¬ Holds "x=".toUTF8 text program) ∧
    (run ["--emit-ast", "p"] (diskWith "x=") idle = run ["-v", "p"] (diskWith "x=") idle ∧
      (run ["--emit-ast", "p"] (diskWith "x=") idle).status = 1 ∧
      (run ["--emit-ast", "p"] (diskWith "x=") idle).disk = diskWith "x=") ∧
    let emitted := run ["--emit-ast", "p"] (diskWith "x=0.5/0;") idle
    let direct := run ["-v", "p", "-vv"] (diskWith "x=0.5/0;") idle
    let reloaded := run ["-v", "--ast", "p.ast.json", "-vv"] emitted.disk idle
    emitted.status = 0 ∧
      EndsAlike (warningLines (readProgram "x=0.5/0;".toList 0).warnings) direct reloaded := by
  have tidy : tidyPath "p" = "p" := by cbv
  have found (content : String) : (diskWith content).read (tidyPath "p") = .ok content.toUTF8 := by
    rw [tidy]
    rfl
  have named : EndsInName "p" := by simp [EndsInName, pathNames]
  have free (place : List String) :
      (diskWith "x=0.5/0;").resolve (tidyPath "p" ++ ".ast.json") ≠ .ok (.folder place) := by
    have vacant : (diskWith "x=0.5/0;").resolve ("p" ++ ".ast.json")
        = .ok (.vacant ["home", "p.ast.json"]) := rfl
    rw [tidy, vacant]
    intro folder
    cases folder
  have holds : Holds "x=0.5/0;".toUTF8 "x=0.5/0;".toList dividing :=
    ⟨readText_toUTF8 (by decide), readProgram_dividing⟩
  have back : Json.ReadsBack 0.5 := by
    have written : Json.number.write 0.5 = "0.5" := by decide +kernel
    rw [Json.ReadsBack, written]
    rfl
  have unread : (parse "x=".toList 0).1.isOk = false := by cbv
  have refused (text : List Char) (program : Node) : ¬ Holds "x=".toUTF8 text program := by
    intro holds
    cases (readText_toUTF8 (by decide)).symm.trans holds.readable
    have parsed : (parse "x=".toList 0).1.mapError (ParseFault.report "x=".toList 0) = .ok program :=
      holds.parsed
    cases outcome : (parse "x=".toList 0).1 with
    | error fault =>
      rw [outcome] at parsed
      cases parsed
    | ok tree =>
      rw [outcome] at unread
      cases unread
  have reloads := (emitting_preserves_running (by decide) named (found "x=0.5/0;") [0] [1] idle).1
    _ dividing holds free (by decide) (List.forall_mem_singleton.2 back)
  have refuses := (emitting_preserves_running (by decide) named (found "x=") [0] [] idle).2 refused
  exact ⟨holds, refused, refuses, reloads⟩

end Command

end Abacus
