import Chatline.Demo.Definitions
import Chatline.Proofs.Console.Demo
import Chatline.Proofs.Directory

/-! The definition files of the demo commands build the demo commands, so that a console over a
directory with these files answers every line as one over the commands made in code. -/
namespace Chatline

theorem FileTree.isFile_of_read {files : FileTree} {path text : String}
    (h : files.read path = .ok text) : files.isFile path = true := by
  unfold read at h
  unfold isFile
  cases hresolve : files.resolve path with
  | error e =>
    rw [hresolve] at h
    cases h
  | ok found =>
    obtain ⟨place, content⟩ := found
    rw [hresolve] at h
    cases content with
    | folder => cases h
    | _ => rfl

theorem Source.idsIn_of_perm {files : FileTree} {dir : String} {names listed ids : List String}
    (hnames : files.filesIn dir = .ok names) (hperm : names.Perm listed)
    (hstems : listed.filterMap Path.tomlStem? = ids) (hids : ids.Pairwise (· < ·)) :
    idsIn files dir = .ok ids := by
  have hsorted : NameMap.sortedNames (names.filterMap Path.tomlStem?) = ids := by
    rw [NameMap.sortedNames_of_perm (hperm.filterMap _), hstems,
      NameMap.sortedNames_of_ascending hids]
  unfold idsIn
  rw [hnames]
  exact congrArg Except.ok hsorted

theorem Draft.build_of_versions {σ : Type} {d : Draft} {id lead : String} {handlers : Handlers σ}
    {handler : Handler σ} {vs : List Version}
    (hhandler : handlers.get? (d.handler.getD id) = some handler)
    (hne : d.versions.isEmpty = false) (hvs : buildVersions id lead 1 d.versions = .ok vs) :
    d.build id lead handlers = .ok { name := d.name.getD id, versions := vs, handler } := by
  unfold build
  dsimp only
  rw [hhandler]
  dsimp only
  rw [hne, hvs]
  rfl

theorem Source.loadFrom_of_draft {σ : Type} {files : FileTree} {dir id lead text : String}
    {handlers : Handlers σ} {draft : Draft} {c : Command σ}
    (hread : files.read (Path.join dir (id ++ ".toml")) = .ok text)
    (hdraft : Draft.ofText text = .ok draft) (hbuild : draft.build id lead handlers = .ok c) :
    loadFrom files dir lead handlers id = .ok c := by
  unfold loadFrom
  dsimp only
  rw [if_pos (FileTree.isFile_of_read hread), hread]
  dsimp only
  unfold loadFile
  dsimp only
  rw [hdraft]
  dsimp only
  rw [hbuild]

namespace Demo

/-- The characters of lines, each with its line end. -/
def lineChars (lines : List String) : List Char := lines.flatMap fun l => l.toList ++ ['\n']

theorem toList_fileText (lines : List String) : (fileText lines).toList = lineChars lines := by
  unfold fileText lineChars
  rw [String.toList_join]
  simp [List.flatMap_map]

theorem ofText_fileText (lines : List String) :
    Draft.ofText (fileText lines) = match Toml.readChars (lineChars lines) with
      | some fs => Draft.ofFields fs
      | none => .error .malformed := by
  have hread : Toml.read? (fileText lines) = Toml.readChars (lineChars lines) :=
    congrArg Toml.readChars (toList_fileText lines)
  rw [← hread]
  rfl

def chooseDraft : Draft :=
  { versions :=
      [{ triggers := ["choose", "pick"]
         arguments :=
          [ .leaf { name := "option" }, .word "or" false 0, .leaf { name := "option" },
            .group { optional := true, repetition := some (1, 20) }
              [.word "or" false 0, .leaf { name := "option" }] ] }] }

def echoDraft : Draft :=
  { versions :=
      [{ triggers := ["echo", "say"]
         arguments := [.leaf { name := "message", matchers := [.text (some 400)] }] }] }

def sidesDraft : NodeDraft := .leaf { name := "sides", matchers := [.integer (some 2) (some 1000)] }

def rollDraft : Draft :=
  { handler := some "roll"
    versions :=
      [ { label := some "dice"
          triggers := ["roll"]
          arguments :=
            [ .leaf
                { name := "count"
                  matchers := [.integer (some 1) (some 100)]
                  optional := true
                  fallback := some (.int 1) },
              .word "d" false 0,
              sidesDraft,
              .group { optional := true }
                [ .word "+" false 0,
                  .leaf { name := "bonus", matchers := [.integer (some (-1000)) (some 1000)] } ] ] },
        { label := some "single", triggers := ["roll"], arguments := [sidesDraft] } ] }

theorem ofText_chooseFile : Draft.ofText chooseFile = .ok chooseDraft := by
  unfold chooseFile
  rw [ofText_fileText]
  decide +kernel

theorem ofText_echoFile : Draft.ofText echoFile = .ok echoDraft := by
  unfold echoFile
  rw [ofText_fileText]
  decide +kernel

theorem ofText_rollFile : Draft.ofText rollFile = .ok rollDraft := by
  unfold rollFile
  rw [ofText_fileText]
  decide +kernel

theorem buildVersions_chooseDraft (lead : String) :
    Draft.buildVersions "choose" lead 1 chooseDraft.versions = .ok (chooseVersions lead) := rfl

theorem buildVersions_echoDraft (lead : String) :
    Draft.buildVersions "echo" lead 1 echoDraft.versions = .ok (echoVersions lead) := rfl

theorem buildVersions_rollDraft (lead : String) :
    Draft.buildVersions "roll" lead 1 rollDraft.versions = .ok (rollVersions lead) := rfl

/-- The definition files of the demo commands, by the ids of the commands. -/
def texts : List (String × String) :=
  [("choose", chooseFile), ("echo", echoFile), ("roll", rollFile)]

/-- A directory that holds the definition files of the demo commands and no others. -/
structure Holds (files : FileTree) (dir : String) : Prop where
  names : ∃ names, files.filesIn dir = .ok names ∧
    names.Perm ["choose.toml", "echo.toml", "roll.toml"]
  read : ∀ t ∈ texts, files.read (Path.join dir (t.1 ++ ".toml")) = .ok t.2

/-- Each demo command is built from the definition under its id. -/
theorem exists_draft {lead : String} {e : String × Command Generator} (he : e ∈ commands lead) :
    ∃ text draft, (e.1, text) ∈ texts ∧ Draft.ofText text = .ok draft ∧
      draft.build e.1 lead handlers = .ok e.2 := by
  have hhandler := get?_handlers he
  simp only [commands, List.mem_cons, List.not_mem_nil, or_false] at he
  rcases he with rfl | rfl | rfl
  · refine ⟨chooseFile, chooseDraft, by simp [texts], ofText_chooseFile, ?_⟩
    exact Draft.build_of_versions hhandler rfl (buildVersions_chooseDraft lead)
  · refine ⟨echoFile, echoDraft, by simp [texts], ofText_echoFile, ?_⟩
    exact Draft.build_of_versions hhandler rfl (buildVersions_echoDraft lead)
  · refine ⟨rollFile, rollDraft, by simp [texts], ofText_rollFile, ?_⟩
    exact Draft.build_of_versions hhandler rfl (buildVersions_rollDraft lead)

theorem offers_definitions {files : FileTree} {dir : String} (h : Holds files dir) (lead : String) :
    ((Source.directory dir lead handlers).supply files).Offers (commands lead) := by
  obtain ⟨names, hnames, hperm⟩ := h.names
  have hstems : ["choose.toml", "echo.toml", "roll.toml"].filterMap Path.tomlStem? =
      ["choose", "echo", "roll"] := by decide +kernel
  have hids : Source.idsIn files dir = .ok ["choose", "echo", "roll"] :=
    Source.idsIn_of_perm hnames hperm hstems ids_ascending
  constructor
  · exact hids
  · intro e he
    obtain ⟨text, draft, htext, hdraft, hbuild⟩ := exists_draft he
    have hread : files.read (Path.join dir (e.1 ++ ".toml")) = .ok text := h.read (e.1, text) htext
    have hload : Source.loadFrom files dir lead handlers e.1 = .ok e.2 :=
      Source.loadFrom_of_draft hread hdraft hbuild
    exact hload

end Demo

namespace Console

variable {config : Config} {dir : String}

/-- The directory of the definitions has no part in what makes settings valid. -/
theorem validate_commandsDir (config : Config) (commandsDir : Option String) :
    { config with commandsDir }.validate = config.validate := rfl

theorem start_made (hvalid : config.validate = .ok ()) (files : FileTree) (seed : UInt64) :
    start { config with commandsDir := none } files seed =
      .ok (opened { config with commandsDir := none } seed (Demo.registry config.lead)) := by
  rw [← validate_commandsDir config none] at hvalid
  exact start_demo hvalid rfl files seed

theorem start_read (hvalid : config.validate = .ok ()) {files : FileTree}
    (hfiles : Demo.Holds files dir) (seed : UInt64) :
    start { config with commandsDir := some dir } files seed =
      .ok (opened { config with commandsDir := some dir } seed (Demo.registry config.lead)) := by
  have hoffers : ((sourceOf { config with commandsDir := some dir }).supply files).Offers
      (Demo.commands config.lead) := Demo.offers_definitions hfiles config.lead
  rw [← validate_commandsDir config (some dir)] at hvalid
  exact start_of_offers hvalid hoffers (Demo.commands_ascending config.lead) seed

/-- With the same settings, a console over a directory that holds the definition files of the demo
commands, and no others, answers every line as a console over the commands made in code. -/
theorem definitions_answer_as_demo (hvalid : config.validate = .ok ()) {files : FileTree}
    (hfiles : Demo.Holds files dir) (seed : UInt64) :
    ∃ made read, start { config with commandsDir := none } files seed = .ok made ∧
      start { config with commandsDir := some dir } files seed = .ok read ∧
      ∀ turns : List (FileTree × String), (∀ t ∈ turns, Demo.Holds t.1 dir) →
        answers turns read = answers turns made := by
  have hsource : opened { config with commandsDir := some dir } seed (Demo.registry config.lead) =
      (opened { config with commandsDir := none } seed (Demo.registry config.lead)).withSource
        (.directory dir config.lead Demo.handlers) := rfl
  refine ⟨_, _, start_made hvalid files seed, start_read hvalid hfiles seed, fun turns hturns => ?_⟩
  rw [hsource]
  apply answers_withSource
  intro t ht
  have hasc := Demo.commands_ascending config.lead
  have hread := Registry.reloadAll_of_offers
    (Demo.offers_definitions (hturns t ht) config.lead) hasc
  have hmade := Registry.reloadAll_of_offers (Demo.offers_source config.lead t.1) hasc
  exact hread.trans hmade.symm

end Console

namespace Demo

def fileNames : List String := ["choose.toml", "echo.toml", "roll.toml"]

theorem entries_definitions : (definitions "commands").entries =
    [ (["commands"], .folder), (["commands", "choose.toml"], .text chooseFile),
      (["commands", "echo.toml"], .text echoFile), (["commands", "roll.toml"], .text rollFile) ] := by
  have hplaces : ∀ name ∈ fileNames,
      FileTree.placeOf (Path.join "commands" name) = ["commands", name] := by decide +kernel
  have hchoose := hplaces "choose.toml" (by simp [fileNames])
  have hecho := hplaces "echo.toml" (by simp [fileNames])
  have hroll := hplaces "roll.toml" (by simp [fileNames])
  simp [definitions, FileTree.ofList, FileTree.write, FileTree.makeFolders, FileTree.content?,
    hchoose, hecho, hroll, List.range_succ]

theorem content?_commands : (definitions "commands").content? ["commands"] = some .folder := by
  simp [FileTree.content?, entries_definitions]

theorem resolve_commands : (definitions "commands").resolve "commands" =
    .ok (["commands"], .folder) := by
  have hfollow : (definitions "commands").follow [] ["commands"] = .ok ["commands"] :=
    FileTree.follow_last rfl (by decide)
  have hparts : Path.components "commands" = ["commands"] := by decide +kernel
  refine FileTree.resolve_eq_ok_iff.2 ⟨by decide +kernel, by decide, by decide +kernel, ?_,
    content?_commands⟩
  rw [hparts]
  exact hfollow

theorem isName_fileNames : ∀ name ∈ fileNames, Path.IsName name ∧
    (Path.join "commands" name).utf8ByteSize ≤ Path.pathLimit := by decide +kernel

theorem resolve_file {name : String} (h : name ∈ fileNames) {content : Content}
    (hcontent : (definitions "commands").content? ["commands", name] = some content) :
    (definitions "commands").resolve (Path.join "commands" name) =
      .ok (["commands", name], content) := by
  obtain ⟨hname, hpath⟩ := isName_fileNames name h
  exact (FileTree.resolve_join_eq_ok_iff resolve_commands hname.proper hname.noSlash).2
    ⟨hname.noNul, hpath, hname.short, rfl, hcontent⟩

theorem map_texts : texts.map (fun t => t.1 ++ ".toml") = fileNames := by decide +kernel

theorem holds_definitions : Holds (definitions "commands") "commands" := by
  have hread : ∀ t ∈ texts, (definitions "commands").read (Path.join "commands" (t.1 ++ ".toml")) =
      .ok t.2 := by
    intro t ht
    have hname : t.1 ++ ".toml" ∈ fileNames := by
      rw [← map_texts]
      exact List.mem_map_of_mem (f := fun t => t.1 ++ ".toml") ht
    have hcontent : (definitions "commands").content? ["commands", t.1 ++ ".toml"] =
        some (.text t.2) := by
      simp only [texts, List.mem_cons, List.not_mem_nil, or_false] at ht
      rcases ht with rfl | rfl | rfl <;> simp [FileTree.content?, entries_definitions]
    unfold FileTree.read
    rw [resolve_file hname hcontent]
  refine ⟨⟨fileNames, ?_, List.Perm.refl _⟩, hread⟩
  have hfiles : ∀ name ∈ fileNames,
      (definitions "commands").isFile (Path.join "commands" name) = true := by
    rw [← map_texts]
    intro name hname
    obtain ⟨t, ht, rfl⟩ := List.mem_map.1 hname
    exact FileTree.isFile_of_read (hread t ht)
  have hnames : (definitions "commands").entries.filterMap
      (fun e => if e.1.dropLast = ["commands"] then e.1.getLast? else none) = fileNames := by
    simp [entries_definitions, fileNames]
  unfold FileTree.filesIn
  rw [resolve_commands]
  dsimp only
  rw [hnames, List.filter_eq_self.2 hfiles]

end Demo

theorem Console.definitions_answer_as_demo_to_roll :
    let files := Demo.definitions "commands"
    let turns := [(files, ":reload"), (files, "!roll 2 d 6"), (files, "!roll 2 d 7000")]
    ({} : Config).validate = .ok () ∧ Demo.Holds files "commands" ∧
    ∃ made read, start {} files 7 = .ok made ∧
      start { commandsDir := some "commands" } files 7 = .ok read ∧
      answers turns read = answers turns made := by
  intro files turns
  have hvalid : ({} : Config).validate = .ok () := by decide +kernel
  have hfiles := Demo.holds_definitions
  obtain ⟨made, read, hmade, hread, hturns⟩ := definitions_answer_as_demo hvalid hfiles 7
  refine ⟨hvalid, hfiles, made, read, hmade, hread, hturns turns ?_⟩
  intro t ht
  simp only [turns, List.mem_cons, List.not_mem_nil, or_false] at ht
  rcases ht with rfl | rfl | rfl <;> exact hfiles

end Chatline
