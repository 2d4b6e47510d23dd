import Chatline.Proofs.Demo.Loading

/-! A directory of definitions: which ids it lists, and that these are the ids that can be loaded
from it. -/
namespace Chatline

namespace Text

theorem piecesAt_append (sep : Char) (cs rest : List Char) :
    piecesAt sep (cs ++ sep :: rest) =
      ((piecesAt sep cs).1, (piecesAt sep cs).2 ++ (piecesAt sep rest).1 ::
        (piecesAt sep rest).2) := by
  induction cs with
  | nil => simp [piecesAt]
  | cons c cs ih =>
    rw [List.cons_append, piecesAt, piecesAt, ih]
    by_cases hc : c = sep <;> simp [hc]

theorem piecesAt_of_notMem {sep : Char} {cs : List Char} (h : sep ∉ cs) :
    piecesAt sep cs = (cs, []) := by
  induction cs with
  | nil => rfl
  | cons c cs ih =>
    obtain ⟨hc, hcs⟩ : sep ≠ c ∧ sep ∉ cs := by simpa using h
    rw [piecesAt, ih hcs]
    exact if_neg (Ne.symm hc)

end Text

namespace Path

/-- A name that something in a directory can have. -/
structure IsName (name : String) : Prop where
  proper : name ∉ ["", ".", ".."]
  noSlash : '/' ∉ name.toList
  noNul : '\x00' ∉ name.toList
  short : name.utf8ByteSize ≤ nameLimit

instance (name : String) : Decidable (IsName name) :=
  decidable_of_iff
    (name ∉ ["", ".", ".."] ∧ '/' ∉ name.toList ∧ '\x00' ∉ name.toList ∧
      name.utf8ByteSize ≤ nameLimit)
    ⟨fun ⟨hproper, hslash, hnul, hshort⟩ => ⟨hproper, hslash, hnul, hshort⟩,
      fun h => ⟨h.proper, h.noSlash, h.noNul, h.short⟩⟩

/-- The components of a path that are given by what stands before its last slash. -/
def folders (cs : List Char) : List String :=
  (if (cs ++ ['/']).head? = some '/' then "/" else String.ofList (Text.piecesAt '/' cs).1) ::
    (Text.piecesAt '/' cs).2.map String.ofList

theorem folders_ne_nil (cs : List Char) : folders cs ≠ [] := List.cons_ne_nil _ _

theorem components_below (cs : List Char) {path name : String} (hname : '/' ∉ name.toList)
    (hpath : path.toList = cs ++ '/' :: name.toList) : components path = folders cs ++ [name] := by
  have hhead : (cs ++ '/' :: name.toList).head? = (cs ++ ['/']).head? := by cases cs <;> rfl
  unfold components folders isAbsolute
  simp [hpath, hhead, Text.piecesAt_append, Text.piecesAt_of_notMem hname]

theorem components_eq_folders {path : String} (h : path ≠ "") :
    components path = folders path.toList := by
  have hhead : (path.toList ++ ['/']).head? = path.toList.head? := by
    cases hcs : path.toList with
    | nil => exact absurd (String.toList_eq_nil_iff.1 hcs) h
    | cons c cs => rfl
  unfold components folders isAbsolute
  simp [hhead]

theorem isAbsolute_of_noSlash {name : String} (h : '/' ∉ name.toList) :
    isAbsolute name = false := by
  have hhead : name.toList.head? ≠ some '/' := fun hhead => h (List.mem_of_mem_head? hhead)
  simpa [isAbsolute] using hhead

theorem le_utf8ByteSize_join {dir name : String} (hdir : dir ≠ "") (hname : '/' ∉ name.toList) :
    dir.utf8ByteSize + name.utf8ByteSize ≤ (join dir name).utf8ByteSize := by
  have hempty : dir.isEmpty = false := by simpa using hdir
  unfold join
  rw [isAbsolute_of_noSlash hname, hempty]
  split
  · contradiction
  · split
    · exact Nat.le_of_eq String.utf8ByteSize_append.symm
    · simp only [String.utf8ByteSize_append]
      omega

/-- A name comes behind the whole path of a directory, or behind its last slash if it ends in
one. -/
theorem exists_folders {dir : String} (hdir : dir ≠ "") :
    ∃ cs, (∀ c ∈ cs, c ∈ dir.toList) ∧
      (components dir = folders cs ∨ components dir = folders cs ++ [""]) ∧
      ∀ name : String, '/' ∉ name.toList → (join dir name).toList = cs ++ '/' :: name.toList := by
  have hempty : dir.isEmpty = false := by simpa using hdir
  by_cases hslash : dir.toList.getLast? = some '/'
  · obtain ⟨cs, hcs⟩ := List.getLast?_eq_some_iff.1 hslash
    refine ⟨cs, fun c hc => ?_, .inr ?_, fun name hname => ?_⟩
    · rw [hcs]
      exact List.mem_append_left _ hc
    · exact components_below cs (by simp) (by simpa using hcs)
    · simp [join, isAbsolute_of_noSlash hname, hempty, hcs]
  · refine ⟨dir.toList, fun c hc => hc, .inl (components_eq_folders hdir), fun name hname => ?_⟩
    simp [join, isAbsolute_of_noSlash hname, hempty, hslash]

theorem tomlStem?_eq_some_iff {name stem : String} :
    tomlStem? name = some stem ↔ stem ≠ "" ∧ name = stem ++ ".toml" := by
  unfold tomlStem?
  dsimp only
  constructor
  · intro h
    split at h
    · next hstem =>
      cases h
      refine ⟨by simpa using hstem.2, String.toList_inj.1 ?_⟩
      rw [String.toList_append, String.toList_ofList]
      exact hstem.1
    · cases h
  · rintro ⟨hne, rfl⟩
    have hstem : (stem ++ ".toml").toList.take
        ((stem ++ ".toml").toList.length - ".toml".toList.length) = stem.toList := by
      simp
    rw [hstem, if_pos ⟨String.toList_append, by simpa using hne⟩, String.ofList_toList]

end Path

namespace FileTree

variable {files : FileTree} {dir name : String} {place : List String}

/-- What stands directly in a folder has a name that it can have. -/
def NamedIn (files : FileTree) (place : List String) : Prop :=
  ∀ name content, (place ++ [name], content) ∈ files.entries → Path.IsName name

theorem follow_append (files : FileTree) (place parts more : List String) :
    files.follow place (parts ++ more) =
      (files.follow place parts).bind fun found => files.follow found more := by
  induction parts generalizing place with
  | nil => rfl
  | cons part parts ih =>
    rw [List.cons_append, follow, follow]
    split
    · rfl
    · split
      · rfl
      · split
        · exact ih place
        · split
          · exact ih (Path.parent place)
          · exact ih (place ++ [part])
    · rfl

theorem follow_blanks (h : files.content? place = some .folder) (n : Nat) :
    files.follow place (List.replicate n "") = .ok place := by
  induction n with
  | zero => rfl
  | succ n ih =>
    rw [List.replicate_succ, follow, h]
    simpa using ih

/-- A slash at the end of a path leads nowhere else. -/
theorem eq_of_follow_blank {found : List String} (h : files.follow found [""] = .ok place) :
    found = place := by
  rw [follow] at h
  split at h
  · cases h
  · simpa [follow, Path.nameLimit] using h
  · cases h

theorem follow_last (hplace : files.content? place = some .folder)
    (hname : name ∉ ["", ".", ".."]) :
    files.follow place [name] =
      if Path.nameLimit < name.utf8ByteSize then .error .nameTooLong else .ok (place ++ [name]) := by
  simp only [List.mem_cons, List.not_mem_nil, or_false, not_or] at hname
  simp [follow, hplace, hname]

theorem walk_append {parts : List String} (h : parts ≠ []) (more : List String) :
    files.walk (parts ++ more) =
      (files.walk parts).bind fun found => files.follow found more := by
  obtain ⟨part, parts, rfl⟩ := List.exists_cons_of_ne_nil h
  by_cases hroot : part = "/"
  · subst hroot
    exact follow_append files ["/"] parts more
  · have hwalk : ∀ rest, files.walk (part :: rest) = files.follow [] (part :: rest) := by
      intro rest
      unfold walk
      split
      · next heq => simp_all
      · rfl
    rw [List.cons_append, hwalk, hwalk]
    exact follow_append files [] (part :: parts) more

theorem found_eq_ok_iff {place' : List String} {content : Content} :
    files.found place = .ok (place', content) ↔
      place = place' ∧ files.content? place' = some content := by
  unfold found
  constructor
  · intro h
    split at h
    · next hcontent =>
      cases h
      exact ⟨rfl, hcontent⟩
    · cases h
  · rintro ⟨rfl, hcontent⟩
    rw [hcontent]

theorem resolve_eq_ok_iff {path : String} {content : Content} :
    files.resolve path = .ok (place, content) ↔
      '\x00' ∉ path.toList ∧ path ≠ "" ∧ path.utf8ByteSize ≤ Path.pathLimit ∧
        files.walk (Path.components path) = .ok place ∧ files.content? place = some content := by
  unfold resolve
  by_cases hnul : '\x00' ∈ path.toList
  · simp [hnul]
  by_cases hempty : path = ""
  · simp [hempty]
  by_cases hlong : Path.pathLimit < path.utf8ByteSize
  · simp [hnul, hempty, hlong, Nat.not_le.2 hlong]
  rw [if_neg (by simpa using hnul), if_neg (by simpa using hempty), if_neg hlong]
  have hspelled : '\x00' ∉ path.toList ∧ path ≠ "" ∧ path.utf8ByteSize ≤ Path.pathLimit :=
    ⟨hnul, hempty, Nat.le_of_not_lt hlong⟩
  cases files.walk (Path.components path) with
  | error e => simp [Except.bind]
  | ok place' =>
    change files.found place' = _ ↔ _
    rw [found_eq_ok_iff, Except.ok.injEq]
    tauto

/-- What a name below a directory leads to. -/
theorem resolve_join_eq_ok_iff (hdir : files.resolve dir = .ok (place, .folder))
    (hproper : name ∉ ["", ".", ".."]) (hslash : '/' ∉ name.toList) {found : List String}
    {content : Content} :
    files.resolve (Path.join dir name) = .ok (found, content) ↔
      '\x00' ∉ name.toList ∧ (Path.join dir name).utf8ByteSize ≤ Path.pathLimit ∧
        name.utf8ByteSize ≤ Path.nameLimit ∧ found = place ++ [name] ∧
        files.content? (place ++ [name]) = some content := by
  obtain ⟨hnul, hne, -, hwalk, hplace⟩ := resolve_eq_ok_iff.1 hdir
  obtain ⟨cs, hcs, hcomponents, hjoin⟩ := Path.exists_folders hne
  have hfolders : files.walk (Path.folders cs) = .ok place := by
    rcases hcomponents with h | h
    · rwa [← h]
    · rw [h, walk_append (Path.folders_ne_nil cs)] at hwalk
      cases hfound : files.walk (Path.folders cs) with
      | error e =>
        rw [hfound] at hwalk
        cases hwalk
      | ok found =>
        rw [hfound] at hwalk
        rw [eq_of_follow_blank hwalk]
  have hnulName : '\x00' ∈ (Path.join dir name).toList ↔ '\x00' ∈ name.toList := by
    have hnot : '\x00' ∉ cs := fun h => hnul (hcs _ h)
    simp [hjoin name hslash, hnot]
  have hnonempty : Path.join dir name ≠ "" := by
    rw [← String.toList_eq_nil_iff.ne, hjoin name hslash]
    simp
  have hbelow : files.walk (Path.components (Path.join dir name)) = files.follow place [name] := by
    rw [Path.components_below cs hslash (hjoin name hslash), walk_append (Path.folders_ne_nil cs),
      hfolders]
    rfl
  rw [resolve_eq_ok_iff, hnulName, hbelow, follow_last hplace hproper]
  by_cases hlong : Path.nameLimit < name.utf8ByteSize
  · simp [hlong, Nat.not_le.2 hlong]
  · rw [if_neg hlong]
    constructor
    · rintro ⟨hnul, -, hpath, hfound, hcontent⟩
      cases hfound
      exact ⟨hnul, hpath, Nat.le_of_not_lt hlong, rfl, hcontent⟩
    · rintro ⟨hnul, hpath, -, rfl, hcontent⟩
      exact ⟨hnul, hnonempty, hpath, rfl, hcontent⟩

theorem isFile_join_iff (hdir : files.resolve dir = .ok (place, .folder))
    (hname : Path.IsName name) :
    files.isFile (Path.join dir name) = true ↔
      (Path.join dir name).utf8ByteSize ≤ Path.pathLimit ∧
        ∃ content, files.content? (place ++ [name]) = some content ∧ content.isFile = true := by
  have hresolve : ∀ found content, files.resolve (Path.join dir name) = .ok (found, content) ↔ _ :=
    fun found content => resolve_join_eq_ok_iff hdir hname.proper hname.noSlash
  unfold isFile
  constructor
  · intro h
    split at h
    · next found content hfound =>
      obtain ⟨-, hpath, -, -, hcontent⟩ := (hresolve _ _).1 hfound
      exact ⟨hpath, content, hcontent, h⟩
    · cases h
  · rintro ⟨hpath, content, hcontent, hfile⟩
    rw [(hresolve _ _).2 ⟨hname.noNul, hpath, hname.short, rfl, hcontent⟩]
    exact hfile

/-- A file stands in the list of the tree under the names that lead to it. -/
theorem mem_entries_of_content? {content : Content} (h : files.content? place = some content)
    (hfile : content.isFile = true) : (place, content) ∈ files.entries := by
  unfold content? at h
  split at h
  · cases h
    cases hfile
  · obtain ⟨e, he, rfl⟩ := Option.map_eq_some_iff.1 h
    have hplace : e.1 = place := by simpa using List.find?_some he
    rw [← hplace]
    exact List.mem_of_find?_eq_some he

/-- The files in a directory, but for those whose path is too long. -/
theorem exists_filesIn (hdir : files.resolve dir = .ok (place, .folder))
    (hnamed : files.NamedIn place) :
    ∃ names, files.filesIn dir = .ok names ∧ ∀ name, name ∈ names ↔
      (Path.join dir name).utf8ByteSize ≤ Path.pathLimit ∧
        ∃ content, files.content? (place ++ [name]) = some content ∧ content.isFile = true := by
  unfold filesIn
  rw [hdir]
  refine ⟨_, rfl, fun name => ?_⟩
  rw [List.mem_filter]
  constructor
  · rintro ⟨hmem, hfile⟩
    obtain ⟨e, he, hlast⟩ := List.mem_filterMap.1 hmem
    have hentry : e.1 = place ++ [name] := by
      split at hlast
      · next hplace => rw [← hplace, List.dropLast_append_getLast? name hlast]
      · cases hlast
    have hname := hnamed name e.2 (hentry ▸ he)
    exact (isFile_join_iff hdir hname).1 hfile
  · rintro ⟨hpath, content, hcontent, hfile⟩
    have hentry := mem_entries_of_content? hcontent hfile
    refine ⟨List.mem_filterMap.2 ⟨_, hentry, by simp⟩, ?_⟩
    exact (isFile_join_iff hdir (hnamed name content hentry)).2 ⟨hpath, content, hcontent, hfile⟩

end FileTree

variable {σ : Type}

/-- Loading from an ascending list of ids into an empty registry publishes these ids, each with a
fresh command, or fails with the first that cannot be loaded and publishes nothing. -/
theorem Registry.perform_loadAll_empty {s : Supply σ} {ids : List String}
    (hids : s.ids = .ok ids) (hasc : ids.Pairwise (· < ·)) :
    (∃ r : Registry σ, perform s ∅ .loadAll = (.ok (some ids.length), r) ∧ r.keys = ids ∧
      ∀ id ∈ ids, ∃ c, r.get? id = some c ∧ s.load id = .ok c) ∨
    ∃ e, s.FailsWith ids e ∧ perform s ∅ .loadAll = (.error e, ∅) := by
  cases hcs : fetch s ids with
  | error e =>
    have hmissing : (loaded (∅ : Registry σ)).missing ids = ids :=
      List.filter_eq_self.2 fun _ _ => rfl
    have hall : loadAll s ∅ = .error e := by
      rw [loadAll_of_listed s ∅ hids, hmissing, hcs]
      rfl
    refine .inr ⟨e, fetch_eq_error hcs, ?_⟩
    unfold perform
    rw [hall]
    rfl
  | ok cs =>
    obtain ⟨rfl, hload⟩ := fetch_eq_ok hcs
    have hentries : cs.Pairwise (fun a b => a.1 < b.1) := List.pairwise_map.1 hasc
    have hall := loadAll_of_offers ⟨hids, hload⟩ hentries
    refine .inl ⟨⟨cs, hentries⟩, ?_, rfl, fun id hid => ?_⟩
    · unfold perform
      rw [hall, List.length_map]
      rfl
    · obtain ⟨e, he, rfl⟩ := List.mem_map.1 hid
      exact ⟨e.2, NameMap.find?_of_mem (NameMap.keys_nodup ⟨cs, hentries⟩) he, hload e he⟩

namespace Source

variable {files : FileTree} {dir lead id : String} {handlers : Handlers σ} {place : List String}
  {content : Content}

/-- What loading has to answer when this is what stands under the name of the definition. -/
def loadContent (path id lead : String) (handlers : Handlers σ) :
    Content → Except Error (Command σ)
  | .text s => loadFile path id lead handlers s
  | .binary => .error { problem := .io .notUtf8 }
  | .folder => .error (.unknownCommand id)

/-- The file that a directory holds for an id, if its path is not too long. -/
def Lists (files : FileTree) (dir : String) (place : List String) (id : String)
    (content : Content) : Prop :=
  (Path.join dir (id ++ ".toml")).utf8ByteSize ≤ Path.pathLimit ∧
    files.content? (place ++ [id ++ ".toml"]) = some content ∧ content.isFile = true

instance (files : FileTree) (dir : String) (place : List String) (id : String)
    (content : Content) : Decidable (Lists files dir place id content) := instDecidableAnd

theorem fileName_proper (id : String) : id ++ ".toml" ∉ ["", ".", ".."] := by
  intro h
  have hlength : (id ++ ".toml").toList.length ≤ 2 := by
    simp only [List.mem_cons, List.not_mem_nil, or_false] at h
    rcases h with h | h | h <;> simp [h]
  simp at hlength

theorem exists_idsIn (hdir : files.resolve dir = .ok (place, .folder))
    (hnamed : files.NamedIn place) :
    ∃ ids, idsIn files dir = .ok ids ∧ ids.Pairwise (· < ·) ∧
      ∀ id, id ∈ ids ↔ id ≠ "" ∧ ∃ content, Lists files dir place id content := by
  obtain ⟨names, hnames, hmem⟩ := FileTree.exists_filesIn hdir hnamed
  unfold idsIn
  rw [hnames]
  refine ⟨_, rfl, NameMap.sortedNames_ascending _, fun id => ?_⟩
  rw [NameMap.mem_sortedNames, List.mem_filterMap]
  constructor
  · rintro ⟨name, hname, hstem⟩
    obtain ⟨hne, rfl⟩ := Path.tomlStem?_eq_some_iff.1 hstem
    obtain ⟨hpath, content, hcontent⟩ := (hmem _).1 hname
    exact ⟨hne, content, hpath, hcontent⟩
  · rintro ⟨hne, content, hpath, hcontent⟩
    exact ⟨_, (hmem _).2 ⟨hpath, content, hcontent⟩, Path.tomlStem?_eq_some_iff.2 ⟨hne, rfl⟩⟩

theorem loadFrom_of_lists (hdir : files.resolve dir = .ok (place, .folder))
    (hnamed : files.NamedIn place) (h : Lists files dir place id content) :
    loadFrom files dir lead handlers id =
      loadContent (Path.join dir (id ++ ".toml")) id lead handlers content := by
  obtain ⟨hpath, hcontent, hfile⟩ := h
  have hname := hnamed _ content (FileTree.mem_entries_of_content? hcontent hfile)
  have hresolve : files.resolve (Path.join dir (id ++ ".toml")) =
      .ok (place ++ [id ++ ".toml"], content) :=
    (FileTree.resolve_join_eq_ok_iff hdir hname.proper hname.noSlash).2
      ⟨hname.noNul, hpath, hname.short, rfl, hcontent⟩
  unfold loadFrom FileTree.isFile FileTree.read
  dsimp only
  rw [hresolve]
  cases content with
  | folder => cases hfile
  | _ => rfl

theorem loadFrom_of_not_lists (hdir : files.resolve dir = .ok (place, .folder))
    (hslash : '/' ∉ id.toList) (h : ∀ content, ¬ Lists files dir place id content) :
    loadFrom files dir lead handlers id = .error (.unknownCommand id) := by
  have hslashName : '/' ∉ (id ++ ".toml").toList := by
    rw [String.toList_append, List.mem_append, not_or]
    exact ⟨hslash, by decide +kernel⟩
  have hno : files.isFile (Path.join dir (id ++ ".toml")) ≠ true := by
    intro hfile
    unfold FileTree.isFile at hfile
    split at hfile
    · next found content hfound =>
      obtain ⟨-, hpath, -, -, hcontent⟩ :=
        (FileTree.resolve_join_eq_ok_iff hdir (fileName_proper id) hslashName).1 hfound
      exact h content ⟨hpath, hcontent, hfile⟩
    · cases hfile
  unfold loadFrom
  exact if_neg hno

/-- What is wrong with a file that is there is never that the id is not known. -/
theorem loadContent_ne_unknown (hfile : content.isFile = true) {path : String} {e : Error}
    (h : loadContent path id lead handlers content = .error e) (other : String) :
    e.problem ≠ .unknownCommand other := by
  cases content with
  | text s =>
    unfold loadContent loadFile at h
    dsimp only at h
    split at h
    · cases h
      simp
    · split at h
      · cases h
      · cases h
        simp
  | binary =>
    cases h
    simp
  | folder => cases hfile

/-- A directory lists, in ascending order, the ids whose definition is a file in it, up to the
longest path that there can be. Such an id is loaded from what its file holds. Any other that has
no slash in it is not known. So loading all of them publishes what is listed, or nothing. -/
theorem directory_loads_what_it_lists (hdir : files.resolve dir = .ok (place, .folder))
    (hnamed : files.NamedIn place) (lead : String) (handlers : Handlers σ) :
    let s := (Source.directory dir lead handlers).supply files
    ∃ ids, s.ids = .ok ids ∧ ids.Pairwise (· < ·) ∧
      (∀ id, id ∈ ids ↔ id ≠ "" ∧ ∃ content, Lists files dir place id content) ∧
      (∀ id content, Lists files dir place id content →
        s.load id = loadContent (Path.join dir (id ++ ".toml")) id lead handlers content ∧
        ∀ e, s.load id = .error e → ∀ other, e.problem ≠ .unknownCommand other) ∧
      (∀ id, id ≠ "" → '/' ∉ id.toList → id ∉ ids → s.load id = .error (.unknownCommand id)) ∧
      ((∃ r : Registry σ, Registry.perform s ∅ .loadAll = (.ok (some ids.length), r) ∧
          r.keys = ids ∧ ∀ id ∈ ids, ∃ c, r.get? id = some c ∧ s.load id = .ok c) ∨
        ∃ e, s.FailsWith ids e ∧ Registry.perform s ∅ .loadAll = (.error e, ∅)) := by
  intro s
  obtain ⟨ids, hids, hasc, hmem⟩ := exists_idsIn hdir hnamed
  refine ⟨ids, hids, hasc, hmem, fun id content hlists => ?_, fun id hne hslash hid => ?_,
    Registry.perform_loadAll_empty hids hasc⟩
  · have hload : s.load id =
        loadContent (Path.join dir (id ++ ".toml")) id lead handlers content :=
      loadFrom_of_lists hdir hnamed hlists
    refine ⟨hload, fun e he other => ?_⟩
    rw [hload] at he
    exact loadContent_ne_unknown hlists.2.2 he other
  · refine loadFrom_of_not_lists hdir hslash fun content hlists => hid ?_
    exact (hmem id).2 ⟨hne, content, hlists⟩

/-- A point inside a name is part of the id. A name that is only an extension gives no id, and
neither does a folder. -/
theorem directory_lists_a_name_with_two_points :
    let files : FileTree :=
      { entries := [(["c"], .folder), (["c", "a.b.toml"], .binary), (["c", ".toml"], .text ""),
          (["c", "x.toml"], .folder), (["c", "toml"], .text "")] }
    let s : Supply Unit := (Source.directory "c" "!" ∅).supply files
    files.resolve "c" = .ok (["c"], .folder) ∧ files.NamedIn ["c"] ∧ s.ids = .ok ["a.b"] ∧
    s.load "x" = .error (.unknownCommand "x") ∧
    Registry.perform s ∅ .loadAll = (.error { problem := .io .notUtf8 }, ∅) := by
  intro files s
  have hdir : files.resolve "c" = .ok (["c"], .folder) := by decide +kernel
  have hnamed : files.NamedIn ["c"] := by
    intro name content hentry
    have hname : name ∈ ["a.b.toml", ".toml", "x.toml", "toml"] := by
      simp [files] at hentry
      rcases hentry with h | h | h | h <;> simp [h.1]
    have hall : ∀ name ∈ ["a.b.toml", ".toml", "x.toml", "toml"], Path.IsName name := by
      decide +kernel
    exact hall name hname
  obtain ⟨ids, hids, -, -, hload, hunknown, hall⟩ :=
    directory_loads_what_it_lists hdir hnamed "!" (∅ : Handlers Unit)
  have hlisted : s.ids = .ok ["a.b"] := by decide +kernel
  have heq : ids = ["a.b"] := Except.ok.inj (hids.symm.trans hlisted)
  subst heq
  have hbroken : s.load "a.b" = .error { problem := .io .notUtf8 } :=
    (hload "a.b" .binary (by decide +kernel)).1
  refine ⟨hdir, hnamed, hlisted, hunknown "x" (by decide) (by decide) (by decide), ?_⟩
  obtain ⟨r, -, -, hget⟩ | ⟨e, hfails, hperform⟩ := hall
  · obtain ⟨c, -, hc⟩ := hget "a.b" (by simp)
    exact absurd (hbroken.symm.trans hc) (by simp)
  · obtain ⟨before, id, after, hsplit, -, hfailed⟩ := hfails
    have hid : id = "a.b" := by
      have hmem : id ∈ ["a.b"] := by simp [hsplit]
      simpa using hmem
    have he : e = { problem := .io .notUtf8 } :=
      Except.error.inj (hfailed.symm.trans (hid ▸ hbroken))
    rw [hperform, he]

end Source

namespace Path

theorem utf8ByteSize_replicate (n : Nat) (c : Char) :
    (String.ofList (List.replicate n c)).utf8ByteSize = n * c.utf8Size := by
  induction n with
  | zero => simp
  | succ n ih =>
    rw [List.replicate_succ, String.ofList_cons, String.utf8ByteSize_append, ih]
    simp [Nat.succ_mul, Nat.add_comm]

/-- A directory with slashes behind its name. -/
def slashed (n : Nat) : String := "d" ++ String.ofList (List.replicate n '/')

theorem utf8ByteSize_slashed (n : Nat) : (slashed n).utf8ByteSize = n + 1 := by
  have hslash : '/'.utf8Size = 1 := by decide
  have hname : "d".utf8ByteSize = 1 := by decide
  rw [slashed, String.utf8ByteSize_append, utf8ByteSize_replicate, hslash, hname]
  omega

theorem slashed_ne_empty (n : Nat) : slashed n ≠ "" := by
  simp [slashed]

theorem components_slashed (n : Nat) : components (slashed n) = "d" :: List.replicate n "" := by
  have hslashes : Text.piecesAt '/' (List.replicate n '/') = ([], List.replicate n []) := by
    induction n with
    | zero => rfl
    | succ n ih => simp [List.replicate_succ, Text.piecesAt, ih]
  have htoList : (slashed n).toList = 'd' :: List.replicate n '/' := by
    simp [slashed]
  unfold components isAbsolute
  simp [htoList, Text.piecesAt, hslashes]

end Path

theorem FileTree.resolve_slashed {files : FileTree} {n : Nat}
    (h : files.content? ["d"] = some .folder) (hn : n + 1 ≤ Path.pathLimit) :
    files.resolve (Path.slashed n) = .ok (["d"], .folder) := by
  have hwalk : files.walk (Path.components (Path.slashed n)) = .ok ["d"] := by
    have hstart : files.follow [] ["d"] = .ok ["d"] := follow_last rfl (by decide)
    rw [Path.components_slashed]
    change files.follow [] (["d"] ++ List.replicate n "") = _
    rw [follow_append, hstart]
    exact follow_blanks h n
  have hsize : (Path.slashed n).utf8ByteSize ≤ Path.pathLimit := by
    rwa [Path.utf8ByteSize_slashed]
  have hnul : '\x00' ∉ (Path.slashed n).toList := by
    simp [Path.slashed, List.mem_replicate]
  exact resolve_eq_ok_iff.2 ⟨hnul, Path.slashed_ne_empty n, hsize, hwalk, h⟩

namespace Source

/-- An id for which the name of the definition is as long as a name can be. -/
def longId : String := String.ofList (List.replicate 250 'a')

theorem utf8ByteSize_longId : longId.utf8ByteSize = 250 := by
  unfold longId
  rw [Path.utf8ByteSize_replicate]
  decide

theorem utf8ByteSize_longName : (longId ++ ".toml").utf8ByteSize = 255 := by
  rw [String.utf8ByteSize_append, utf8ByteSize_longId]
  decide +kernel

theorem isName_longName : Path.IsName (longId ++ ".toml") := by
  have hchars : ∀ c ∈ (longId ++ ".toml").toList, c ∈ "a.toml".toList := by
    have hsuffix : ".toml".toList ⊆ "a.toml".toList := by decide +kernel
    intro c hc
    rw [String.toList_append, List.mem_append] at hc
    rcases hc with hc | hc
    · unfold longId at hc
      rw [String.toList_ofList] at hc
      rw [List.eq_of_mem_replicate hc]
      decide +kernel
    · exact hsuffix hc
  constructor
  case proper => exact fileName_proper longId
  case noSlash => exact fun h => absurd (hchars _ h) (by decide +kernel)
  case noNul => exact fun h => absurd (hchars _ h) (by decide +kernel)
  case short => exact Nat.le_of_eq utf8ByteSize_longName

/-- A file whose path is longer than any that can be opened is not listed, although the directory
can be. -/
theorem file_under_long_path_is_not_listed :
    let files : FileTree := { entries := [(["d"], .folder), (["d", longId ++ ".toml"], .text "")] }
    files.resolve (Path.slashed 3899) = .ok (["d"], .folder) ∧ files.NamedIn ["d"] ∧
    longId ≠ "" ∧ files.content? ["d", longId ++ ".toml"] = some (.text "") ∧
    idsIn files (Path.slashed 3899) = .ok [] := by
  intro files
  have hne : longId ≠ "" := by
    intro h
    have hsize := utf8ByteSize_longId
    rw [h, String.utf8ByteSize_empty] at hsize
    cases hsize
  have hcontent : files.content? ["d", longId ++ ".toml"] = some (.text "") := by
    simp [files, FileTree.content?]
  have hdir : files.resolve (Path.slashed 3899) = .ok (["d"], .folder) :=
    FileTree.resolve_slashed rfl (by decide)
  have honly : ∀ name content, (["d"] ++ [name], content) ∈ files.entries →
      name = longId ++ ".toml" := by
    intro name content hentry
    simp [files] at hentry
    exact hentry.1
  have hnamed : files.NamedIn ["d"] := fun name content hentry => by
    rw [honly name content hentry]
    exact isName_longName
  obtain ⟨ids, hids, -, hmem⟩ := exists_idsIn hdir hnamed
  have hnone : ids = [] := by
    rw [List.eq_nil_iff_forall_not_mem]
    intro id hid
    obtain ⟨-, content, hpath, hfile, hisFile⟩ := (hmem id).1 hid
    have hname := honly _ _ (FileTree.mem_entries_of_content? hfile hisFile)
    have hlong := Path.le_utf8ByteSize_join (Path.slashed_ne_empty 3899) isName_longName.noSlash
    rw [hname] at hpath
    rw [Path.utf8ByteSize_slashed, utf8ByteSize_longName] at hlong
    unfold Path.pathLimit at hpath
    omega
  exact ⟨hdir, hnamed, hne, hcontent, hnone ▸ hids⟩

end Source
end Chatline
