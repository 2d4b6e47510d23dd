import Chatline.Config
import Chatline.Proofs.Integers
import Mathlib.Data.List.Induction

/-! The grammar of the command line: an unambiguous reading of the arguments as items, and what a
command line asks for in terms of its items alone. -/
namespace Chatline.Config

/-- The text is a number of 64 bits without a sign, perhaps with a plus in front of it. -/
def IsSeed (raw : String) (n : UInt64) : Prop :=
  ∃ ds, (raw.toList = ds ∨ raw.toList = '+' :: ds) ∧ ds ≠ [] ∧
    (∀ d ∈ ds, Text.isDigit d = true) ∧ Text.value ds = n.toNat

def Flag.names : Flag → List String
  | help => ["-h", "--help"]
  | version => ["-V", "--version"]
  | batch => ["-b", "--batch"]
  | quiet => ["-q", "--quiet"]

def Setting.names : Setting → List String
  | lead => ["-p", "--prefix"]
  | commandsDir => ["-d", "--commands"]
  | logFilter => ["--log"]
  | author => ["--author"]
  | seed => ["--seed"]

/-- An argument that is a path: it does not start with a minus sign, or is nothing else. -/
def IsPath (arg : String) : Prop := arg.toList.head? ≠ some '-' ∨ arg = "-"

/-- What the arguments of a command line say, one or two at a time. -/
inductive Item where
  | flag (f : Flag)
  | setting (s : Setting) (value : String)
  | path (name : String)
  | unknown (option : String)
  /-- An option at the end of the command line that lacks its value. -/
  | unvalued (option : String)

/-- The arguments, from left to right, say these items. The value of an option may be any text. -/
inductive Reads : List String → List Item → Prop where
  | nil : Reads [] []
  | flag {f arg args items} (named : arg ∈ f.names) (later : Reads args items) :
      Reads (arg :: args) (.flag f :: items)
  | setting {s arg value args items} (named : arg ∈ s.names) (later : Reads args items) :
      Reads (arg :: value :: args) (.setting s value :: items)
  | unvalued {s : Setting} {arg} (named : arg ∈ s.names) : Reads [arg] [.unvalued arg]
  | path {arg args items} (path : IsPath arg) (later : Reads args items) :
      Reads (arg :: args) (.path arg :: items)
  | unknown {arg args items} (option : ¬ IsPath arg) (flag : ∀ f : Flag, arg ∉ f.names)
      (setting : ∀ s : Setting, arg ∉ s.names) (later : Reads args items) :
      Reads (arg :: args) (.unknown arg :: items)

/-- The item ends the reading of a command line, and this is what comes of it. -/
inductive Item.Ends : Item → Except ConfigFault Request → Prop where
  | help : Ends (.flag .help) (.ok .help)
  | version : Ends (.flag .version) (.ok .version)
  | unknown (option : String) : Ends (.unknown option) (.error (.unknownOption option))
  | unvalued (option : String) : Ends (.unvalued option) (.error (.missingValue option))
  | badSeed {raw : String} (h : ∀ n, ¬ IsSeed raw n) :
      Ends (.setting .seed raw) (.error (.badSeed raw))

def Item.Stops (i : Item) : Prop := ∃ result, i.Ends result

/-- The item is the first one that ends the reading. -/
def StopsAt (items : List Item) (i : Item) : Prop :=
  i.Stops ∧ ∃ before after, items = before ++ i :: after ∧ ∀ j ∈ before, ¬ j.Stops

def Item.valueOf? (s : Setting) : Item → Option String
  | setting s' value => if s' = s then some value else none
  | _ => none

def Item.path? : Item → Option String
  | path name => some name
  | _ => none

/-- The value of the last item that gives this setting one. -/
def lastValue? (s : Setting) (items : List Item) : Option String :=
  (items.filterMap (Item.valueOf? s)).getLast?

/-- The configuration says what the items say, and has the defaults where they say nothing. -/
structure Reflects (items : List Item) (c : Config) : Prop where
  lead : c.lead = (lastValue? .lead items).getD "!"
  commandsDir : c.commandsDir = lastValue? .commandsDir items
  logFilter : c.logFilter = (lastValue? .logFilter items).getD "warn"
  author : c.author = (lastValue? .author items).getD "console"
  prompt : c.prompt = "> "
  unseeded : lastValue? .seed items = none → c.seed = none
  seeded : ∀ raw, lastValue? .seed items = some raw → ∃ n, IsSeed raw n ∧ c.seed = some n
  batch : c.batch = true ↔ .flag .batch ∈ items
  quiet : c.showBanner = false ↔ .flag .quiet ∈ items
  files : c.files = items.filterMap Item.path?

section
variable {arg raw : String}

theorem flag?_eq_some_iff {f : Flag} : flag? arg = some f ↔ arg ∈ f.names := by
  have hnamed : ∀ name ∈ f.names, flag? name = some f := by cases f <;> decide
  refine ⟨fun h => ?_, hnamed arg⟩
  unfold flag? at h
  split_ifs at h with hhelp hversion hbatch hquiet <;> cases h <;> simpa [Flag.names]

theorem setting?_eq_some_iff {s : Setting} : setting? arg = some s ↔ arg ∈ s.names := by
  have hnamed : ∀ name ∈ s.names, setting? name = some s := by cases s <;> decide
  refine ⟨fun h => ?_, hnamed arg⟩
  unfold setting? at h
  split_ifs at h with hlead hdir hlog hauthor hseed <;> cases h <;> simpa [Setting.names]

theorem isOption_eq_false_iff : isOption arg = false ↔ IsPath arg := by
  have hdash : arg = "-" ↔ arg.toList = ['-'] := by rw [← String.toList_inj]; rfl
  unfold isOption IsPath
  rw [hdash]
  split
  · rename_i c cs h
    simp [h]
  · rename_i h
    refine iff_of_true rfl ?_
    cases harg : arg.toList with
    | nil => simp
    | cons c cs =>
      cases cs with
      | nil => simp [or_comm, Decidable.em]
      | cons c' cs =>
        refine .inl fun hc => h c' cs ?_
        rw [harg, Option.some_inj.1 hc]

theorem flag?_eq_none_iff : flag? arg = none ↔ ∀ f : Flag, arg ∉ f.names := by
  simp only [Option.eq_none_iff_forall_ne_some, ne_eq, flag?_eq_some_iff]

theorem setting?_eq_none_iff : setting? arg = none ↔ ∀ s : Setting, arg ∉ s.names := by
  simp only [Option.eq_none_iff_forall_ne_some, ne_eq, setting?_eq_some_iff]

theorem Flag.not_isPath {f : Flag} (h : arg ∈ f.names) : ¬ IsPath arg := by
  have hnames : ∀ name ∈ f.names, isOption name = true := by cases f <;> decide
  rw [← isOption_eq_false_iff, hnames arg h]
  simp

theorem Setting.not_isPath {s : Setting} (h : arg ∈ s.names) : ¬ IsPath arg := by
  have hnames : ∀ name ∈ s.names, isOption name = true := by cases s <;> decide
  rw [← isOption_eq_false_iff, hnames arg h]
  simp

theorem Setting.not_flag {s : Setting} (h : arg ∈ s.names) (f : Flag) : arg ∉ f.names := by
  have hother : ∀ name ∈ s.names, flag? name = none := by cases s <;> decide
  exact flag?_eq_none_iff.1 (hother arg h) f

theorem uint64?_eq_some_iff {m : Nat} {n : UInt64} :
    (if m < UInt64.size then some (UInt64.ofNat m) else none) = some n ↔ m = n.toNat := by
  have hn : n.toNat < UInt64.size := n.toNat_lt
  constructor
  · intro h
    split_ifs at h with hm
    rw [← Option.some_inj.1 h, UInt64.toNat_ofNat_of_lt' hm]
  · rintro rfl
    rw [if_pos hn, UInt64.ofNat_toNat]

theorem readSeed_eq_some_iff {ds : List Char} {n : UInt64} :
    ((Text.readNat? ds).bind fun m =>
      if m < UInt64.size then some (UInt64.ofNat m) else none) = some n ↔
      ds ≠ [] ∧ (∀ d ∈ ds, Text.isDigit d = true) ∧ Text.value ds = n.toNat := by
  rw [← and_assoc, ← Text.readNat?_eq_some_iff]
  cases Text.readNat? ds with
  | none => simp
  | some m => simpa using uint64?_eq_some_iff

theorem seed?_eq_some_iff {n : UInt64} : seed? raw = some n ↔ IsSeed raw n := by
  by_cases hplus : ∃ ds, raw.toList = '+' :: ds
  · obtain ⟨ds, hraw⟩ := hplus
    have hseed : seed? raw = (Text.readNat? ds).bind fun m =>
        if m < UInt64.size then some (UInt64.ofNat m) else none := by
      simp only [seed?, hraw]
      cases Text.readNat? ds <;> rfl
    rw [hseed, readSeed_eq_some_iff]
    constructor
    · exact fun h => ⟨ds, .inr hraw, h⟩
    · rintro ⟨ds', hplain | hplus, h⟩
      · -- the plus sign is no digit
        rw [hraw] at hplain
        exact absurd (h.2.1 '+' (hplain ▸ List.mem_cons_self)) (by decide)
      · rw [hraw] at hplus
        rwa [(List.cons.inj hplus).2]
  · have hplain : ∀ ds, raw.toList = '+' :: ds → False := fun ds hraw => hplus ⟨ds, hraw⟩
    have hseed : seed? raw = (Text.readNat? raw.toList).bind fun m =>
        if m < UInt64.size then some (UInt64.ofNat m) else none := by
      simp only [seed?]
      cases Text.readNat? raw.toList <;> rfl
    rw [hseed, readSeed_eq_some_iff]
    constructor
    · exact fun h => ⟨_, .inl rfl, h⟩
    · rintro ⟨ds, hraw | hraw, h⟩
      · rwa [hraw]
      · exact absurd hraw (hplain ds)

end

section
variable {args : List String} {items : List Item} {i j : Item} {c : Config}
  {r : Except ConfigFault Request}

theorem Item.Ends.unique {r' : Except ConfigFault Request} (h : i.Ends r) (h' : i.Ends r') :
    r = r' := by
  cases h <;> cases h' <;> rfl

theorem stopsAt_cons_iff :
    StopsAt (j :: items) i ↔ j.Stops ∧ i = j ∨ ¬ j.Stops ∧ StopsAt items i := by
  constructor
  · rintro ⟨hstops, before, after, hsplit, hbefore⟩
    cases before with
    | nil =>
      obtain ⟨rfl, rfl⟩ := List.cons.inj hsplit
      exact .inl ⟨hstops, rfl⟩
    | cons k before =>
      obtain ⟨rfl, rfl⟩ := List.cons.inj hsplit
      obtain ⟨hj, hbefore⟩ := List.forall_mem_cons.1 hbefore
      exact .inr ⟨hj, hstops, before, after, rfl, hbefore⟩
  · rintro (⟨hstops, rfl⟩ | ⟨hj, hstops, before, after, rfl, hbefore⟩)
    · exact ⟨hstops, [], items, rfl, by simp⟩
    · exact ⟨hstops, j :: before, after, rfl, List.forall_mem_cons.2 ⟨hj, hbefore⟩⟩

theorem StopsAt.mem (h : StopsAt items i) : i ∈ items := by
  obtain ⟨-, before, after, rfl, -⟩ := h
  exact List.mem_append_right _ List.mem_cons_self

theorem StopsAt.unique {i' : Item} (h : StopsAt items i) (h' : StopsAt items i') : i = i' := by
  induction items with
  | nil =>
    obtain ⟨-, before, after, hsplit, -⟩ := h
    simp at hsplit
  | cons j items ih =>
    rcases stopsAt_cons_iff.1 h with ⟨hj, rfl⟩ | ⟨hj, h⟩ <;>
      rcases stopsAt_cons_iff.1 h' with ⟨hj', rfl⟩ | ⟨hj', h'⟩
    · rfl
    · exact absurd hj hj'
    · exact absurd hj' hj
    · exact ih h h'

/-- What an item that does not end the reading does to the configuration. -/
def Item.applied (c : Config) : Item → Config
  | flag .batch => { c with batch := true }
  | flag .quiet => c.withoutBanner
  | setting s value => ((c.assign value s).toOption).getD c
  | path name => c.withFile name
  | _ => c

theorem assign_cases (c : Config) (s : Setting) (value : String) :
    (∃ c', c.assign value s = .ok c' ∧ (Item.setting s value).applied c = c' ∧
      ¬ (Item.setting s value).Stops) ∨
    ∃ e, c.assign value s = .error e ∧ (Item.setting s value).Ends (.error e) := by
  cases s with
  | seed =>
    unfold Item.applied assign
    dsimp only
    cases hseed : seed? value with
    | some n =>
      refine .inl ⟨_, rfl, rfl, ?_⟩
      rintro ⟨r, ⟨⟩⟩
      rename_i hbad
      exact hbad n (seed?_eq_some_iff.1 hseed)
    | none =>
      refine .inr ⟨_, rfl, .badSeed fun n hn => ?_⟩
      rw [seed?_eq_some_iff.2 hn] at hseed
      cases hseed
  | _ =>
    refine .inl ⟨_, rfl, rfl, ?_⟩
    rintro ⟨r, ⟨⟩⟩

/-- What comes of items that are read with this configuration at the start. -/
inductive Answer (items : List Item) (c : Config) : Except ConfigFault Request → Prop where
  | stopped {last r} (first : StopsAt items last) (ends : last.Ends r) : Answer items c r
  | accepted (unstopped : ∀ i ∈ items, ¬ i.Stops)
      (valid : (items.foldl Item.applied c).validate = .ok ()) :
      Answer items c (.ok (.run (items.foldl Item.applied c)))
  | refused {e} (unstopped : ∀ i ∈ items, ¬ i.Stops)
      (invalid : (items.foldl Item.applied c).validate = .error e) : Answer items c (.error e)

theorem Answer.of_ends (h : i.Ends r) : Answer (i :: items) c r :=
  .stopped (stopsAt_cons_iff.2 (.inl ⟨⟨r, h⟩, rfl⟩)) h

theorem Answer.cons (hi : ¬ i.Stops) (h : Answer items (i.applied c) r) :
    Answer (i :: items) c r := by
  cases h with
  | stopped first ends => exact .stopped (stopsAt_cons_iff.2 (.inr ⟨hi, first⟩)) ends
  | accepted unstopped valid => exact .accepted (List.forall_mem_cons.2 ⟨hi, unstopped⟩) valid
  | refused unstopped invalid => exact .refused (List.forall_mem_cons.2 ⟨hi, unstopped⟩) invalid

theorem Answer.of_stopsAt (h : Answer items c r) (hi : StopsAt items i)
    {r' : Except ConfigFault Request} (hends : i.Ends r') : r = r' := by
  cases h with
  | stopped first ends =>
    obtain rfl := first.unique hi
    exact ends.unique hends
  | accepted unstopped => exact absurd hi.1 (unstopped i hi.mem)
  | refused unstopped => exact absurd hi.1 (unstopped i hi.mem)

theorem answer_parse (h : Reads args items) (c : Config) : Answer items c (parse c args) := by
  induction h generalizing c with
  | nil =>
    have hnone : ∀ i ∈ ([] : List Item), ¬ i.Stops := by simp
    unfold parse
    cases hvalid : c.validate with
    | ok => exact .accepted hnone hvalid
    | error e => exact .refused hnone hvalid
  | @flag f arg args items named later ih =>
    unfold parse
    rw [flag?_eq_some_iff.2 named]
    cases f with
    | help => exact .of_ends .help
    | version => exact .of_ends .version
    | batch => exact (ih _).cons (fun ⟨r, h⟩ => by cases h)
    | quiet => exact (ih _).cons (fun ⟨r, h⟩ => by cases h)
  | @setting s arg value args items named later ih =>
    unfold parse
    rw [flag?_eq_none_iff.2 (Setting.not_flag named), setting?_eq_some_iff.2 named]
    dsimp only
    obtain ⟨c', hassign, happlied, hgoes⟩ | ⟨e, hassign, hends⟩ := assign_cases c s value
    · rw [hassign, ← happlied]
      exact (ih _).cons hgoes
    · rw [hassign]
      exact .of_ends hends
  | @unvalued s arg named =>
    unfold parse
    rw [flag?_eq_none_iff.2 (Setting.not_flag named), setting?_eq_some_iff.2 named]
    exact .of_ends (.unvalued arg)
  | @path arg args items path later ih =>
    have hflag : flag? arg = none := flag?_eq_none_iff.2 fun f h => Flag.not_isPath h path
    have hsetting : setting? arg = none :=
      setting?_eq_none_iff.2 fun s h => Setting.not_isPath h path
    unfold parse
    rw [hflag, hsetting]
    dsimp only
    rw [isOption_eq_false_iff.2 path]
    exact (ih _).cons (fun ⟨r, h⟩ => by cases h)
  | @unknown arg args items option flag setting later ih =>
    have hoption : isOption arg = true := by
      rw [← Bool.not_eq_false, isOption_eq_false_iff]
      exact option
    unfold parse
    rw [flag?_eq_none_iff.2 flag, setting?_eq_none_iff.2 setting]
    dsimp only
    rw [if_pos hoption]
    exact .of_ends (.unknown arg)

/-- Every list of arguments says something. -/
theorem exists_reads : ∀ args : List String, ∃ items, Reads args items
  | [] => ⟨[], .nil⟩
  | arg :: args => by
    by_cases hflag : ∃ f : Flag, arg ∈ f.names
    · obtain ⟨f, named⟩ := hflag
      obtain ⟨items, later⟩ := exists_reads args
      exact ⟨_, .flag named later⟩
    by_cases hsetting : ∃ s : Setting, arg ∈ s.names
    · obtain ⟨s, named⟩ := hsetting
      match args with
      | [] => exact ⟨_, .unvalued named⟩
      | value :: args =>
        obtain ⟨items, later⟩ := exists_reads args
        exact ⟨_, .setting named later⟩
    obtain ⟨items, later⟩ := exists_reads args
    by_cases path : IsPath arg
    · exact ⟨_, .path path later⟩
    · exact ⟨_, .unknown path (not_exists.1 hflag) (not_exists.1 hsetting) later⟩
termination_by args => args.length

theorem Flag.unique {arg : String} {f f' : Flag} (h : arg ∈ f.names) (h' : arg ∈ f'.names) :
    f = f' := by
  rw [← flag?_eq_some_iff] at h h'
  exact Option.some_inj.1 (h.symm.trans h')

theorem Setting.unique {arg : String} {s s' : Setting} (h : arg ∈ s.names)
    (h' : arg ∈ s'.names) : s = s' := by
  rw [← setting?_eq_some_iff] at h h'
  exact Option.some_inj.1 (h.symm.trans h')

/-- The first argument decides what the first item is. -/
theorem Reads.unique {items' : List Item} (h : Reads args items) (h' : Reads args items') :
    items = items' := by
  induction h generalizing items' with
  | nil =>
    cases h'
    rfl
  | @flag f arg args items named later ih =>
    cases h' with
    | flag named' later' => rw [ih later', Flag.unique named named']
    | setting named' later' => exact absurd named (Setting.not_flag named' f)
    | unvalued named' => exact absurd named (Setting.not_flag named' f)
    | path path later' => exact absurd path (Flag.not_isPath named)
    | unknown option flag setting later' => exact absurd named (flag f)
  | @setting s arg value args items named later ih =>
    cases h' with
    | flag named' later' => exact absurd named' (Setting.not_flag named _)
    | setting named' later' => rw [ih later', Setting.unique named named']
    | path path later' => exact absurd path (Setting.not_isPath named)
    | unknown option flag setting later' => exact absurd named (setting s)
  | @unvalued s arg named =>
    cases h' with
    | flag named' later' => exact absurd named' (Setting.not_flag named _)
    | unvalued named' => rfl
    | path path later' => exact absurd path (Setting.not_isPath named)
    | unknown option flag setting later' => exact absurd named (setting s)
  | @path arg args items path later ih =>
    cases h' with
    | flag named later' => exact absurd path (Flag.not_isPath named)
    | setting named later' => exact absurd path (Setting.not_isPath named)
    | unvalued named => exact absurd path (Setting.not_isPath named)
    | path path' later' => rw [ih later']
    | unknown option flag setting later' => exact absurd path option
  | @unknown arg args items option flag setting later ih =>
    cases h' with
    | flag named later' => exact absurd named (flag _)
    | setting named later' => exact absurd named (setting _)
    | unvalued named => exact absurd named (setting _)
    | path path later' => exact absurd path option
    | unknown option' flag' setting' later' => rw [ih later']

@[simp] theorem lastValue?_concat (s : Setting) (items : List Item) (i : Item) :
    lastValue? s (items ++ [i]) = (i.valueOf? s).or (lastValue? s items) := by
  have hlast : ([i].filterMap (Item.valueOf? s)).getLast? = i.valueOf? s := by
    cases h : i.valueOf? s <;> simp [h]
  unfold lastValue?
  rw [List.filterMap_append, List.getLast?_append, hlast]

theorem applied_seed {raw : String} {n : UInt64} (h : IsSeed raw n) :
    (Item.setting .seed raw).applied c = { c with seed := some n } := by
  unfold Item.applied assign
  dsimp only
  rw [seed?_eq_some_iff.2 h]
  rfl

/-- An item that is read after the others changes what it speaks of and nothing else. -/
theorem Reflects.concat (h : Reflects items c) (hi : ¬ i.Stops) :
    Reflects (items ++ [i]) (i.applied c) := by
  obtain ⟨hlead, hdir, hlog, hauthor, hprompt, hunseeded, hseeded, hbatch, hquiet, hfiles⟩ := h
  cases i with
  | flag f =>
    cases f with
    | help => exact absurd ⟨_, .help⟩ hi
    | version => exact absurd ⟨_, .version⟩ hi
    | batch => constructor <;> simp_all [Item.valueOf?, Item.path?, Item.applied]
    | quiet => constructor <;> simp_all [Item.valueOf?, Item.path?, Item.applied, withoutBanner]
  | setting s value =>
    cases s with
    | seed =>
      obtain ⟨n, hn⟩ : ∃ n, IsSeed value n := by
        by_contra hno
        exact hi ⟨_, .badSeed (not_exists.1 hno)⟩
      rw [applied_seed hn]
      constructor <;> simp_all [Item.valueOf?, Item.path?]
    | _ => constructor <;> simp_all [Item.valueOf?, Item.path?, Item.applied, assign, Except.toOption]
  | path name => constructor <;> simp_all [Item.valueOf?, Item.path?, Item.applied, withFile]
  | unknown option => exact absurd ⟨_, .unknown option⟩ hi
  | unvalued option => exact absurd ⟨_, .unvalued option⟩ hi

theorem reflects_foldl (items : List Item) (hnone : ∀ i ∈ items, ¬ i.Stops) :
    Reflects items (items.foldl Item.applied {}) := by
  induction items using List.reverseRecOn with
  | nil => constructor <;> simp [lastValue?]
  | append_singleton items i ih =>
    have hitems : ∀ j ∈ items, ¬ j.Stops := fun j hj => hnone j (List.mem_append_left _ hj)
    rw [List.foldl_append, List.foldl_cons, List.foldl_nil]
    exact (ih hitems).concat (hnone i (by simp))

theorem IsSeed.unique {raw : String} {n n' : UInt64} (h : IsSeed raw n)
    (h' : IsSeed raw n') : n = n' := by
  rw [← seed?_eq_some_iff] at h h'
  exact Option.some_inj.1 (h.symm.trans h')

theorem Reflects.unique {c' : Config} (h : Reflects items c) (h' : Reflects items c') : c = c' := by
  have hseed : c.seed = c'.seed := by
    cases hlast : lastValue? .seed items with
    | none => rw [h.unseeded hlast, h'.unseeded hlast]
    | some raw =>
      obtain ⟨n, hn, hc⟩ := h.seeded raw hlast
      obtain ⟨n', hn', hc'⟩ := h'.seeded raw hlast
      rw [hc, hc', hn.unique hn']
  have hbatch : c.batch = c'.batch := Bool.eq_iff_iff.2 (h.batch.trans h'.batch.symm)
  have hbanner : c.showBanner = c'.showBanner := by
    have hiff := h.quiet.trans h'.quiet.symm
    revert hiff
    cases c.showBanner <;> cases c'.showBanner <;> simp
  cases c
  cases c'
  rw [mk.injEq]
  exact ⟨h.lead.trans h'.lead.symm, h.commandsDir.trans h'.commandsDir.symm,
    h.logFilter.trans h'.logFilter.symm, hbanner, h.prompt.trans h'.prompt.symm,
    h.author.trans h'.author.symm, hseed, h.files.trans h'.files.symm, hbatch⟩

theorem Answer.of_reflects (h : Answer items {} r) (hnone : ∀ i ∈ items, ¬ i.Stops)
    (hc : Reflects items c) : r = c.validate.map fun _ => .run c := by
  have hfold : items.foldl Item.applied {} = c := (reflects_foldl items hnone).unique hc
  cases h with
  | stopped first => exact absurd first.1 (hnone _ first.mem)
  | accepted unstopped valid =>
    rw [hfold] at valid ⊢
    rw [valid]
    rfl
  | refused unstopped invalid =>
    rw [hfold] at invalid
    rw [invalid]
    rfl

end

/-- A command line can be read as items in one way only, and what it asks for follows from the items.
It asks for help or for the version exactly if that item comes before all others that end the
reading. It asks for a session exactly if no item ends the reading and the configuration that the
items give is valid, with this configuration; each setting in it is the last one given. Everything
else is an error: that of the item that ends the reading, or that of the configuration. -/
theorem command_line_says_its_items (args : List String) :
    ∃ items, Reads (args.drop 1) items ∧ (∀ items', Reads (args.drop 1) items' → items' = items) ∧
      (ofArgs args = .ok .help ↔ StopsAt items (.flag .help)) ∧
      (ofArgs args = .ok .version ↔ StopsAt items (.flag .version)) ∧
      (∀ c, ofArgs args = .ok (.run c) ↔
        (∀ i ∈ items, ¬ i.Stops) ∧ Reflects items c ∧ c.validate = .ok ()) ∧
      (∀ e, ofArgs args = .error e ↔
        (∃ i, StopsAt items i ∧ i.Ends (.error e)) ∨
        (∀ i ∈ items, ¬ i.Stops) ∧ ∃ c, Reflects items c ∧ c.validate = .error e) := by
  obtain ⟨items, hitems⟩ := exists_reads (args.drop 1)
  refine ⟨items, hitems, fun items' h => h.unique hitems, ?_⟩
  have hanswer : Answer items {} (ofArgs args) := answer_parse hitems {}
  generalize ofArgs args = r at hanswer
  refine ⟨⟨?_, fun h => hanswer.of_stopsAt h .help⟩, ⟨?_, fun h => hanswer.of_stopsAt h .version⟩,
    fun c => ⟨?_, ?_⟩, fun e => ⟨?_, ?_⟩⟩
  · rintro rfl
    cases hanswer with
    | stopped first ends =>
      cases ends
      exact first
  · rintro rfl
    cases hanswer with
    | stopped first ends =>
      cases ends
      exact first
  · rintro rfl
    cases hanswer with
    | stopped first ends => cases ends
    | accepted unstopped valid => exact ⟨unstopped, reflects_foldl items unstopped, valid⟩
  · rintro ⟨hnone, hc, hvalid⟩
    rw [hanswer.of_reflects hnone hc, hvalid]
    rfl
  · rintro rfl
    cases hanswer with
    | stopped first ends => exact .inl ⟨_, first, ends⟩
    | refused unstopped invalid =>
      exact .inr ⟨unstopped, _, reflects_foldl items unstopped, invalid⟩
  · rintro (⟨i, hi, hends⟩ | ⟨hnone, c, hc, hinvalid⟩)
    · exact hanswer.of_stopsAt hi hends
    · rw [hanswer.of_reflects hnone hc, hinvalid]
      rfl

end Chatline.Config
