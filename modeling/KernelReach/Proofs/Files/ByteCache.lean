import KernelReach.Files.ClassPath
import Mathlib.Data.List.Basic

/-!
# The cache of a class path

What an entry holds under a name does not change while the files stay as they are, so the bytes that
are kept are those that would be read again. `Supplies` says what the entries supply for a class
without mentioning the cache: the content of the first entry that has it. A class path that keeps
nothing else (`Serves`) answers by it, and goes on to do so (`Serves.resolve`); by induction on the
requests this holds after every history of them (`Serves.resolveAll`). The size of the cache and
what it gives up decide only which of the counts goes up.
-/

namespace KernelReach

open Binary (Bytes)

namespace Cache

variable {α β : Type} [DecidableEq α] {c c' : Cache α β} {key : α} {value : β} {e : α × β}

theorem mem_of_get? (h : c.get? key = some (value, c')) : (key, value) ∈ c.entries := by
  unfold get? at h
  split at h
  · next e he =>
    obtain ⟨rfl, -⟩ := Prod.mk.inj (Option.some.inj h)
    have hkey : e.1 = key := by simpa using List.find?_some he
    exact hkey ▸ List.mem_of_find?_eq_some he
  · cases h

/-- A look-up brings nothing into the cache. -/
theorem entries_get? (h : c.get? key = some (value, c')) (he : e ∈ c'.entries) : e ∈ c.entries := by
  unfold get? at h
  split at h
  · obtain ⟨-, rfl⟩ := Prod.mk.inj (Option.some.inj h)
    exact c.policy.touch_subset key c.entries he
  · cases h

theorem entries_insert (he : e ∈ (c.insert key value).entries) :
    e = (key, value) ∨ e ∈ c.entries := by
  rcases List.mem_cons.1 (c.policy.trim_subset _ he) with rfl | he
  · exact .inl rfl
  · exact .inr (List.mem_of_mem_filter he)

end Cache

namespace ClassPath

variable {disk : FileTree} {name : ClassName} {level : Level} {sources : List ClassSource}
  {cp : ClassPath} {paths : List String} {policy : CachePolicy ClassName Bytes}

/-! ### The first entry that has a class -/

/-- What the entries of a class path supply for the class `name`. -/
inductive Supplies (disk : FileTree) (name : ClassName) :
    List ClassSource → Except Error Bytes → Prop
  /-- No entry has the class. -/
  | absent {sources : List ClassSource} (h : ∀ s ∈ sources, readFrom disk false name s = .ok none) :
    Supplies disk name sources (.error (.notFound name))
  /-- The entries before `source` do not have the class, and `source` has it. -/
  | held {before behind : List ClassSource} {source : ClassSource} {content : Bytes}
    (hbefore : ∀ s ∈ before, readFrom disk false name s = .ok none)
    (h : readFrom disk false name source = .ok (some content)) :
    Supplies disk name (before ++ source :: behind) (.ok content)
  /-- The entries before `source` do not have the class, and `source` cannot be read. -/
  | broken {before behind : List ClassSource} {source : ClassSource} {m : String}
    (hbefore : ∀ s ∈ before, readFrom disk false name s = .ok none)
    (h : readFrom disk false name source = .error m) :
    Supplies disk name (before ++ source :: behind) (.error (.reading name source.path m))

theorem readFirst_append {before : List ClassSource} (behind : List ClassSource)
    (h : ∀ s ∈ before, readFrom disk false name s = .ok none) :
    readFirst disk false name (before ++ behind) = readFirst disk false name behind := by
  induction before with
  | nil => rfl
  | cons s before ih =>
    rw [List.forall_mem_cons] at h
    rw [List.cons_append, readFirst, h.1]
    exact ih h.2

/-- An entry that does not have the class does not count. -/
theorem Supplies.cons {source : ClassSource} {answer : Except Error Bytes}
    (hs : readFrom disk false name source = .ok none) (h : Supplies disk name sources answer) :
    Supplies disk name (source :: sources) answer := by
  cases h with
  | absent h => exact .absent (List.forall_mem_cons.2 ⟨hs, h⟩)
  | held hbefore h => exact .held (List.forall_mem_cons.2 ⟨hs, hbefore⟩) h
  | broken hbefore h => exact .broken (List.forall_mem_cons.2 ⟨hs, hbefore⟩) h

/-- What was read, as an answer about the class `name`. -/
def readAnswer (name : ClassName) : Except Error (Option Bytes) → Except Error Bytes
  | .ok (some content) => .ok content
  | .ok none => .error (.notFound name)
  | .error e => .error e

/-- The search through the entries finds what they supply. -/
theorem supplies_iff {answer : Except Error Bytes} :
    Supplies disk name sources answer ↔
      readAnswer name (readFirst disk false name sources) = answer := by
  constructor
  · rintro (h | ⟨hbefore, h⟩ | ⟨hbefore, h⟩)
    · rw [← List.append_nil sources, readFirst_append [] h]
      rfl
    · rw [readFirst_append _ hbefore, readFirst, h]
      rfl
    · rw [readFirst_append _ hbefore, readFirst, h]
      rfl
  · rintro rfl
    induction sources with
    | nil => exact .absent (List.forall_mem_nil _)
    | cons source sources ih =>
      rw [readFirst]
      split
      · next h => exact .held (List.forall_mem_nil _) h
      · next h => exact ih.cons h
      · next h => exact .broken (List.forall_mem_nil _) h

/-! ### Requests -/

/-- Resolves one class after the other, and collects the answers. -/
def resolveAll (disk : FileTree) :
    List (ClassName × Level) → ClassPath → List (Except Error Class) × ClassPath
  | [], cp => ([], cp)
  | (name, level) :: requests, cp =>
    let (answer, cp) := cp.resolve disk name level
    let (answers, cp) := resolveAll disk requests cp
    (answer :: answers, cp)

/-- Whether an entry could not be read. -/
def failsToRead : Except Error Class → Bool
  | .error (.reading ..) => true
  | _ => false

theorem failsToRead_parseAs (name : ClassName) (level : Level) (content : Bytes) :
    failsToRead (parseAs name level content) = false := by
  unfold parseAs
  split
  · rfl
  · split <;> rfl

/-- The class path looks in the entries `sources`, and keeps nothing that they do not supply. -/
structure Serves (disk : FileTree) (sources : List ClassSource) (cp : ClassPath) : Prop where
  sources_eq : cp.sources = sources
  isOpen : cp.closed = false
  cached : ∀ e ∈ cp.cache.entries, Supplies disk e.1 sources (.ok e.2)

/-- The counts of `cp` are those of `n` requests for which `failures` entries could not be read. -/
structure Counts (cp : ClassPath) (n failures : Nat) : Prop where
  parses : cp.stats.reads + cp.stats.cacheHits = cp.stats.parses
  total : cp.stats.reads + cp.stats.cacheHits + cp.stats.misses + failures = n

/-- What a request for the bytes of a class comes to: the bytes were kept, or they are read and kept
    from now on, or there are none. -/
inductive Fetch (disk : FileTree) (name : ClassName) (cp : ClassPath) :
    Except Error Bytes → ClassPath → Prop
  | hit {content : Bytes} {cache : Cache ClassName Bytes}
    (h : cp.cache.get? name = some (content, cache)) :
    Fetch disk name cp (.ok content)
      { cp with cache, stats.cacheHits := cp.stats.cacheHits + 1 }
  | read {content : Bytes} (h : Supplies disk name cp.sources (.ok content)) :
    Fetch disk name cp (.ok content)
      { cp with cache := cp.cache.insert name content, stats.reads := cp.stats.reads + 1 }
  | miss (h : Supplies disk name cp.sources (.error (.notFound name))) :
    Fetch disk name cp (.error (.notFound name))
      { cp with stats.misses := cp.stats.misses + 1 }
  | failure {source m : String}
      (h : Supplies disk name cp.sources (.error (.reading name source m))) :
    Fetch disk name cp (.error (.reading name source m)) cp

theorem readFirst_error {e : Error} {closed : Bool}
    (h : readFirst disk closed name sources = .error e) :
    ∃ source m, e = .reading name source m := by
  induction sources with
  | nil => cases h
  | cons source sources ih =>
    rw [readFirst] at h
    split at h
    · cases h
    · exact ih h
    · cases h
      exact ⟨_, _, rfl⟩

theorem fetch_bytesOf (disk : FileTree) (name : ClassName) (hopen : cp.closed = false) :
    Fetch disk name cp (cp.bytesOf disk name).1 (cp.bytesOf disk name).2 := by
  have hread {found : Except Error (Option Bytes)}
      (h : readFirst disk cp.closed name cp.sources = found) :
      Supplies disk name cp.sources (readAnswer name found) := by
    rw [hopen] at h
    exact supplies_iff.2 (congrArg _ h)
  unfold bytesOf
  split
  · next h => exact .hit h
  · split
    · next h => exact .read (hread h)
    · next h => exact .miss (hread h)
    · next h =>
      obtain ⟨source, m, rfl⟩ := readFirst_error h
      exact .failure (hread h)

/-- One request is answered by what the entries supply, is counted once, and leaves behind a class
    path that serves the same entries. -/
theorem Serves.resolve {n failures : Nat} (h : Serves disk sources cp) (hc : Counts cp n failures)
    (name : ClassName) (level : Level) :
    (∃ bytes, Supplies disk name sources bytes ∧
      (cp.resolve disk name level).1 = bytes >>= parseAs name level) ∧
    Serves disk sources (cp.resolve disk name level).2 ∧
    Counts (cp.resolve disk name level).2 (n + 1)
      (failures + if failsToRead (cp.resolve disk name level).1 then 1 else 0) := by
  have hfetch := fetch_bytesOf disk name h.isOpen
  have hsources := h.sources_eq
  have ⟨hparses, htotal⟩ := hc
  unfold ClassPath.resolve
  generalize cp.bytesOf disk name = result at hfetch ⊢
  obtain ⟨answer, cp'⟩ := result
  cases hfetch with
  | hit hget =>
    refine ⟨⟨_, h.cached _ (Cache.mem_of_get? hget), rfl⟩, ⟨hsources, h.isOpen, ?_⟩, ?_, ?_⟩
    · exact fun e he => h.cached e (Cache.entries_get? hget he)
    · simp only
      omega
    · simp only [failsToRead_parseAs, Bool.false_eq_true, if_false]
      omega
  | read hs =>
    rw [hsources] at hs
    refine ⟨⟨_, hs, rfl⟩, ⟨hsources, h.isOpen, ?_⟩, ?_, ?_⟩
    · intro e he
      rcases Cache.entries_insert he with rfl | he
      · exact hs
      · exact h.cached e he
    · simp only
      omega
    · simp only [failsToRead_parseAs, Bool.false_eq_true, if_false]
      omega
  | miss hs =>
    rw [hsources] at hs
    refine ⟨⟨_, hs, rfl⟩, ⟨hsources, h.isOpen, h.cached⟩, hparses, ?_⟩
    simp only [failsToRead, Bool.false_eq_true, if_false]
    omega
  | failure hs =>
    rw [hsources] at hs
    refine ⟨⟨_, hs, rfl⟩, h, hparses, ?_⟩
    simp only [failsToRead, if_true] at htotal ⊢
    omega

/-- No request makes a difference to the entries that are served. -/
theorem Serves.resolveAll {n failures : Nat} (requests : List (ClassName × Level))
    (h : Serves disk sources cp) (hc : Counts cp n failures) :
    Serves disk sources (cp.resolveAll disk requests).2 ∧
    Counts (cp.resolveAll disk requests).2 (n + requests.length)
      (failures + (cp.resolveAll disk requests).1.countP failsToRead) := by
  induction requests generalizing cp n failures with
  | nil => exact ⟨h, hc⟩
  | cons request requests ih =>
    obtain ⟨name, level⟩ := request
    obtain ⟨-, hs, hcounts⟩ := h.resolve hc name level
    obtain ⟨hserves, hparses, htotal⟩ := ih hs hcounts
    refine ⟨hserves, hparses, ?_⟩
    rw [ClassPath.resolveAll, List.countP_cons, List.length_cons]
    simp only at htotal ⊢
    omega

/-- A class path that was just opened keeps nothing. -/
theorem serves_openWith (h : openWith disk paths policy = .ok cp) :
    paths.mapM (openSource disk) = .ok cp.sources ∧ Serves disk cp.sources cp ∧ Counts cp 0 0 := by
  unfold openWith at h
  cases hs : paths.mapM (openSource disk) with
  | error e => rw [hs] at h; cases h
  | ok sources =>
    rw [hs] at h
    cases h
    exact ⟨rfl, ⟨rfl, rfl, by simp⟩, rfl, rfl⟩

/-- A class path can be opened with any cache as soon as its entries can be opened. -/
theorem exists_openWith (h : paths.mapM (openSource disk) = .ok sources)
    (policy : CachePolicy ClassName Bytes) :
    ∃ cp, openWith disk paths policy = .ok cp ∧ cp.sources = sources := by
  unfold openWith
  rw [h]
  exact ⟨_, rfl, rfl⟩

/-- Whatever was asked of a class path before, and whatever its cache has given up since, a request
    is answered as by one that was opened just now with a cache of any size: the first entry that
    has the class supplies the bytes, which are parsed and have to be those of the class that was
    asked for. Each request counts as a read, a hit or a miss, unless an entry cannot be read, and
    what is read or hit is parsed. -/
theorem resolve_resolveAll (h : openWith disk paths policy = .ok cp)
    (requests : List (ClassName × Level)) :
    let after := cp.resolveAll disk requests
    (∀ size, openEntries disk paths size =
      openWith disk paths (.leastRecentlyUsed (if size ≤ 0 then 4096 else size.toNat))) ∧
    (∀ name level,
      (∃ supply, Supplies disk name cp.sources supply ∧
        (after.2.resolve disk name level).1 =
          match supply with
          | .error e => .error e
          | .ok content =>
            match Binary.ClassFile.parse content level with
            | .error fault => .error (.malformed name fault)
            | .ok c => if c.name = name then .ok c else .error (.misnamed name c.name)) ∧
      ∀ size, ∃ fresh, openEntries disk paths size = .ok fresh ∧
        (after.2.resolve disk name level).1 = (fresh.resolve disk name level).1) ∧
    after.2.stats.reads + after.2.stats.cacheHits = after.2.stats.parses ∧
    after.2.stats.reads + after.2.stats.cacheHits + after.2.stats.misses +
      after.1.countP failsToRead = requests.length := by
  obtain ⟨hpaths, hserves, hcounts⟩ := serves_openWith h
  obtain ⟨hafter, hparses, htotal⟩ := hserves.resolveAll requests hcounts
  refine ⟨fun size => rfl, fun name level => ?_, hparses, by simpa using htotal⟩
  obtain ⟨⟨supply, hsupply, hanswer⟩, -⟩ := hafter.resolve ⟨hparses, htotal⟩ name level
  refine ⟨⟨supply, hsupply, hanswer.trans ?_⟩, fun size => ?_⟩
  · cases supply with
    | error e => rfl
    | ok content => rfl
  · obtain ⟨fresh, hfresh, hsources⟩ := exists_openWith hpaths _
    obtain ⟨-, hserves', hcounts'⟩ := serves_openWith hfresh
    -- The entries are the same, and supply the same bytes.
    obtain ⟨⟨supply', hsupply', hanswer'⟩, -⟩ := hserves'.resolve hcounts' name level
    rw [hsources, supplies_iff, supplies_iff.1 hsupply] at hsupply'
    exact ⟨fresh, hfresh, by rw [hanswer, hanswer', hsupply']⟩

namespace Sample

/-- The file of a class `A` with flags of its own, and without methods. -/
def classFile (flags : UInt8) : Bytes :=
  [0xca, 0xfe, 0xba, 0xbe, 0, 0, 0, 52, 0, 3, 1, 0, 1, 0x41, 7, 0, 1, 0, flags, 0, 2, 0, 0, 0, 0,
    0, 0, 0, 0, 0, 0]

/-- Two directories. Both have a file for the class `A`, and one of them has a file for the class
    `B` that is one of the class `A`. -/
def directories : FileTree :=
  ((((FileTree.empty.insert ["one"] .directory).insert ["one", "A.class"]
    (.file (classFile 1))).insert ["two"] .directory).insert ["two", "A.class"]
    (.file (classFile 2))).insert ["two", "B.class"] (.file (classFile 3))

/-- Requests for these classes and for one that neither directory has. -/
def requests : List (ClassName × Level) :=
  [(⟨"A"⟩, .hierarchy), (⟨"A"⟩, .bodies), (⟨"B"⟩, .bodies), (⟨"C"⟩, .bodies), (⟨"A"⟩, .signatures)]

theorem nodes_directories (k : Location) :
    directories.nodes[k]? =
      if ["two", "B.class"] = k then some (.file (classFile 3))
      else if ["two", "A.class"] = k then some (.file (classFile 2))
      else if ["two"] = k then some .directory
      else if ["one", "A.class"] = k then some (.file (classFile 1))
      else if ["one"] = k then some .directory
      else none := by
  simp [directories, FileTree.empty, FileTree.insert, Std.HashMap.getElem?_insert]

/-- The places that are asked for. -/
def places : List Location :=
  [["one"], ["one", "A.class"], ["one", "B.class"], ["one", "C.class"],
    ["two"], ["two", "A.class"], ["two", "B.class"], ["two", "C.class"]]

/-- There are no links, so a path leads to where its names say. -/
theorem find_directories {l : Location} (hl : l ∈ places) :
    directories.find true ("/".intercalate l) =
      match directories.nodes[l]? with
      | some n => .ok (l, n)
      | none => .error .notFound := by
  have hpaths : ∀ l ∈ places,
      (("/".intercalate l).toList.contains '\x00' = false ∧ "/".intercalate l ≠ "" ∧
        ¬ FileTree.maxPath < (Text.heldBytes ("/".intercalate l)).length) ∧
      FileTree.startOf ("/".intercalate l) [] = [] ∧ Path.components ("/".intercalate l) = l := by
    decide +kernel
  have hnames : ∀ part ∈ ["one", "two", "A.class", "B.class", "C.class"],
      ¬ FileTree.maxName < (Text.heldBytes part).length := by decide +kernel
  obtain ⟨⟨hnull, hne, hlong⟩, hstart, hcomponents⟩ := hpaths l hl
  rw [FileTree.find, FileTree.locate, hnull, if_neg Bool.false_ne_true, if_neg hne, if_neg hlong,
    hstart, hcomponents]
  simp only [places, List.mem_cons, List.not_mem_nil, or_false] at hl
  rcases hl with rfl | rfl | rfl | rfl | rfl | rfl | rfl | rfl <;>
    simp [FileTree.follow, FileTree.node?, Location.isGiven, Location.root, nodes_directories,
      hnames, bind, Except.bind, pure, Except.pure, throw, throwThe, MonadExceptOf.throw]

theorem openWith_directories (policy : CachePolicy ClassName Bytes) :
    openWith directories ["one", "two"] policy =
      .ok { sources := [.directory "one", .directory "two"], cache := { policy } } := by
  have hone : openSource directories "one" = .ok (.directory "one") := by
    have hfind := find_directories (l := ["one"]) (by decide)
    rw [nodes_directories] at hfind
    rw [openSource, show "one" = "/".intercalate ["one"] by decide, hfind]
    rfl
  have htwo : openSource directories "two" = .ok (.directory "two") := by
    have hfind := find_directories (l := ["two"]) (by decide)
    rw [nodes_directories] at hfind
    rw [openSource, show "two" = "/".intercalate ["two"] by decide, hfind]
    rfl
  rw [openWith, List.mapM_cons, hone, List.mapM_cons, htwo]
  rfl

theorem readFrom_directories {d name : String} (hd : d ∈ ["one", "two"])
    (hname : name ∈ ["A", "B", "C"]) :
    readFrom directories false ⟨name⟩ (.directory d) =
      match directories.nodes[[d, name ++ ".class"]]? with
      | some (.file content) => .ok (some content)
      | some _ => .error (FileError.message ⟨"read", "/".intercalate [d, name ++ ".class"],
          .isDirectory⟩)
      | none => .ok none := by
  have hplaces : ∀ d ∈ ["one", "two"], ∀ name ∈ ["A", "B", "C"],
      [d, name ++ ".class"] ∈ places ∧
      Path.join d (ClassName.filePath ⟨name⟩) = "/".intercalate [d, name ++ ".class"] := by
    decide +kernel
  obtain ⟨hplace, hpath⟩ := hplaces d hd name hname
  rw [readFrom, hpath, FileTree.contentAt, find_directories hplace]
  cases directories.nodes[[d, name ++ ".class"]]? with
  | none => rfl
  | some n => cases n <;> rfl

/-- What the directories have for the three classes. -/
theorem readFirst_directories :
    let sources := [ClassSource.directory "one", .directory "two"]
    readFirst directories false ⟨"A"⟩ sources = .ok (some (classFile 1)) ∧
      readFirst directories false ⟨"B"⟩ sources = .ok (some (classFile 3)) ∧
      readFirst directories false ⟨"C"⟩ sources = .ok none := by
  have hone {name : String} := @readFrom_directories "one" name (by decide)
  have htwo {name : String} := @readFrom_directories "two" name (by decide)
  refine ⟨?_, ?_, ?_⟩ <;> simp [readFirst, hone, htwo, nodes_directories]

end Sample

/-- In a cache for one class, the bytes of `A` are kept for the second request, give way to those of
    `B`, and come back. Then a request is answered from the cache by the class of the first
    directory, and one for `B` by a complaint. -/
theorem resolve_resolveAll_sample :
    ∃ cp fresh, openEntries Sample.directories ["one", "two"] 1 = .ok cp ∧
      openEntries Sample.directories ["one", "two"] 0 = .ok fresh ∧
      let after := (cp.resolveAll Sample.directories Sample.requests).2
      after.stats = ⟨3, 1, 4, 1⟩ ∧ after.cache.entries = [(⟨"A"⟩, Sample.classFile 1)] ∧
      (after.resolve Sample.directories ⟨"A"⟩ .bodies).1 = .ok ⟨⟨"A"⟩, .bodies, ⟨1⟩, none, [], []⟩ ∧
      (after.resolve Sample.directories ⟨"B"⟩ .bodies).1 = .error (.misnamed ⟨"B"⟩ ⟨"A"⟩) ∧
      (after.resolve Sample.directories ⟨"A"⟩ .bodies).1 =
        (fresh.resolve Sample.directories ⟨"A"⟩ .bodies).1 ∧
      after.stats.reads + after.stats.cacheHits = after.stats.parses := by
  have hopen := Sample.openWith_directories
  obtain ⟨hread_A, hread_B, hread_C⟩ := Sample.readFirst_directories
  obtain ⟨hsize, hevery, hparses, -⟩ :=
    resolve_resolveAll (hopen (.leastRecentlyUsed 1)) Sample.requests
  obtain ⟨fresh, hfresh, hsame⟩ := (hevery ⟨"A"⟩ .bodies).2 0
  refine ⟨_, fresh, (hsize 1).trans (hopen (.leastRecentlyUsed 1)), hfresh, ?_, ?_, ?_, ?_, hsame,
    hparses⟩
  · simp [Sample.requests, resolveAll, resolve, bytesOf, Cache.get?, Cache.insert,
      CachePolicy.leastRecentlyUsed, hread_A, hread_B, hread_C]
  · simp [Sample.requests, resolveAll, resolve, bytesOf, Cache.get?, Cache.insert,
      CachePolicy.leastRecentlyUsed, hread_A, hread_B, hread_C]
  · obtain ⟨supply, hsupply, hanswer⟩ := (hevery ⟨"A"⟩ .bodies).1
    rw [supplies_iff, hread_A] at hsupply
    rw [hanswer, ← hsupply]
    decide +kernel
  · obtain ⟨supply, hsupply, hanswer⟩ := (hevery ⟨"B"⟩ .bodies).1
    rw [supplies_iff, hread_B] at hsupply
    rw [hanswer, ← hsupply]
    decide +kernel

end ClassPath

end KernelReach
