import KernelReach.Proofs.Files.ByteCache
import KernelReach.Proofs.Files.Passage
import KernelReach.Proofs.Session.Blame

/-!
# Classes that are not there

An entry of a class path may have no file for a class (`Holds`) for two reasons. In an archive, or
in a directory in which the walk along the path of the class comes to a gap, the class is a miss,
and the next entry is asked. But in a directory something else can be in the way (`IsObstructed`),
such as a file that has the name of the package. Then the search fails, and an analysis with it.

* `readFrom_of_absent`: what one entry makes of a class that it does not hold;
* `supplies_of_absent`: what all of them make of it, by induction on the entries;
* `resolve_absent`: an absent class is a miss exactly if no entry is obstructed, whatever was asked
  before, and then it ends no analysis.
-/

namespace KernelReach

open Binary (Bytes)

theorem Text.endsWith_of_dropStart {head tail s : String}
    (h : Text.endsWith tail (Text.dropStart head s) = true) : Text.endsWith tail s = true := by
  unfold Text.dropStart at h
  split at h
  · rw [Text.endsWith, String.toList_ofList, List.isSuffixOf_iff_suffix] at h
    rw [Text.endsWith, List.isSuffixOf_iff_suffix]
    exact h.trans (List.drop_suffix _ _)
  · exact h

theorem ClassName.endsWith_filePath (name : ClassName) :
    Text.endsWith ".class" name.filePath = true := by
  rw [Text.endsWith, filePath, String.toList_append, List.isSuffixOf_iff_suffix]
  exact List.suffix_append _ _

namespace ClassSource

theorem mem_indexOf {records : List ArchiveRecord} {key : String} :
    key ∈ indexOf records ↔
      ∃ r ∈ records, Text.endsWith ".class" r.name = true ∧ r.localName = key := by
  suffices hfold : ∀ index : Std.HashMap String ArchiveRecord,
      key ∈ records.foldl (fun index r =>
        if Text.endsWith ".class" r.name then index.insert r.localName r else index) index ↔
      key ∈ index ∨ ∃ r ∈ records, Text.endsWith ".class" r.name = true ∧ r.localName = key by
    rw [indexOf, hfold]
    simp
  induction records with
  | nil => simp
  | cons r records ih =>
    intro index
    rw [List.foldl_cons, ih]
    by_cases hclass : Text.endsWith ".class" r.name = true
    · simp [hclass, or_assoc, or_left_comm]
    · simp [hclass]

/-- The records for a class are those with its path. -/
theorem filePath_mem_indexOf {records : List ArchiveRecord} {name : ClassName} :
    name.filePath ∈ indexOf records ↔ ∃ r ∈ records, r.localName = name.filePath := by
  rw [mem_indexOf]
  refine exists_congr fun r => and_congr_right fun _ => ⟨And.right, fun hname => ⟨?_, hname⟩⟩
  have hend := name.endsWith_filePath
  rw [← hname] at hend
  exact Text.endsWith_of_dropStart hend

end ClassSource

namespace ClassPath

variable {disk : FileTree} {name : ClassName} {path : String} {paths : List String}
  {source : ClassSource} {sources : List ClassSource} {cp : ClassPath} {size : Int}

theorem mapM_cons_eq_ok (h : (path :: paths).mapM (openSource disk) = .ok sources) :
    ∃ source rest, openSource disk path = .ok source ∧
      paths.mapM (openSource disk) = .ok rest ∧ sources = source :: rest := by
  rw [List.mapM_cons] at h
  cases hsource : openSource disk path with
  | error e =>
    rw [hsource] at h
    cases h
  | ok source =>
    cases hrest : paths.mapM (openSource disk) with
    | error e =>
      rw [hsource, hrest] at h
      cases h
    | ok rest =>
      rw [hsource, hrest] at h
      cases h
      exact ⟨source, rest, rfl, rfl, rfl⟩

/-! ### Entries -/

/-- The entry is opened as a directory. -/
def IsFolder (disk : FileTree) (path : String) : Prop :=
  ∃ l n, disk.find true path = .ok (l, n) ∧ n.isRegular = false

/-- The entry has a file for the class, or a member if it is an archive. -/
inductive Holds (disk : FileTree) (name : ClassName) (path : String) : Prop
  | file {content : Bytes} (hfolder : IsFolder disk path)
    (h : disk.HasFile (Path.join path name.filePath) content)
  | member {l : Location} {content : Bytes} {records : List ArchiveRecord} {r : ArchiveRecord}
    (hfile : disk.find true path = .ok (l, .file content))
    (hrecords : Archive.records content.toArray = .ok records) (hr : r ∈ records)
    (h : r.localName = name.filePath)

/-- The entry is a directory, and something is in the way to the file of the class. -/
def IsObstructed (disk : FileTree) (name : ClassName) (path : String) : Prop :=
  IsFolder disk path ∧ ∃ fault, disk.Obstructs (Path.join path name.filePath) fault

/-- The complaint about an entry in which `fault` is in the way to the file of the class. -/
def obstruction (name : ClassName) (path : String) (fault : FileFault) : Error :=
  .reading name path
    (FileError.message ⟨FileTree.actionAt fault, Path.join path name.filePath, fault⟩)

theorem records_of_openArchive {l : Location} {content : Bytes}
    (h : openArchive path l content = .ok source) :
    ∃ records, Archive.records content.toArray = .ok records ∧
      source = .archive ⟨path, some l, content.toArray⟩ (ClassSource.indexOf records) := by
  unfold openArchive at h
  dsimp only at h
  generalize Archive.records content.toArray = found at h ⊢
  cases found with
  | error fault => cases h
  | ok records =>
    cases h
    exact ⟨records, rfl, rfl⟩

theorem openSource_cases (h : openSource disk path = .ok source) :
    IsFolder disk path ∧ source = .directory path ∨
      ∃ l content records, disk.find true path = .ok (l, .file content) ∧
        Archive.records content.toArray = .ok records ∧
        source = .archive ⟨path, some l, content.toArray⟩ (ClassSource.indexOf records) := by
  unfold openSource at h
  split at h
  · cases h
  · next l content hfind =>
    obtain ⟨records, hrecords, hsource⟩ := records_of_openArchive h
    exact .inr ⟨l, content, records, hfind, hrecords, hsource⟩
  · next found hfile hfind =>
    cases h
    obtain ⟨l, n⟩ := found
    refine .inl ⟨⟨l, n, hfind, ?_⟩, rfl⟩
    cases n with
    | file content => exact absurd rfl (hfile l content)
    | link | directory => rfl

/-- What one entry makes of a class that it does not hold. -/
theorem readFrom_of_absent (h : openSource disk path = .ok source)
    (habsent : ¬ Holds disk name path) (closed : Bool) :
    ¬ IsObstructed disk name path ∧ readFrom disk closed name source = .ok none ∨
      ∃ fault, IsFolder disk path ∧ disk.Obstructs (Path.join path name.filePath) fault ∧
        readFrom disk closed name source = .error
          (FileError.message ⟨FileTree.actionAt fault, Path.join path name.filePath, fault⟩) := by
  rcases openSource_cases h with ⟨hfolder, rfl⟩ | ⟨l, content, records, hfind, hrecords, rfl⟩
  · rcases hread : disk.contentAt (Path.join path name.filePath) with e | content
    · by_cases hfault : e.fault = .notFound
      · refine .inl ⟨?_, ?_⟩
        · rintro ⟨-, fault, hobstructs⟩
          exact FileTree.not_obstructs_of_notFound hread hfault hobstructs
        · rw [readFrom, hread]
          simp only [hfault, if_true]
      · have he := FileTree.eq_of_contentAt hread
        refine .inr ⟨e.fault, hfolder, ?_, ?_⟩
        · rw [← FileTree.contentAt_eq_error_iff hfault, hread, ← he]
        · rw [readFrom, hread, ← he]
          simp only [hfault, if_false]
    · exact absurd (.file hfolder (FileTree.contentAt_eq_ok_iff.1 hread)) habsent
  · refine .inl ⟨?_, ?_⟩
    · rintro ⟨⟨l', n, hfind', hn⟩, -⟩
      rw [hfind] at hfind'
      cases hfind'
      cases hn
    · have hindex : name.filePath ∉ ClassSource.indexOf records := by
        rw [ClassSource.filePath_mem_indexOf]
        rintro ⟨r, hr, hname⟩
        exact habsent (.member hfind hrecords hr hname)
      rw [readFrom, Std.HashMap.getElem?_eq_none hindex]

theorem path_of_openSource (h : openSource disk path = .ok source) : source.path = path := by
  rcases openSource_cases h with ⟨-, rfl⟩ | ⟨_, _, _, -, -, rfl⟩ <;> rfl

/-! ### Class paths -/

/-- What all entries make of a class that none of them holds. -/
theorem supplies_of_absent (h : paths.mapM (openSource disk) = .ok sources)
    (habsent : ∀ path ∈ paths, ¬ Holds disk name path) :
    (∀ path ∈ paths, ¬ IsObstructed disk name path) ∧
        Supplies disk name sources (.error (.notFound name)) ∨
      ∃ before path behind fault, paths = before ++ path :: behind ∧
        (∀ p ∈ before, ¬ IsObstructed disk name p) ∧ IsFolder disk path ∧
        disk.Obstructs (Path.join path name.filePath) fault ∧
        Supplies disk name sources (.error (obstruction name path fault)) := by
  induction paths generalizing sources with
  | nil =>
    cases h
    exact .inl ⟨List.forall_mem_nil _, .absent (List.forall_mem_nil _)⟩
  | cons path paths ih =>
    rw [List.forall_mem_cons] at habsent
    obtain ⟨source, rest, hsource, hrest, rfl⟩ := mapM_cons_eq_ok h
    rcases readFrom_of_absent hsource habsent.1 false with
      ⟨hclear, hread⟩ | ⟨fault, hfolder, hobstructs, hread⟩
    · -- The entry does not count, so what the others make of the class decides.
      rcases ih hrest habsent.2 with
        ⟨hall, hs⟩ | ⟨before, p, behind, fault, rfl, hbefore, hfolder, hobstructs, hs⟩
      · exact .inl ⟨List.forall_mem_cons.2 ⟨hclear, hall⟩, hs.cons hread⟩
      · exact .inr ⟨path :: before, p, behind, fault, rfl,
          List.forall_mem_cons.2 ⟨hclear, hbefore⟩, hfolder, hobstructs, hs.cons hread⟩
    · refine .inr ⟨[], path, paths, fault, rfl, List.forall_mem_nil _, hfolder, hobstructs, ?_⟩
      have hbroken : Supplies disk name ([] ++ source :: rest)
          (.error (.reading name source.path _)) :=
        .broken (List.forall_mem_nil _) hread
      rwa [path_of_openSource hsource] at hbroken

/-- The bytes that are kept make no difference. -/
theorem Serves.bytesOf_fst {answer : Except Error Bytes} (h : Serves disk sources cp)
    (hs : Supplies disk name sources answer) : (cp.bytesOf disk name).1 = answer := by
  have hunique {answer' : Except Error Bytes} (hs' : Supplies disk name sources answer') :
      answer' = answer := by
    rw [supplies_iff] at hs hs'
    exact hs'.symm.trans hs
  have hfetch := fetch_bytesOf disk name h.isOpen
  generalize cp.bytesOf disk name = result at hfetch ⊢
  obtain ⟨answer', cp'⟩ := result
  cases hfetch with
  | hit hget => exact hunique (h.cached _ (Cache.mem_of_get? hget))
  | read hs' | miss hs' | failure hs' => exact hunique (h.sources_eq ▸ hs')

theorem Serves.resolve_error {error : Error} (h : Serves disk sources cp)
    (hs : Supplies disk name sources (.error error)) (level : Level) :
    ∃ cp', Fetch disk name cp (.error error) cp' ∧
      cp.resolve disk name level = (.error error, cp') := by
  have hfst := h.bytesOf_fst hs
  have hfetch := fetch_bytesOf disk name h.isOpen
  unfold ClassPath.resolve
  generalize cp.bytesOf disk name = result at hfst hfetch ⊢
  obtain ⟨answer, cp'⟩ := result
  cases hfst
  exact ⟨cp', hfetch, rfl⟩

theorem Serves.resolve_miss (h : Serves disk sources cp)
    (hs : Supplies disk name sources (.error (.notFound name))) (level : Level) :
    cp.resolve disk name level =
      (.error (.notFound name), { cp with stats.misses := cp.stats.misses + 1 }) := by
  obtain ⟨cp', hfetch, hresolve⟩ := h.resolve_error hs level
  cases hfetch with
  | miss => exact hresolve

theorem Serves.resolve_failure {source m : String} (h : Serves disk sources cp)
    (hs : Supplies disk name sources (.error (.reading name source m))) (level : Level) :
    cp.resolve disk name level = (.error (.reading name source m), cp) := by
  obtain ⟨cp', hfetch, hresolve⟩ := h.resolve_error hs level
  cases hfetch with
  | failure => exact hresolve

/-! ### Analyses -/

/-- The class path serves the entries, whatever it has counted so far. -/
def IsServing (disk : FileTree) (sources : List ClassSource) (cp : ClassPath) : Prop :=
  Serves disk sources cp ∧ ∃ n failures, Counts cp n failures

/-- No call makes a difference to the entries that are served. -/
theorem preserves_isServing (disk : FileTree) (sources : List ClassSource) :
    (provider disk).Preserves (IsServing disk sources) where
  resolve name level cp h := by
    obtain ⟨hserves, n, failures, hcounts⟩ := h
    obtain ⟨-, hserves', hcounts'⟩ := hserves.resolve hcounts name level
    exact ⟨hserves', _, _, hcounts'⟩
  retrieveBody _ _ h := h

/-- A miss is no reason to give up an analysis. -/
theorem spares_of_miss (hs : Supplies disk name sources (.error (.notFound name))) :
    (provider disk).Spares (IsServing disk sources) name := by
  intro level cp h
  simp only [provider, h.1.resolve_miss hs level]
  rfl

/-- Whatever was asked of a class path before: a class that no entry holds is not found, and counts
    as a miss, exactly if no entry is obstructed. Then no analysis fails because of it. Otherwise
    the request fails at the first entry that is obstructed, with what is in the way, and this ends
    an analysis. -/
theorem resolve_absent (h : openEntries disk paths size = .ok cp)
    (requests : List (ClassName × Level)) (habsent : ∀ path ∈ paths, ¬ Holds disk name path)
    (level : Level) :
    let after := (cp.resolveAll disk requests).2
    (after.resolve disk name level =
        (.error (.notFound name), { after with stats.misses := after.stats.misses + 1 }) ↔
      ∀ path ∈ paths, ¬ IsObstructed disk name path) ∧
    ((∀ path ∈ paths, ¬ IsObstructed disk name path) →
      ∀ (options : Options) (s : Session ClassPath) (fuel : Nat) (patience : Option Nat)
        (e : PhaseError), Session.Reached (provider disk) options after s →
        (Session.findKernels (provider disk) fuel patience s).1 = .error e →
        ¬ e.cause.Blames name) ∧
    ((∃ path ∈ paths, IsObstructed disk name path) →
      ∃ before path behind fault, paths = before ++ path :: behind ∧
        (∀ p ∈ before, ¬ IsObstructed disk name p) ∧ IsFolder disk path ∧
        disk.Obstructs (Path.join path name.filePath) fault ∧
        after.resolve disk name level = (.error (obstruction name path fault), after) ∧
        ((provider disk).resolve name level after).1 =
          .error (.fatal (obstruction name path fault).message)) := by
  intro after
  obtain ⟨hpaths, hserves, hcounts⟩ := serves_openWith h
  obtain ⟨hafter, hcounts'⟩ := hserves.resolveAll requests hcounts
  rcases supplies_of_absent hpaths habsent with
    ⟨hclear, hs⟩ | ⟨before, path, behind, fault, hsplit, hbefore, hfolder, hobstructs, hs⟩
  · refine ⟨iff_of_true (hafter.resolve_miss hs level) hclear, fun _ => ?_, ?_⟩
    · intro options s fuel patience e hreached hrun
      exact Session.not_blames_of_reached (preserves_isServing disk _) (spares_of_miss hs)
        ⟨hafter, _, _, hcounts'⟩ hreached hrun
    · rintro ⟨path, hpath, hobstructed⟩
      exact absurd hobstructed (hclear path hpath)
  · have hobstructed : ∃ path ∈ paths, IsObstructed disk name path :=
      ⟨path, by simp [hsplit], hfolder, fault, hobstructs⟩
    have hresolve := hafter.resolve_failure hs level
    refine ⟨iff_of_false ?_ ?_, ?_, fun _ => ?_⟩
    · rw [hresolve]
      exact nofun
    · simpa using hobstructed
    · intro hclear
      obtain ⟨path, hpath, hobstructed⟩ := hobstructed
      exact absurd hobstructed (hclear path hpath)
    · refine ⟨before, path, behind, fault, hsplit, hbefore, hfolder, hobstructs, hresolve, ?_⟩
      simp only [provider, after, hresolve]
      rfl

/-! ### A file in the place of a package -/

namespace Sample

open FileTree (Position Reaches maxLinks)

/-- A directory in which a file has the name of a package. -/
def crowded : FileTree :=
  (FileTree.empty.insert ["d"] .directory).insert ["d", "lib"] (.file [])

/-- The class path with that directory. -/
def crowdedPath : ClassPath :=
  { sources := [.directory "d"], cache := { policy := .leastRecentlyUsed 4096 } }

theorem openEntries_crowded : openEntries crowded ["d"] 0 = .ok crowdedPath := by cbv

theorem isFolder_crowded : IsFolder crowded "d" := ⟨["d"], .directory, by cbv, rfl⟩

/-- There are no links in the directory, so a walk goes down. -/
theorem step_crowded {l : Location} {c : String} {cs : List String}
    (hd : crowded.node? l = some .directory) (hc : FileTree.LeadsDown c)
    (hshort : FileTree.IsShort c) :
    crowded.Step ⟨maxLinks, l, c :: cs⟩ ⟨maxLinks, l ++ [c], cs⟩ := by
  refine .down hd hc hshort fun target => ?_
  simp only [crowded, FileTree.insert, FileTree.empty, Std.HashMap.getElem?_insert]
  split_ifs <;> simp

theorem reaches_crowded {c d : String} (hc : FileTree.LeadsDown c) (hshort : FileTree.IsShort c) :
    crowded.Reaches ⟨maxLinks, [], ["d", c, d]⟩ ⟨maxLinks, ["d", c], [d]⟩ :=
  .head (step_crowded rfl (by decide) (by decide +kernel))
    (.single (step_crowded (by cbv) hc hshort))

/-- On the way to the class `lib.X` there is a file. -/
theorem obstructs_crowded : crowded.Obstructs (Path.join "d" "lib/X.class") .notDirectory := by
  have hstart : Position.start (Path.join "d" "lib/X.class") =
      ⟨maxLinks, [], ["d", "lib", "X.class"]⟩ := by decide +kernel
  have hreaches := reaches_crowded (c := "lib") (d := "X.class") (by decide) (by decide +kernel)
  have hlib : crowded.node? ["d", "lib"] = some (.file []) := by cbv
  rw [← hstart] at hreaches
  exact .obstacle (by decide +kernel) hreaches (.notDirectory hlib (by decide))

/-- On the way to the class `app.Y` there is a gap. -/
theorem contentAt_crowded : crowded.contentAt (Path.join "d" "app/Y.class") =
    .error ⟨"open", Path.join "d" "app/Y.class", .notFound⟩ := by
  have hstart : Position.start (Path.join "d" "app/Y.class") =
      ⟨maxLinks, [], ["d", "app", "Y.class"]⟩ := by decide +kernel
  have hreaches := reaches_crowded (c := "app") (d := "Y.class") (by decide) (by decide +kernel)
  have happ : crowded.node? ["d", "app"] = none := by cbv
  rw [← hstart] at hreaches
  exact FileTree.contentAt_of_gap (by decide +kernel) hreaches happ

end Sample

theorem not_holds_of_contentAt {e : FileError} (hfolder : IsFolder disk path)
    (h : disk.contentAt (Path.join path name.filePath) = .error e) : ¬ Holds disk name path := by
  rintro (⟨-, hfile⟩ | ⟨hfile, -, -, -⟩)
  · rw [← FileTree.contentAt_eq_ok_iff, h] at hfile
    cases hfile
  · obtain ⟨l, n, hfind, hn⟩ := hfolder
    rw [hfile] at hfind
    cases hfind
    cases hn

/-- After a request for a class that is obstructed, one that is not is still a miss. -/
theorem resolve_absent_gap :
    openEntries Sample.crowded ["d"] 0 = .ok Sample.crowdedPath ∧
    (∀ path ∈ ["d"], ¬ Holds Sample.crowded ⟨"app.Y"⟩ path) ∧
    let after := (Sample.crowdedPath.resolveAll Sample.crowded [(⟨"lib.X"⟩, .bodies)]).2
    after.resolve Sample.crowded ⟨"app.Y"⟩ .signatures =
      (.error (.notFound ⟨"app.Y"⟩), { after with stats.misses := after.stats.misses + 1 }) := by
  have hpath : ClassName.filePath ⟨"app.Y"⟩ = "app/Y.class" := by decide +kernel
  have hread := Sample.contentAt_crowded
  rw [← hpath] at hread
  have habsent : ∀ path ∈ ["d"], ¬ Holds Sample.crowded ⟨"app.Y"⟩ path := by
    simpa using not_holds_of_contentAt Sample.isFolder_crowded hread
  have hclear : ∀ path ∈ ["d"], ¬ IsObstructed Sample.crowded ⟨"app.Y"⟩ path := by
    simp only [List.forall_mem_cons, List.not_mem_nil, false_imp_iff, implies_true, and_true]
    rintro ⟨-, fault, hobstructs⟩
    exact FileTree.not_obstructs_of_notFound hread rfl hobstructs
  exact ⟨Sample.openEntries_crowded, habsent,
    (resolve_absent Sample.openEntries_crowded [(⟨"lib.X"⟩, .bodies)] habsent .signatures).1.2
      hclear⟩

/-- A class that no entry holds is no miss where a file has the name of its package, and an analysis
    that asks for it fails. -/
theorem absent_ends_analysis :
    openEntries Sample.crowded ["d"] 0 = .ok Sample.crowdedPath ∧
    (∀ path ∈ ["d"], ¬ Holds Sample.crowded ⟨"lib.X"⟩ path) ∧
    Sample.crowdedPath.resolve Sample.crowded ⟨"lib.X"⟩ .signatures =
      (.error (.reading ⟨"lib.X"⟩ "d" "open d/lib/X.class: not a directory"),
        Sample.crowdedPath) ∧
    let options := { Sample.options with builtins := [⟨⟨"lib.X"⟩, .signatures⟩] }
    (Session.loadBuiltins (provider Sample.crowded) (.new options Sample.crowdedPath)).1 =
      .error (.resolving ⟨"lib.X"⟩
        "reading lib.X from d: open d/lib/X.class: not a directory") := by
  have hpath : ClassName.filePath ⟨"lib.X"⟩ = "lib/X.class" := by decide +kernel
  have hread := (FileTree.contentAt_eq_error_iff (by decide)).2 Sample.obstructs_crowded
  rw [← hpath] at hread
  have hsupplies : Supplies Sample.crowded ⟨"lib.X"⟩ ([] ++ [.directory "d"])
      (.error (.reading ⟨"lib.X"⟩ "d" "open d/lib/X.class: not a directory")) := by
    refine .broken (List.forall_mem_nil _) ?_
    rw [readFrom, hread]
    decide +kernel
  have hresolve : Sample.crowdedPath.resolve Sample.crowded ⟨"lib.X"⟩ .signatures =
      (.error (.reading ⟨"lib.X"⟩ "d" "open d/lib/X.class: not a directory"),
        Sample.crowdedPath) := by
    obtain ⟨-, hserves, -⟩ := serves_openWith Sample.openEntries_crowded
    exact hserves.resolve_failure hsupplies .signatures
  have hmessage : Error.message (.reading ⟨"lib.X"⟩ "d" "open d/lib/X.class: not a directory") =
      "reading lib.X from d: open d/lib/X.class: not a directory" := by decide +kernel
  refine ⟨Sample.openEntries_crowded, ?_, hresolve, Session.loadBuiltins_fails rfl ?_ rfl⟩
  · simpa using not_holds_of_contentAt Sample.isFolder_crowded hread
  · simp [Session.new, Resolver.resolveClass, Resolver.cached?, Resolver.missed?, Resolver.lookUp,
      provider, hresolve, Except.mapError, Error.toProviderError, ProviderError.isUnavailable,
      ProviderError.message, hmessage]

end ClassPath

end KernelReach
