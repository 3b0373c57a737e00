import Interlace.Cache.Entry
import Interlace.Cache.Key
import Interlace.Package.Output
import Interlace.Weave.File

/-!
# Weaving packages

Weaves the files of a package on a disk. Aspects that cannot match the package or a file are
left out before anything is parsed. A package that does not parse or type-check is left alone:
the compiler will say why. A file that cannot be woven does not keep its siblings from being
woven.

`Injector.injectCached` serves results from a store of earlier ones.
-/

namespace Interlace

/-- How the packages of an injector are woven. -/
structure InjectorConfig where
  importPath : Text
  /-- The language version of the package. -/
  version : Option Version
  testMain : Bool
  importMap : ImportMap
  /-- Where woven files go; over their sources if not given. -/
  outputDir : Option Text
  /-- Woven files get `//line` directives. -/
  lines : Bool
  /-- Packages with more bytes than this are parsed without looking at their bytes first. -/
  ceiling : Nat
  /-- The packages of the instrumentation itself. -/
  internalPrefixes : List Text
  settings : Settings

namespace InjectorConfig

/-- The configuration when nothing is given. -/
def standard : InjectorConfig :=
  ⟨[], none, false, .empty, none, true, 512 * 1024, internalPackages, .standard⟩

end InjectorConfig

/-- A woven file. -/
structure InjectedFile where
  /-- Where the woven file is. -/
  target : Text
  references : ReferenceMap
  contents : Text

/-- The result for a package. Files that were left as they are do not occur. -/
structure Outcome where
  /-- The woven files by the paths of their sources. -/
  files : Dict InjectedFile
  version : Option Version
  /-- The failures of files. -/
  failures : List Failure

namespace Outcome

/-- Nothing woven. -/
def empty : Outcome := ⟨.empty, none, []⟩

/-- The references of all files. -/
def references (o : Outcome) : ReferenceMap :=
  o.files.entries.foldl (fun m (_, f) => m.merge f.references) .empty

/-- The outcome if no file failed. -/
def toResult (o : Outcome) : Except Failure Outcome :=
  if o.failures.isEmpty then .ok o else .error (.files o.failures)

end Outcome

/-- What injecting works on: the disk, the metadata of dependencies, and the store of earlier
results. -/
structure World where
  disk : Disk
  imports : ImportState
  /-- Entries by key. -/
  store : Dict Text

/-- A step of injecting. What it did to the world outlives a failure. -/
abbrev Injecting := ExceptT Failure (StateM World)

/-- A configuration and how dependencies are found. -/
structure Injector where
  config : InjectorConfig
  /-- Finds archives, given the disk. -/
  lookup : Disk → ArchiveLookup

namespace Injector

/-- An injector; it needs the import path of the package and a way to find dependencies. -/
def make (config : InjectorConfig) (lookup : Option (Disk → ArchiveLookup)) :
    Except Failure Injector :=
  if config.importPath = [] then
    .error (.validation "the injector needs the import path of the package")
  else
    match lookup with
    | none => .error (.validation "the injector needs a dependency lookup")
    | some lookup => .ok ⟨config, lookup⟩

/-! ## Which aspects apply -/

/-- The package is one of the instrumentation itself. -/
def isInternal (i : Injector) : Bool :=
  i.config.internalPrefixes.any fun lead =>
    match Text.stripPrefix? lead i.config.importPath with
    | some rest => rest = [] || Text.startsWith rest "/"
    | none => false

/-- What is known of the package before its files are read. -/
def facts (i : Injector) : PackageFacts :=
  ⟨i.config.importPath, i.config.importMap, i.config.testMain, i.config.settings⟩

/-- The aspects that may match in the package, in order. -/
def packageAspects (i : Injector) (aspects : List Aspect) : List Aspect :=
  aspects.filter fun a =>
    (! i.isInternal || a.tracerInternal) && a.joinPoint.inPackage i.facts ≠ .never

/-- The aspects that may match in a file, in order. -/
def fileAspects (i : Injector) (aspects : List Aspect) (bytes : Text) : List Aspect :=
  let facts : FileFacts := ⟨bytes, SourceFile.scanPackage? bytes, i.config.importPath⟩
  aspects.filter fun a => a.joinPoint.inFile facts ≠ .never

/-- The aspects for each file, or nothing if none can match in any. -/
def perFile? (i : Injector) (sources : List (Text × Text)) (aspects : List Aspect) :
    Option (List (List Aspect)) :=
  let total := sources.foldl (fun n s => n + s.2.length) 0
  -- Large packages are parsed as a whole: looking at the bytes first does not pay.
  if i.config.ceiling < total then some (sources.map fun _ => aspects)
  else
    let lists := sources.map fun s => i.fileAspects aspects s.2
    if lists.all List.isEmpty then none else some lists

/-! ## Files -/

/-- What a worker contributes to an outcome. -/
inductive Contribution where
  | nothing
  | woven (path : Text) (file : InjectedFile) (version : Option Version)
  | failed (failure : Failure)

/-- The outcome with one more contribution. -/
def Contribution.addTo (o : Outcome) : Contribution → Outcome
  | nothing => o
  | woven path file version =>
    { o with
      files := o.files.insert path file
      version :=
        match version with
        | some v => Version.raise o.version v
        | none => o.version }
  | failed failure => { o with failures := o.failures ++ [failure] }

/-- Runs an import step on the world. -/
def importing {α : Type} (m : Importing α) : Injecting α := do
  let (r, imports) := m.run.run (← get).imports
  modify fun w => { w with imports := imports }
  match r with
  | .ok a => return a
  | .error failure => throw failure

/-- How dependencies are found at present. -/
def importer (i : Injector) (cancelled : Bool) : Injecting Importer := do
  return ⟨i.lookup (← get).disk, cancelled⟩

/-- Writes a woven text. -/
def write (i : Injector) (path text : Text) : Injecting Text := do
  match (← get).disk.writeWoven path i.config.outputDir text with
  | .ok (target, disk) =>
    modify fun w => { w with disk := disk }
    return target
  | .error failure => throw failure

/-- Weaves and writes one file. `lead` is what precedes the parsed text in the file. -/
def weaveOne (i : Injector) (cancelled : Bool) (scene : Scene) (aspects : List Aspect)
    (lead : Text) : Injecting Contribution := do
  if aspects.isEmpty then return .nothing
  else if cancelled then throw .cancelled
  else
    let woven ← importing (Weave.file scene aspects (← i.importer cancelled) i.config.lines)
    match woven.text with
    | none => return .nothing
    | some text =>
      -- With directives the woven text says itself where it comes from.
      let contents := if i.config.lines then text else lead ++ text
      let target ← i.write scene.file.path contents
      return .woven scene.file.path ⟨target, woven.references, contents⟩ woven.version

/-- A worker: failures are contributions. -/
def work (i : Injector) (cancelled : Bool) (scene : Scene) (aspects : List Aspect)
    (lead : Text) : Injecting Contribution :=
  tryCatch (i.weaveOne cancelled scene aspects lead) fun failure => return .failed failure

/-- The first failure that ends the run. -/
def fatal? (o : Outcome) : Option Failure :=
  o.failures.find? Failure.isFatal

/-! ## Packages -/

/-- Weaves the parsed files of a package. -/
def weaveAll (i : Injector) (cancelled : Bool) (sources : List (Text × Text))
    (files : List SourceFile) (types : PackageTypes) (aspects : List (List Aspect)) :
    Injecting Outcome := do
  let info : PackageInfo :=
    ⟨i.config.importPath, types.packageName, i.config.testMain, i.config.settings⟩
  let jobs := (files.zip (sources.zip aspects)).zipIdx
  let contributions ← jobs.mapM fun ((file, (_, bytes), aspects), index) =>
    i.work cancelled ⟨file, index, types, info⟩ aspects
      (bytes.take (bytes.length - file.source.length))
  let outcome := contributions.foldl Contribution.addTo .empty
  match fatal? outcome with
  | some failure => throw failure
  | none => return outcome

/-- Weaves the sources of a package. -/
def injectSources (i : Injector) (cancelled : Bool) (sources : List (Text × Text))
    (aspects : List Aspect) : Injecting Outcome := do
  match i.perFile? sources aspects with
  | none => return .empty
  | some lists =>
    match sources.mapM fun (path, bytes) => SourceFile.parse path bytes with
    -- Sources that do not parse are left to the compiler.
    | .error _ => return .empty
    | .ok files =>
      let importer ← i.importer cancelled
      let checked ← tryCatch
        ((importing (Check.package i.config.importPath i.config.version files importer)).map some)
        -- Nor is a package that does not type-check a failure of the run.
        fun failure => if failure.isUserSource then return none else throw failure
      match checked with
      | none => return .empty
      | some types => i.weaveAll cancelled sources files types lists

/-- Reads files; all that cannot be read are reported. -/
def readSources (cancelled : Bool) (paths : List Text) :
    Injecting (Except (List Failure) (List (Text × Text))) := do
  if cancelled && ! paths.isEmpty then throw .cancelled
  else
    let disk := (← get).disk
    let read := paths.map fun path => (path, disk.read path)
    let failures := read.filterMap fun (path, r) =>
      match r with
      | .error fault => some (Failure.ofDisk path fault)
      | .ok _ => none
    if failures.isEmpty then
      return .ok (read.filterMap fun (path, r) => r.toOption.map fun bytes => (path, bytes))
    else return .error failures

/-- Weaves the files of the package. -/
def inject (i : Injector) (cancelled : Bool) (paths : List Text) (aspects : List Aspect) :
    Injecting Outcome := do
  let aspects := i.packageAspects aspects
  if aspects.isEmpty then return .empty
  else
    match ← readSources cancelled paths with
    | .error failures => return { Outcome.empty with failures := failures }
    | .ok sources => i.injectSources cancelled sources aspects

/-! ## Results from the store -/

/-- The key of a result. -/
def key (i : Injector) (sources : List (Text × Text)) (aspects : List Aspect) : Text :=
  let inputs : KeyInputs :=
    ⟨toolVersion, i.config.importPath, i.config.version, i.config.testMain,
      sources.map fun s => Digest.hex s.2, aspects.map Aspect.fingerprint,
      i.config.importMap.paths⟩
  inputs.key

/-- Writes one file of an earlier result. -/
def restoreOne (i : Injector) (entry : Text × CachedFile) : Injecting Contribution :=
  let (path, cached) := entry
  tryCatch
    (do
      let target ← i.write path cached.contents
      return .woven path ⟨target, cached.references, cached.contents⟩ none)
    fun failure => return .failed failure

/-- Writes the files of an earlier result. -/
def restore (i : Injector) (entry : CacheEntry) : Injecting Outcome := do
  let contributions ← entry.files.entries.mapM i.restoreOne
  return contributions.foldl Contribution.addTo { Outcome.empty with version := entry.version }

/-- What is kept of an outcome. -/
def entryOf (o : Outcome) : CacheEntry :=
  ⟨o.files.map fun f => ⟨f.contents, f.references⟩, o.version⟩

/-- The entry of a key, if there is one that can be read. -/
def stored? (key : Text) : Injecting (Option CacheEntry) := do
  return ((← get).store.get? key).bind fun bytes => (CacheEntry.parse bytes).toOption

/-- Weaves the files of the package, or serves an earlier result. Outcomes without failures are
kept. -/
def injectCached (i : Injector) (cancelled : Bool) (paths : List Text)
    (aspects : List Aspect) : Injecting Outcome := do
  match ← readSources cancelled paths with
  | .error failures => return { Outcome.empty with failures := failures }
  | .ok sources =>
    let key := i.key sources aspects
    match ← stored? key with
    | some entry => i.restore entry
    | none =>
      let applicable := i.packageAspects aspects
      let outcome ←
        if applicable.isEmpty then pure .empty else i.injectSources cancelled sources applicable
      -- A result with failures is not kept: the next run tries again.
      if outcome.failures.isEmpty then
        modify fun w => { w with store := w.store.insert key (entryOf outcome).render }
      return outcome

end Injector

end Interlace
