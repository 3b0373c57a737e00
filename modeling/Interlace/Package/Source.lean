import Interlace.Weave.File
import Interlace.Weave.Removal

/-!
# Weaving a text

Weaves a single text as a package of its own, without line directives and without knowing its
dependencies.
-/

namespace Interlace

/-- What is known of the package of a text. -/
structure SourceOptions where
  importPath : Text
  testMain : Bool
  settings : Settings

namespace SourceOptions

/-- The options when nothing is given. -/
def standard : SourceOptions := ⟨"main", false, .standard⟩

end SourceOptions

/-- Weaves a text. A text to which nothing applies is given back as it is. -/
def instrument (path text : Text) (aspects : List Aspect) (options : SourceOptions) :
    Except Failure Text := do
  let file ← SourceFile.parse path text
  let importer : Importer := ⟨noArchives, false⟩
  let weave : Importing WovenFile := do
    let types ← Check.package options.importPath none [file] importer
    let info : PackageInfo :=
      ⟨options.importPath, types.packageName, options.testMain, options.settings⟩
    Weave.file ⟨file, 0, types, info⟩ aspects importer false
  let woven ← (weave.run.run .fresh).1
  return match woven.text with
    | some woven => text.take (text.length - file.source.length) ++ woven
    | none => text

end Interlace
