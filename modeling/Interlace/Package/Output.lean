import Interlace.Failure

/-!
# Writing woven files

Puts a woven text on the disk, over its source or into an output folder.
-/

namespace Interlace

namespace Disk

/-- Creates the folder that a file is in, and the missing ones above it. -/
def makeRoom (d : Disk) (target : Text) : Except Failure Disk :=
  match (Path.parent? target).filter (· ≠ []) with
  | none => .ok d
  | some folder =>
    match d.createAll folder with
    | .ok d => .ok d
    | .error fault => .error (.ofDisk folder fault)

/-- Writes a file into a folder that exists. -/
def writeFile (d : Disk) (target text : Text) : Except Failure Disk :=
  match d.write target text with
  | .ok d => .ok d
  | .error fault => .error (.ofDisk target fault)

/-- Writes the woven form of a file and tells where it went. Missing folders are created. -/
def writeWoven (d : Disk) (path : Text) (outputDir : Option Text) (text : Text) :
    Except Failure (Text × Disk) :=
  match Path.shadow path outputDir with
  | .error fault => .error (.validation fault.message)
  | .ok target => do
    let d ← d.makeRoom target
    let d ← d.writeFile target text
    return (target, d)

end Disk

end Interlace
