import ClassOutline.Command.Run
import ClassOutline.Text.Basic

/-!
Files in memory, for a run of the command without a file system.

A tree of folders and files is looked up by path, part by part: every part but the
last has to name a folder, `.` and an empty part stay, and `..` goes up. Opening a
folder succeeds, and the first read of it fails.
-/

set_option autoImplicit false

namespace ClassOutline

/-- A file, or a folder and what is in it. -/
inductive FileTree where
  | file (bytes : List UInt8)
  | folder (entries : List (String × FileTree))

namespace FileTree

/-- What stands at the end of a path from `here`, where `above` are the folders that
hold it, the nearest first. The top folder is above itself. -/
def walk (here : FileTree) (above : List FileTree) : List String → Except Failure FileTree
  | [] => .ok here
  | part :: rest =>
      match here with
      | .file _ => .error .notADirectory
      | .folder entries =>
          if part = "" ∨ part = "." then walk here above rest
          else if part = ".." then
            match above with
            | [] => walk here [] rest
            | parent :: above => walk parent above rest
          else if part.utf8ByteSize > 255 then .error .nameTooLong
          else
            match entries.lookup part with
            | some entry => walk entry (here :: above) rest
            | none => .error .noSuchFile

/-- Open a path from the folder `here` below the folders `above`. A path from the top
starts with a slash. -/
def openFrom (here : FileTree) (above : List FileTree) (path : String) : Except Failure Source :=
  if path.utf8ByteSize ≥ 4096 then .error .nameTooLong
  else
    let parts := (cutAt '/' path.toList).map String.ofList
    let found := match above.getLast? with
      | some top => if path.startsWith "/" then walk top [] parts else walk here above parts
      | none => walk here above parts
    match found with
    | .error cause => .error cause
    | .ok (.file bytes) => .ok { bytes }
    | .ok (.folder _) => .ok { bytes := [], ending := .failing .isADirectory }

end FileTree

end ClassOutline
