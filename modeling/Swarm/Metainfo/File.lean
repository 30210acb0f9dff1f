/-
# Files of a torrent

The content of a torrent is the concatenation of its files.  A file knows where its first
byte stands in it, and a range of the content can be asked whether it touches the file.  The
path of a file is relative, with slashes between its components.
-/
import Swarm.Count
import Swarm.Text.Quoted

namespace Swarm.Metainfo

/-- One file of the content. -/
structure File where
  /-- The place in the list of files, from 0 on. -/
  index : Count
  length : Count
  /-- Where the first byte stands in the content. -/
  offset : Count
  path : String
  deriving DecidableEq

namespace File

/-- Whether the range from `start` on and before `stop` touches the file. -/
def overlaps (f : File) (start stop : Count) : Bool :=
  0 < f.length && start < Count.addSat f.offset f.length && f.offset < stop

/-- The components of a path; empty ones and those that stay in place are left out. -/
def components (path : String) : List (List Char) :=
  (path.toList.splitOn '/').filter fun c => c ≠ [] ∧ c ≠ ['.']

/-- The last component of a path, unless it is missing or goes up. -/
def name? (f : File) : Option String :=
  match (components f.path).getLast? with
  | none => none
  | some last => if last = ['.', '.'] then none else some (String.ofList last)

/-- How a file is shown. -/
def display (f : File) : String :=
  "TorrentFile \x7b index: " ++ toString f.index.toNat ++ ", length: " ++
    toString f.length.toNat ++ ", offset: " ++ toString f.offset.toNat ++ ", path: " ++
    Text.quoted f.path ++ " \x7d"

end File
end Swarm.Metainfo
