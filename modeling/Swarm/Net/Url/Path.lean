/-
# Paths of URLs

A path is read segment by segment: two dots lead up, one leads nowhere, and any other segment
is entered.  Nothing leads out of a drive (`C:`), nor out of a segment that begins with one
and a `\`, which only the schemes that do not take `\` for `/` can have.

In the path of a `file` URL the first segment may name a drive.  It is then written with a
colon, and as the drives of another machine cannot be named, the host in front of it is
forgotten.  So reading such a path gives a host back as well.
-/
import Swarm.Net.Url

namespace Swarm.Net

/-! ## 1. Characters that part segments, and those that do not count -/

/-- Tabs and line breaks count for nothing in a URL. -/
def isIgnored (c : Char) : Bool := c = '\t' || c = '\n' || c = '\r'

/-- The characters that count. -/
def withoutIgnored (cs : List Char) : List Char := cs.filter fun c => !isIgnored c

/-- A slash, or what a special scheme takes for one. -/
def isSlash (special : Bool) (c : Char) : Bool := c = '/' || (special && c = '\\')

/-! ## 2. Moving in a path -/

/-- A segment that stands for the directory itself. -/
def isSingleDot (segment : String) : Bool := [".", "%2e"].contains segment.toLower

/-- A segment that stands for the directory above. -/
def isDoubleDot (segment : String) : Bool :=
  ["..", ".%2e", "%2e.", "%2e%2e"].contains segment.toLower

/-- A letter and a colon or a bar, which names a drive. -/
def isDriveLetter (segment : List Char) : Bool :=
  match segment with
  | [letter, mark] => letter.isAlpha && (mark = ':' || mark = '|')
  | _ => false

/-- A segment that is a drive, or a drive and what a `\` parts from it. -/
def beginsWithDrive (segment : List Char) : Bool :=
  isDriveLetter (segment.take 2) && (segment.drop 2).head?.all (· = '\\')

/-- Goes up one directory, but never above a drive or the root. -/
def goUp (path : List String) : List String :=
  match path.getLast? with
  | some last => if beginsWithDrive last.toList then path else path.dropLast
  | none => path

/-- Moves by one segment: up, nowhere, or into it. -/
def movePath (path : List String) (segment : String) : List String :=
  if isDoubleDot segment then goUp path
  else if isSingleDot segment then path
  else path ++ [segment]

/-- Ends a path whose last segment was this one: a directory that dots lead to is written with
a slash behind it. -/
def closePath (path : List String) (last : String) : List String :=
  if isDoubleDot last || isSingleDot last then path ++ [""] else path

/-- A segment of a path, escaped. -/
def escapeSegment (cs : List Char) : String :=
  Percent.escapeText Percent.inPath (String.ofList cs)

/-- The segments of a path, the slash before the first one left out. -/
def readSegments (special : Bool) (cs : List Char) : List String :=
  let segments := (cs.splitOnP (isSlash special)).map escapeSegment
  closePath (segments.foldl movePath []) (segments.getLast?.getD "")

/-! ## 3. Paths with drives -/

/-- No host: that of this machine. -/
def noHost : Host := .domain ""

/-- A way into the directories of a machine: the host that it starts from, and the segments
that have been entered. -/
structure FilePath where
  host : Host
  segments : List String

namespace FilePath

/-- A drive and what follows it, where the two are in one segment but kept apart by
characters that do not count.  Only a drive with its colon can be told from what follows. -/
def splitDrive? (segment : List Char) : Option (List Char × List Char) :=
  match segment.dropWhile isIgnored with
  | letter :: behind =>
    match behind.dropWhile isIgnored with
    | ':' :: gap :: rest =>
      let name := withoutIgnored rest
      if letter.isAlpha && isIgnored gap && !name.isEmpty then some ([letter, ':'], name)
      else none
    | _ => none
  | [] => none

/-- Enters the first segment.  A drive is written with its colon, and its host is forgotten.
What is only kept apart from a drive is entered behind it, even if it is dots. -/
def enterFirst (p : FilePath) (segment : List Char) : FilePath :=
  match splitDrive? segment with
  | some (drive, name) => { p with segments := [String.ofList drive, escapeSegment name] }
  | none =>
    let name := withoutIgnored segment
    if isDriveLetter name then ⟨noHost, [String.ofList (name.take 1 ++ [':'])]⟩
    else { p with segments := movePath [] (escapeSegment name) }

/-- Moves by one segment; the first one after the root may be a drive. -/
def step (p : FilePath) (segment : List Char) : FilePath :=
  if p.segments.isEmpty then p.enterFirst segment
  else { p with segments := movePath p.segments (escapeSegment (withoutIgnored segment)) }

/-- Leading empty segments are dropped, but one is left where there is no other. -/
def trimSegments (segments : List String) : List String :=
  match segments.dropWhile String.isEmpty with
  | [] => [""]
  | first :: rest => first :: rest

/-- **Reads the path** of a `file` URL behind its host. -/
def read (host : Host) (cs : List Char) : FilePath :=
  let segments := cs.splitOnP (isSlash true)
  let p := segments.foldl step ⟨host, []⟩
  let last := escapeSegment (withoutIgnored (segments.getLast?.getD []))
  { p with segments := trimSegments (closePath p.segments last) }

end FilePath
end Swarm.Net
