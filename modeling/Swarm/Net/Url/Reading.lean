/-
# Reading URLs

Controls and blanks around the text are dropped, and tabs and line breaks everywhere in it.
What then stands before the first colon is the scheme, and the scheme decides how the rest is
read:

* the special schemes (`http` and its like) take `\` for `/`, any number of slashes before
  the host, must have a host, and always have a path;
* `file` has its own rules for the slashes, its host may be missing, and its path may begin
  with a drive;
* any other scheme has an authority only behind `//`, a path of segments behind `/`, and an
  opaque path otherwise.

Only URLs that stand alone are read; one that would need a base is refused.

The way in which domains are written in ASCII is given to the reading of a host (`toAscii?`), so
there is a reader for each such way (`Url.reader`).
-/
import Swarm.Net.Url.Path
import Swarm.Text.Blank

namespace Swarm.Net

/-! ## 1. The text as a whole -/

/-- The text of a URL, without controls and blanks around it. -/
def trimmedChars (t : String) : List Char := Text.stripWhere (· ≤ ' ') t.toList

/-- A letter of a scheme behind the first one. -/
def isSchemeChar (c : Char) : Bool :=
  c.isAlpha || c.isDigit || c = '+' || c = '-' || c = '.'

/-- The scheme in lower case and what follows the colon behind it. -/
def splitScheme? (cs : List Char) : Option (String × List Char) :=
  match cs, cs.dropWhile isSchemeChar with
  | first :: _, ':' :: rest =>
    if first.isAlpha then
      some (String.ofList ((cs.takeWhile isSchemeChar).map Char.toLower), rest)
    else none
  | _, _ => none

/-- A character that ends an authority. -/
def endsAuthority (special : Bool) (c : Char) : Bool := isSlash special c || c = '?' || c = '#'

/-! ## 2. The authority -/

/-- Splits at the last `@`; without one there is no front part. -/
def splitLastAt (cs : List Char) : Option (List Char) × List Char :=
  let host := (cs.reverse.takeWhile (· != '@')).reverse
  if cs.contains '@' then (some (cs.take (cs.length - host.length - 1)), host) else (none, host)

/-- User name and password, escaped, from the text in front of the `@`. -/
def readCredentials (cs : List Char) : String × String :=
  let escape (part : List Char) := Percent.escapeText Percent.inUserinfo (String.ofList part)
  (escape (cs.takeWhile (· != ':')), escape ((cs.dropWhile (· != ':')).drop 1))

/-- The host, up to a colon outside brackets, and what follows it. -/
def splitHost (inBrackets : Bool) : List Char → List Char × List Char
  | [] => ([], [])
  | c :: rest =>
    if c = ':' && !inBrackets then ([], c :: rest)
    else
      let inside := if c = '[' then true else if c = ']' then false else inBrackets
      let (host, after) := splitHost inside rest
      (c :: host, after)

/-- The port behind the host, unless it is the scheme's own, and what follows it. -/
def readPort (scheme : String) (cs : List Char) :
    Except UrlFault (Option UInt16 × List Char) :=
  let digits := cs.takeWhile Char.isDigit
  let after := cs.dropWhile Char.isDigit
  match number? 10 digits with
  | none => if stops after then .ok (none, after) else .error .invalidPort
  | some n =>
    if 65535 < n then .error .invalidPort
    else if stops after then
      let port := UInt16.ofNat n
      .ok (if defaultPort? scheme = some port then none else some port, after)
    else .error .invalidPort
where
  /-- Nothing but the end or one of these may follow the digits. -/
  stops : List Char → Bool
    | [] => true
    | c :: _ => endsAuthority true c

/-- The authority at the beginning of the characters, and what follows it. -/
def readAuthority (toAscii? : Host.DomainToAscii) (scheme : String) (cs : List Char) :
    Except UrlFault (Authority × List Char) := do
  let special := isSpecial scheme
  let run := cs.takeWhile fun c => !endsAuthority special c
  let beyond := cs.dropWhile fun c => !endsAuthority special c
  let (userinfo, hostAndPort) := splitLastAt run
  if userinfo == some [] && hostAndPort.isEmpty && !beyond.isEmpty then .error .emptyHost
  let (username, password) := readCredentials (userinfo.getD [])
  let (hostChars, afterHost) := splitHost false hostAndPort
  if special && hostChars.isEmpty then .error .emptyHost
  let host ← if special then Host.read toAscii? hostChars else Host.readOpaque hostChars
  if host.isEmpty && !afterHost.isEmpty then .error .emptyHost
  let (port, rest) ←
    match afterHost with
    | _ :: portChars => readPort scheme (portChars ++ beyond)
    | [] => .ok (none, beyond)
  let authority : Authority := ⟨username, password, host, port⟩
  if host.isEmpty && authority.hasCredentials then .error .emptyHost
  return (authority, rest)

/-! ## 3. The path -/

/-- The path behind an authority: a special scheme always has one, any other one may be
without. -/
def readPath (special : Bool) (cs : List Char) : UrlPath :=
  match cs with
  | [] => .segments (if special then [""] else [])
  | c :: rest => .segments (readSegments special (if isSlash special c then rest else c :: rest))

/-! ## 4. URLs with and without an authority -/

/-- What stands before the query and the fragment, and these two. -/
def splitTail (cs : List Char) : List Char × Option (List Char) × Option (List Char) :=
  let before := cs.takeWhile (· != '#')
  let fragment := match cs.dropWhile (· != '#') with
    | _ :: rest => some rest
    | [] => none
  let query := match before.dropWhile (· != '?') with
    | _ :: rest => some rest
    | [] => none
  (before.takeWhile (· != '?'), query, fragment)

/-- The URL of parts of which query and fragment still have to be escaped. -/
def assemble (scheme : String) (authority : Option Authority) (path : UrlPath)
    (query fragment : Option (List Char)) : Url :=
  { scheme, authority, path
    query := query.map fun q =>
      Percent.escapeText (Percent.inQuery (isSpecial scheme)) (String.ofList q)
    fragment := fragment.map fun f => Percent.escapeText Percent.inFragment (String.ofList f) }

/-- A URL with an authority, from the characters behind the slashes on. -/
def readHierarchical (toAscii? : Host.DomainToAscii) (scheme : String) (cs : List Char) :
    Except UrlFault Url := do
  let (authority, rest) ← readAuthority toAscii? scheme cs
  let (path, query, fragment) := splitTail rest
  return assemble scheme (some authority) (readPath (isSpecial scheme) path) query fragment

/-- A URL without an authority. -/
def readPlain (scheme : String) (cs : List Char) : Url :=
  let (path, query, fragment) := splitTail cs
  let path := match path with
    | '/' :: rest => .segments (readSegments false rest)
    | _ => .opaquePath (Percent.escapeText Percent.isControl (String.ofList path))
  assemble scheme none path query fragment

/-! ## 5. URLs of files -/

/-- What follows a slash at the beginning. -/
def afterSlash? (cs : List Char) : Option (List Char) :=
  match cs.dropWhile isIgnored with
  | c :: rest => if isSlash true c then some rest else none
  | [] => none

/-- The host behind two slashes, and the text of the path.  A drive letter is no host, and this
machine's own name is left out.  The slash behind a host that is kept belongs to neither; one
behind no host begins the path, which therefore begins with an empty segment and not with
a drive. -/
def readFileHost (toAscii? : Host.DomainToAscii) (cs : List Char) :
    Except UrlFault (Host × List Char) :=
  let after := cs.dropWhile fun c => !isSlash true c
  let name := withoutIgnored (cs.takeWhile fun c => !isSlash true c)
  if isDriveLetter name then .ok (noHost, cs)
  else if name.isEmpty then .ok (noHost, after)
  else
    match Host.read toAscii? name with
    | .error fault => .error fault
    | .ok host =>
      .ok (if host = .domain "localhost" then (noHost, after) else (host, after.drop 1))

/-- Host and path of a `file` URL: there is a host only behind two slashes. -/
def readFilePath (toAscii? : Host.DomainToAscii) (cs : List Char) : Except UrlFault FilePath :=
  match afterSlash? cs with
  | none => .ok (FilePath.read noHost cs)
  | some rest =>
    match afterSlash? rest with
    | none => .ok (FilePath.read noHost rest)
    | some rest =>
      (readFileHost toAscii? rest).map fun (host, path) => FilePath.read host path

/-- A `file` URL, from the colon on.  Characters that do not count are still among these: in
its path they can part a drive from a name. -/
def readFile (toAscii? : Host.DomainToAscii) (cs : List Char) : Except UrlFault Url := do
  let (path, query, fragment) := splitTail cs
  let p ← readFilePath toAscii? path
  return assemble "file" (some ⟨"", "", p.host, none⟩) (.segments p.segments)
    (query.map withoutIgnored) (fragment.map withoutIgnored)

/-! ## 6. All URLs -/

namespace Url

/-- **Reads a URL** that needs no base. -/
def read (toAscii? : Host.DomainToAscii) (t : String) : Except UrlFault Url :=
  let chars := trimmedChars t
  match splitScheme? (withoutIgnored chars) with
  | none => .error .relativeWithoutBase
  | some (scheme, rest) =>
    if scheme = "file" then readFile toAscii? ((chars.dropWhile (· != ':')).drop 1)
    else if isSpecial scheme then readHierarchical toAscii? scheme (rest.dropWhile (isSlash true))
    else
      match rest with
      | '/' :: '/' :: rest => readHierarchical toAscii? scheme rest
      | _ => .ok (readPlain scheme rest)

/-- The reader of URLs for a way to write domains in ASCII. -/
def reader (toAscii? : Host.DomainToAscii) : UrlReader := fun t =>
  (read toAscii? t).mapError UrlFault.message

/-- The reader of URLs whose hosts are named in ASCII.  It is no judge of hosts that are named in
other scripts, plainly or behind `xn--`. -/
def readAscii : UrlReader := reader Host.asciiDomain?

end Url
end Swarm.Net
