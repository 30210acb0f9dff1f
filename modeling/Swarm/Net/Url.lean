/-
# URLs

A URL as the URL standard has it: a scheme, an authority (credentials, host, port) where
there is one, a path that is either opaque or a list of segments, and optionally a
query and a fragment.  All parts are kept in their escaped writing, so `text` only joins them.

`withQuery` replaces the query and nothing else.

Which texts are URLs is not decided here: whatever has to read URLs takes a `UrlReader`.
-/
import Swarm.Net.Host

namespace Swarm.Net

/-! ## 1. Parts -/

/-- Who serves the URL: escaped credentials (empty where there are none), host and port. -/
structure Authority where
  username : String
  password : String
  host : Host
  port : Option UInt16
  deriving DecidableEq

/-- The path: opaque, or segments with a slash before each. -/
inductive UrlPath
  | opaquePath (text : String)
  | segments (list : List String)
  deriving DecidableEq

/-- A URL. -/
structure Url where
  scheme : String
  authority : Option Authority
  path : UrlPath
  query : Option String
  fragment : Option String
  deriving DecidableEq

/-! ## 2. Schemes -/

/-- Schemes whose URLs always have a host and take `\` for `/`. -/
def isSpecial (scheme : String) : Bool :=
  ["http", "https", "ws", "wss", "ftp", "file"].contains scheme

/-- The port of a scheme, which is left out of its URLs. -/
def defaultPort? (scheme : String) : Option UInt16 :=
  match scheme with
  | "http" | "ws" => some 80
  | "https" | "wss" => some 443
  | "ftp" => some 21
  | _ => none

/-! ## 3. What is escaped where -/

namespace Percent

/-- Escaped in fragments. -/
def inFragment : EscapeSet := isControl.with [' ', '"', '<', '>', '\x60']

/-- Escaped in path segments. -/
def inPath : EscapeSet := inFragment.with ['#', '?', '\x7b', '\x7d']

/-- Escaped in credentials. -/
def inUserinfo : EscapeSet := inPath.with ['/', ':', ';', '=', '@', '[', '\\', ']', '^', '|']

/-- Escaped in queries: with an apostrophe among them for the special schemes. -/
def inQuery (special : Bool) : EscapeSet :=
  isControl.with ([' ', '"', '#', '<', '>'] ++ if special then ['\''] else [])

end Percent

/-! ## 4. Writing -/

namespace Authority

/-- Whether there are credentials. -/
def hasCredentials (a : Authority) : Bool := !(a.username.isEmpty && a.password.isEmpty)

/-- The text of an authority. -/
def text (a : Authority) : String :=
  (if a.hasCredentials then
    a.username ++ (if a.password.isEmpty then "" else ":" ++ a.password) ++ "@"
  else "") ++ a.host.text ++
  (match a.port with
    | some port => ":" ++ toString port.toNat
    | none => "")

end Authority

namespace UrlPath

/-- The text of a path. -/
def text : UrlPath → String
  | opaquePath t => t
  | segments list => String.join (list.map ("/" ++ ·))

end UrlPath

namespace Url

/-- Everything in front of the query.  A path that begins with an empty segment would be
taken for an authority if there is none, so `/.` goes before it. -/
def textBeforeQuery (u : Url) : String :=
  u.scheme ++ ":" ++
  (match u.authority, u.path with
    | some a, _ => "//" ++ a.text
    | none, .segments ("" :: _ :: _) => "/."
    | none, _ => "") ++ u.path.text

/-- An optional part behind the mark that opens it. -/
def marked (mark : String) : Option String → String
  | some t => mark ++ t
  | none => ""

/-- The text of a URL. -/
def text (u : Url) : String :=
  u.textBeforeQuery ++ marked "?" u.query ++ marked "#" u.fragment

/-- The text that is asked of the server: without the fragment, which is never sent. -/
def requestedText (u : Url) : String := u.textBeforeQuery ++ marked "?" u.query

/-- **Replaces the query**, escaping in it what no query may hold. -/
def withQuery (u : Url) (query : String) : Url :=
  { u with query := some (Percent.escapeText (Percent.inQuery (isSpecial u.scheme)) query) }

/-- Adds to the query: behind an `&` if there is one already that is not empty. -/
def appendQuery (u : Url) (query : String) : Url :=
  match u.query with
  | some old => u.withQuery (if old.isEmpty then query else old ++ "&" ++ query)
  | none => u.withQuery query

end Url

/-! ## 5. Readers -/

/-- Reads a text as a URL, or says in words why it is none. -/
abbrev UrlReader := String → Except String Url

end Swarm.Net
