import FormEdits.Uri.Authority

/-! # The parts of a URI reference

A reference is cut at its delimiters: the scheme before the first colon, the authority after two
slashes, the fragment after `#`, the query after `?`, and for some schemes the parameters after the
first semicolon of the last segment. Of what stands between them only the authority is checked. -/

namespace FormEdits

namespace Uri

/-- The parts of a reference; a missing part is empty. -/
structure Parts where
  scheme : Text
  authority : Text
  path : Text
  params : Text
  query : Text
  fragment : Text
deriving DecidableEq, Repr

/-- Schemes for which references are resolved against a base; the empty scheme among them. -/
def hierarchicalSchemes : List Text :=
  ["", "ftp", "http", "gopher", "nntp", "imap", "wais", "file", "https", "shttp", "mms",
    "prospero", "rtsp", "rtspu", "sftp", "svn", "svn+ssh", "ws", "wss"]

def authoritySchemes : List Text :=
  hierarchicalSchemes ++
    (["telnet", "snews", "rsync", "nfs", "git", "git+ssh"] : List Text)

/-- Schemes whose last segment may carry parameters. -/
def parameterSchemes : List Text :=
  ["", "ftp", "hdl", "prospero", "http", "imap", "https", "shttp", "rtsp", "rtspu", "sip", "sips",
    "mms", "sftp", "tel"]

def isSchemeChar (c : Char) : Bool :=
  isAsciiLetter c || isAsciiDigit c || c = '+' || c = '-' || c = '.'

/-- The scheme in front of the first colon, in lower case, and the rest. -/
def cutScheme? (t : Text) : Option (Text × Text) :=
  match Text.cut? ':' t with
  | some (s, rest) =>
    if s.head?.any isAsciiLetter && s.all isSchemeChar then some (Text.asciiLower s, rest) else none
  | none => none

/-- The authority at the front, after two slashes, and the rest. -/
def cutAuthority (t : Text) : Text × Text :=
  match Text.after? "//" t with
  | some rest =>
    let ends (c : Char) : Bool := c = '/' || c = '?' || c = '#'
    (rest.takeWhile (!ends ·), rest.dropWhile (!ends ·))
  | none => ([], t)

/-- The path and the parameters after the first semicolon of its last segment. -/
def cutParams (t : Text) : Text × Text :=
  match Text.cutLast? '/' t with
  | some (before, last) =>
    let (segment, params) := Text.cutOff ';' last
    (before ++ '/' :: segment, params)
  | none => Text.cutOff ';' t

/-- The parts of a reference, whose scheme is `scheme` if it names none. Leading controls and
spaces are dropped, and so is every tab and line end. -/
def Parts.read (scheme t : Text) : Except Fault Parts :=
  let t := (t.dropWhile (·.toNat ≤ 0x20)).filter fun c => !(c = '\t' || c = '\r' || c = '\n')
  let (scheme, t) := (cutScheme? t).getD (scheme, t)
  let (authority, t) := cutAuthority t
  match authorityFault? authority with
  | some fault => .error fault
  | none =>
    let (t, fragment) := Text.cutOff '#' t
    let (t, query) := Text.cutOff '?' t
    let (path, params) := if parameterSchemes.contains scheme then cutParams t else (t, [])
    .ok ⟨scheme, authority, path, params, query, fragment⟩

/-- The reference with the given parts. A scheme that has an authority is always followed by two
slashes. -/
def Parts.text (p : Parts) : Text :=
  let path := if p.params.isEmpty then p.path else p.path ++ ';' :: p.params
  let needsAuthority := !p.authority.isEmpty ||
    (!p.scheme.isEmpty && authoritySchemes.contains p.scheme && (Text.after? "//" path).isNone)
  let rooted := if path.isEmpty || path.head? = some '/' then path else '/' :: path
  (if p.scheme.isEmpty then [] else p.scheme ++ [':'])
    ++ (if needsAuthority then "//" ++ p.authority ++ rooted else path)
    ++ (if p.query.isEmpty then [] else '?' :: p.query)
    ++ (if p.fragment.isEmpty then [] else '#' :: p.fragment)

end Uri

end FormEdits
