import FormEdits.Uri.Parts

/-! # Resolving references

A reference is resolved against a base of the same scheme: an empty path takes over the base's
path, a relative one replaces its last segment, and the dot segments are removed. A reference of
another scheme, or of one that is not hierarchical, stays as it is. -/

namespace FormEdits

namespace Uri

/-- The segments left after the dot segments have done their work; `kept` holds those before, the
last one first. -/
def removeDots (kept : List Text) : List Text → List Text
  | [] => kept.reverse
  | s :: ss =>
    if s = ".." then removeDots kept.tail ss
    else if s = "." then removeDots kept ss
    else removeDots (s :: kept) ss

/-- The segments without the empty ones, except in the first and the last place. -/
def dropEmptyInner : List Text → List Text
  | [] => []
  | s :: ss => s :: (ss.dropLast.filter (!·.isEmpty) ++ ss.getLast?.toList)

def joinPath (base path : Text) : Text :=
  let baseSegments := base.splitOn '/'
  let directory :=
    if baseSegments.getLast? = some [] then baseSegments else baseSegments.dropLast
  let segments :=
    if path.head? = some '/' then path.splitOn '/'
    else dropEmptyInner (directory ++ path.splitOn '/')
  let last := segments.getLast?.getD []
  let closing : List Text := if last = "." || last = ".." then [[]] else []
  let joined := ['/'].intercalate (removeDots [] segments ++ closing)
  if joined.isEmpty then ['/'] else joined

/-- The parts of the reference `r` against those of the base `b`, which have the same scheme. -/
def joinParts (b r : Parts) : Parts :=
  let hasAuthority := authoritySchemes.contains r.scheme
  if hasAuthority && !r.authority.isEmpty then r
  else
    let authority := if hasAuthority then b.authority else r.authority
    if r.path.isEmpty && r.params.isEmpty then
      { r with
        authority, path := b.path, params := b.params,
        query := if r.query.isEmpty then b.query else r.query }
    else { r with authority, path := joinPath b.path r.path }

/-- The reference resolved against the base. The authorities of both are checked, that of the base
first, unless one of the two texts is empty. -/
def resolve (base reference : Text) : Except Fault Text :=
  if base.isEmpty then .ok reference
  else if reference.isEmpty then .ok base
  else do
    let b ← Parts.read [] base
    let r ← Parts.read b.scheme reference
    if r.scheme = b.scheme && hierarchicalSchemes.contains r.scheme then .ok (joinParts b r).text
    else .ok reference

/-- Resolves a reference and keeps a `#` at its end, which marks an empty fragment. -/
def join (base reference : Text) : Except Fault Text :=
  (resolve base reference).map fun t =>
    if reference.getLast? = some '#' && t.getLast? ≠ some '#' then t ++ ['#'] else t

end Uri

end FormEdits
