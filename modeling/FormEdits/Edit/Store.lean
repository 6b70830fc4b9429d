import FormEdits.Edit.Basic
import FormEdits.Error

/-! # Stores of quads

A store is a single graph, which pays no heed to the graph of an edit, or a dataset of a default
graph and named ones. It holds each quad once, up to the case of language tags; a triple that is
there already, in whichever graph, keeps its spelling. Applying an edit set removes what its deletes
match and then adds its inserts. -/

namespace FormEdits

structure Quad where
  subject : Term
  predicate : Term
  object : Term
  graph : Option Term
deriving DecidableEq, Repr

namespace Quad

def sameTriple (a b : Quad) : Bool :=
  a.subject.same b.subject && a.predicate.same b.predicate && a.object.same b.object

def sameGraph (g h : Option Term) : Bool := g.map Term.folded = h.map Term.folded

def same (a b : Quad) : Bool := a.sameTriple b && sameGraph a.graph b.graph

end Quad

inductive StoreKind
  | graph
  | dataset
deriving DecidableEq, Repr

namespace StoreKind

/-- A name that the default graph of a dataset goes by. -/
def defaultGraphName : Term := .iri "urn:x-rdflib:default"

/-- The graph of a store that stands for a given one. -/
def place (kind : StoreKind) (g : Option Term) : Option Term :=
  match kind with
  | graph => none
  | dataset => if g = some defaultGraphName then none else g

end StoreKind

namespace Edit

/-- Whether a quad of a store is one that the edit stands for. -/
def covers (kind : StoreKind) (e : Edit) (q : Quad) : Bool :=
  e.subject.all (·.same q.subject) && e.predicate.same q.predicate && e.object.all (·.same q.object)
    && Quad.sameGraph (kind.place e.graph) q.graph

/-- The quad of an edit that is no wildcard. -/
def quad (kind : StoreKind) (e : Edit) : Except Error Quad :=
  match e.subject, e.object with
  | some s, some o => .ok ⟨s, e.predicate, o, kind.place e.graph⟩
  | none, _ => .error (.wildcardInsert (if kind = .graph then "Subject" else "Term"))
  | some _, none => .error (.wildcardInsert (if kind = .graph then "Object" else "Term"))

end Edit

structure Store where
  kind : StoreKind
  quads : List Quad
deriving DecidableEq, Repr

namespace Store

def remove (store : Store) (e : Edit) : Store :=
  { store with quads := store.quads.filter fun q => !e.covers store.kind q }

/-- The quad in the spelling that its triple has in the store. -/
def respell (store : Store) (q : Quad) : Quad :=
  match store.quads.find? q.sameTriple with
  | some known => { known with graph := q.graph }
  | none => q

def addQuad (store : Store) (q : Quad) : Store :=
  if store.quads.any q.same then store
  else { store with quads := store.quads ++ [store.respell q] }

def add (store : Store) (e : Edit) : Except Error Store := (e.quad store.kind).map store.addQuad

def ofQuads (kind : StoreKind) (quads : List Quad) : Store :=
  quads.foldl (fun store q => store.addQuad { q with graph := kind.place q.graph }) ⟨kind, []⟩

end Store

def EditSet.apply (set : EditSet) (store : Store) : Except Error Store :=
  set.inserts.foldlM Store.add (set.deletes.foldl Store.remove store)

end FormEdits
