import FormEdits.Rdf.Term

/-! # Edits

An edit inserts or deletes a quad. A delete may leave out the subject or the object and then stands
for all of them; no graph is the default graph. An edit set keeps its deletes, which are applied
first, apart from its inserts, and both in order. -/

namespace FormEdits

inductive Operation
  | insert
  | delete
deriving DecidableEq, Repr

namespace Operation

def name : Operation → Text
  | insert => "insert"
  | delete => "delete"

def ofName? (name : Text) : Option Operation := [insert, delete].find? (·.name = name)

end Operation

structure Edit where
  operation : Operation
  subject : Option Term
  predicate : Term
  object : Option Term
  graph : Option Term
deriving DecidableEq, Repr

/-- Whether the edit stands for all subjects or all objects. -/
def Edit.isWildcard (e : Edit) : Bool := e.subject.isNone || e.object.isNone

structure EditSet where
  deletes : List Edit
  inserts : List Edit
deriving DecidableEq, Repr

namespace EditSet

def empty : EditSet := ⟨[], []⟩

def add (set : EditSet) (e : Edit) : EditSet :=
  match e.operation with
  | .delete => { set with deletes := set.deletes ++ [e] }
  | .insert => { set with inserts := set.inserts ++ [e] }

/-- The set of the given edits, those of each kind in the given order. -/
def ofEdits (edits : List Edit) : EditSet :=
  ⟨edits.filter (·.operation = .delete), edits.filter (·.operation = .insert)⟩

theorem foldl_add (es : List Edit) (set : EditSet) : es.foldl add set =
    ⟨set.deletes ++ (ofEdits es).deletes, set.inserts ++ (ofEdits es).inserts⟩ := by
  induction es generalizing set with
  | nil => simp [ofEdits]
  | cons e es ih => cases hop : e.operation <;> simp [ofEdits, add, hop, ih]

/-- The set is what adding the edits one after another makes. -/
theorem ofEdits_eq_foldl (es : List Edit) : ofEdits es = es.foldl add empty :=
  (foldl_add es empty).symm

def toList (set : EditSet) : List Edit := set.deletes ++ set.inserts

def size (set : EditSet) : Nat := set.inserts.length + set.deletes.length

end EditSet

end FormEdits
