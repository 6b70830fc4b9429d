import FormEdits.Time.DateTime
import FormEdits.Uuid

/-! # Generated values

Four macros have no fixed value: each use of them takes the next identifier or the next reading of
the clock from a supply. The supply is a value, so that every use says which reading it took. -/

namespace FormEdits

/-- Where generated values come from: the identifiers and the clock readings still to be used, by
number, and how many of each are used up. Clock readings count the microseconds since 1970. -/
structure Supply where
  identifier : Nat → Nat
  clock : Nat → Nat
  identifiersUsed : Nat
  readingsUsed : Nat

namespace Supply

/-- A supply of which nothing is used yet. -/
def fresh (identifier clock : Nat → Nat) : Supply := ⟨identifier, clock, 0, 0⟩

def takeIdentifier (s : Supply) : List UInt8 × Supply :=
  (Uuid.ofBits (s.identifier s.identifiersUsed),
    { s with identifiersUsed := s.identifiersUsed + 1 })

def takeReading (s : Supply) : DateTime × Supply :=
  (DateTime.ofEpochMicros (s.clock s.readingsUsed), { s with readingsUsed := s.readingsUsed + 1 })

end Supply

inductive Generator
  | uuid
  | uuidUrn
  | blankNode
  | time
deriving DecidableEq, Repr

namespace Generator

def all : List Generator := [uuid, uuidUrn, blankNode, time]

def name : Generator → Text
  | uuid => "NEW_UUID"
  | uuidUrn => "NEW_UUID_URN"
  | blankNode => "NEW_BNODE"
  | time => "NEW_TIME"

def ofName? (name : Text) : Option Generator := all.find? (·.name = name)

/-- The next value of a generated macro, and the supply without it. -/
def draw (g : Generator) (s : Supply) : Text × Supply :=
  match g with
  | uuid => (Uuid.text s.takeIdentifier.1, s.takeIdentifier.2)
  | uuidUrn => (Uuid.urn s.takeIdentifier.1, s.takeIdentifier.2)
  | blankNode => (Uuid.blankNode s.takeIdentifier.1, s.takeIdentifier.2)
  | time => (s.takeReading.1.text, s.takeReading.2)

end Generator

end FormEdits
