import FormEdits.Key.Designator
import FormEdits.Key.Modifiers

/-! # Statement templates

A statement key names one or two terms, a designator, a graph, modifiers and a mark that asks for
macros to be expanded in the values. `Template.ofTokens?` reads the words of a key, and `tokens`
gives the words of a template back: a key is a template's exactly if its words are. -/

namespace FormEdits

/-- A statement key taken apart. With two terms, these are the subject and the predicate of a
forward statement; with one, it is the predicate. -/
structure Template where
  modifiers : Modifiers
  term1 : Text
  term2 : Option Text
  designator : Option Designator
  graph : Option Text
  expandsValues : Bool
deriving DecidableEq, Repr

namespace Template

/-- The word at the end of a key that asks for macros to be expanded in the values. -/
def expansionMark : Text := "$"

/-- The designator of a template that names none: the value of a reverse statement has to be a
resource. -/
def effectiveDesignator (t : Template) : Designator :=
  t.designator.getD (if t.modifiers.reverse then .resource else .literal)

/-! ### Reading -/

/-- The words of a key, past the modifiers, by what they write. -/
inductive Token
  | term (t : Text)
  | designator (d : Designator)
deriving DecidableEq, Repr

/-- What a word writes; a term token is never taken for a designator. -/
def Token.ofWord? (w : Text) : Option Token :=
  if isTermToken w then some (.term w) else (Designator.parse? w).map .designator

/-- Takes the modifiers off the front of the words. -/
def takeModifiers : List Text → Modifiers × List Text
  | [] => (.empty, [])
  | w :: ws =>
    match Modifiers.ofWord? w with
    | some m => (m, ws)
    | none => (.empty, w :: ws)

/-- Takes the mark for expansion off the end of the words. -/
def takeMark (ws : List Text) : Bool × List Text :=
  if ws.getLast? = some expansionMark then (true, ws.dropLast) else (false, ws)

/-- The template with the given tokens: the forms are terms alone, terms with a designator at the
end, and either of these before a graph. A graph needs a second term or a designator before it. -/
def ofTokens? (m : Modifiers) (expands : Bool) : List Token → Option Template
  | [.term p] => some ⟨m, p, none, none, none, expands⟩
  | [.term s, .term p] => some ⟨m, s, some p, none, none, expands⟩
  | [.term p, .designator d] => some ⟨m, p, none, some d, none, expands⟩
  | [.term s, .term p, .designator d] => some ⟨m, s, some p, some d, none, expands⟩
  | [.term p, .designator d, .term g] => some ⟨m, p, none, some d, some g, expands⟩
  | [.term s, .term p, .term g] => some ⟨m, s, some p, none, some g, expands⟩
  | [.term s, .term p, .designator d, .term g] => some ⟨m, s, some p, some d, some g, expands⟩
  | _ => none

def ofWords? (ws : List Text) : Option Template :=
  let (expands, ws) := takeMark ws
  let (m, ws) := takeModifiers ws
  (ws.mapM Token.ofWord?).bind (ofTokens? m expands)

def parse? (key : Text) : Option Template := ofWords? key.words

/-! ### Writing -/

/-- The words of a template past the modifiers, in the order of the grammar. -/
def operands (t : Template) : List Text :=
  [t.term1] ++ t.term2.toList ++ (t.designator.map Designator.text).toList ++ t.graph.toList

/-- The words of a template whose modifiers are written as `modifiers`. -/
def wordsWith (modifiers : List Text) (t : Template) : List Text :=
  modifiers ++ t.operands ++ (if t.expandsValues then [expansionMark] else [])

/-- The words that write a set of modifiers, none for the empty set; the characters of a pair may
stand in either order. -/
def writesModifiers (m : Modifiers) (ws : List Text) : Prop :=
  (m = .empty ∧ ws = []) ∨ ∃ w, ws = [w] ∧ (w, m) ∈ Modifiers.words

/-- A term token that can be a word of a key. The name before its colon may hold U+1680, which ends
a word. -/
def IsTermWord (t : Text) : Prop := isTermToken t ∧ ∀ c ∈ t, isBlank c = false

/-- A template that some key has: its terms are term tokens without blanks, a graph is there only
beside a second term or a designator, and the modifiers are those of one word. -/
structure IsRenderable (t : Template) : Prop where
  modifiers : ∃ ws, writesModifiers t.modifiers ws
  term1 : IsTermWord t.term1
  term2 : ∀ p, t.term2 = some p → IsTermWord p
  graph : ∀ g, t.graph = some g → IsTermWord g
  language : ∀ tag, t.designator = some (.language tag) → isLanguageTag tag
  datatype : ∀ token, t.designator = some (.datatype token) → IsTermWord token
  beside : t.graph.isSome → t.term2.isSome ∨ t.designator.isSome

end Template

end FormEdits
