import FormEdits.Error
import FormEdits.Form.Value
import FormEdits.Text.Utf8

/-! # Submissions

A submission is a mapping of keys to values, or a list of entries in which keys may repeat. Its
fields are the keys that are texts, each with the texts of its values: a list or tuple holds several
values, a mapping those that its keys are, and null none. -/

namespace FormEdits

inductive Submission
  | value (v : Value)
  | entries (es : List (Value × Value))

/-- A key with the texts of its values. -/
abbrev Field := Text × List Text

namespace Value

/-- The values that a value of a field holds. -/
def items : Value → List Value
  | null => []
  | list vs => vs
  | tuple vs => vs
  | mapping es => es.map Prod.fst
  | v => [v]

/-- The text that a value of a field says; bytes have to be UTF-8. -/
def fieldText : Value → Except Error Text
  | bytes bs => (Utf8.decode bs).mapError .undecodable
  | v => .ok v.plain

end Value

namespace Submission

def textEntries (es : List (Value × Value)) : List (Text × Value) :=
  es.filterMap fun
    | (.text key, v) => some (key, v)
    | _ => none

/-- The values of each key of a submission. -/
def values : Submission → Except Error (List (Text × List Value))
  | value (.mapping es) => .ok ((textEntries es).map fun e => (e.1, e.2.items))
  | value v => .error (.configuration (.formNotMapping v.typeName))
  | entries es => .ok (Assoc.collect (textEntries es))

def fields (form : Submission) : Except Error (List Field) := do
  (← form.values).mapM fun f => (f.2.mapM Value.fieldText).map fun ts => (f.1, ts)

def ofFields (fields : List Field) : Submission :=
  value (.mapping (fields.map fun f => (.text f.1, .list (f.2.map .text))))

end Submission

end FormEdits
