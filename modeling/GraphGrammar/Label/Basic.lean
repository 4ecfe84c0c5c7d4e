import GraphGrammar.Label.Value

/-!
Labels: the data that nodes and edges carry. A label maps keys to values. Its entries are in ascending order
of their keys, each key once, and so are those of all labels inside it: every label carries the proof, and
what is written into a label is put in order first.
-/

namespace GraphGrammar

@[ext]
structure Label where
  entries : Entries
  ordered : entries.Ordered

namespace Label

instance : EmptyCollection Label := ⟨⟨[], Entries.ordered_nil⟩⟩

instance : Inhabited Label := ⟨∅⟩

def toValue (label : Label) : Value := .map label.entries

def get? (label : Label) (key : String) : Option Value := Entries.find? key label.entries

def insert (label : Label) (key : String) (value : Value) : Label where
  entries := Entries.insert key value.sorted label.entries
  ordered := label.ordered.insert value.ordered_sorted key

def erase (label : Label) (key : String) : Label where
  entries := Entries.erase key label.entries
  ordered := label.ordered.erase key

def replace (label : Label) (key : String) (value : Value) : Label :=
  if (label.get? key).isSome then label.insert key value else label

def contains (label : Label) (key : String) : Bool := (label.get? key).isSome

def size (label : Label) : Nat := label.entries.length

def isEmpty (label : Label) : Bool := label.entries.isEmpty

/-- The label with the given entries, of which a later one takes the place of an earlier one. -/
def ofList (entries : List (String × Value)) : Label where
  entries := insertEntries [] entries
  ordered := (Value.map entries).ordered_sorted

end Label

def Value.asLabel? : Value → Option Label
  | .map entries => some (.ofList entries)
  | _ => none

namespace Label

def string? (label : Label) (key : String) : Option String := (label.get? key).bind Value.asString?

def number? (label : Label) (key : String) : Option Number := (label.get? key).bind Value.asNumber?

def bool? (label : Label) (key : String) : Option Bool := (label.get? key).bind Value.asBool?

def label? (label : Label) (key : String) : Option Label := (label.get? key).bind Value.asLabel?

theorem toValue_injective {a b : Label} (same : a.toValue = b.toValue) : a = b := Label.ext (Value.map.inj same)

theorem ofList_of_ordered {entries : Entries} (ordered : entries.Ordered) : ofList entries = ⟨entries, ordered⟩ :=
  Label.ext (@insertEntries_of_ordered [] entries ordered.1 ordered.2)

theorem get?_insert (label : Label) (key k : String) (v : Value) :
    (label.insert key v).get? k = if key = k then some v.sorted else label.get? k :=
  Entries.find?_insert key k v.sorted label.entries

theorem get?_erase (label : Label) (key k : String) :
    (label.erase key).get? k = if key = k then none else label.get? k :=
  Entries.find?_erase label.ordered.nodup_keys key k

end Label

end GraphGrammar
