import GraphGrammar.Label.Basic

/-!
The texts in a label. They are visited in ascending order of keys and in the order of lists, depth
first, and each may be replaced. Keys are no texts of the label. The visit runs in any monad, so that
it can remember what it saw.
-/

namespace GraphGrammar

mutual

/-- Visits every text and replaces those for which the visit gives another one. -/
def Value.mapStringsM {m : Type → Type} [Monad m] (f : String → m (Option String)) :
    Value → m Value
  | .bool b => pure (.bool b)
  | .num x => pure (.num x)
  | .str s => do return .str ((← f s).getD s)
  | .list items => do return .list (← mapStringsItemsM f items)
  | .map entries => do return .map (← mapStringsEntriesM f entries)
termination_by structural v => v

def mapStringsItemsM {m : Type → Type} [Monad m] (f : String → m (Option String)) :
    List Value → m (List Value)
  | [] => pure []
  | v :: rest => do
    let v ← v.mapStringsM f
    return v :: (← mapStringsItemsM f rest)
termination_by structural vs => vs

def mapStringsEntriesM {m : Type → Type} [Monad m] (f : String → m (Option String)) :
    List (String × Value) → m (List (String × Value))
  | [] => pure []
  | (key, v) :: rest => do
    let v ← v.mapStringsM f
    return (key, v) :: (← mapStringsEntriesM f rest)
termination_by structural es => es

end

def Label.mapStringsM {m : Type → Type} [Monad m] (f : String → m (Option String))
    (label : Label) : m Label := do
  return .ofList (← mapStringsEntriesM f label.entries)

/-- Replaces the texts that `f` gives another text for. -/
def Value.mapStrings (f : String → Option String) (value : Value) : Value :=
  Id.run (value.mapStringsM fun s => pure (f s))

def Label.mapStrings (f : String → Option String) (label : Label) : Label :=
  Id.run (label.mapStringsM fun s => pure (f s))

end GraphGrammar
