import GraphGrammar.Dungeon.Settings
import GraphGrammar.Rule.Basic

/-!
A grammar that grows dungeons. It starts from an entrance and a goal with a path between them. The first
tier splits paths into chambers, forks and side rooms until they are deep enough. The second tier puts a
lock on a path, with its key in a room of its own, or opens the path. The third tier furnishes rooms.
The first tier counts up the depths of the paths, and all other rules take away what made them match.
-/

namespace GraphGrammar.Dungeon

def room (role : String) : Label := .ofList [("type", .str "room"), ("role", .str role)]

def path (depth : Number) : Label := .ofList [("type", .str "path"), ("depth", .num depth)]

/-- The depth of a path, 0 if it has none. -/
def depth (edge : Edge) : Number := (edge.label.number? "depth").getD 0

def isPath (edge : Edge) : Bool := edge.label.string? "type" == some "path"

/-- Whether it is still open what becomes of an edge. -/
def isUndecidedPath (edge : Edge) : Bool := isPath edge && !edge.label.contains "state"

def seedGraph : Graph :=
  let (entrance, g) := Graph.empty.addNode (room "entrance")
  let (goal, g) := g.addNode (room "goal")
  match g.addEdge entrance goal (path 0) none with
  | .ok (_, g) => g
  | .error _ => g

/-! ## Growing -/

def growable (maxDepth : UInt32) : EdgePattern where
  edge := .predicate fun e _ => isUndecidedPath e && decide (depth e < Number.ofNat maxDepth.toNat)

/-- Growable paths that do not leave a side room. -/
def growableOutside (maxDepth : UInt32) : EdgePattern :=
  { growable maxDepth with src := .predicate fun n _ => n.label.string? "role" != some "side" }

def insertChamber (m : MatchedEdge) : SubgraphSpec :=
  let next := depth m.edge + 1
  { nodes := [⟨"$chamber", room "chamber"⟩]
    edges := [
      ⟨.node m.src.id, .placeholder "$chamber", path next, none⟩,
      ⟨.placeholder "$chamber", .node m.dest.id, path next, none⟩] }

def deeper (m : MatchedEdge) : EdgeSpec :=
  (EdgeSpec.reemit m.edge).merged (.ofList [("depth", .num (depth m.edge + 1))])

def forkPath (m : MatchedEdge) : SubgraphSpec := { nodes := [], edges := [deeper m, deeper m] }

def sideRoom (m : MatchedEdge) : SubgraphSpec where
  nodes := [⟨"$side", room "side"⟩]
  edges := [
    deeper m,
    ⟨.node m.src.id, .placeholder "$side", .ofList [("type", .str "corridor")], none⟩]

def growTier (settings : DungeonSettings) : Tier where
  name := "grow"
  rules := [
    ⟨"grow/insert_chamber", 3, .graph (growable settings.maxDepth) (some ∘ insertChamber)⟩,
    ⟨"grow/fork_path", 1, .graph (growable settings.maxDepth) (some ∘ forkPath)⟩,
    ⟨"grow/side_room", 2, .graph (growableOutside settings.maxDepth) (some ∘ sideRoom)⟩]

/-! ## Locking -/

def undecided : EdgePattern where
  edge := .predicate fun e _ => isUndecidedPath e

/-- A description, if the generator gave one. -/
def describe (line : Except TextError String) (label : Label) : Label :=
  match line with
  | .ok line => label.insert "description" (.str line)
  | .error _ => label

def keyCorridor (settings : DungeonSettings) (text : TextGenerator) (src : Node) : Label :=
  describe
    (text.resume settings.style ((src.label.string? "role").getD "room")
      "A narrow corridor ends at a small alcove.")
    (.ofList [("type", .str "corridor"), ("leads_to", .str "key")])

/-- A locked path, and a corridor to the room with its key. -/
def lockDoor (settings : DungeonSettings) (text : TextGenerator) (m : MatchedEdge) :
    SubgraphSpec where
  nodes := [⟨"$key", room "key"⟩]
  edges := [
    ⟨.node m.src.id, .placeholder "$key", keyCorridor settings text m.src, none⟩,
    { (EdgeSpec.reemit m.edge).merged (.ofList [("state", .str "locked")]) with
      prereq := some (.ofList [("node_id", .str "$key")]) }]

def lockTier (settings : DungeonSettings) (text : TextGenerator) : Tier where
  name := "lock"
  rules := [
    ⟨"lock/lock_door", 1, .graph undecided (some ∘ lockDoor settings text)⟩,
    ⟨"lock/open_door", 3, .edge undecided (.merge (.ofList [("state", .str "open")]))⟩]

/-! ## Furnishing -/

def unstocked : Condition Node :=
  .predicate fun n _ => n.label.string? "role" == some "side" && !n.label.contains "loot"

def chest : Label := .ofList [("kind", .str "chest"), ("opened", .bool false)]

def undescribed : Condition Node :=
  .predicate fun n _ => n.label.string? "type" == some "room" && !n.label.contains "described"

def roomTemplate : Option String → String
  | some "entrance" => "Daylight spills through the entrance."
  | some "goal" => "The final chamber waits in silence."
  | some "key" => "A key glints on a stone plinth."
  | some "side" => "A cramped side room, thick with dust."
  | _ => "A bare chamber of damp stone."

def describeRoom (settings : DungeonSettings) (text : TextGenerator) (label : Label) : Label :=
  (describe (text.rephrase settings.style (roomTemplate (label.string? "role"))) label).insert
    "described" (.bool true)

def furnishTier (settings : DungeonSettings) (text : TextGenerator) : Tier where
  name := "furnish"
  rules := [
    ⟨"furnish/stock_side_room", 1, .node unstocked (.merge (.ofList [("loot", chest.toValue)]))⟩,
    ⟨"furnish/describe_room", 1, .node undescribed (.apply (describeRoom settings text))⟩]

def grammar (settings : DungeonSettings) (text : TextGenerator) : Grammar :=
  ⟨[growTier settings, lockTier settings text, furnishTier settings text]⟩

end GraphGrammar.Dungeon
