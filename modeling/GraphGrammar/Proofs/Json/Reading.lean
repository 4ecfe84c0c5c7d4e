import GraphGrammar.Proofs.Json.Within

/-!
What is read from trees within some levels has a property, if it is put together from parts that have
theirs. A record and a list take up one level.
-/

namespace GraphGrammar.Json

variable {α β : Type} {P : Numeral → Prop} {levels : Nat}

/-- Whatever is read from a tree within the levels has the property. -/
def Reads.Gives (P : Numeral → Prop) (levels : Nat) (read : Reads α) (Q : α → Prop) : Prop :=
  ∀ ⦃tree : Tree⦄ ⦃a : α⦄, tree.Within P levels → read tree = .ok a → Q a

def Fields.Gives (P : Numeral → Prop) (levels : Nat) (fields : Fields α) (Q : α → Prop) : Prop :=
  ∀ ⦃r : Record⦄ ⦃a : α⦄, (∀ m ∈ r.members, m.2.Within P levels) → fields.read r = .ok a → Q a

namespace Reads

theorem gives_any (read : Reads α) : Gives P levels read fun _ => True := fun _ _ _ _ => trivial

theorem gives_readOptional {read : Reads α} {Q : α → Prop} (gives : Reads.Gives P levels read Q) :
    Gives P levels (readOptional read) fun a => ∀ x ∈ a, Q x := by
  intro tree a within result
  unfold readOptional at result
  split at result
  · cases result
    exact fun _ absent => nomatch absent
  · obtain ⟨x, part, rfl⟩ := ok_of_map result
    rintro _ ⟨⟩
    exact gives within part

theorem mapM_gives {read : Reads α} {Q : α → Prop} (gives : Reads.Gives P levels read Q)
    {items : List Tree} (within : ∀ t ∈ items, t.Within P levels) {as : List α}
    (result : items.mapM read = .ok as) : ∀ a ∈ as, Q a := by
  induction items generalizing as with
  | nil =>
    cases result
    exact fun _ absent => nomatch absent
  | cons t rest ih =>
    obtain ⟨first, tail⟩ := List.forall_mem_cons.mp within
    rw [List.mapM_cons] at result
    obtain ⟨a, head, result⟩ := ok_of_bind result
    obtain ⟨as, more, result⟩ := ok_of_bind result
    cases result
    exact List.forall_mem_cons.mpr ⟨gives first head, ih tail more⟩

theorem not_ok_of_unexpected {tree : Tree} {a : α} (result : unexpected tree = .ok a) : False := by
  unfold unexpected at result
  split at result <;> cases result

theorem gives_readList {read : Reads α} {Q : α → Prop} (gives : Reads.Gives P levels read Q) :
    Gives P (levels + 1) (readList read) fun as => ∀ a ∈ as, Q a := by
  intro tree as within result
  unfold readList at result
  split at result
  · cases within with
    | array parts => exact mapM_gives gives parts result
  · exact (not_ok_of_unexpected result).elim

end Reads

namespace Fields

theorem mem_values {r : Record} {name : String} {tree : Tree} {place : Nat}
    (member : (tree, place) ∈ r.values name) : ∃ m ∈ r.members, m.2 = tree := by
  obtain ⟨⟨⟨key, t⟩, i⟩, listed, same⟩ := List.mem_filterMap.mp member
  simp only at same
  split at same
  · cases same
    exact ⟨(key, tree), List.fst_mem_of_mem_zipIdx listed, rfl⟩
  · cases same

theorem gives_single {name : String} {read : Reads α} {absent : Record → Except DocumentError α}
    {Q : α → Prop} (gives : Reads.Gives P levels read Q) (default : ∀ r a, absent r = .ok a → Q a) :
    Fields.Gives P levels (single name read absent) Q := by
  intro r a within result
  simp only [single] at result
  split at result
  · exact default r a (ok_of_mapError result)
  · next tree place values =>
    have member : (tree, place) ∈ r.values name := by
      rw [values]
      exact List.mem_cons_self
    obtain ⟨m, listed, rfl⟩ := mem_values member
    exact gives (within m listed) (ok_of_mapError result)
  · obtain ⟨_, _, result⟩ := ok_of_bind result
    cases result

theorem gives_required (name : String) {read : Reads α} {Q : α → Prop}
    (gives : Reads.Gives P levels read Q) : Fields.Gives P levels (required name read) Q :=
  gives_single gives fun _ _ absent => nomatch absent

theorem gives_withDefault (name : String) {default : α} {read : Reads α} {Q : α → Prop}
    (gives : Reads.Gives P levels read Q) (ok : Q default) :
    Fields.Gives P levels (withDefault name default read) Q := by
  refine gives_single gives ?_
  rintro _ _ ⟨⟩
  exact ok

theorem gives_optional (name : String) {read : Reads α} {Q : α → Prop}
    (gives : Reads.Gives P levels read Q) :
    Fields.Gives P levels (optional name read) fun a => ∀ x ∈ a, Q x := by
  refine gives_single (Reads.gives_readOptional gives) ?_
  rintro _ _ ⟨⟩
  exact fun _ absent => nomatch absent

theorem gives_map {fields : Fields α} {f : α → β} {Q : α → Prop} {R : β → Prop}
    (gives : Fields.Gives P levels fields Q) (made : ∀ a, Q a → R (f a)) :
    Fields.Gives P levels (f <$> fields) R := by
  intro r b within result
  obtain ⟨a, part, rfl⟩ := ok_of_map result
  exact made a (gives within part)

theorem gives_seq {fields : Fields (α → β)} {more : Fields α} {Q : α → Prop} {R : β → Prop}
    (gives : Fields.Gives P levels fields fun f => ∀ a, Q a → R (f a))
    (argument : Fields.Gives P levels more Q) : Fields.Gives P levels (fields <*> more) R := by
  intro r b within result
  change combine (fields.read r) (more.read r) = .ok b at result
  unfold combine at result
  split at result
  · next f a function value =>
    cases result
    exact gives within function a (argument within value)
  · cases result
  · cases result
  · cases result

theorem gives_readRecord {fields : Fields α} {Q : α → Prop}
    (gives : Fields.Gives P levels fields Q) : Reads.Gives P (levels + 1) (readRecord fields) Q := by
  intro tree a within result
  unfold readRecord at result
  split at result
  · next members =>
    cases within with
    | object parts => exact gives parts (ok_of_mapError result)
  · split at result <;> cases result
  · next items =>
    cases within with
    | array parts =>
      obtain ⟨b, part, result⟩ := ok_of_bind result
      split at result
      · cases result
      · cases result
        refine gives (fun m member => parts _ ?_) (ok_of_mapError part)
        exact (List.of_mem_zip member).2
  · exact (Reads.not_ok_of_unexpected result).elim

section

variable {r : Record} {name : String} {read : Reads α} {absent : Record → Except DocumentError α}
  {tree : Tree} {a : α} {f : α → β}

theorem read_map {fields : Fields α} (back : fields.read r = .ok a) :
    (f <$> fields).read r = .ok (f a) := by
  change f <$> fields.read r = _
  rw [back]
  rfl

theorem read_seq {fields : Fields (α → β)} {more : Fields α} (function : fields.read r = .ok f)
    (argument : more.read r = .ok a) : (fields <*> more).read r = .ok (f a) := by
  change combine (fields.read r) (more.read r) = _
  rw [function, argument]
  rfl

theorem readRecord_object {fields : Fields α} {members : List (String × Tree)}
    (back : fields.read ⟨false, members⟩ = .ok a) : readRecord fields (.object members) = .ok a := by
  rw [readRecord, back]
  rfl

def given (name : String) (members : List (String × Tree)) : List Tree :=
  members.filterMap fun m => if m.1 = name then some m.2 else none

@[simp]
theorem given_nil : given name [] = [] := rfl

@[simp]
theorem given_cons {key : String} {members : List (String × Tree)} : given name ((key, tree) :: members) =
    if key = name then tree :: given name members else given name members := by
  unfold given
  split <;> simp [*]

@[simp]
theorem given_append {first second : List (String × Tree)} :
    given name (first ++ second) = given name first ++ given name second := List.filterMap_append

@[simp]
theorem given_optionalMember {key : String} {write : α → Tree} {stored : Option α} :
    given name (optionalMember key write stored) = if key = name then (stored.map write).toList else [] := by
  cases stored <;> simp [optionalMember]

theorem map_fst_values : (r.values name).map Prod.fst = given name r.members := by
  have unplaced : given name r.members = given name (r.members.zipIdx.map Prod.fst) := by
    rw [List.zipIdx_map_fst]
  rw [unplaced, given, List.filterMap_map, Record.values, List.map_filterMap]
  congr 1
  funext ⟨m, i⟩
  by_cases same : m.1 = name <;> simp [same]

theorem read_given (given : given name r.members = [tree]) (back : read tree = .ok a) :
    (single name read absent).read r = .ok a := by
  rw [← map_fst_values, List.map_eq_singleton_iff] at given
  obtain ⟨⟨_, place⟩, values, rfl⟩ := given
  simp only [single, values, back]
  rfl

theorem read_missing (given : given name r.members = []) (default : absent r = .ok a) :
    (single name read absent).read r = .ok a := by
  rw [← map_fst_values, List.map_eq_nil_iff] at given
  simp only [single, given, default]
  rfl

theorem read_single_eq_ok_iff : (single name read absent).read r = .ok a ↔
    given name r.members = [] ∧ absent r = .ok a ∨ ∃ t, given name r.members = [t] ∧ read t = .ok a := by
  constructor
  · intro result
    rw [← map_fst_values]
    simp only [single] at result
    split at result
    · next none =>
      rw [none]
      exact .inl ⟨rfl, ok_of_mapError result⟩
    · next t place one =>
      rw [one]
      exact .inr ⟨t, rfl, ok_of_mapError result⟩
    · obtain ⟨_, _, result⟩ := ok_of_bind result
      cases result
  · rintro (⟨missing, default⟩ | ⟨t, given, back⟩)
    · exact read_missing missing default
    · exact read_given given back

theorem read_map_eq_ok_iff {fields : Fields α} {b : β} :
    (f <$> fields).read r = .ok b ↔ ∃ a, fields.read r = .ok a ∧ f a = b := by
  constructor
  · exact ok_of_map
  · rintro ⟨a, back, rfl⟩
    exact read_map back

theorem read_seq_eq_ok_iff {fields : Fields (α → β)} {more : Fields α} {b : β} :
    (fields <*> more).read r = .ok b ↔ ∃ f a, fields.read r = .ok f ∧ more.read r = .ok a ∧ f a = b := by
  constructor
  · intro result
    change combine (fields.read r) (more.read r) = .ok b at result
    unfold combine at result
    split at result
    · next f a function argument => exact ⟨f, a, function, argument, Except.ok.inj result⟩
    all_goals cases result
  · rintro ⟨f, a, function, argument, rfl⟩
    exact read_seq function argument

theorem read_optionalMember {write : α → Tree} {stored : Option α}
    (given : given name r.members = (stored.map write).toList)
    (back : ∀ a ∈ stored, write a ≠ .null ∧ read (write a) = .ok a) :
    (optional name read).read r = .ok stored := by
  cases stored with
  | none => exact read_missing given rfl
  | some a =>
    obtain ⟨present, same⟩ := back a rfl
    refine read_given given ?_
    unfold readOptional
    split
    · next null => exact absurd null present
    · rw [same]
      rfl

end

end Fields

/-- What a tree holds as a record: the members of an object, or the items of an array under the names of the fields
in their order, of which there are enough. -/
def Tree.record? (names : List String) : Tree → Option Record
  | .object members => some ⟨false, members⟩
  | .array items => if items.length ≤ names.length then some ⟨true, names.zip items⟩ else none
  | _ => none

theorem readRecord_eq_ok_iff {fields : Fields α} {tree : Tree} {a : α} :
    readRecord fields tree = .ok a ↔ ∃ r, tree.record? fields.names = some r ∧ fields.read r = .ok a := by
  cases tree with
  | object members =>
    constructor
    · intro result
      exact ⟨_, rfl, ok_of_mapError result⟩
    · rintro ⟨_, ⟨⟩, back⟩
      exact Fields.readRecord_object back
  | array items =>
    constructor
    · intro result
      obtain ⟨b, part, result⟩ := ok_of_bind result
      split at result
      · cases result
      · next enough =>
        cases result
        exact ⟨_, if_pos (Nat.le_of_not_lt enough), ok_of_mapError part⟩
    · rintro ⟨r, record, back⟩
      simp only [Tree.record?] at record
      split at record
      · next enough =>
        cases record
        rw [readRecord, back]
        exact if_neg (Nat.not_lt_of_le enough)
      · cases record
  | damaged members next =>
    refine ⟨fun result => ?_, fun ⟨_, record, _⟩ => nomatch record⟩
    simp only [readRecord] at result
    split at result <;> cases result
  | null | bool | number | string | unreadable =>
    refine ⟨fun result => ?_, fun ⟨_, record, _⟩ => nomatch record⟩
    simp only [readRecord] at result
    exact (Reads.not_ok_of_unexpected result).elim

theorem readText_eq_ok_iff {read : Reads α} {text : String} {a : α} :
    readText read text = .ok a ↔ ∃ t, Tree.ofText? text = some t ∧ read t = .ok a := by
  rw [readText, Document.read, Tree.ofText?]
  constructor
  · intro result
    obtain ⟨b, back, result⟩ := ok_of_bind result
    split at result
    · next whole =>
      cases result
      exact ⟨_, if_pos whole, back⟩
    · cases result
  · rintro ⟨t, parses, back⟩
    split at parses
    · next whole =>
      cases parses
      rw [back]
      exact if_pos whole
    · cases parses

namespace Reads

theorem mapM_of_forall {γ : Type} {write : γ → Tree} {read : Reads γ} {items : List γ}
    (back : ∀ a ∈ items, read (write a) = .ok a) : (items.map write).mapM read = .ok items := by
  induction items with
  | nil => rfl
  | cons a rest ih =>
    obtain ⟨first, tail⟩ := List.forall_mem_cons.mp back
    rw [List.map_cons, List.mapM_cons, first, ih tail]
    rfl

end Reads

theorem areReadable_map {write : α → Tree} {items : List α}
    (readable : ∀ a, (write a).isReadable = true) : areReadable (items.map write) = true := by
  induction items with
  | nil => rfl
  | cons a rest ih => exact Bool.and_eq_true_iff.mpr ⟨readable a, ih⟩

@[simp]
theorem haveReadable_append {first second : List (String × Tree)} :
    haveReadable (first ++ second) = (haveReadable first && haveReadable second) := by
  induction first with
  | nil => rfl
  | cons m rest ih => simp [haveReadable, ih, Bool.and_assoc]

theorem forall_mem_optionalMember {Q : String × Tree → Prop} {name : String} {write : α → Tree}
    {stored : Option α} : (∀ m ∈ optionalMember name write stored, Q m) ↔ ∀ a ∈ stored, Q (name, write a) := by
  cases stored <;> simp [optionalMember]

theorem haveReadable_optionalMember {name : String} {write : α → Tree} {stored : Option α}
    (readable : ∀ a, (write a).isReadable = true) :
    haveReadable (optionalMember name write stored) = true := by
  cases stored <;> simp [optionalMember, haveReadable, readable]

end GraphGrammar.Json
