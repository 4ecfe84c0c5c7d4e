import GraphGrammar.Json.Record
import GraphGrammar.Proofs.Json.Numeral

/-!
What can be read from a text: only finite numbers, and no more arrays and objects inside one another
than the parser takes. The scanner keeps the first on its tokens, the parser the second on its stack.
-/

namespace GraphGrammar

section

variable {ε ε' α β : Type}

theorem ok_of_bind {e : Except ε α} {f : α → Except ε β} {b : β} (result : e >>= f = .ok b) :
    ∃ a, e = .ok a ∧ f a = .ok b := by
  cases e with
  | error e => cases result
  | ok a => exact ⟨a, rfl, result⟩

theorem ok_of_map {e : Except ε α} {f : α → β} {b : β} (result : f <$> e = .ok b) :
    ∃ a, e = .ok a ∧ f a = b := by
  cases e with
  | error e => cases result
  | ok a => exact ⟨a, rfl, Except.ok.inj result⟩

theorem ok_of_mapError {e : Except ε α} {f : ε → ε'} {a : α} (result : e.mapError f = .ok a) :
    e = .ok a := by
  cases e with
  | error e => cases result
  | ok b => exact congrArg Except.ok (Except.ok.inj result)

end

namespace Json

/-- At most the given number of arrays and objects are inside one another, and all numbers have the
property. A part that stands for no value may be anything. -/
inductive Tree.Within (P : Numeral → Prop) : Nat → Tree → Prop where
  | null {levels : Nat} : Within P levels .null
  | bool {levels : Nat} {b : Bool} : Within P levels (.bool b)
  | number {levels : Nat} {n : Numeral} (ok : P n) : Within P levels (.number n)
  | string {levels : Nat} {s : String} : Within P levels (.string s)
  | array {levels : Nat} {items : List Tree} (parts : ∀ t ∈ items, Within P levels t) :
    Within P (levels + 1) (.array items)
  | object {levels : Nat} {members : List (String × Tree)}
    (parts : ∀ m ∈ members, Within P levels m.2) : Within P (levels + 1) (.object members)
  | unreadable {levels : Nat} : Within P levels .unreadable
  | damaged {levels : Nat} {members : List (String × Tree)} {next : Tree} :
    Within P levels (.damaged members next)

theorem Tree.Within.array_parts {P : Numeral → Prop} {levels : Nat} {items : List Tree}
    (within : (Tree.array items).Within P levels) :
    ∃ inner, levels = inner + 1 ∧ ∀ t ∈ items, t.Within P inner := by
  cases within with
  | array parts => exact ⟨_, rfl, parts⟩

theorem Tree.Within.object_parts {P : Numeral → Prop} {levels : Nat} {members : List (String × Tree)}
    (within : (Tree.object members).Within P levels) :
    ∃ inner, levels = inner + 1 ∧ ∀ m ∈ members, m.2.Within P inner := by
  cases within with
  | object parts => exact ⟨_, rfl, parts⟩

mutual

def Tree.numerals : Tree → List Numeral
  | .null | .bool _ | .string _ | .unreadable => []
  | .number n => [n]
  | .array items => numeralsOfItems items
  | .object members | .damaged members _ => numeralsOfMembers members
termination_by structural t => t

def numeralsOfItems : List Tree → List Numeral
  | [] => []
  | t :: rest => t.numerals ++ numeralsOfItems rest
termination_by structural ts => ts

def numeralsOfMembers : List (String × Tree) → List Numeral
  | [] => []
  | (_, t) :: rest => t.numerals ++ numeralsOfMembers rest
termination_by structural ms => ms

end

theorem mem_numeralsOfItems {n : Numeral} {items : List Tree} :
    n ∈ numeralsOfItems items ↔ ∃ t ∈ items, n ∈ t.numerals := by
  induction items with
  | nil => simp [numeralsOfItems]
  | cons t rest ih => simp [numeralsOfItems, ih]

theorem mem_numeralsOfMembers {n : Numeral} {members : List (String × Tree)} :
    n ∈ numeralsOfMembers members ↔ ∃ m ∈ members, n ∈ m.2.numerals := by
  induction members with
  | nil => simp [numeralsOfMembers]
  | cons m rest ih => simp only [numeralsOfMembers, List.mem_append, ih, List.mem_cons, exists_eq_or_imp]

theorem Tree.Within.of_numerals {P Q : Numeral → Prop} {levels : Nat} {t : Tree} (within : t.Within P levels)
    (numerals : ∀ n ∈ t.numerals, P n → Q n) : t.Within Q levels := by
  induction within with
  | null => exact .null
  | bool => exact .bool
  | number ok => exact .number (numerals _ List.mem_cons_self ok)
  | string => exact .string
  | array _ ih =>
    exact .array fun t member => ih t member fun n inside =>
      numerals n (mem_numeralsOfItems.mpr ⟨t, member, inside⟩)
  | object _ ih =>
    exact .object fun m member => ih m member fun n inside =>
      numerals n (mem_numeralsOfMembers.mpr ⟨m, member, inside⟩)
  | unreadable => exact .unreadable
  | damaged => exact .damaged

section

variable {P : Numeral → Prop} {levels : Nat}

@[simp]
theorem Tree.within_array {items : List Tree} :
    (Tree.array items).Within P (levels + 1) ↔ ∀ t ∈ items, t.Within P levels :=
  ⟨fun | .array parts => parts, .array⟩

@[simp]
theorem Tree.within_object {members : List (String × Tree)} :
    (Tree.object members).Within P (levels + 1) ↔ ∀ m ∈ members, m.2.Within P levels :=
  ⟨fun | .object parts => parts, .object⟩

@[simp]
theorem Tree.within_bool {b : Bool} : (Tree.bool b).Within P levels := .bool

@[simp]
theorem Tree.within_string {s : String} : (Tree.string s).Within P levels := .string

@[simp]
theorem Tree.within_number {n : Numeral} : (Tree.number n).Within P levels ↔ P n :=
  ⟨fun | .number ok => ok, .number⟩

end

def Numeral.IsFinite (n : Numeral) : Prop := n.toNumber.isFinite = true

instance (n : Numeral) : Decidable n.IsFinite := inferInstanceAs (Decidable (n.toNumber.isFinite = true))

def Token.IsFinite : Token → Prop
  | .number (some n) => n.IsFinite
  | _ => True

namespace Token

theorem ofWord?_isFinite {word rest : List Char} {token : Token}
    (read : ofWord? word = some (token, rest)) : token.IsFinite := by
  simp only [ofWord?, Option.orElse_eq_orElse, Option.orElse_eq_or, Option.or_eq_some_iff,
    Option.map_eq_some_iff] at read
  rcases read with ⟨_, _, same⟩ | ⟨_, ⟨_, _, same⟩ | ⟨_, ⟨_, _, same⟩ | ⟨_, l, _, same⟩⟩⟩
  · cases same
    trivial
  · cases same
    trivial
  · cases same
    trivial
  · cases same
    unfold Token.IsFinite
    split
    · next result => exact Literal.numeral?_isFinite (Token.number.inj result)
    · trivial

def Scan.IsFinite (scan : Scan) : Prop := ∀ token ∈ scan.tokens, token.IsFinite

theorem Scan.endWord_isFinite {scan : Scan} (finite : scan.IsFinite) : scan.endWord.IsFinite := by
  unfold Scan.endWord
  split
  · split
    · next read => exact List.forall_mem_cons.mpr ⟨ofWord?_isFinite read, finite⟩
    · next read => exact List.forall_mem_cons.mpr ⟨ofWord?_isFinite read, finite⟩
    · exact finite
  · exact finite

theorem punctuation?_isFinite {c : Char} {token : Token} (found : punctuation? c = some token) :
    token.IsFinite := by
  unfold punctuation? at found
  split at found <;> cases found <;> trivial

theorem outside_isFinite {tokens : List Token} (finite : ∀ token ∈ tokens, token.IsFinite)
    (c : Char) : (outside tokens c).IsFinite := by
  unfold outside
  split
  · exact finite
  · split
    · exact finite
    · split
      · next found => exact List.forall_mem_cons.mpr ⟨punctuation?_isFinite found, finite⟩
      · exact finite

theorem step_isFinite {scan : Scan} (finite : scan.IsFinite) (c : Char) : (step scan c).IsFinite := by
  unfold step
  split
  · exact outside_isFinite finite c
  · have ended := Scan.endWord_isFinite finite
    simp only
    split
    · split
      · exact outside_isFinite ended c
      · exact ended
    · exact finite
  · split
    · exact List.forall_mem_cons.mpr ⟨trivial, finite⟩
    · split
      · exact finite
      · split <;> exact finite
  · split
    · exact finite
    · split <;> exact finite
  · split
    · simp only
      split <;> exact finite
    · exact finite
  · exact finite

theorem ofText_isFinite (cs : List Char) : ∀ token ∈ (ofText cs).1, token.IsFinite := by
  have all : ∀ scan : Scan, scan.IsFinite → (cs.foldl step scan).IsFinite := by
    induction cs with
    | nil => exact fun _ finite => finite
    | cons c rest ih => exact fun scan finite => ih _ (step_isFinite finite c)
  intro token member
  have start : (Scan.mk [] .idle).IsFinite := fun _ absent => nomatch absent
  exact Scan.endWord_isFinite (all _ start) token (List.mem_reverse.mp member)

end Token

def Frame.Within (P : Numeral → Prop) (levels : Nat) : Frame → Prop
  | .array items => ∀ t ∈ items, t.Within P levels
  | .object members | .member members _ => ∀ m ∈ members, m.2.Within P levels

/-- Each open array or object leaves one level less for what it holds. -/
def StackWithin (P : Numeral → Prop) : List Frame → Prop
  | [] => True
  | frame :: up => frame.Within P (greatestDepth - (up.length + 1)) ∧ StackWithin P up

def Parse.Within (P : Numeral → Prop) (p : Parse) : Prop :=
  StackWithin P p.stack ∧ ∀ tree, p.expectation = .finished tree → tree.Within P greatestDepth

variable {P : Numeral → Prop} {stack : List Frame} {p q : Parse}

theorem arrayTree_within {up : List Frame} {items : List Tree}
    (parts : ∀ t ∈ items, t.Within P (greatestDepth - (up.length + 1))) :
    (arrayTree up.length items).Within P (greatestDepth - up.length) := by
  unfold arrayTree
  split
  · next room =>
    have levels : greatestDepth - up.length = greatestDepth - (up.length + 1) + 1 := by omega
    rw [levels]
    exact .array fun t member => parts t (List.mem_reverse.mp member)
  · exact .unreadable

theorem mem_readableMembers {members : List (Option String × Tree)} {m : String × Tree}
    (member : m ∈ readableMembers members) : (some m.1, m.2) ∈ members := by
  fun_induction readableMembers members with
  | case1 key tree rest ih =>
    rcases List.mem_cons.mp member with rfl | member
    · exact List.mem_cons_self
    · exact List.mem_cons_of_mem _ (ih member)
  | case2 => cases member
  | case3 => cases member

theorem objectTree_within {up : List Frame} {members : List (Option String × Tree)}
    (parts : ∀ m ∈ members, m.2.Within P (greatestDepth - (up.length + 1))) :
    (objectTree up.length members).Within P (greatestDepth - up.length) := by
  unfold objectTree
  split
  · exact .unreadable
  · next room =>
    split
    · have levels : greatestDepth - up.length = greatestDepth - (up.length + 1) + 1 := by omega
      rw [levels]
      exact .object fun m member => parts _ (List.mem_reverse.mp (mem_readableMembers member))
    · exact .damaged

theorem complete_within {tree : Tree} (opened : StackWithin P stack)
    (value : tree.Within P (greatestDepth - stack.length))
    (next : Parse.complete stack tree = some p) : p.Within P := by
  unfold Parse.complete at next
  split at next
  · cases next
    refine ⟨trivial, ?_⟩
    rintro _ ⟨⟩
    exact value
  · cases next
    exact ⟨⟨List.forall_mem_cons.mpr ⟨value, opened.1⟩, opened.2⟩, fun _ same => nomatch same⟩
  · cases next
    exact ⟨⟨List.forall_mem_cons.mpr ⟨value, opened.1⟩, opened.2⟩, fun _ same => nomatch same⟩
  · cases next

theorem value_within {token : Token} (opened : StackWithin P stack)
    (numbers : ∀ n, token = .number (some n) → P n) (next : Parse.value stack token = some p) :
    p.Within P := by
  have scalar (tree : Tree) (any : ∀ levels, tree.Within P levels)
      (next : Parse.complete stack tree = some p) : p.Within P :=
    complete_within opened (any _) next
  cases token with
  | null => exact scalar .null (fun _ => .null) next
  | bool b => exact scalar (.bool b) (fun _ => .bool) next
  | number n =>
    cases n with
    | none => exact scalar .unreadable (fun _ => .unreadable) next
    | some n => exact scalar (.number n) (fun _ => .number (numbers n rfl)) next
  | string s =>
    cases s with
    | none => exact scalar .unreadable (fun _ => .unreadable) next
    | some s => exact scalar (.string s) (fun _ => .string) next
  | openArray =>
    cases next
    exact ⟨⟨fun _ absent => (nomatch absent), opened⟩, fun _ same => nomatch same⟩
  | openObject =>
    cases next
    exact ⟨⟨fun _ absent => (nomatch absent), opened⟩, fun _ same => nomatch same⟩
  | closeArray | closeObject | comma | colon => cases next

theorem step_within {token : Token} (within : p.Within P)
    (numbers : ∀ n, token = .number (some n) → P n) (next : p.step token = some q) : q.Within P := by
  obtain ⟨stack, expectation⟩ := p
  have opened : StackWithin P stack := within.1
  clear within
  unfold Parse.step at next
  simp only at next
  split at next
  · exact value_within opened numbers next
  · exact complete_within opened.2 (arrayTree_within (List.forall_mem_nil _)) next
  · exact value_within opened numbers next
  · exact complete_within opened.2 (objectTree_within (List.forall_mem_nil _)) next
  · cases next
    exact ⟨opened, fun _ same => nomatch same⟩
  · cases next
    exact ⟨opened, fun _ same => nomatch same⟩
  · cases next
    exact ⟨opened, fun _ same => nomatch same⟩
  · cases next
    exact ⟨opened, fun _ same => nomatch same⟩
  · exact complete_within opened.2 (arrayTree_within opened.1) next
  · cases next
    exact ⟨opened, fun _ same => nomatch same⟩
  · exact complete_within opened.2 (objectTree_within opened.1) next
  · cases next

theorem run_within {tokens : List Token} (numbers : ∀ n, .number (some n) ∈ tokens → P n)
    (within : p.Within P) : (p.run tokens).1.Within P := by
  induction tokens generalizing p with
  | nil => exact within
  | cons token rest ih =>
    unfold Parse.run
    split
    · next q next =>
      refine ih (fun n member => numbers n (List.mem_cons_of_mem _ member)) (step_within within ?_ next)
      rintro n rfl
      exact numbers n List.mem_cons_self
    · exact within

theorem Document.ofText_within {text : String} (whole : (Document.ofText text).isWhole = true) :
    (Document.ofText text).tree.Within Numeral.IsFinite greatestDepth := by
  have numbers : ∀ n, Token.number (some n) ∈ (Token.ofText text.toList).1 → n.IsFinite :=
    fun n member => Token.ofText_isFinite text.toList _ member
  have start : (Parse.mk [] .value).Within Numeral.IsFinite := ⟨trivial, fun _ same => nomatch same⟩
  have within := run_within numbers start
  simp only [Document.ofText, Document.ofTokens] at whole ⊢
  split at whole
  · next stack tree token result =>
    rw [result] at within
    simp only
    exact within.2 tree rfl
  · cases whole

theorem exists_tree_of_readText {α : Type} {read : Reads α} {text : String} {content : α}
    (result : readText read text = .ok content) :
    ∃ tree : Tree, tree.Within Numeral.IsFinite greatestDepth ∧ read tree = .ok content := by
  obtain ⟨a, there, result⟩ := ok_of_bind result
  split at result
  · next whole =>
    cases result
    exact ⟨_, Document.ofText_within whole, there⟩
  · cases result

end Json

end GraphGrammar
