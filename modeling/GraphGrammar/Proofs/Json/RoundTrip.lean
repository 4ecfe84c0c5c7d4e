import GraphGrammar.Json.Writer
import GraphGrammar.Proofs.Json.Within
import GraphGrammar.Proofs.Json.Word

/-!
A tree is read back from its text, in one line or over several, if its numbers are and it is nested no
deeper than the parser goes. The text is scanned as the tokens of the tree, whatever blanks are between
them, and these are parsed as the tree.
-/

namespace GraphGrammar.Json

open Token (Writes Settles WriteAll separated)

mutual

def Tree.tokens : Tree → List Token
  | .null | .unreadable => [.null]
  | .bool b => [.bool b]
  | .number n => [.number (some n)]
  | .string s => [.string (some s)]
  | .array items => .openArray :: (separated (tokensOfItems items) ++ [.closeArray])
  | .object members | .damaged members _ =>
    .openObject :: (separated (tokensOfMembers members) ++ [.closeObject])
termination_by structural t => t

def tokensOfItems : List Tree → List (List Token)
  | [] => []
  | t :: rest => t.tokens :: tokensOfItems rest
termination_by structural ts => ts

def tokensOfMembers : List (String × Tree) → List (List Token)
  | [] => []
  | (key, t) :: rest => (.string (some key) :: .colon :: t.tokens) :: tokensOfMembers rest
termination_by structural ms => ms

end

def Numeral.Scans (n : Numeral) : Prop := Writes n.render.toList [.number (some n)]

theorem settles_comma : Settles [','] [.comma] := fun _ => rfl

theorem settles_blanks {cs : List Char} (blank : ∀ c ∈ cs, Token.isBlank c = true) : Settles cs [] := by
  induction cs with
  | nil => exact Token.settles_nil
  | cons c rest ih =>
    obtain ⟨first, tail⟩ := List.forall_mem_cons.mp blank
    intro tokens
    rw [List.foldl_cons, Token.step]
    simp only [Token.outside, if_pos first]
    exact ih tail tokens

theorem blank_newLine (level : Nat) : ∀ c ∈ (newLine level).toList, Token.isBlank c = true := by
  intro c member
  rw [newLine, String.toList_ofList] at member
  rcases List.mem_cons.mp member with rfl | space
  · rfl
  · rw [List.eq_of_mem_replicate space]
    rfl

theorem settles_enclosed {before cs after : List Char} {c : Char} {opening closing : Token}
    {ts : List Token} (opens : Settles before [opening]) (content : Writes cs ts)
    (ends : Token.endsWord c = true) (closes : Settles (c :: after) [closing]) :
    Settles (before ++ (cs ++ c :: after)) (opening :: (ts ++ [closing])) :=
  opens.append (content.append_settles ends closes)

theorem writes_member {key : String} {colon value : String} {ts : List Token}
    (separates : Settles colon.toList [.colon]) (writes : Writes value.toList ts) :
    Writes (writtenString key ++ colon ++ value).toList (.string (some key) :: .colon :: ts) := by
  rw [String.toList_append, String.toList_append]
  exact ((Token.settles_writtenString key).append separates).append_writes writes

section

variable {opening closing : String} {c : Char} {left right : Token} {parts : List String}
  {tss : List (List Token)}

theorem settles_inline (opens : Settles opening.toList [left]) (closing_eq : closing.toList = [c])
    (ends : Token.endsWord c = true) (closes : Settles [c] [right]) (all : WriteAll parts tss) :
    Settles (opening ++ String.intercalate "," parts ++ closing).toList
      (left :: (separated tss ++ [right])) := by
  have content := Token.writes_intercalate "," rfl rfl settles_comma all
  have whole := settles_enclosed opens content ends closes
  rw [String.toList_append, String.toList_append, closing_eq, List.append_assoc]
  exact whole

theorem settles_bracketed (opens : Settles opening.toList [left]) (closing_eq : closing.toList = [c])
    (closes : Settles [c] [right]) (level : Nat) (all : WriteAll parts tss) :
    Settles (bracketed opening closing level parts).toList (left :: (separated tss ++ [right])) := by
  cases all with
  | nil =>
    rw [bracketed, String.toList_append, closing_eq]
    exact opens.append closes
  | @cons part parts ts tss first rest =>
    have comma : Settles (',' :: (newLine (level + 1)).toList) [.comma] :=
      settles_comma.append (settles_blanks (blank_newLine (level + 1)))
    have content := Token.writes_intercalate ("," ++ newLine (level + 1)) String.toList_append rfl comma
      (.cons first rest)
    have line : (newLine level).toList = '\n' :: List.replicate (2 * level) ' ' := String.toList_ofList
    have closeLine : Settles ('\n' :: (List.replicate (2 * level) ' ' ++ [c])) [right] := by
      have blanks := (settles_blanks (blank_newLine level)).append closes
      rw [line] at blanks
      exact blanks
    have openLine := opens.append (settles_blanks (blank_newLine (level + 1)))
    have whole := settles_enclosed openLine content rfl closeLine
    simp only [bracketed, String.toList_append, closing_eq, line, List.append_assoc] at whole ⊢
    exact whole

end

/-- The text of a tree is scanned as its tokens, however it is laid out. -/
structure Tree.Scans (t : Tree) : Prop where
  inline : Writes t.render.toList t.tokens
  lines : ∀ level, Writes (t.layOut level).toList t.tokens

structure PartsScan (inline : List String) (lines : Nat → List String) (tss : List (List Token)) :
    Prop where
  inline : WriteAll inline tss
  lines : ∀ level, WriteAll (lines level) tss

theorem scans_array {items : List Tree}
    (parts : PartsScan (renderItems items) (fun level => layOutItems level items) (tokensOfItems items)) :
    (Tree.array items).Scans where
  inline := (settles_inline (fun _ => rfl) rfl rfl (fun _ => rfl) parts.inline).writes
  lines level := (settles_bracketed (fun _ => rfl) rfl (fun _ => rfl) level (parts.lines (level + 1))).writes

theorem scans_object {members : List (String × Tree)}
    (parts : PartsScan (renderMembers members) (fun level => layOutMembers level members)
      (tokensOfMembers members)) : (Tree.object members).Scans where
  inline := (settles_inline (fun _ => rfl) rfl rfl (fun _ => rfl) parts.inline).writes
  lines level := (settles_bracketed (fun _ => rfl) rfl (fun _ => rfl) level (parts.lines (level + 1))).writes

theorem scans_of_writes {t : Tree} (writes : Writes t.render.toList t.tokens)
    (same : ∀ level, t.layOut level = t.render) : t.Scans where
  inline := writes
  lines level := by
    rw [same]
    exact writes

mutual

theorem Tree.scans {levels : Nat} :
    (t : Tree) → t.isReadable = true → t.Within Numeral.Scans levels → t.Scans
  | .null, _, _ => scans_of_writes (Token.writes_word (by decide) (by decide) rfl) fun _ => rfl
  | .bool true, _, _ => scans_of_writes (Token.writes_word (by decide) (by decide) rfl) fun _ => rfl
  | .bool false, _, _ => scans_of_writes (Token.writes_word (by decide) (by decide) rfl) fun _ => rfl
  | .number _, _, within => by
    cases within with
    | number scans => exact scans_of_writes scans fun _ => rfl
  | .string s, _, _ => scans_of_writes (Token.settles_writtenString s).writes fun _ => rfl
  | .array items, readable, within => by
    obtain ⟨_, _, parts⟩ := within.array_parts
    exact scans_array (scan_items items readable parts)
  | .object members, readable, within => by
    obtain ⟨_, _, parts⟩ := within.object_parts
    exact scans_object (scan_members members readable parts)
  | .unreadable, readable, _ => nomatch readable
  | .damaged .., readable, _ => nomatch readable
termination_by structural t => t

theorem scan_items {levels : Nat} : (items : List Tree) → areReadable items = true →
    (∀ t ∈ items, t.Within Numeral.Scans levels) →
      PartsScan (renderItems items) (fun level => layOutItems level items) (tokensOfItems items)
  | [], _, _ => ⟨.nil, fun _ => .nil⟩
  | t :: rest, readable, within => by
    obtain ⟨first, tail⟩ := List.forall_mem_cons.mp within
    obtain ⟨now, later⟩ := Bool.and_eq_true_iff.mp readable
    have head := t.scans now first
    have more := scan_items rest later tail
    exact ⟨.cons head.inline more.inline, fun level => .cons (head.lines level) (more.lines level)⟩
termination_by structural items => items

theorem scan_members {levels : Nat} : (members : List (String × Tree)) → haveReadable members = true →
    (∀ m ∈ members, m.2.Within Numeral.Scans levels) →
      PartsScan (renderMembers members) (fun level => layOutMembers level members)
        (tokensOfMembers members)
  | [], _, _ => ⟨.nil, fun _ => .nil⟩
  | (_, t) :: rest, readable, within => by
    obtain ⟨first, tail⟩ := List.forall_mem_cons.mp within
    obtain ⟨now, later⟩ := Bool.and_eq_true_iff.mp readable
    have head := t.scans now first
    have more := scan_members rest later tail
    exact ⟨.cons (writes_member (fun _ => rfl) head.inline) more.inline,
      fun level => .cons (writes_member (fun _ => rfl) (head.lines level)) (more.lines level)⟩
termination_by structural members => members

end

theorem step_firstItem {stack : List Frame} {token : Token} (other : token ≠ .closeArray) :
    Parse.step ⟨stack, .firstItem⟩ token = Parse.step ⟨stack, .value⟩ token := by
  cases token with
  | closeArray => exact absurd rfl other
  | null | bool | number | string | openArray | openObject | closeObject | comma | colon =>
    rcases stack with _ | ⟨_ | _ | _, _⟩ <;> rfl

theorem run_cons {p q : Parse} {token : Token} (next : p.step token = some q) (more : List Token) :
    p.run (token :: more) = q.run more := by
  rw [Parse.run, next]

theorem run_value {stack : List Frame} {q : Parse} (token : Token)
    (next : Parse.value stack token = some q) (more : List Token) :
    Parse.run ⟨stack, .value⟩ (token :: more) = q.run more := by
  have first : Parse.step ⟨stack, .value⟩ token = some q := next
  exact run_cons first more

theorem exists_first_token (t : Tree) (items : List Tree) (up : List Frame) :
    ∃ token rest q, t.tokens = token :: rest ∧ token ≠ .closeArray ∧
      Parse.step ⟨.array items :: up, .value⟩ token = some q := by
  cases t with
  | null | unreadable | bool | number | string | array | object | damaged =>
    exact ⟨_, _, _, rfl, fun same => (nomatch same), rfl⟩

theorem run_firstItem (t : Tree) (items : List Tree) (up : List Frame) (more : List Token) :
    Parse.run ⟨.array items :: up, .firstItem⟩ (t.tokens ++ more) =
      Parse.run ⟨.array items :: up, .value⟩ (t.tokens ++ more) := by
  obtain ⟨token, rest, q, begins, other, next⟩ := exists_first_token t items up
  have first := (step_firstItem other).trans next
  rw [begins, List.cons_append, run_cons next, run_cons first]

theorem arrayTree_reverse {depth levels : Nat} (room : greatestDepth - depth = levels + 1)
    (items : List Tree) : arrayTree depth items.reverse = .array items := by
  rw [arrayTree, if_pos (by omega), List.reverse_reverse]

theorem readableMembers_map (members : List (String × Tree)) :
    readableMembers (members.map fun m => (some m.1, m.2)) = members := by
  induction members with
  | nil => rfl
  | cons m rest ih => rw [List.map_cons, readableMembers, ih]

theorem objectTree_reverse {depth levels : Nat} (room : greatestDepth - depth = levels + 1)
    (members : List (String × Tree)) :
    objectTree depth (members.map fun m => (some m.1, m.2)).reverse = .object members := by
  have keys : haveKeys (members.map fun m => (some m.1, m.2)).reverse = true := by
    rw [haveKeys, List.all_reverse, List.all_map]
    exact List.all_eq_true.mpr fun _ _ => rfl
  rw [objectTree, if_neg (by omega), if_pos keys, List.reverse_reverse, readableMembers_map]

mutual

/-- The tokens of a tree are parsed as the tree, wherever a value may stand. -/
theorem Tree.run_tokens {P : Numeral → Prop} (up : List Frame) {p : Parse} : (t : Tree) →
    t.isReadable = true → t.Within P (greatestDepth - up.length) → Parse.complete up t = some p →
      ∀ more, Parse.run ⟨up, .value⟩ (t.tokens ++ more) = p.run more
  | .null, _, _, next, more => run_value .null next more
  | .bool b, _, _, next, more => run_value (.bool b) next more
  | .number n, _, _, next, more => run_value (.number (some n)) next more
  | .string s, _, _, next, more => run_value (.string (some s)) next more
  | .array [], _, within, next, more => by
    obtain ⟨_, room, _⟩ := within.array_parts
    have closed : Parse.step ⟨.array [] :: up, .firstItem⟩ .closeArray = some p := by
      rw [← next, ← arrayTree_reverse room]
      rfl
    exact (run_cons rfl _).trans (run_cons closed more)
  | .array (t :: rest), readable, within, next, more => by
    obtain ⟨levels, room, parts⟩ := within.array_parts
    have inner : levels = greatestDepth - (up.length + 1) := by omega
    rw [inner] at parts
    obtain ⟨first, tail⟩ := List.forall_mem_cons.mp parts
    obtain ⟨now, later⟩ := Bool.and_eq_true_iff.mp readable
    -- The first item is read in an array that is still empty, the others behind it.
    have head := Tree.run_tokens (.array [] :: up) t now first rfl
    rw [← arrayTree_reverse room, List.reverse_cons] at next
    have others := run_moreItems rest later tail next more
    change Parse.run ⟨up, .value⟩ (.openArray :: ((t.tokens ++ _ ++ [.closeArray]) ++ more)) = _
    rw [run_cons (q := ⟨.array [] :: up, .firstItem⟩) rfl, List.append_assoc, List.append_assoc,
      run_firstItem, head]
    exact others
  | .object [], _, within, next, more => by
    obtain ⟨_, room, _⟩ := within.object_parts
    have closed : Parse.step ⟨.object [] :: up, .firstKey⟩ .closeObject = some p := by
      rw [← next, ← objectTree_reverse room]
      rfl
    exact (run_cons rfl _).trans (run_cons closed more)
  | .object ((key, t) :: rest), readable, within, next, more => by
    obtain ⟨levels, room, parts⟩ := within.object_parts
    have inner : levels = greatestDepth - (up.length + 1) := by omega
    rw [inner] at parts
    obtain ⟨first, tail⟩ := List.forall_mem_cons.mp parts
    obtain ⟨now, later⟩ := Bool.and_eq_true_iff.mp readable
    have head := Tree.run_tokens (.member [] (some key) :: up) t now first rfl
    rw [← objectTree_reverse room, List.map_cons, List.reverse_cons] at next
    have others := run_moreMembers rest later tail next more
    change Parse.run ⟨up, .value⟩ (.openObject :: .string (some key) :: .colon ::
      ((t.tokens ++ _ ++ [.closeObject]) ++ more)) = _
    rw [run_cons (q := ⟨.object [] :: up, .firstKey⟩) rfl,
      run_cons (q := ⟨.member [] (some key) :: up, .colon⟩) rfl,
      run_cons (q := ⟨.member [] (some key) :: up, .value⟩) rfl, List.append_assoc,
      List.append_assoc, head]
    exact others
  | .unreadable, readable, _, _, _ => nomatch readable
  | .damaged .., readable, _, _, _ => nomatch readable
termination_by structural t => t

theorem run_moreItems {P : Numeral → Prop} {up : List Frame} {done : List Tree} {p : Parse} :
    (items : List Tree) → areReadable items = true →
      (∀ t ∈ items, t.Within P (greatestDepth - (up.length + 1))) →
        Parse.complete up (arrayTree up.length (items.reverse ++ done)) = some p → ∀ more,
          Parse.run ⟨.array done :: up, .separator⟩
            ((tokensOfItems items).flatMap (.comma :: ·) ++ ([.closeArray] ++ more)) = p.run more
  | [], _, _, next, more =>
    have closed : Parse.step ⟨.array done :: up, .separator⟩ .closeArray = some p := next
    run_cons closed more
  | t :: rest, readable, within, next, more => by
    obtain ⟨first, tail⟩ := List.forall_mem_cons.mp within
    obtain ⟨now, later⟩ := Bool.and_eq_true_iff.mp readable
    have head := Tree.run_tokens (.array done :: up) t now first rfl
    rw [List.reverse_cons, List.append_assoc] at next
    have others := run_moreItems rest later tail next more
    change Parse.run _ (.comma :: ((t.tokens ++ _) ++ _)) = _
    rw [run_cons (q := ⟨.array done :: up, .value⟩) rfl, List.append_assoc, head]
    exact others
termination_by structural items => items

theorem run_moreMembers {P : Numeral → Prop} {up : List Frame} {done : List (Option String × Tree)}
    {p : Parse} : (members : List (String × Tree)) → haveReadable members = true →
      (∀ m ∈ members, m.2.Within P (greatestDepth - (up.length + 1))) →
        Parse.complete up (objectTree up.length
          ((members.map fun m => (some m.1, m.2)).reverse ++ done)) = some p → ∀ more,
          Parse.run ⟨.object done :: up, .separator⟩
            ((tokensOfMembers members).flatMap (.comma :: ·) ++ ([.closeObject] ++ more)) = p.run more
  | [], _, _, next, more =>
    have closed : Parse.step ⟨.object done :: up, .separator⟩ .closeObject = some p := next
    run_cons closed more
  | (key, t) :: rest, readable, within, next, more => by
    obtain ⟨first, tail⟩ := List.forall_mem_cons.mp within
    obtain ⟨now, later⟩ := Bool.and_eq_true_iff.mp readable
    have head := Tree.run_tokens (.member done (some key) :: up) t now first rfl
    rw [List.map_cons, List.reverse_cons, List.append_assoc] at next
    have others := run_moreMembers rest later tail next more
    change Parse.run _ (.comma :: .string (some key) :: .colon :: ((t.tokens ++ _) ++ _)) = _
    rw [run_cons (q := ⟨.object done :: up, .key⟩) rfl,
      run_cons (q := ⟨.member done (some key) :: up, .colon⟩) rfl,
      run_cons (q := ⟨.member done (some key) :: up, .value⟩) rfl, List.append_assoc, head]
    exact others
termination_by structural members => members

end

variable {t : Tree}

theorem ofTokens_tokens {P : Numeral → Prop} (readable : t.isReadable = true)
    (within : t.Within P greatestDepth) : Document.ofTokens t.tokens true = ⟨t, true⟩ := by
  have run := Tree.run_tokens [] t readable within rfl []
  rw [List.append_nil] at run
  rw [Document.ofTokens, run]
  rfl

/-- A tree whose numbers are read back is read back itself. -/
theorem Document.ofText_render (readable : t.isReadable = true)
    (within : t.Within Numeral.Scans greatestDepth) : Document.ofText t.render = ⟨t, true⟩ := by
  have scanned := Token.ofText_of_writes (t.scans readable within).inline
  rw [Document.ofText, scanned]
  exact ofTokens_tokens readable within

theorem Document.ofText_pretty (readable : t.isReadable = true)
    (within : t.Within Numeral.Scans greatestDepth) :
    Document.ofText (t.pretty ++ "\n") = ⟨t, true⟩ := by
  have line : Settles ['\n'] [] := settles_blanks (List.forall_mem_singleton.mpr rfl)
  have writes := (((t.scans readable within).lines 0).append_settles rfl line).writes
  rw [List.append_nil] at writes
  have scanned := Token.ofText_of_writes writes
  have text : (t.pretty ++ "\n").toList = (t.layOut 0).toList ++ ['\n'] := String.toList_append
  rw [Document.ofText, text, scanned]
  exact ofTokens_tokens readable within

theorem ofText?_pretty (readable : t.isReadable = true) (within : t.Within Numeral.Scans greatestDepth) :
    Tree.ofText? t.pretty = some t := by
  have scanned := Token.ofText_of_writes ((t.scans readable within).lines 0)
  simp only [Tree.ofText?, Document.ofText, Tree.pretty, scanned, ofTokens_tokens readable within, if_true]

/-- What is read from the tree is read from both of its texts. -/
theorem readText_of_scans {α : Type} {read : Reads α} {a : α} (readable : t.isReadable = true)
    (within : t.Within Numeral.Scans greatestDepth) (back : read t = .ok a) :
    readText read t.render = .ok a ∧ readText read (t.pretty ++ "\n") = .ok a := by
  simp only [readText, Document.ofText_render readable within, Document.ofText_pretty readable within,
    Document.read, back]
  exact ⟨rfl, rfl⟩

theorem readText_of_readsBack {α : Type} {read : Reads α} {a : α} (readable : t.isReadable = true)
    (within : t.Within Numeral.IsFinite greatestDepth)
    (numbers : ∀ n ∈ t.numerals, n.IsFinite → n.ReadsBack) (back : read t = .ok a) :
    readText read t.render = .ok a ∧ readText read (t.pretty ++ "\n") = .ok a :=
  readText_of_scans readable
    (within.of_numerals fun n member finite => (numbers n member finite).writes) back

end GraphGrammar.Json
