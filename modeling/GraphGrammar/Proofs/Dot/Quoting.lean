import GraphGrammar.Dot

/-!
Texts with quoted strings in which a backslash takes the next character along. An escaped text fills a
string with one piece for each of its characters, whatever these are: it never ends the string, and no
piece of it is a line break escape.
-/

namespace GraphGrammar.Dot

/-- A character of a quoted string, by itself or behind a backslash. -/
inductive Piece where
  | plain (c : Char)
  | escaped (c : Char)
deriving DecidableEq

/-- A character outside of quoted strings, or a whole string. -/
inductive Token where
  | bare (c : Char)
  | quoted (pieces : List Piece)
deriving DecidableEq

inductive Place where
  | outside
  | inside (pieces : List Piece)
  | behindBackslash (pieces : List Piece)

/-- What was read so far, from the last token and the last piece on. -/
structure Reader where
  tokens : List Token
  place : Place

def Reader.step (r : Reader) (c : Char) : Reader :=
  match r.place with
  | .outside => if c = '"' then ⟨r.tokens, .inside []⟩ else ⟨.bare c :: r.tokens, .outside⟩
  | .inside pieces =>
    if c = '"' then ⟨.quoted pieces.reverse :: r.tokens, .outside⟩
    else if c = '\\' then ⟨r.tokens, .behindBackslash pieces⟩
    else ⟨r.tokens, .inside (.plain c :: pieces)⟩
  | .behindBackslash pieces => ⟨r.tokens, .inside (.escaped c :: pieces)⟩

def tokens? (text : String) : Option (List Token) :=
  match text.toList.foldl Reader.step ⟨[], .outside⟩ with
  | ⟨tokens, .outside⟩ => some tokens.reverse
  | _ => none

/-- The characters are read as the tokens, wherever they stand outside of strings. -/
def Reads (cs : List Char) (ts : List Token) : Prop :=
  ∀ before, cs.foldl Reader.step ⟨before, .outside⟩ = ⟨ts.reverse ++ before, .outside⟩

/-- The characters are read as the pieces, wherever they stand inside of a string, and stay inside. -/
def Fills (cs : List Char) (ps : List Piece) : Prop :=
  ∀ tokens before, cs.foldl Reader.step ⟨tokens, .inside before⟩ = ⟨tokens, .inside (ps.reverse ++ before)⟩

variable {cs ds : List Char} {ts us : List Token} {ps qs : List Piece}

theorem Reads.append (first : Reads cs ts) (second : Reads ds us) : Reads (cs ++ ds) (ts ++ us) := by
  intro before
  rw [List.foldl_append, first, second, List.reverse_append, List.append_assoc]

theorem Reads.flatMap {α : Type} {write : α → List Char} {tokens : α → List Token} {items : List α}
    (each : ∀ a ∈ items, Reads (write a) (tokens a)) : Reads (items.flatMap write) (items.flatMap tokens) := by
  induction items with
  | nil => exact fun _ => rfl
  | cons a rest ih =>
    obtain ⟨first, tail⟩ := List.forall_mem_cons.mp each
    exact first.append (ih tail)

theorem Reads.tokens? {text : String} (reads : Reads text.toList ts) : Dot.tokens? text = some ts := by
  simp [Dot.tokens?, reads []]

theorem reads_bare (unquoted : '"' ∉ cs) : Reads cs (cs.map .bare) := by
  induction cs with
  | nil => exact fun _ => rfl
  | cons c rest ih =>
    obtain ⟨first, tail⟩ := not_or.mp (mt List.mem_cons.mpr unquoted)
    intro before
    simp [Reader.step, Ne.symm first, ih tail (.bare c :: before)]

theorem Fills.append (first : Fills cs ps) (second : Fills ds qs) : Fills (cs ++ ds) (ps ++ qs) := by
  intro tokens before
  rw [List.foldl_append, first, second, List.reverse_append, List.append_assoc]

theorem Fills.reads (fills : Fills cs ps) : Reads ('"' :: (cs ++ ['"'])) [.quoted ps] := by
  intro before
  simp [Reader.step, fills before []]

theorem Fills.intercalate {separator : List Char} {mark : List Piece} (between : Fills separator mark)
    {α : Type} {write : α → List Char} {pieces : α → List Piece} {items : List α}
    (each : ∀ a ∈ items, Fills (write a) (pieces a)) :
    Fills (List.intercalate separator (items.map write)) (List.intercalate mark (items.map pieces)) := by
  induction items with
  | nil => exact fun _ _ => rfl
  | cons a rest ih =>
    obtain ⟨first, tail⟩ := List.forall_mem_cons.mp each
    cases rest with
    | nil => simpa using first
    | cons b rest =>
      have more := first.append (between.append (ih tail))
      simpa using more

def replaced (c : Char) (new : List Char) (cs : List Char) : List Char :=
  cs.flatMap fun d => if d = c then new else [d]

/-- Escaping is replacing backslashes and after that quotes. In the other order the backslashes that are put
before quotes would be replaced as well. -/
theorem escape_eq_replaced (s : String) :
    (escape s).toList = replaced '"' ['\\', '"'] (replaced '\\' ['\\', '\\'] s.toList) := by
  rw [escape, String.toList_ofList, replaced, replaced, List.flatMap_assoc]
  congr 1
  funext c
  by_cases quote : c = '"'
  · simp [escapeChar, quote]
  · by_cases backslash : c = '\\' <;> simp [escapeChar, quote, backslash]

def piece (c : Char) : Piece := if c = '"' ∨ c = '\\' then .escaped c else .plain c

def pieces (s : String) : List Piece := s.toList.map piece

def lineBreakPiece : Piece := .escaped 'n'

theorem fills_escapeChar (c : Char) : Fills (escapeChar c) [piece c] := by
  intro tokens before
  by_cases special : c = '"' ∨ c = '\\'
  · simp [escapeChar, piece, special, Reader.step]
  · obtain ⟨quote, backslash⟩ := not_or.mp special
    simp [escapeChar, piece, quote, backslash, Reader.step]

theorem fills_escape (s : String) : Fills (escape s).toList (pieces s) := by
  rw [escape, String.toList_ofList, pieces]
  induction s.toList with
  | nil => exact fun _ _ => rfl
  | cons c rest ih => exact (fills_escapeChar c).append ih

theorem fills_lineBreak : Fills lineBreak.toList [lineBreakPiece] := fun _ _ => rfl

theorem lineBreakPiece_notMem_pieces (s : String) : lineBreakPiece ∉ pieces s := by
  intro member
  obtain ⟨c, _, same⟩ := List.mem_map.mp member
  unfold piece at same
  split at same
  · next special =>
    cases same
    revert special
    decide
  · cases same

def Piece.undo : Piece → Char
  | plain c => c
  | escaped c => if c = 'n' then '\n' else c

theorem undo_piece (c : Char) : (piece c).undo = c := by
  unfold piece
  split
  · next special =>
    have other : c ≠ 'n' := by
      rintro rfl
      revert special
      decide
    exact if_neg other
  · rfl

theorem map_undo_pieces (s : String) : (pieces s).map Piece.undo = s.toList := by
  simp [pieces, undo_piece, Function.comp_def]

end GraphGrammar.Dot
