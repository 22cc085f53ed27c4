import SyntaxTrees.Proofs.Yaml.Native.Scalar

/-!
# Lines and the tokens they spell

Some lines spell tokens in a block if the reader gets over them with just these tokens, whatever line
follows (`Spells`). What lines spell one after the other, they spell together, so that the tokens of
a text follow from those of its lines.
-/

namespace SyntaxTrees.Yaml

open Place

/-- In a block at some column, the lines are read as the tokens, whatever line follows that is not
further to the right than the block. -/
def Spells (column : Nat) (outer : List Nat) (lines : List Char) (ts : List Token) : Prop :=
  ∀ rest, IsLine column rest → IsLine column (lines ++ rest) ∧
    ∀ tokens, Leads (atLine (lines ++ rest) (column :: outer) tokens)
      (atLine rest (column :: outer) (ts.reverse ++ tokens))

def textToken (s : String) : Token := .scalar (styleOf s.toList) s

def keyTokens (name : String) : List Token := [.key, .scalar .plain name, .value]

def fieldLine (column : Nat) (word : List Char) (s : String) : List Char :=
  spaces column ++ (word ++ ':' :: ' ' :: writeScalar column s.toList)

def itemLine (column : Nat) (s : String) : List Char :=
  spaces column ++ ('-' :: ' ' :: writeScalar column s.toList)

/-- What is written behind the indentation of a line. -/
theorem atLine_indented {column : Nat} {outer : List Nat} {tail : List Char}
    (htail : LeadsToToken tail) (tokens : List Token) :
    atLine (spaces column ++ tail) (column :: outer) tokens =
      ⟨tail, column, column :: outer, tokens, true⟩ := by
  rw [atLine_spaces htail, approach_of_le (by simp)]

namespace Spells

variable {column : Nat} {outer : List Nat}

theorem nil : Spells column outer [] [] := fun _ hrest => ⟨hrest, fun _ => Leads.refl _⟩

theorem append {lines lines' : List Char} {ts ts' : List Token} (h : Spells column outer lines ts)
    (h' : Spells column outer lines' ts') : Spells column outer (lines ++ lines') (ts ++ ts') := by
  intro rest hrest
  rcases h' rest hrest with ⟨hline', hleads'⟩
  rcases h (lines' ++ rest) hline' with ⟨hline, hleads⟩
  rw [List.append_assoc]
  refine ⟨hline, fun tokens => (hleads tokens).trans ?_⟩
  have hnext := hleads' (ts.reverse ++ tokens)
  rwa [← List.append_assoc, ← List.reverse_append] at hnext

theorem flatMap {α : Type} {lines : α → List Char} {ts : α → List Token} (xs : List α)
    (h : ∀ x ∈ xs, Spells column outer (lines x) (ts x)) :
    Spells column outer (xs.flatMap lines) (xs.flatMap ts) := by
  induction xs with
  | nil => exact nil
  | cons x xs ih =>
    rw [List.flatMap_cons, List.flatMap_cons]
    exact (h x List.mem_cons_self).append (ih fun y hy => h y (List.mem_cons_of_mem _ hy))

end Spells

section Lines

variable {column : Nat} {outer : List Nat}

theorem leadsToToken_word {word : List Char} (hword : IsWord word)
    (rest : List Char) : LeadsToToken (word ++ rest) := by
  rcases List.exists_cons_of_ne_nil hword.ne_nil with ⟨c, word, rfl⟩
  intro d hd
  cases hd
  rcases startsWord_of_isLower (hword.isLower c List.mem_cons_self) with ⟨⟨hgap, hlead⟩, -⟩
  refine ⟨hgap, ?_, ?_⟩
  · rintro rfl
    cases hlead
  · rintro rfl
    cases hword.isLower _ List.mem_cons_self

theorem leadsToToken_hyphen (rest : List Char) : LeadsToToken ('-' :: rest) := by
  intro c hc
  cases hc
  decide

/-- A line with a key and a text, in a block of keys. -/
theorem spells_field {word : List Char} (hword : IsWord word) (s : String) :
    Spells column outer (fieldLine column word s) (keyTokens (.ofList word) ++ [textToken s]) := by
  intro rest hrest
  have htail := leadsToToken_word hword (':' :: ' ' :: (writeScalar column s.toList ++ rest))
  have hassoc : fieldLine column word s ++ rest =
      spaces column ++ (word ++ ':' :: ' ' :: (writeScalar column s.toList ++ rest)) := by
    simp [fieldLine]
  rw [hassoc]
  refine ⟨⟨column, _, Nat.le_refl _, htail, rfl⟩, fun tokens => ?_⟩
  rw [atLine_indented htail]
  have hblocks : OpensFor column outer (column :: outer) [] := .goesOn
  simpa [textToken, keyTokens] using leads_field hblocks hword s.toList hrest tokens

/-- A line with a text as an item, in a block where the items stand in the column of the keys. -/
theorem spells_item (s : String) :
    Spells column outer (itemLine column s) [.item, textToken s] := by
  intro rest hrest
  have hassoc : itemLine column s ++ rest =
      spaces column ++ ('-' :: ' ' :: (writeScalar column s.toList ++ rest)) := by simp [itemLine]
  have htail := leadsToToken_hyphen (' ' :: (writeScalar column s.toList ++ rest))
  rw [hassoc]
  refine ⟨⟨column, _, Nat.le_refl _, htail, rfl⟩, fun tokens => ?_⟩
  rw [atLine_indented htail]
  refine (leads_item (leadsToToken_writeScalar column s.toList rest)).trans ?_
  have hcolumn : column < column + 2 := by omega
  simpa [textToken] using leads_scalar s.toList hcolumn hrest outer (.item :: tokens) true

/-- A line with a key alone, above a line that is not further to the left. -/
theorem leads_listKey {word : List Char} (hword : IsWord word)
    {blocks : List Nat} {opened : List Token} (hblocks : OpensFor column outer blocks opened)
    {k : Nat} (hk : column ≤ k) {tail : List Char} (htail : LeadsToToken tail)
    (tokens : List Token) :
    Leads ⟨word ++ ':' :: '\n' :: (spaces k ++ tail), column, blocks, tokens, true⟩
      (atLine (spaces k ++ tail) (column :: outer)
        ((keyTokens (.ofList word)).reverse ++ (opened ++ tokens))) := by
  rw [atLine_spaces htail, approach_of_le (by simpa using hk)]
  exact leads_key hblocks hword rfl (leadsOver_lineFeed htail _ k false)
    (by simp; omega) hk tokens

/-- A key above items, of which there has to be one. -/
theorem spells_list {word : List Char} (hword : IsWord word) {xs : List String} (hxs : xs ≠ []) :
    Spells column outer (spaces column ++ (word ++ ':' :: '\n' :: xs.flatMap (itemLine column)))
      (keyTokens (.ofList word) ++ xs.flatMap fun s => [.item, textToken s]) := by
  intro rest hrest
  have hspells : Spells column outer (xs.flatMap (itemLine column))
      (xs.flatMap fun s => [.item, textToken s]) := .flatMap xs fun s _ => spells_item s
  rcases hspells rest hrest with ⟨-, hitems⟩
  -- the items start in the column of the key
  obtain ⟨tail, htail, hlines⟩ :
      ∃ tail, LeadsToToken tail ∧ xs.flatMap (itemLine column) ++ rest = spaces column ++ tail := by
    rcases List.exists_cons_of_ne_nil hxs with ⟨x, xs, rfl⟩
    exact ⟨'-' :: ' ' :: (writeScalar column x.toList ++ (xs.flatMap (itemLine column) ++ rest)),
      leadsToToken_hyphen _, by simp [itemLine]⟩
  have hkey := leadsToToken_word hword (':' :: '\n' :: (spaces column ++ tail))
  have hassoc : spaces column ++ (word ++ ':' :: '\n' :: xs.flatMap (itemLine column)) ++ rest =
      spaces column ++ (word ++ ':' :: '\n' :: (spaces column ++ tail)) := by
    simp [← hlines]
  rw [hassoc]
  refine ⟨⟨column, _, Nat.le_refl _, hkey, rfl⟩, fun tokens => ?_⟩
  rw [atLine_indented hkey]
  refine (leads_listKey hword .goesOn (Nat.le_refl _) htail tokens).trans ?_
  rw [← hlines]
  simpa using hitems ((keyTokens (.ofList word)).reverse ++ tokens)

/-- A block that the next line does not reach ends before it. -/
theorem atLine_ends {b : Nat} (hb : column < b) {rest : List Char} (hrest : IsLine column rest)
    (tokens : List Token) :
    atLine rest (b :: column :: outer) tokens =
      atLine rest (column :: outer) (.blockEnd :: tokens) := by
  -- all ends of blocks are the same token, so that one more may stand behind or before the others
  rcases hrest with ⟨k, tail, hk, htail, rfl⟩
  have hends : k < b := by omega
  have hcommutes : ∀ bs : List Nat, .blockEnd :: (bs.map (fun _ => Token.blockEnd) ++ tokens) =
      bs.map (fun _ => Token.blockEnd) ++ .blockEnd :: tokens := by
    intro bs
    induction bs with
    | nil => rfl
    | cons b bs ih => rw [List.map_cons, List.cons_append, ih, List.cons_append]
  rw [atLine_spaces htail, atLine_spaces htail, approach, approach,
    List.takeWhile_cons_of_pos (by simpa using hends),
    List.dropWhile_cons_of_pos (by simpa using hends), List.map_cons, List.cons_append, hcommutes]

/-- An item that is a record: a key with a text behind the hyphen, and further fields below it. -/
theorem spells_record {word : List Char} (hword : IsWord word) (s : String) {lines : List Char}
    {ts : List Token} (h : Spells (column + 2) (column :: outer) lines ts) :
    Spells column outer (spaces column ++
        ('-' :: ' ' :: (word ++ ':' :: ' ' :: (writeScalar (column + 2) s.toList ++ lines))))
      ([.item, .blockMapping] ++ keyTokens (.ofList word) ++ [textToken s] ++ ts ++ [.blockEnd]) := by
  intro rest hrest
  -- what ends the outer line ends the inner ones
  have hinner : IsLine (column + 2) rest := by
    rcases hrest with ⟨k, tail, hk, htail⟩
    exact ⟨k, tail, Nat.le_add_right_of_le hk, htail⟩
  rcases h rest hinner with ⟨hlines, hleads⟩
  have hassoc : spaces column ++
      ('-' :: ' ' :: (word ++ ':' :: ' ' :: (writeScalar (column + 2) s.toList ++ lines))) ++ rest =
      spaces column ++ ('-' :: ' ' ::
        (word ++ ':' :: ' ' :: (writeScalar (column + 2) s.toList ++ (lines ++ rest)))) := by
    simp
  rw [hassoc]
  refine ⟨⟨column, _, Nat.le_refl _, leadsToToken_hyphen _, rfl⟩, fun tokens => ?_⟩
  -- the hyphen, the first member, the others, then the record ends with its lines
  rw [atLine_indented (leadsToToken_hyphen _)]
  refine (leads_item (leadsToToken_word hword _)).trans ?_
  refine (leads_field (.opens (by simp)) hword s.toList hlines _).trans ?_
  refine (hleads _).trans ?_
  rw [atLine_ends (by omega) hrest]
  simpa [textToken, keyTokens] using Leads.refl _

/-- A text that is a key with the lines of a list below it. -/
theorem yields_list {word : List Char} (hword : IsWord word) {lines : List Char} {ts : List Token}
    (hstart : LeadsToToken lines) (h : Spells 0 [] lines ts) :
    (atLine (word ++ ':' :: '\n' :: lines) [] []).Yields
      (.blockMapping :: (keyTokens (.ofList word) ++ ts) ++ [.blockEnd]) := by
  have hnil : IsLine 0 [] := ⟨0, [], Nat.le_refl 0, by simp [LeadsToToken], rfl⟩
  rcases h [] hnil with ⟨-, hlines⟩
  -- the list opens at the margin, and the end of the text closes it
  have hblocks : OpensFor 0 [] [] [.blockMapping] := .opens (by simp)
  have hkey := leads_listKey hword hblocks (Nat.le_refl 0) hstart []
  have hwhole := hkey.trans (by simpa [spaces] using hlines _)
  have hfirst : atLine (word ++ ':' :: '\n' :: lines) [] [] =
      ⟨word ++ ':' :: '\n' :: lines, 0, [], [], true⟩ :=
    atLine_spaces (leadsToToken_word hword _) 0 [] []
  rw [hfirst]
  have hend := hwhole _ (yields_end _ rfl)
  simpa [spaces, atLine, approach] using hend

end Lines

end SyntaxTrees.Yaml
