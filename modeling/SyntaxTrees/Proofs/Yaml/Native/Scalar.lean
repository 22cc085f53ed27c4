import SyntaxTrees.Proofs.Yaml.Native.Reader

/-!
# Written scalars are read as one token

Whatever style is chosen for a text, what is written is read as a single scalar of that style with
that text, and the reader comes to the line behind it (`Place.leads_scalar`).
-/

namespace SyntaxTrees.Yaml

/-! ## Lines -/

/-- A text whose first line is indented by so much at most, and starts with a token. -/
def IsLine (limit : Nat) (cs : List Char) : Prop :=
  ∃ k tail, k ≤ limit ∧ LeadsToToken tail ∧ cs = spaces k ++ tail

/-- The place before the first token of a line. -/
def Place.atLine (cs : List Char) (blocks : List Nat) (tokens : List Token) : Place :=
  Place.approach ⟨cs, 0, blocks, tokens, true⟩ (cs.dropWhile isSpace)
    (cs.takeWhile isSpace).length true

theorem Place.atLine_spaces {tail : List Char} (htail : LeadsToToken tail) (k : Nat)
    (blocks : List Nat) (tokens : List Token) :
    Place.atLine (spaces k ++ tail) blocks tokens =
      Place.approach ⟨spaces k ++ tail, 0, blocks, tokens, true⟩ tail k true := by
  -- the indent is just the spaces, since `tail` begins with none
  have hspaces : ∀ c ∈ spaces k, isSpace c = true := fun c hc => by
    rw [List.eq_of_mem_replicate hc]
    rfl
  have hhead : tail.takeWhile isSpace = [] ∧ tail.dropWhile isSpace = tail := by
    cases tail with
    | nil => exact ⟨rfl, rfl⟩
    | cons c tail =>
      have hc : isSpace c = false := by
        have hgap := (htail c rfl).1
        simp only [isGap, isBlank, Bool.or_eq_false_iff] at hgap
        exact hgap.1.1
      simp [hc]
  rw [atLine, List.takeWhile_append_of_pos hspaces, List.dropWhile_append_of_pos hspaces, hhead.1,
    hhead.2, List.append_nil, spaces, List.length_replicate]

/-! ## Keeping the place -/

/-- The point after a token, given what follows it. -/
def Cursor.took (s : Cursor) (t : Token) (rest : List Char) (mark : Mark) (allowsKey : Bool) :
    Cursor :=
  { s.push t with rest, mark, allowsKey }

namespace Cursor.IsAt

variable {s : Cursor} {p : Place}

/-- A place where a key may start, but none has to, is kept when that is noted. -/
theorem markKey (h : s.IsAt p) (hne : p.blocks.head? ≠ some p.column) :
    ∃ s', s.markKey = some s' ∧ s'.IsAt p ∧ s'.mark = s.mark := by
  rw [Cursor.markKey]
  cases hallows : s.allowsKey with
  | false => exact ⟨s, rfl, h, rfl⟩
  | true =>
    have hrequired : (s.blocks.head? == some s.mark.column) = false := by
      rw [h.blocks, h.column, beq_eq_false_iff_ne]
      exact hne
    refine ⟨{ s with key := some ⟨s.count, s.mark, false⟩ }, ?_, ?_, rfl⟩
    · simp [dropKey, h.key, hrequired, inFlow, h.outer]
    · exact ⟨h.rest, h.column, h.blocks, h.tokens, h.count, h.allowsKey, h.outer, rfl⟩

theorem dropKey (h : s.IsAt p) :
    ∃ s', s.dropKey = some s' ∧ s'.IsAt p ∧ s'.mark = s.mark := by
  refine ⟨{ s with key := none }, ?_, ?_, rfl⟩
  · simp [Cursor.dropKey, h.key]
  · exact ⟨h.rest, h.column, h.blocks, h.tokens, h.count, h.allowsKey, h.outer, rfl⟩

theorem took (h : s.IsAt p) (t : Token) (rest : List Char) (m : Mark) (allowsKey : Bool) :
    (s.took t rest m allowsKey).IsAt ⟨rest, m.column, p.blocks, t :: p.tokens, allowsKey⟩ :=
  ⟨rfl, rfl, h.blocks, congrArg (t :: ·) h.tokens, congrArg (· + 1) h.count, rfl, h.outer, h.key⟩

end Cursor.IsAt

/-! ## Styles -/

/-- What the choice of a style says about the text. -/
theorem styleOf_cases (cs : List Char) :
    (styleOf cs = .plain ∧ isReserved cs = false ∧ allowsPlain cs = true) ∨
    (styleOf cs = .single ∧ '\n' ∉ cs ∧ allowsSingle cs = true) ∨
    styleOf cs = .double ∨
    (styleOf cs = .literal ∧ '\n' ∈ cs ∧ allowsLiteral cs = true) := by
  rw [styleOf]
  split_ifs with hfeed hliteral hplain hsingle
  · exact Or.inr (Or.inr (Or.inr ⟨rfl, by simpa using hfeed, hliteral⟩))
  · exact Or.inr (Or.inr (Or.inl rfl))
  · rw [Bool.and_eq_true, Bool.not_eq_true'] at hplain
    exact Or.inl ⟨rfl, hplain⟩
  · exact Or.inr (Or.inl ⟨rfl, by simpa using hfeed, hsingle⟩)
  · exact Or.inr (Or.inr (Or.inl rfl))

theorem ne_nil_of_isReserved {cs : List Char} (h : isReserved cs = false) : cs ≠ [] := by
  rintro rfl
  cases h

/-- The start of a written scalar is the start of a token. -/
theorem leadsToToken_writeScalar (column : Nat) (cs rest : List Char) :
    LeadsToToken (writeScalar column cs ++ rest) := by
  intro c hc
  rcases styleOf_cases cs with ⟨hstyle, hreserved, hplain⟩ | ⟨hstyle, -, -⟩ | hstyle |
    ⟨hstyle, -, -⟩ <;> rw [writeScalar, hstyle] at hc
  · -- bare: the text's first letter
    rcases List.exists_cons_of_ne_nil (ne_nil_of_isReserved hreserved) with ⟨d, cs, rfl⟩
    rcases allowsPlain_spec hplain with ⟨hstarts, hbare⟩
    cases hc
    refine ⟨hstarts.no_gap, ?_, ?_⟩
    · rintro rfl
      cases hstarts.no_lead
    · rintro rfl
      cases (hbare.printable _ List.mem_cons_self).1
  -- the other three begin with a mark
  all_goals
    cases hc
    decide

/-! ## One token -/

namespace Place

section Scalar

variable {column b k : Nat} {blocks : List Nat} {tokens : List Token} {allowsKey : Bool}
  {tail : List Char}

/-- One token is read, and only separators follow up to the end of the indentation of a line. -/
theorem leads_line {c : Char} {rest : List Char} {t : Token} (htail : LeadsToToken tail)
    (hlength : tail.length ≤ rest.length)
    (hread : ∀ s : Cursor, s.IsAt ⟨c :: rest, column, blocks, tokens, allowsKey⟩ →
      ∃ (s' : Cursor) (rest' : List Char) (m : Mark) (allowsKey' : Bool),
        s'.IsAt ⟨c :: rest, column, blocks, tokens, allowsKey⟩ ∧
        s.readToken c rest = some (s'.took t rest' m allowsKey') ∧
        LeadsOver m.column allowsKey' rest' k true tail) :
    Leads ⟨c :: rest, column, blocks, tokens, allowsKey⟩
      (atLine (spaces k ++ tail) blocks (t :: tokens)) := by
  rw [atLine_spaces htail]
  refine leads_of_readToken rfl hlength fun s hs => ?_
  rcases hread s hs with ⟨s', rest', m, allowsKey', hat, hs', hover⟩
  exact ⟨s'.took t rest' m allowsKey', hs', (hat.took t rest' m allowsKey').settled hover⟩

theorem leads_plain {cs : List Char} (hne : cs ≠ []) (h : allowsPlain cs = true) (hk : k ≤ b)
    (hcolumn : b < column) (htail : LeadsToToken tail) :
    Leads ⟨cs ++ '\n' :: (spaces k ++ tail), column, b :: blocks, tokens, allowsKey⟩
      (atLine (spaces k ++ tail) (b :: blocks) (.scalar .plain (.ofList cs) :: tokens)) := by
  rcases List.exists_cons_of_ne_nil hne with ⟨c, cs, rfl⟩
  rcases allowsPlain_spec h with ⟨⟨hgap, hlead, hmark⟩, hbare⟩
  refine leads_line htail (by simp; omega) fun s hs => ?_
  -- the line feed behind the text is as good as its end
  have hstarts : StartsBare c (cs ++ '\n' :: (spaces k ++ tail)) :=
    ⟨hgap, hlead, fun hc => (startsGap_append_lineFeed ..).trans (hmark hc)⟩
  have hdelimiter : atDelimiter s.mark (c :: (cs ++ '\n' :: (spaces k ++ tail))) = false := by
    have hzero : s.mark.column ≠ 0 := by
      rw [hs.column]
      exact Nat.ne_zero_of_lt hcolumn
    simp [atDelimiter, hzero]
  rcases hs.markKey (by simpa using Nat.ne_of_lt hcolumn) with ⟨s', hs', hat, -⟩
  have hinner : s'.innerColumn = b + 1 := by simp [Cursor.innerColumn, hat.blocks]
  have hflow : s'.inFlow = false := by simp [Cursor.inFlow, hat.outer]
  obtain ⟨m', hm', hscan⟩ := scanPlain_plain hbare (Nat.lt_succ_of_le hk) htail (m := s'.mark)
    (by rw [hat.column]; exact hcolumn)
  refine ⟨s', tail, m', true, hat, ?_, hm' ▸ leadsOver_spaces htail m'.column 0 true⟩
  show s.readToken c (cs ++ '\n' :: (spaces k ++ tail)) = _
  rw [Cursor.readToken_plain hs.outer hstarts hdelimiter, Cursor.readPlain, hs', Option.bind_eq_bind,
    Option.bind_some, hflow, hinner, hat.rest]
  show (scanPlain false (b + 1) (c :: cs ++ '\n' :: (spaces k ++ tail)) s'.mark .none []).bind _ = _
  rw [hscan]
  rfl

theorem leads_quoted {quote : Char} {style : ScalarStyle}
    (scan : List Char → Mark → Option (Scanned String)) {body : List Char} {text : String}
    (hquote : ∀ (s : Cursor) (rest : List Char), s.readToken quote rest = s.readQuoted style scan)
    (hscan : ∀ (rest : List Char) (m : Mark), rest.head? ≠ some '\'' → m.column ≠ 0 →
      ∃ m', scan (body ++ rest) m = some ⟨text, m', rest⟩)
    (hcolumn : b < column) (htail : LeadsToToken tail) :
    Leads ⟨quote :: (body ++ '\n' :: (spaces k ++ tail)), column, b :: blocks, tokens, allowsKey⟩
      (atLine (spaces k ++ tail) (b :: blocks) (.scalar style text :: tokens)) := by
  -- the mark may open a key; nothing comes of it, as no colon follows
  refine leads_line htail (by simp; omega) fun s hs => ?_
  rcases hs.markKey (by simpa using Nat.ne_of_lt hcolumn) with ⟨s', hs', hat, -⟩
  obtain ⟨m', hm'⟩ := hscan ('\n' :: (spaces k ++ tail)) (s'.mark.right 1) (by simp)
    (Nat.succ_ne_zero _)
  refine ⟨s', '\n' :: (spaces k ++ tail), m', false, hat, ?_, leadsOver_lineFeed htail _ k false⟩
  rw [hquote, Cursor.readQuoted, hs', Option.bind_eq_bind, Option.bind_some, hat.rest, List.drop_one,
    List.tail_cons, hm']
  rfl

theorem leads_single {cs : List Char} (hfeed : '\n' ∉ cs) (h : allowsSingle cs = true)
    (hcolumn : b < column) (htail : LeadsToToken tail) {n : Nat} (hn : n ≠ 0) :
    Leads ⟨'\'' :: (writeSingle (spaces n) false cs ++ '\n' :: (spaces k ++ tail)), column,
        b :: blocks, tokens, allowsKey⟩
      (atLine (spaces k ++ tail) (b :: blocks) (.scalar .single (.ofList cs) :: tokens)) := by
  have hadmits : Gap.none.Admits cs := trivial
  refine leads_quoted (scanSingle · · .none []) (fun s rest => ?_) (fun rest m hrest hm => ?_) hcolumn
    htail
  · simp [Cursor.readToken, atDelimiter, startsDelimiter]
  · exact scanSingle_writeSingle hn hrest (isSpaced_of_allowsSingle h hfeed) hadmits (fun _ => hm) []

theorem leads_double (cs : List Char) (hcolumn : b < column) (htail : LeadsToToken tail) :
    Leads ⟨'"' :: (cs.flatMap doubleChar ++ ['"'] ++ '\n' :: (spaces k ++ tail)), column,
        b :: blocks, tokens, allowsKey⟩
      (atLine (spaces k ++ tail) (b :: blocks) (.scalar .double (.ofList cs) :: tokens)) := by
  have hgap : Gap.none.hasBreak = false := rfl
  refine leads_quoted (scanDouble · · .none .none []) (fun s rest => ?_) (fun rest m _ hm => ?_)
    hcolumn htail
  · simp [Cursor.readToken, atDelimiter, startsDelimiter]
  · rcases scanDouble_writeDouble cs rest hm hgap [] with ⟨m', hscan⟩
    refine ⟨m', ?_⟩
    rw [List.append_assoc]
    exact hscan

theorem leads_literal {cs : List Char} (hne : cs ≠ []) (h : allowsLiteral cs = true) (hk : k ≤ b)
    (htail : LeadsToToken tail) :
    Leads ⟨writeLiteral (spaces (b + indentStep)) cs ++ (spaces k ++ tail), column, b :: blocks,
        tokens, allowsKey⟩
      (atLine (spaces k ++ tail) (b :: blocks) (.scalar .literal (.ofList cs) :: tokens)) := by
  have hprintable : ∀ c ∈ cs, isPrintable c = true := by
    simp only [allowsLiteral, needsEscapes, Bool.and_eq_true, Bool.not_eq_true',
      Bool.or_eq_false_iff, Bool.not_eq_false', List.all_eq_true] at h
    exact h.1.1
  refine leads_line htail (by simp; omega) fun s hs => ?_
  rcases hs.dropKey with ⟨s', hs', hat, -⟩
  have hinner : s'.innerColumn = b + 1 := by simp [Cursor.innerColumn, hat.blocks]
  have hstep : indentStep = 2 := rfl
  have hleast : b + 1 ≤ b + indentStep := by omega
  obtain ⟨m', hm', hscan⟩ := scanBlock_literal (k := k) (by omega) hleast (by omega) htail hne
    hprintable (m := s'.mark.nextLine) rfl
  -- an indentation in the head counts from the block around the scalar
  have hindent : (if (if hidesIndent cs then indentStep else 0) = 0 then 0
      else s'.blocks.headD 0 + if hidesIndent cs then indentStep else 0) =
      if hidesIndent cs then b + indentStep else 0 := by
    rw [hat.blocks]
    cases hidesIndent cs <;> rfl
  refine ⟨s', tail, m', true, hat, ?_, hm' ▸ leadsOver_spaces htail m'.column 0 true⟩
  have hhead := scanHead_marks cs (writeLines (spaces (b + indentStep)) true cs ++ (spaces k ++ tail))
  have hrest : s'.rest.drop 1 = indentMark cs ++ chompMark cs ++
      '\n' :: (writeLines (spaces (b + indentStep)) true cs ++ (spaces k ++ tail)) := by
    rw [hat.rest]
    simp
  -- the scalar is no key, and its lines follow the line of the head
  have hread : s.readToken '|' (s.rest.drop 1) = s.readBlock .literal := by
    simp [Cursor.readToken, atDelimiter, startsDelimiter, Cursor.inFlow, hs.outer]
  rw [hs.rest, List.drop_one, List.tail_cons] at hread
  refine hread.trans ?_
  rw [Cursor.readBlock, hs', Option.bind_eq_bind, Option.bind_some, hrest, hhead]
  have hline : ∀ rest, skipLine? ('\n' :: rest) = some rest := fun rest => rfl
  simp only [Option.bind_eq_bind, Option.bind_some, hline, hindent, hinner, hscan]
  rfl

end Scalar

/-- A written text further to the right than the block around it is read as one scalar. -/
theorem leads_scalar (cs : List Char) {column b : Nat} (hcolumn : b < column) {rest : List Char}
    (hrest : IsLine b rest) (blocks : List Nat) (tokens : List Token) (allowsKey : Bool) :
    Leads ⟨writeScalar b cs ++ rest, column, b :: blocks, tokens, allowsKey⟩
      (atLine rest (b :: blocks) (.scalar (styleOf cs) (.ofList cs) :: tokens)) := by
  rcases hrest with ⟨k, tail, hk, htail, rfl⟩
  -- each style ends its line with a feed
  have hfeed : ∀ body : List Char, body ++ ['\n'] ++ (spaces k ++ tail) =
      body ++ '\n' :: (spaces k ++ tail) := fun body => List.append_assoc ..
  rcases styleOf_cases cs with ⟨hstyle, hreserved, hplain⟩ | ⟨hstyle, hline, hsingle⟩ | hstyle |
    ⟨hstyle, hlines, hliteral⟩ <;> rw [writeScalar, hstyle]
  · show Leads ⟨cs ++ ['\n'] ++ (spaces k ++ tail), _, _, _, _⟩ _
    rw [hfeed]
    exact leads_plain (ne_nil_of_isReserved hreserved) hplain hk hcolumn htail
  · show Leads ⟨'\'' :: (writeSingle (spaces (b + indentStep)) false cs ++ ['\n'] ++
      (spaces k ++ tail)), _, _, _, _⟩ _
    rw [hfeed]
    exact leads_single hline hsingle hcolumn htail (by simp [indentStep])
  · show Leads ⟨'"' :: (cs.flatMap doubleChar ++ ['"'] ++ ['\n'] ++ (spaces k ++ tail)), _, _, _, _⟩ _
    rw [hfeed]
    exact leads_double cs hcolumn htail
  · exact leads_literal (List.ne_nil_of_mem hlines) hliteral hk htail

/-- A key with a text behind it. -/
theorem leads_field {b : Nat} {outer blocks : List Nat} {opened : List Token}
    (hblocks : OpensFor b outer blocks opened) {word : List Char} (hword : IsWord word)
    (cs : List Char) {rest : List Char} (hrest : IsLine b rest) (tokens : List Token) :
    Leads ⟨word ++ ':' :: ' ' :: (writeScalar b cs ++ rest), b, blocks, tokens, true⟩
      (atLine rest (b :: outer) (.scalar (styleOf cs) (.ofList cs) :: .value ::
        .scalar .plain (.ofList word) :: .key :: (opened ++ tokens))) := by
  have hover := leadsOver_spaces (leadsToToken_writeScalar b cs rest) (b + word.length + 1) 1 false
  refine (leads_key hblocks hword (startsGap_space _) hover (Nat.le_succ _) (by omega) tokens).trans ?_
  exact leads_scalar cs (by omega) hrest outer _ false

end Place

end SyntaxTrees.Yaml
