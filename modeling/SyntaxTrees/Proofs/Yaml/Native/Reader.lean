import Mathlib.Data.List.TakeWhile
import SyntaxTrees.Proofs.Yaml.Native.Literal
import SyntaxTrees.Yaml.Native.Token.Reader

/-!
# Tokens of written lines

What the reader of tokens does next, outside of brackets, depends on a `Place`: what is left of the
text, the column, the open blocks and whether a key may start. A place leads to another one if the
reader gets from there to the same tokens (`Place.Leads`). Each kind of written line leads from its
start to the start of the line behind it, and adds the tokens that it spells: a key with a text, a
key above a list, an item.
-/

namespace SyntaxTrees.Yaml

/-! ## Places -/

/-- What matters of a point before a token outside of brackets. -/
structure Place where
  rest : List Char
  column : Nat
  /-- The columns of the open blocks, innermost first. -/
  blocks : List Nat
  /-- The tokens so far, latest first. -/
  tokens : List Token
  allowsKey : Bool

namespace Cursor

/-- The reader has come to a place, and it does not insist on a colon. -/
structure IsAt (s : Cursor) (p : Place) : Prop where
  rest : s.rest = p.rest
  column : s.mark.column = p.column
  blocks : s.blocks = p.blocks
  tokens : s.tokens = p.tokens
  count : s.count = p.tokens.length
  allowsKey : s.allowsKey = p.allowsKey
  outer : s.outer = []
  key : s.key.any (·.required) = false

/-- The point before the next token, where the blocks that do not reach so far are closed. -/
def settled (s : Cursor) : Cursor := s.toToken.closeBlocks (s.toToken.mark.column < ·)

theorem run_of_end {s : Cursor} (h : s.settled.rest = []) (fuel : Nat) :
    run (fuel + 1) s = s.settled.finish := by
  have hrest : (s.toToken.closeBlocks (s.toToken.mark.column < ·)).rest = [] := h
  simp only [run, hrest]
  rfl

theorem run_of_token {s : Cursor} {c : Char} {rest : List Char} (h : s.settled.rest = c :: rest)
    (fuel : Nat) : run (fuel + 1) s = (s.settled.readToken c rest).bind (run fuel) := by
  have hrest : (s.toToken.closeBlocks (s.toToken.mark.column < ·)).rest = c :: rest := h
  simp only [run, hrest]
  cases hread : s.settled.readToken c rest <;> rw [settled] at hread <;> rw [hread] <;> rfl

end Cursor

/-! ## Gaps between tokens -/

/-- Between some column and the next token there are only separators. -/
def LeadsOver (column : Nat) (allowsKey : Bool) (cs : List Char) (column' : Nat) (allowsKey' : Bool)
    (tail : List Char) : Prop :=
  ∀ m : Mark, m.column = column → ∃ m' : Mark, m'.column = column' ∧
    Cursor.skipGap false false allowsKey cs m = (tail, m', allowsKey')

theorem skipGap_token {cs : List Char} (h : LeadsToToken cs) (allowsKey : Bool) (m : Mark) :
    Cursor.skipGap false false allowsKey cs m = (cs, m, allowsKey) := by
  cases cs with
  | nil => rfl
  | cons c cs =>
    rcases h c rfl with ⟨hgap, hcomment, hbom⟩
    rcases isGap_eq_false_iff.mp hgap with ⟨hbreak, hblank⟩
    simp [Cursor.skipGap, hbreak, hblank, hcomment, hbom]

theorem leadsOver_spaces {tail : List Char} (htail : LeadsToToken tail) (column n : Nat)
    (allowsKey : Bool) :
    LeadsOver column allowsKey (spaces n ++ tail) (column + n) allowsKey tail := by
  induction n generalizing column with
  | zero =>
    intro m hm
    exact ⟨m, hm, skipGap_token htail allowsKey m⟩
  | succ n ih =>
    intro m hm
    obtain ⟨m', hm', hskip⟩ := ih (column + 1) (m.after ' ') (by rw [column_after isBreak_space, hm])
    refine ⟨m', by omega, ?_⟩
    rw [← hskip]
    rfl

theorem leadsOver_lineFeed {tail : List Char} (htail : LeadsToToken tail) (column k : Nat)
    (allowsKey : Bool) :
    LeadsOver column allowsKey ('\n' :: (spaces k ++ tail)) k true tail := by
  intro m _
  rcases leadsOver_spaces htail 0 k true (m.after '\n') rfl with ⟨m', hm', hskip⟩
  refine ⟨m', by omega, ?_⟩
  rw [← hskip, Cursor.skipGap, if_pos (by decide)]
  simp

/-- The place before the next token, where the blocks that do not reach so far are closed. -/
def Place.approach (p : Place) (tail : List Char) (column : Nat) (allowsKey : Bool) : Place where
  rest := tail
  column := column
  blocks := p.blocks.dropWhile (column < ·)
  tokens := (p.blocks.takeWhile (column < ·)).map (fun _ => .blockEnd) ++ p.tokens
  allowsKey := allowsKey

/-- No block is closed by a token that lies in the innermost one. -/
theorem Place.approach_of_le {p : Place} {column : Nat} (h : ∀ b ∈ p.blocks.head?, b ≤ column)
    (tail : List Char) (allowsKey : Bool) :
    p.approach tail column allowsKey = { p with rest := tail, column, allowsKey } := by
  rcases p with ⟨rest, start, blocks, tokens, before⟩
  cases blocks with
  | nil => rfl
  | cons b blocks =>
    have hb : ¬ column < b := Nat.not_lt.mpr (h b rfl)
    simp [approach, hb]

theorem Cursor.IsAt.settled {s : Cursor} {p : Place} (h : s.IsAt p) {column : Nat}
    {allowsKey : Bool} {tail : List Char}
    (hgap : LeadsOver p.column p.allowsKey p.rest column allowsKey tail) :
    s.settled.IsAt (p.approach tail column allowsKey) := by
  rcases hgap s.mark h.column with ⟨m', hm', hskip⟩
  -- no flow collection is open, so blocks may be closed by their column
  have hflow : s.inFlow = false := by simp [inFlow, h.outer]
  have htoken : s.toToken = { s with rest := tail, mark := m', allowsKey } := by
    rw [toToken, hflow, h.allowsKey, h.rest, hskip]
  have hsettled : s.settled = Cursor.closeBlocks { s with rest := tail, mark := m', allowsKey }
      (column < ·) := by
    rw [Cursor.settled, htoken]
    simp only [hm']
  rw [hsettled, closeBlocks]
  have hflow' : Cursor.inFlow { s with rest := tail, mark := m', allowsKey } = false := hflow
  rw [hflow', if_neg Bool.false_ne_true]
  refine ⟨rfl, hm', ?_, ?_, ?_, rfl, h.outer, h.key⟩
  · simp [Place.approach, h.blocks]
  · simp [Place.approach, h.blocks, h.tokens]
  · simp [Place.approach, h.blocks, h.count, Nat.add_comm]

/-! ## Going on -/

namespace Place

/-- From the place the reader gets to the given tokens. -/
def Yields (p : Place) (ts : List Token) : Prop :=
  ∀ (s : Cursor) (fuel : Nat), s.settled.IsAt p → p.rest.length < fuel →
    Cursor.run fuel s = some ts

/-- From the place the reader gets to the same tokens as from another one. -/
def Leads (p q : Place) : Prop := ∀ ts, q.Yields ts → p.Yields ts

theorem Leads.refl (p : Place) : p.Leads p := fun _ h => h

theorem Leads.trans {p q r : Place} (hpq : p.Leads q) (hqr : q.Leads r) : p.Leads r :=
  fun ts h => hpq ts (hqr ts h)

/-- One token is read. -/
theorem leads_of_readToken {p q : Place} {c : Char} {rest : List Char} (hrest : p.rest = c :: rest)
    (hlength : q.rest.length ≤ rest.length)
    (hread : ∀ s : Cursor, s.IsAt p → ∃ s', s.readToken c rest = some s' ∧ s'.settled.IsAt q) :
    p.Leads q := by
  intro ts hq s fuel hs hfuel
  rcases hread s.settled hs with ⟨s', hs', hat⟩
  cases fuel with
  | zero => cases hfuel
  | succ fuel =>
    rw [hrest, List.length_cons] at hfuel
    rw [Cursor.run_of_token (hs.rest.trans hrest), hs', Option.bind_some]
    exact hq s' fuel hat (by omega)

/-- At the end of the text all blocks end. -/
theorem yields_end (p : Place) (hrest : p.rest = []) :
    p.Yields (p.tokens.reverse ++ p.blocks.map fun _ => .blockEnd) := by
  intro s fuel hs hfuel
  cases fuel with
  | zero => cases hfuel
  | succ fuel =>
    have hflow : s.settled.inFlow = false := by simp [Cursor.inFlow, hs.outer]
    have hall : p.blocks.takeWhile (fun _ => true) = p.blocks :=
      List.takeWhile_eq_self_iff.mpr fun _ _ => rfl
    rw [Cursor.run_of_end (hs.rest.trans hrest)]
    simp [Cursor.finish, Cursor.closeBlocks, hflow, Cursor.dropKey, hs.key, hs.tokens, hs.blocks,
      hall, List.map_const']

/-! ## Items -/

/-- A hyphen in the column of the innermost block is read as the start of an item. -/
theorem leads_item {column : Nat} {blocks : List Nat} {tokens : List Token} {tail : List Char}
    (htail : LeadsToToken tail) :
    Leads ⟨'-' :: ' ' :: tail, column, column :: blocks, tokens, true⟩
      ⟨tail, column + 2, column :: blocks, .item :: tokens, true⟩ := by
  refine leads_of_readToken rfl (Nat.le_succ _) fun s hs => ?_
  -- the item stands in the list's own column: no block opens
  have hopen : s.opensBlock s.mark.column = false := by
    simp [Cursor.opensBlock, Cursor.innerColumn, hs.blocks, hs.column]
  refine ⟨{ ({ s with key := none }.skip 1).push .item with allowsKey := true }, ?_, ?_⟩
  · -- the hyphen, then the space behind it
    simp [Cursor.readToken, atDelimiter, startsDelimiter, startsGap_space, Cursor.readItem,
      hs.allowsKey, Cursor.openBlock, hopen, Cursor.dropKey, hs.key]
  · have hat : Cursor.IsAt { ({ s with key := none }.skip 1).push .item with allowsKey := true }
        ⟨' ' :: tail, column + 1, column :: blocks, .item :: tokens, true⟩ := by
      constructor <;> simp [Cursor.push, Cursor.skip, Mark.right, hs.rest, hs.column, hs.blocks,
        hs.tokens, hs.count, hs.outer]
    have hsettled := hat.settled (leadsOver_spaces htail (column + 1) 1 true)
    -- nothing is closed, for the line goes on to the right
    rwa [approach_of_le (by simp; omega)] at hsettled

end Place

/-! ## Keys -/

theorem startsWord_of_isLower {c : Char} (h : c.isLower = true) :
    (isGap c = false ∧ isLeadIndicator c = false) ∧
      (c ≠ '-' ∧ c ≠ '.' ∧ c ≠ '?' ∧ c ≠ ':') ∧ c.utf8Size = 1 := by
  have hall : ∀ n : Fin 26, (isGap (.ofNat (97 + n)) = false ∧
      isLeadIndicator (.ofNat (97 + n)) = false) ∧
      (Char.ofNat (97 + n) ≠ '-' ∧ Char.ofNat (97 + n) ≠ '.' ∧ Char.ofNat (97 + n) ≠ '?' ∧
        Char.ofNat (97 + n) ≠ ':') ∧ (Char.ofNat (97 + n)).utf8Size = 1 := by decide
  have hrange : 97 ≤ c.toNat ∧ c.toNat ≤ 122 := by
    have hbounds : (decide (97 ≤ c.val) && decide (c.val ≤ 122)) = true := h
    simpa [UInt32.le_iff_toNat_le] using hbounds
  have hc := hall ⟨c.toNat - 97, by omega⟩
  rwa [show 97 + (c.toNat - 97) = c.toNat by omega, Char.ofNat_toNat] at hc

structure IsWord (word : List Char) : Prop where
  ne_nil : word ≠ []
  letters : word.all Char.isLower = true
  short : word.length ≤ maxKeyLength

theorem IsWord.isLower {word : List Char} (h : IsWord word) : ∀ c ∈ word, c.isLower = true :=
  List.all_eq_true.mp h.letters

theorem scanPlain_word {rest : List Char} (hrest : startsGap rest = true) {word : List Char}
    (hword : ∀ c ∈ word, c.isLower = true) (indent : Nat) (m : Mark) (kept : List Char) :
    scanPlain false indent (word ++ ':' :: rest) m .none kept =
      some ⟨(.ofList (kept.reverse ++ word), false), m.right word.length, ':' :: rest⟩ := by
  induction word generalizing m kept with
  -- the colon ends the word
  | nil =>
    have hcolon : endsPlain false ':' rest = true := by simp [endsPlain, hrest]
    rw [List.nil_append, scanPlain, if_neg (by decide)]
    simp [isBadColon, hcolon, Gap.hasBreak, Mark.right]
  -- a small letter is neither a gap nor a mark
  | cons c word ih =>
    obtain ⟨⟨hgap, -⟩, ⟨-, -, -, hcolon⟩, hsize⟩ :=
      startsWord_of_isLower (hword c List.mem_cons_self)
    have hbreak := (isGap_eq_false_iff.mp hgap).1
    have hafter : m.after c = m.right 1 := by rw [Mark.after, hbreak, hsize]; rfl
    have hends : endsPlain false c (word ++ ':' :: rest) = false := by simp [endsPlain, hcolon]
    rw [List.cons_append, scanPlain, hgap, hends, hafter]
    simp only [isBadColon, Bool.false_and, Bool.false_eq_true, if_false, ne_eq, not_true_eq_false,
      decide_false, Gap.onto]
    rw [ih fun d hd => hword d (List.mem_cons_of_mem _ hd)]
    simp [Mark.right, Nat.add_comm, Nat.add_left_comm]

/-- A character that may start a bare text starts a plain scalar. -/
theorem Cursor.readToken_plain {s : Cursor} (houter : s.outer = []) {c : Char} {rest : List Char}
    (h : StartsBare c rest) (hdelimiter : atDelimiter s.mark (c :: rest) = false) :
    s.readToken c rest = s.readPlain := by
  rcases h with ⟨hgap, hlead, hmark⟩
  have hflow : s.inFlow = false := by simp [inFlow, houter]
  simp only [isLeadIndicator, List.contains_eq_mem, decide_eq_false_iff_not, List.mem_cons,
    List.not_mem_nil, or_false, not_or] at hlead
  have hstarts : s.startsPlain c rest = true := by
    rw [startsPlain, hflow, hgap]
    split_ifs with hhyphen hcolon
    · have hrest := hmark (Or.inr (Or.inr hhyphen))
      cases rest with
      | nil => rfl
      | cons d rest => simpa using (Bool.or_eq_false_iff.mp hrest).1
    · simp only [Bool.or_eq_true, decide_eq_true_eq] at hcolon
      rw [hmark (hcolon.imp_right Or.inl)]
      rfl
    · simp [isFlowIndicator, hlead]
  -- what could be an indicator is followed by a character that makes it part of a word
  have hmarks : ∀ d, d = '?' ∨ d = ':' ∨ d = '-' → (decide (c = d) && startsGap rest) = false := by
    intro d hd
    by_cases hc : c = d
    · rw [hmark (hc ▸ hd), Bool.and_false]
    · simp [hc]
  have hquestion := hmarks '?' (by simp)
  have hcolon := hmarks ':' (by simp)
  have hhyphen := hmarks '-' (by simp)
  simp [readToken, hdelimiter, hlead, hquestion, hcolon, hhyphen, hflow, hstarts]

namespace Cursor

/-- The point before a colon, where the token before it started at some mark and is so long. -/
def beforeColon (t : Token) (m : Mark) (length : Nat) (rest : List Char) (blocks : List Nat)
    (tokens : List Token) (required : Bool) : Cursor where
  rest := ':' :: rest
  mark := m.right length
  tokens := t :: tokens
  count := tokens.length + 1
  blocks := blocks
  key := some ⟨tokens.length, m, required⟩
  allowsKey := false

/-- A word before a colon is read as a text that may be a key. -/
theorem IsAt.readToken_word {s : Cursor} {column : Nat} {blocks : List Nat} {tokens : List Token}
    {c : Char} {word rest : List Char}
    (h : s.IsAt ⟨c :: word ++ ':' :: rest, column, blocks, tokens, true⟩)
    (hword : ∀ d ∈ c :: word, d.isLower = true) (hrest : startsGap rest = true) :
    ∃ required, s.readToken c (word ++ ':' :: rest) =
      some (beforeColon (.scalar .plain (.ofList (c :: word))) s.mark (c :: word).length rest blocks
        tokens required) := by
  obtain ⟨⟨hgap, hlead⟩, ⟨hhyphen, hpoint, hquestion, hcolon⟩, -⟩ :=
    startsWord_of_isLower (hword c List.mem_cons_self)
  -- the word is no mark of a document and may open a scalar
  have hdelimiter : atDelimiter s.mark (c :: (word ++ ':' :: rest)) = false := by
    simp [atDelimiter, startsDelimiter, hhyphen, hpoint]
  have hstarts : StartsBare c (word ++ ':' :: rest) :=
    ⟨hgap, hlead, fun hc => by simp [hhyphen, hquestion, hcolon] at hc⟩
  have hflow : s.inFlow = false := by simp [inFlow, h.outer]
  refine ⟨s.blocks.head? == some s.mark.column, ?_⟩
  rw [readToken_plain h.outer hstarts hdelimiter, readPlain, markKey, h.allowsKey, if_pos rfl,
    dropKey, h.key]
  -- and it ends before the colon, where a key is waited for
  have hscan := fun indent => scanPlain_word hrest hword indent s.mark []
  rw [List.cons_append] at hscan
  simp [inFlow, h.outer, h.rest, h.tokens, h.count, h.blocks, jump, push, hscan, beforeColon]

/-- Nothing changes before a token if there is nothing between, and no block ends. -/
theorem settled_eq_self {s : Cursor} (houter : s.outer = []) (hrest : LeadsToToken s.rest)
    (hblocks : ∀ b ∈ s.blocks.head?, b ≤ s.mark.column) : s.settled = s := by
  have hflow : s.inFlow = false := by simp [inFlow, houter]
  have htoken : s.toToken = s := by
    rw [toToken, hflow, skipGap_token hrest]
  rw [settled, htoken, closeBlocks, hflow, if_neg Bool.false_ne_true]
  rcases s with ⟨rest, mark, tokens, count, blocks, key, outer, allowsKey⟩
  cases blocks with
  | nil => rfl
  | cons b blocks =>
    have hb : ¬ mark.column < b := Nat.not_lt.mpr (hblocks b rfl)
    simp [hb]

end Cursor

namespace Place

/-- A key in some column belongs to the innermost block if that starts there; further to the right it
opens one. -/
inductive OpensFor (column : Nat) (outer : List Nat) : (blocks : List Nat) → (opened : List Token) →
    Prop where
  | goesOn : OpensFor column outer (column :: outer) []
  | opens (h : ∀ b ∈ outer.head?, b < column) : OpensFor column outer outer [.blockMapping]

theorem OpensFor.le {column : Nat} {outer blocks : List Nat} {opened : List Token}
    (h : OpensFor column outer blocks opened) : ∀ b ∈ blocks.head?, b ≤ column := by
  cases h with
  | goesOn => simp
  | opens h => exact fun b hb => Nat.le_of_lt (h b hb)

theorem OpensFor.opensBlock_eq {column : Nat} {outer blocks : List Nat} {opened : List Token}
    (h : OpensFor column outer blocks opened) {s : Cursor} (houter : s.outer = [])
    (hs : s.blocks = blocks) : s.opensBlock column = !opened.isEmpty := by
  cases h with
  | goesOn => simp [Cursor.opensBlock, Cursor.innerColumn, hs]
  | opens h =>
    have hinner : s.innerColumn ≤ column := by
      cases outer with
      | nil => simp [Cursor.innerColumn, hs]
      | cons b outer => simpa [Cursor.innerColumn, hs] using Nat.succ_le_of_lt (h b rfl)
    simp [Cursor.opensBlock, Cursor.inFlow, houter, hinner]

/-- A colon makes a key of the token before it. -/
theorem readToken_colon {m : Mark} {outer blocks : List Nat} {opened : List Token}
    (hblocks : OpensFor m.column outer blocks opened) {rest : List Char}
    (hrest : startsGap rest = true) {n : Nat} (hn : n ≤ maxKeyLength) (t : Token)
    (tokens : List Token) (required : Bool) :
    ∃ s', (Cursor.beforeColon t m n rest blocks tokens required).readToken ':' rest = some s' ∧
      s'.IsAt ⟨rest, m.column + n + 1, m.column :: outer, .value :: t :: .key :: (opened ++ tokens),
        false⟩ := by
  have hreaches : KeyPlace.reaches ⟨tokens.length, m, required⟩ (m.right n) = true := by
    simp [KeyPlace.reaches, Mark.right, hn]
  refine ⟨(Cursor.beforeColon t m n rest blocks tokens required).readValueOf
    ⟨tokens.length, m, required⟩, ?_, ?_⟩
  · simp [Cursor.readToken, atDelimiter, startsDelimiter, hrest, Cursor.readValue, hreaches,
      Cursor.beforeColon]
  · have hopens := fun s => hblocks.opensBlock_eq (s := s)
    -- the token for the block goes before those for the key and its text
    have htwo : tokens.length + 1 + 1 - tokens.length = 2 := by omega
    cases hblocks with
    | goesOn =>
      constructor <;> simp [Cursor.beforeColon, Cursor.readValueOf, Cursor.insert, Cursor.openBlock,
        hopens, Cursor.push, Cursor.skip, Mark.right]
    | opens h =>
      constructor <;> simp [Cursor.beforeColon, Cursor.readValueOf, Cursor.insert, Cursor.openBlock,
        hopens, Cursor.push, Cursor.skip, Mark.right, htwo]

/-- A word and a colon in the column of the innermost block, or further to the right, are read as a
key. -/
theorem leads_key {column : Nat} {outer blocks : List Nat} {opened : List Token}
    (hblocks : OpensFor column outer blocks opened) {word rest : List Char} (hword : IsWord word)
    (hrest : startsGap rest = true) {column' : Nat} {allowsKey : Bool} {tail : List Char}
    (htail : LeadsOver (column + word.length + 1) false rest column' allowsKey tail)
    (hlength : tail.length ≤ rest.length) (hcolumn : column ≤ column') (tokens : List Token) :
    Leads ⟨word ++ ':' :: rest, column, blocks, tokens, true⟩
      ⟨tail, column', column :: outer,
        .value :: .scalar .plain (.ofList word) :: .key :: (opened ++ tokens), allowsKey⟩ := by
  intro ts hq s fuel hs hfuel
  rcases List.exists_cons_of_ne_nil hword.ne_nil with ⟨c, word, rfl⟩
  -- first the word is read, as a text that may be a key
  rcases hs.readToken_word hword.isLower hrest with ⟨required, hread⟩
  have hmark : s.settled.mark.column = column := hs.column
  subst hmark
  -- then the colon makes a key of it, and nothing lies between the two
  obtain ⟨s', hcolon, hat⟩ := readToken_colon hblocks hrest hword.short
    (.scalar .plain (.ofList (c :: word))) tokens required
  have hstays := Cursor.settled_eq_self (s := Cursor.beforeColon (.scalar .plain (.ofList (c :: word)))
    s.settled.mark (c :: word).length rest blocks tokens required) rfl
    (fun d hd => by cases hd; decide) (fun b hb => Nat.le_add_right_of_le (hblocks.le b hb))
  obtain ⟨fuel, rfl⟩ : ∃ n, fuel = n + 2 := ⟨fuel - 2, by simp at hfuel; omega⟩
  have hnext := hq s' fuel (by
    have hsettled := hat.settled htail
    rwa [approach_of_le (by simpa using hcolumn)] at hsettled) (by simp at hfuel ⊢; omega)
  calc Cursor.run (fuel + 2) s
    _ = (s.settled.readToken c (word ++ ':' :: rest)).bind (Cursor.run (fuel + 1)) := by
        exact Cursor.run_of_token hs.rest _
    _ = Cursor.run (fuel + 1) _ := by rw [hread, Option.bind_some]
    _ = (Cursor.readToken _ ':' rest).bind (Cursor.run fuel) := by
        rw [Cursor.run_of_token (by rw [hstays]; rfl), hstays]
    _ = Cursor.run fuel s' := by rw [hcolon, Option.bind_some]
    _ = some ts := hnext

end Place

end SyntaxTrees.Yaml
